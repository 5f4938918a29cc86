import NeuralEngine.Scheduler.Slot
import NeuralEngine.Scheduler.Transaction

/-!
# The stages of a slot

In each state, the fields of a slot are tied to the transaction that it holds. `Slot.Stage` lists
what a slot can look like for the transactions `work`; one lemma for each state says what is known
of a slot in that state.
-/

namespace NeuralEngine

/-- The transaction can run: it is fresh, has inputs and room for outputs, and an open can announce
its expected outputs. -/
structure Transaction.Ready (x : Transaction) : Prop where
  reset_eq : x.reset = x
  inputs_pos : 0 < x.inputCount
  outputs_pos : 0 < x.outputCount
  few : x.trainOutputs < 2 ^ 16

namespace Transaction

variable {x y : Transaction}

theorem Ready.outputs_eq (h : x.Ready) : x.outputs = #[] := by
  rw [← h.reset_eq, reset]

theorem Ready.tid_eq (h : x.Ready) : x.tid = none := by
  rw [← h.reset_eq, reset]

theorem Ready.trainOutputs_lt (h : x.Ready) : x.trainOutputs < x.stream.size := by
  have hpos := h.inputs_pos
  unfold inputCount at hpos
  omega

@[simp] theorem outputs_addOutput (x : Transaction) (value : Element) :
    (x.addOutput value).outputs = x.outputs.push value :=
  rfl

@[simp] theorem tid_addOutput (x : Transaction) (value : Element) : (x.addOutput value).tid = x.tid :=
  rfl

theorem stream_of_reset (h : x.reset = y) : x.stream = y.stream := by
  subst h
  rfl

theorem registers_of_reset (h : x.reset = y) : x.registers = y.registers := by
  subst h
  rfl

theorem outputCount_of_reset (h : x.reset = y) : x.outputCount = y.outputCount := by
  subst h
  rfl

theorem trainOutputs_of_reset (h : x.reset = y) : x.trainOutputs = y.trainOutputs := by
  subst h
  rfl

theorem isComplete_iff (x : Transaction) : x.isComplete = true ↔ x.outputs.size = x.outputCount := by
  simp [isComplete]

end Transaction

namespace Slot

variable {m : Nat}

/-- The slot of a transaction that is written: some registers, then some elements, were taken. -/
def writing (t : Fin m) (tid : Tid) (registersWritten cursor : Nat) : Slot (Fin m) :=
  { state := .write, transaction := some t, tid := some tid, registersWritten, cursor }

/-- The slot of a transaction whose registers and elements were all taken. -/
def fed (x : Transaction) (t : Fin m) (tid : Tid) (state : SlotState) (readsIssued : Nat) : Slot (Fin m) where
  state := state
  transaction := some t
  tid := some tid
  registersWritten := x.registers.length
  cursor := x.stream.size
  readsIssued := readsIssued

/-- What a slot can look like. -/
inductive Stage (work : Vector Transaction m) : Slot (Fin m) → Prop where
  | unused : Stage work empty
  | newWrite (t : Fin m) : Stage work (holding t)
  | newWriteWait (t : Fin m) : Stage work ((holding t).transition .newWriteWait)
  | write (t : Fin m) (tid : Tid) (registersWritten cursor : Nat)
      (registers_le : registersWritten ≤ work[t].registers.length)
      (cursor_lt : cursor < work[t].stream.size)
      (order : 0 < cursor → registersWritten = work[t].registers.length) :
      Stage work (writing t tid registersWritten cursor)
  | executing (t : Fin m) (tid : Tid) : Stage work (fed work[t] t tid .executing 0)
  | read (t : Fin m) (tid : Tid) (reads : Nat) (reads_lt : reads < work[t].outputCount) :
      Stage work (fed work[t] t tid .read reads)
  | readWait (t : Fin m) (tid : Tid) : Stage work (fed work[t] t tid .readWait work[t].outputCount)

namespace Stage

variable {work : Vector Transaction m} {s : Slot (Fin m)}

theorem of_unused (h : Stage work s) (hs : s.state = .unused) : s = empty := by
  cases h <;> first | rfl | cases hs

theorem of_newWrite (h : Stage work s) (hs : s.state = .newWrite) : ∃ t, s = holding t := by
  cases h <;> first | exact ⟨_, rfl⟩ | cases hs

theorem of_newWriteWait (h : Stage work s) (hs : s.state = .newWriteWait) :
    ∃ t, s = (holding t).transition .newWriteWait := by
  cases h <;> first | exact ⟨_, rfl⟩ | cases hs

theorem of_write (h : Stage work s) (hs : s.state = .write) :
    ∃ t tid registersWritten cursor, s = writing t tid registersWritten cursor ∧
      registersWritten ≤ work[t].registers.length ∧ cursor < work[t].stream.size ∧
      (0 < cursor → registersWritten = work[t].registers.length) := by
  cases h
  case write t tid registersWritten cursor hr hc ho => exact ⟨t, tid, _, _, rfl, hr, hc, ho⟩
  all_goals cases hs

theorem of_executing (h : Stage work s) (hs : s.state = .executing) :
    ∃ t tid, s = fed work[t] t tid .executing 0 := by
  cases h
  case executing t tid => exact ⟨t, tid, rfl⟩
  all_goals cases hs

theorem of_read (h : Stage work s) (hs : s.state = .read) :
    ∃ t tid reads, s = fed work[t] t tid .read reads ∧ reads < work[t].outputCount := by
  cases h
  case read t tid reads hr => exact ⟨t, tid, reads, rfl, hr⟩
  all_goals cases hs

theorem of_readWait (h : Stage work s) (hs : s.state = .readWait) :
    ∃ t tid, s = fed work[t] t tid .readWait work[t].outputCount := by
  cases h
  case readWait t tid => exact ⟨t, tid, rfl⟩
  all_goals cases hs

theorem transaction_isSome (h : Stage work s) (hs : s.state ≠ .unused) : ∃ t, s.transaction = some t := by
  cases h
  case unused => exact absurd rfl hs
  all_goals exact ⟨_, rfl⟩

theorem transaction_eq_none_iff (h : Stage work s) : s.transaction = none ↔ s.state = .unused := by
  cases h <;> simp [empty, holding, transition, writing, fed]

/-- A slot has an identifier from its first register write on. -/
theorem tid_isSome_iff (h : Stage work s) :
    (∃ tid, s.tid = some tid) ↔
      s.state = .write ∨ s.state = .executing ∨ s.state = .read ∨ s.state = .readWait := by
  cases h <;> simp [empty, holding, transition, writing, fed]

theorem tid_eq_none_iff (h : Stage work s) :
    s.tid = none ↔ s.state = .unused ∨ s.state = .newWrite ∨ s.state = .newWriteWait := by
  cases h <;> simp [empty, holding, transition, writing, fed]

end Stage

end Slot

end NeuralEngine
