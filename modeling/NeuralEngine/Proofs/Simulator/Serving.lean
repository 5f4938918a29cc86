import NeuralEngine.Proofs.Scheduler.Stage
import NeuralEngine.Proofs.Simulator.Rows
import NeuralEngine.Simulator.Basic

/-!
# Entries that serve a transaction

An entry of the table serves a transaction of a batch: it has taken or holds back the elements that
were accepted so far, and once it is done it holds the outputs that were not read yet. What an entry
does in a step on its own leaves this as it is, so a step of the simulator does too (`kept_tick`).
-/

namespace NeuralEngine

namespace Transaction

/-- The elements of the stream that are inputs of the network; the expected outputs come first. -/
def inputs (x : Transaction) : List Element :=
  x.stream.toList.drop x.trainOutputs

/-- The outputs that the simulated network has for the transaction. -/
def expected (x : Transaction) : List Element :=
  Simulator.expectedOutputs x.inputs x.outputCount

@[simp] theorem length_expected (x : Transaction) : x.expected.length = x.outputCount := by
  simp [expected, Simulator.expectedOutputs]

@[simp] theorem expected_reset (x : Transaction) : x.reset.expected = x.expected :=
  rfl

end Transaction

namespace Simulator

namespace Entry

/-- The entry serves transaction `x`: `fed` elements of its stream were accepted, and `reads` of its
outputs were read. -/
structure Serves (x : Transaction) (fed reads : Nat) (e : Entry) : Prop where
  mode_eq : e.mode = x.mode
  trainOutputs_eq : e.trainOutputs = x.trainOutputs
  outputCount_eq : e.outputCount = x.outputCount
  elements : e.consumed ++ e.queue = x.stream.toList.take fed
  lastSeen_eq : e.lastSeen = (fed == x.stream.size)
  /-- The network runs on the whole stream. -/
  ran : e.phase ≠ .writing → e.queue = [] ∧ e.lastSeen = true
  unread : e.phase ≠ .done → reads = 0
  outputs : e.phase = .done → e.outputs = x.expected.drop reads

namespace Serves

variable {x : Transaction} {fed reads : Nat} {e : Entry}

/-- The intake takes the oldest element. -/
theorem taken (h : e.Serves x fed reads) {value : Element} {queue : List Element}
    (hq : e.queue = value :: queue) :
    Serves x fed reads { e with queue := queue, taken := value :: e.taken } where
  mode_eq := h.mode_eq
  trainOutputs_eq := h.trainOutputs_eq
  outputCount_eq := h.outputCount_eq
  elements := by
    have helements := h.elements
    rw [hq] at helements
    simpa [consumed] using helements
  lastSeen_eq := h.lastSeen_eq
  ran hp := by
    have hempty := (h.ran hp).1
    rw [hq] at hempty
    cases hempty
  unread := h.unread
  outputs := h.outputs

theorem consumed_eq (h : e.Serves x fed reads) (hq : e.queue = []) (hl : e.lastSeen = true) :
    e.consumed = x.stream.toList := by
  have hfed : fed = x.stream.size := by
    have hlast := h.lastSeen_eq
    rw [hl] at hlast
    simpa using hlast.symm
  have helements := h.elements
  rw [hq, List.append_nil, hfed, List.take_of_length_le (Nat.le_of_eq Array.length_toList)] at helements
  exact helements

/-- The inputs of the network are those of the transaction once the whole stream was taken. -/
theorem inputs_eq (h : e.Serves x fed reads) (hq : e.queue = []) (hl : e.lastSeen = true) :
    e.inputs = x.inputs := by
  have hconsumed := h.consumed_eq hq hl
  have hmode := h.mode_eq
  have htrain := h.trainOutputs_eq
  unfold inputs Transaction.inputs
  cases hm : e.mode with
  | trainIncremental => rw [hconsumed, htrain]
  | feedforward =>
    have hzero := x.trainOutputs_eq_zero (by rw [← hmode, hm]; simp)
    rw [hconsumed, hzero, List.drop_zero]
  | trainBatch =>
    have hzero := x.trainOutputs_eq_zero (by rw [← hmode, hm]; simp)
    rw [hconsumed, hzero, List.drop_zero]

/-- The phase advances. -/
theorem advance (h : e.Serves x fed reads) (latency : Nat) : (e.advance latency).Serves x fed reads := by
  unfold Entry.advance
  cases hp : e.phase with
  | writing =>
    have hreads : reads = 0 := h.unread (by rw [hp]; simp)
    by_cases hlast : (e.lastSeen && e.queue.isEmpty) = true
    · have hfull : e.queue = [] ∧ e.lastSeen = true := by
        rw [Bool.and_eq_true] at hlast
        exact ⟨List.isEmpty_iff.1 hlast.2, hlast.1⟩
      simp only [if_pos hlast]
      exact ⟨h.mode_eq, h.trainOutputs_eq, h.outputCount_eq, h.elements, h.lastSeen_eq,
        fun _ => hfull, fun _ => hreads, Phase.noConfusion⟩
    · simp only [if_neg hlast]
      exact h
  | executing left =>
    have hreads : reads = 0 := h.unread (by rw [hp]; simp)
    obtain ⟨hqueue, hlast⟩ := h.ran (by rw [hp]; simp)
    cases left with
    | zero =>
      refine ⟨h.mode_eq, h.trainOutputs_eq, h.outputCount_eq, h.elements, h.lastSeen_eq,
        fun _ => ⟨hqueue, hlast⟩, fun _ => hreads, fun _ => ?_⟩
      show expectedOutputs e.inputs e.outputCount = _
      rw [h.inputs_eq hqueue hlast, h.outputCount_eq, hreads, List.drop_zero, Transaction.expected]
    | succ left =>
      exact ⟨h.mode_eq, h.trainOutputs_eq, h.outputCount_eq, h.elements, h.lastSeen_eq,
        fun _ => ⟨hqueue, hlast⟩, fun _ => hreads, Phase.noConfusion⟩
  | done => exact h

/-- An entry that was just opened serves its transaction. -/
theorem fresh {y : Transaction} (hmode : e.mode = y.mode) (htrain : e.trainOutputs = y.trainOutputs)
    (hcount : e.outputCount = y.outputCount) (hqueue : e.queue = []) (htaken : e.taken = [])
    (hlast : e.lastSeen = false) (hphase : e.phase = .writing) (hpos : 0 < y.stream.size) :
    e.Serves y 0 0 where
  mode_eq := hmode
  trainOutputs_eq := htrain
  outputCount_eq := hcount
  elements := by simp [consumed, hqueue, htaken]
  lastSeen_eq := by
    rw [hlast]
    have hne : 0 ≠ y.stream.size := by omega
    exact (beq_eq_false_iff_ne.2 hne).symm
  ran hp := absurd hphase hp
  unread _ := rfl
  outputs hp := by
    rw [hphase] at hp
    cases hp

/-- An entry takes elements until it has the last one. -/
theorem isWritable (h : e.Serves x fed reads) (hfed : fed < x.stream.size) : e.isWritable = true := by
  have hlast : e.lastSeen = false := by
    rw [h.lastSeen_eq]
    exact beq_eq_false_iff_ne.2 (by omega)
  have hphase : e.phase = .writing := by
    apply Decidable.byContradiction
    intro hp
    have htrue := (h.ran hp).2
    rw [hlast] at htrue
    cases htrue
  simp [Entry.isWritable, hphase, hlast]

/-- A register is written. -/
theorem registers (h : e.Serves x fed reads) (registers : Registers) :
    Serves x fed reads { e with registers := registers } :=
  ⟨h.mode_eq, h.trainOutputs_eq, h.outputCount_eq, h.elements, h.lastSeen_eq, h.ran, h.unread, h.outputs⟩

/-- The next element is accepted. -/
theorem accept (h : e.Serves x fed reads) {value : Element} (hvalue : x.stream[fed]? = some value) :
    Serves x (fed + 1) reads
      { e with queue := e.queue ++ [value], lastSeen := fed + 1 == x.stream.size } := by
  have hlt : fed < x.stream.size := (Array.getElem?_eq_some_iff.1 hvalue).1
  have hwriting : e.phase = .writing := by
    have hw := h.isWritable hlt
    simp only [Entry.isWritable, Bool.and_eq_true, beq_iff_eq] at hw
    exact hw.1
  refine ⟨h.mode_eq, h.trainOutputs_eq, h.outputCount_eq, ?_, rfl, fun hp => absurd hwriting hp,
    h.unread, h.outputs⟩
  show e.consumed ++ (e.queue ++ [value]) = _
  have hget : x.stream.toList[fed]? = some value := by simpa using hvalue
  rw [← List.append_assoc, h.elements, List.take_add_one, hget, Option.toList_some]

/-- The next output is read. -/
theorem read (h : e.Serves x fed reads) {rest : List Element} {value : Element}
    (hphase : e.phase = .done) (houtputs : e.outputs = value :: rest) :
    Serves x fed (reads + 1) { e with outputs := rest } := by
  refine ⟨h.mode_eq, h.trainOutputs_eq, h.outputCount_eq, h.elements, h.lastSeen_eq, h.ran,
    fun hp => absurd hphase hp, fun _ => ?_⟩
  have hall := h.outputs hphase
  rw [houtputs] at hall
  rw [← List.drop_drop, ← hall]
  rfl

end Serves

/-- The later entry stands where the earlier one did and serves whatever that one served. -/
structure Kept (e e' : Entry) : Prop where
  tid_eq : e.tid = e'.tid
  serves : ∀ {x : Transaction} {fed reads : Nat}, e.Serves x fed reads → e'.Serves x fed reads

theorem Kept.refl (e : Entry) : Kept e e :=
  ⟨rfl, id⟩

theorem Kept.trans {e e' e'' : Entry} (h : Kept e e') (h' : Kept e' e'') : Kept e e'' :=
  ⟨h.tid_eq.trans h'.tid_eq, fun hs => h'.serves (h.serves hs)⟩

theorem tid_advance (latency : Nat) (e : Entry) : (e.advance latency).tid = e.tid := by
  unfold Entry.advance
  split
  · split <;> rfl
  · rfl
  · rfl
  · rfl

theorem kept_advance (latency : Nat) (e : Entry) : Kept e (e.advance latency) :=
  ⟨(tid_advance latency e).symm, fun h => h.advance latency⟩

end Entry

variable {s s' s'' : Simulator} {x : Transaction} {tid : Tid} {fed reads : Nat}

/-- The simulator serves transaction `x` under an identifier. The entry is gone once every output
was read. -/
def Serves (s : Simulator) (x : Transaction) (tid : Tid) (fed reads : Nat) : Prop :=
  if reads < x.outputCount then ∃ e, s.find? tid = some e ∧ e.Serves x fed reads
  else s.find? tid = none

theorem Serves.entry (h : s.Serves x tid fed reads) (hreads : reads < x.outputCount) :
    ∃ e, s.find? tid = some e ∧ e.Serves x fed reads := by
  unfold Serves at h
  rwa [if_pos hreads] at h

theorem serves_of_entry (hreads : reads < x.outputCount) {e : Entry} (he : s.find? tid = some e)
    (h : e.Serves x fed reads) : s.Serves x tid fed reads := by
  unfold Serves
  rw [if_pos hreads]
  exact ⟨e, he, h⟩

/-- The entry found under an identifier, if any, is kept. -/
def Kept (s s' : Simulator) (tid : Tid) : Prop :=
  Option.Rel Entry.Kept (s.find? tid) (s'.find? tid)

theorem Kept.of_eq (h : s'.find? tid = s.find? tid) : Kept s s' tid := by
  unfold Kept
  rw [h]
  cases s.find? tid with
  | none => exact .none
  | some e => exact .some (.refl e)

theorem Kept.trans (h : Kept s s' tid) (h' : Kept s' s'' tid) : Kept s s'' tid := by
  unfold Kept at *
  generalize s.find? tid = a, s'.find? tid = b, s''.find? tid = c at *
  cases h with
  | none => exact h'
  | some he =>
    cases h' with
    | some he' => exact .some (he.trans he')

theorem Kept.find?_eq_none_iff (h : Kept s s' tid) : s'.find? tid = none ↔ s.find? tid = none := by
  unfold Kept at h
  generalize s.find? tid = a, s'.find? tid = b at *
  cases h <;> simp

theorem Kept.entry (h : Kept s s' tid) {e : Entry} (he : s.find? tid = some e) :
    ∃ e', s'.find? tid = some e' ∧ Entry.Kept e e' := by
  unfold Kept at h
  rw [he] at h
  generalize s'.find? tid = b at *
  cases h with
  | some hk => exact ⟨_, rfl, hk⟩

theorem Kept.serves (h : Kept s s' tid) (hs : s.Serves x tid fed reads) : s'.Serves x tid fed reads := by
  by_cases hreads : reads < x.outputCount
  · obtain ⟨e, he, hserves⟩ := hs.entry hreads
    obtain ⟨e', he', hkept⟩ := h.entry he
    exact serves_of_entry hreads he' (hkept.serves hserves)
  · unfold Serves at hs ⊢
    rw [if_neg hreads] at hs ⊢
    exact h.find?_eq_none_iff.2 hs

/-- The identifiers of the transactions held. -/
def tids (s : Simulator) : List Tid :=
  Rows.tids s.rows

theorem tids_eq_nil_iff (s : Simulator) : s.tids = [] ↔ s.entries = [] :=
  List.map_eq_nil_iff

theorem Kept.mem_tids_iff (h : Kept s s' tid) : tid ∈ s'.tids ↔ tid ∈ s.tids := by
  have hnone := h.find?_eq_none_iff
  unfold find? at hnone
  rw [Rows.find?_eq_none_iff, Rows.find?_eq_none_iff] at hnone
  exact not_iff_not.1 hnone

/-! ## Steps -/

/-- A step drains the rows, if it is the turn of the intake, and then advances them. -/
theorem rel_tick (s : Simulator) {R : Entry → Entry → Prop} (same : ∀ e, R e e)
    (taken : ∀ e value queue, e.queue = value :: queue →
      R e { e with queue := queue, taken := value :: e.taken })
    (advances : ∀ e, R e (e.advance s.options.latency)) :
    ∃ rows, List.Forall₂ (Option.Rel R) s.rows rows ∧
      List.Forall₂ (Option.Rel R) rows s.tick.rows := by
  refine ⟨if (s.cycle + 1) % s.options.drainInterval = 0 then Rows.drain s.rows else s.rows, ?_,
    Rows.advance_rel advances _⟩
  split
  · exact Rows.drain_rel same taken _
  · refine List.forall₂_same.2 fun row _ => ?_
    cases row with
    | none => exact .none
    | some e => exact .some (same e)

theorem kept_rel_tick (s : Simulator) :
    ∃ rows, List.Forall₂ (Option.Rel Entry.Kept) s.rows rows ∧
      List.Forall₂ (Option.Rel Entry.Kept) rows s.tick.rows :=
  s.rel_tick Entry.Kept.refl (fun _ _ _ hq => ⟨rfl, fun h => h.taken hq⟩) (Entry.kept_advance _)

@[simp] theorem tids_tick (s : Simulator) : s.tick.tids = s.tids := by
  obtain ⟨rows, hdrain, hadvance⟩ := s.kept_rel_tick
  have htid : ∀ e e', Entry.Kept e e' → e.tid = e'.tid := fun _ _ h => h.tid_eq
  exact (Rows.tids_rel htid hadvance).trans (Rows.tids_rel htid hdrain)

/-- A step of its own leaves the simulator with the transactions that it serves. -/
theorem kept_tick (s : Simulator) (tid : Tid) : Kept s s.tick tid := by
  obtain ⟨rows, hdrain, hadvance⟩ := s.kept_rel_tick
  have htid : ∀ e e', Entry.Kept e e' → e.tid = e'.tid := fun _ _ h => h.tid_eq
  have hfirst : Kept s { s with rows := rows } tid := Rows.find?_rel htid hdrain tid
  exact hfirst.trans (Rows.find?_rel htid hadvance tid)

end Simulator

end NeuralEngine
