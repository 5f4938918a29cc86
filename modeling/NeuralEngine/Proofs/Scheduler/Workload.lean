import Mathlib.Algebra.Order.BigOperators.Group.Finset
import Mathlib.Algebra.Order.Ring.Nat
import NeuralEngine.Proofs.Scheduler.Pool

/-!
# What the slots of a run have before them

`workload` adds up what the transactions in the slots have before them: states to pass through, registers
and elements to write, outputs to ask for and outputs to take in. Every request that a channel takes lowers
it, and so does every response that is routed and every transaction that is found to have finished. The
requests that are put off leave it as it is, and so does a bare step.
-/

namespace NeuralEngine

/-- The states that a slot has before it until it is unused again. -/
def SlotState.remaining : SlotState → Nat
  | unused => 0
  | newWrite => 6
  | newWriteWait => 5
  | write => 4
  | executing => 3
  | read => 2
  | readWait => 1

namespace Slot

variable {m : Nat} {s s' : Slot (Fin m)} {t : Fin m}

/-- What a slot has before it with a transaction. -/
def toDo (x : Transaction) (s : Slot (Fin m)) : Nat :=
  s.state.remaining + (x.registers.length - s.registersWritten) + (x.stream.size - s.cursor) +
    (x.outputCount - s.readsIssued) + (x.outputCount - x.outputs.size)

/-- What a slot has before it. -/
def ahead (transactions : Vector Transaction m) (s : Slot (Fin m)) : Nat :=
  match s.transaction with
  | none => 0
  | some t => s.toDo transactions[t]

theorem ahead_eq (transactions : Vector Transaction m) (holds : s.transaction = some t) :
    s.ahead transactions = s.toDo transactions[t] := by
  simp only [ahead, holds]

theorem ahead_eq_zero (transactions : Vector Transaction m) (holds : s.transaction = none) :
    s.ahead transactions = 0 := by
  simp only [ahead, holds]

theorem toDo_lt_of_state {x : Transaction} (state : s'.state.remaining < s.state.remaining)
    (registersWritten : s'.registersWritten = s.registersWritten) (cursor : s'.cursor = s.cursor)
    (readsIssued : s'.readsIssued = s.readsIssued) : s'.toDo x < s.toDo x := by
  unfold toDo
  rw [registersWritten, cursor, readsIssued]
  omega

end Slot

/-- The later transaction is the earlier one with some more of its outputs. -/
structure Transaction.Grown (x y : Transaction) : Prop where
  reset_eq : y.reset = x.reset
  outputs_le : x.outputs.size ≤ y.outputs.size

theorem Transaction.Grown.refl (x : Transaction) : x.Grown x :=
  ⟨rfl, Nat.le_refl _⟩

theorem Slot.toDo_le {m : Nat} {x y : Transaction} (h : x.Grown y) (s : Slot (Fin m)) : s.toDo y ≤ s.toDo x := by
  have hle := h.outputs_le
  have hregisters : y.registers = x.registers := (Transaction.registers_of_reset h.reset_eq).trans rfl
  have hstream : y.stream = x.stream := (Transaction.stream_of_reset h.reset_eq).trans rfl
  have hcount : y.outputCount = x.outputCount := (Transaction.outputCount_of_reset h.reset_eq).trans rfl
  unfold toDo
  rw [hregisters, hstream, hcount]
  omega

namespace Run

variable {σ : Type} {n m : Nat} {run run' : Run σ n m} {i : Fin n} {t : Fin m}

/-- What the slots have before them, added up. -/
def workload (run : Run σ n m) : Nat :=
  ∑ i : Fin n, run.slots[i].ahead run.transactions

/-- One slot has less before it, and no other slot has changed. -/
theorem workload_lt (grown : ∀ u : Fin m, run.transactions[u].Grown run'.transactions[u])
    (others : ∀ j : Fin n, i ≠ j → run'.slots[j] = run.slots[j])
    (lt : run'.slots[i].ahead run'.transactions < run.slots[i].ahead run.transactions) :
    run'.workload < run.workload := by
  refine Finset.sum_lt_sum (fun j _ => ?_) ⟨i, Finset.mem_univ i, lt⟩
  by_cases hij : i = j
  · subst hij
    exact Nat.le_of_lt lt
  · rw [others j hij]
    cases ht : run.slots[j].transaction with
    | none => rw [Slot.ahead_eq_zero _ ht, Slot.ahead_eq_zero _ ht]
    | some u =>
      rw [Slot.ahead_eq _ ht, Slot.ahead_eq _ ht]
      exact Slot.toDo_le (grown u) _

theorem workload_modifySlot_lt (holds : run.slots[i].transaction = some t) {f : Slot (Fin m) → Slot (Fin m)}
    (transaction : (f run.slots[i]).transaction = run.slots[i].transaction)
    (lt : (f run.slots[i]).toDo run.transactions[t] < run.slots[i].toDo run.transactions[t]) :
    (run.modifySlot i f).workload < run.workload := by
  refine workload_lt (i := i) (fun u => .refl _) (fun j hij => slots_modifySlot_ne run hij f) ?_
  rw [slots_modifySlot_self, Slot.ahead_eq _ (transaction.trans holds), Slot.ahead_eq _ holds]
  exact lt

/-! ## Turns -/

theorem workload_awaitTid (turn : run.HasTurn i t .newWrite) : (run.awaitTid i).workload < run.workload := by
  refine workload_modifySlot_lt turn.holds (f := (·.transition .newWriteWait)) rfl ?_
  refine Slot.toDo_lt_of_state ?_ rfl rfl rfl
  show SlotState.newWriteWait.remaining < run.slots[i].state.remaining
  rw [turn.state]
  decide

theorem workload_countRegister (turn : run.HasTurn i t .write) {entry : Register × RegisterValue}
    (left : run.transactions[t].registers[run.slots[i].registersWritten]? = some entry) :
    (run.countRegister i).workload < run.workload := by
  have hlt := (List.getElem?_eq_some_iff.1 left).1
  refine workload_modifySlot_lt turn.holds (f := fun s => { s with registersWritten := s.registersWritten + 1 })
    rfl ?_
  simp only [Slot.toDo]
  omega

theorem workload_countElement (turn : run.HasTurn i t .write) {value : Element} (last : Bool)
    (entry : run.transactions[t].stream[run.slots[i].cursor]? = some value) :
    (run.countElement i last).workload < run.workload := by
  have hlt := (Array.getElem?_eq_some_iff.1 entry).1
  have hstate : (if last then SlotState.executing else run.slots[i].state).remaining ≤
      run.slots[i].state.remaining := by
    rw [turn.state]
    cases last <;> decide
  refine workload_modifySlot_lt turn.holds
    (f := fun s => { s with cursor := s.cursor + 1, state := if last then .executing else s.state }) rfl ?_
  simp only [Slot.toDo]
  omega

theorem workload_countRead (turn : run.HasTurn i t .read)
    (left : run.slots[i].readsIssued < run.transactions[t].outputCount) :
    (run.countRead i t).workload < run.workload := by
  have hstate : (if run.slots[i].readsIssued + 1 = run.transactions[t].outputCount then SlotState.readWait
      else run.slots[i].state).remaining ≤ run.slots[i].state.remaining := by
    rw [turn.state]
    split <;> decide
  refine workload_modifySlot_lt turn.holds (f := fun s =>
    { s with
      readsIssued := s.readsIssued + 1
      state := if s.readsIssued + 1 = run.transactions[t].outputCount then .readWait else s.state }) rfl ?_
  simp only [Slot.toDo]
  omega

theorem workload_learn {work : Vector Transaction m} (pool : Pool work run)
    (state : run.slots[i].state = .executing) (done : Bool) (c : Client σ) :
    (run.learn i done c).workload ≤ run.workload := by
  cases done with
  | false => exact Nat.le_refl _
  | true =>
    obtain ⟨t, holds⟩ := (pool.stage i).transaction_isSome (by rw [state]; exact SlotState.noConfusion)
    refine Nat.le_of_lt (workload_modifySlot_lt holds (f := (·.transition .read)) rfl ?_)
    refine Slot.toDo_lt_of_state ?_ rfl rfl rfl
    show SlotState.read.remaining < run.slots[i].state.remaining
    rw [state]
    decide

/-! ## Routing -/

theorem grown_addOutput (run : Run σ n m) (t : Fin m) (value : Element) (u : Fin m) :
    run.transactions[u].Grown (run.modifyTransaction t (·.addOutput value)).transactions[u] := by
  rw [transactions_modifyTransaction]
  split
  · next htu =>
    subst htu
    exact ⟨rfl, by simp⟩
  · exact .refl _

theorem grown_assign (run : Run σ n m) (i : Fin n) (t : Fin m) (tid : Tid) (rest : List (Fin n)) (u : Fin m) :
    run.transactions[u].Grown (run.assign i t tid rest).transactions[u] := by
  rw [transactions_assign]
  split
  · next htu =>
    subst htu
    exact ⟨rfl, Nat.le_refl _⟩
  · exact .refl _

theorem Delivered.workload_lt {work : Vector Transaction m} (pool : Pool work run) {response : Response}
    (d : Delivered run response run') : run'.workload < run.workload := by
  cases d with
  | @assigned i t rest _ _ state _ holds =>
    have hgrown := run.grown_assign i t response.tid rest
    refine Run.workload_lt (i := i) hgrown (fun j hij => ?_) ?_
    · rw [slots_assign, if_neg hij]
    · rw [Slot.ahead_eq _ holds, slots_assign, if_pos rfl]
      refine Nat.lt_of_le_of_lt (Nat.le_of_eq (Slot.ahead_eq _ holds)) ?_
      refine Nat.lt_of_le_of_lt (Slot.toDo_le (hgrown t) _) (Slot.toDo_lt_of_state ?_ rfl rfl rfl)
      show SlotState.write.remaining < run.slots[i].state.remaining
      rw [state]
      decide
  | @given i t _ _ state holds unfinished =>
    refine Run.workload_lt (i := i) (run.grown_addOutput t _) (fun j _ => rfl) ?_
    have hlt := pool.unfinished holds
    rw [← Transaction.outputCount_of_reset (pool.same t)] at hlt
    have hnext : run.slots[i].toDo (run.transactions[t].addOutput response.element) <
        run.slots[i].toDo run.transactions[t] := by
      simp only [Slot.toDo, Transaction.addOutput, Array.size_push]
      omega
    rw [Slot.ahead_eq _ holds]
    refine Nat.lt_of_le_of_lt (Nat.le_of_eq (Slot.ahead_eq _ holds)) ?_
    rw [transactions_modifyTransaction, if_pos rfl]
    exact hnext
  | @finished i t _ _ state holds _ =>
    refine Run.workload_lt (i := i) (run.grown_addOutput t _) (fun j hij => ?_) ?_
    · rw [slots_finish, if_neg hij]
      rfl
    · have hpos : 0 < run.slots[i].state.remaining := by
        obtain hs | hs := state <;> rw [hs] <;> decide
      rw [slots_finish, if_pos rfl, Slot.ahead_eq_zero _ rfl, Slot.ahead_eq _ holds]
      unfold Slot.toDo
      omega

end Run

end NeuralEngine
