import NeuralEngine.Scheduler.Cycle

/-!
# What the updates of a run change

The slots, the transactions and the client after each update. Entries are read at `Fin` indices, as
the updates themselves do.
-/

namespace NeuralEngine

theorem getElem_set_fin {α : Type} {n : Nat} (xs : Vector α n) (i j : Fin n) (x : α) :
    (xs.set i x i.isLt)[j] = if i = j then x else xs[j] := by
  simp only [getElem_vector_fin, Vector.getElem_set, Fin.ext_iff]

/-- What the new entry has in common with the old one, every entry keeps. -/
theorem apply_getElem_set {α β : Type} {n : Nat} (g : α → β) {xs : Vector α n} {i : Fin n} {x : α}
    (h : g x = g xs[i]) (j : Fin n) : g (xs.set i x i.isLt)[j] = g xs[j] := by
  rw [getElem_set_fin]
  split
  · next hij => rw [h, hij]
  · rfl

namespace Run

variable {σ : Type} {n m : Nat}

/-! ## Slots and transactions -/

theorem slots_modifySlot (run : Run σ n m) (i j : Fin n) (f : Slot (Fin m) → Slot (Fin m)) :
    (run.modifySlot i f).slots[j] = if i = j then f run.slots[i] else run.slots[j] :=
  getElem_set_fin ..

theorem slots_modifySlot_self (run : Run σ n m) (i : Fin n) (f : Slot (Fin m) → Slot (Fin m)) :
    (run.modifySlot i f).slots[i] = f run.slots[i] := by
  rw [slots_modifySlot, if_pos rfl]

theorem slots_modifySlot_ne (run : Run σ n m) {i j : Fin n} (h : i ≠ j)
    (f : Slot (Fin m) → Slot (Fin m)) : (run.modifySlot i f).slots[j] = run.slots[j] := by
  rw [slots_modifySlot, if_neg h]

theorem transactions_modifyTransaction (run : Run σ n m) (t u : Fin m)
    (f : Transaction → Transaction) :
    (run.modifyTransaction t f).transactions[u] =
      if t = u then f run.transactions[t] else run.transactions[u] :=
  getElem_set_fin ..

/-! ## Refilling -/

/-- A refill of a slot leaves the run as it is or hands the next transaction to the slot. -/
theorem refillSlot_cases (run : Run σ n m) (i : Fin n) :
    run.refillSlot i = run ∨
      ∃ t : Fin m, t = run.nextPending ∧ run.slots[i].state = .unused ∧ run.refillSlot i = run.hand i t := by
  unfold refillSlot
  split
  · next h => exact .inr ⟨⟨run.nextPending, h.2⟩, rfl, h.1, rfl⟩
  · exact .inl rfl

/-- A refill keeps what is kept whenever an unused slot is handed the next transaction. -/
theorem refill_of_hand {P : Run σ n m → Prop} {run : Run σ n m} (start : P run)
    (hand : ∀ {r : Run σ n m} {i : Fin n} {t : Fin m}, P r → r.slots[i].state = .unused → t = r.nextPending →
      P (r.hand i t)) : P run.refill := by
  unfold refill
  generalize List.finRange n = slots
  induction slots generalizing run with
  | nil => exact start
  | cons i slots ih =>
    refine ih ?_
    obtain hsame | ⟨t, ht, hi, hhand⟩ := refillSlot_cases run i
    · rwa [hsame]
    · rw [hhand]
      exact hand start hi ht

theorem slots_hand (run : Run σ n m) (i j : Fin n) (t : Fin m) :
    (run.hand i t).slots[j] = if i = j then Slot.holding t else run.slots[j] :=
  getElem_set_fin ..

/-- Apart from the transaction that is handed out, no transaction leaves the slots. -/
theorem left_of_hand {run : Run σ n m} {i : Fin n} {t u : Fin m}
    (free : run.slots[i].transaction = none) (ht : t = run.nextPending)
    (hu : u.val < (run.hand i t).nextPending)
    (left : ∀ j : Fin n, (run.hand i t).slots[j].transaction ≠ some u) :
    u.val < run.nextPending ∧ ∀ j : Fin n, run.slots[j].transaction ≠ some u := by
  change u.val < t + 1 at hu
  have hne : u ≠ t := by
    rintro rfl
    refine left i ?_
    rw [slots_hand, if_pos rfl]
    rfl
  have hval := Fin.val_ne_of_ne hne
  refine ⟨by omega, fun j hj => left j ?_⟩
  rw [slots_hand, if_neg]
  · exact hj
  · rintro rfl
    rw [free] at hj
    cases hj

/-- Slot `i` holds a transaction, or every transaction was handed out. -/
def Filled (i : Fin n) (run : Run σ n m) : Prop :=
  run.slots[i].state ≠ .unused ∨ m ≤ run.nextPending

theorem Filled.refillSlot {run : Run σ n m} {i : Fin n} (h : run.Filled i) (j : Fin n) :
    (run.refillSlot j).Filled i := by
  obtain hj | ⟨t, ht, -, hj⟩ := refillSlot_cases run j <;> rw [hj]
  · exact h
  · unfold Filled
    rw [slots_hand]
    split
    · exact .inl (by simp [Slot.holding])
    · exact h.imp_right fun hle => Nat.le_succ_of_le (ht ▸ hle)

theorem filled_refillSlot (run : Run σ n m) (i : Fin n) : (run.refillSlot i).Filled i := by
  unfold Run.refillSlot
  split
  · left
    rw [slots_hand, if_pos rfl]
    simp [Slot.holding]
  · next hn =>
    by_cases hs : run.slots[i].state = .unused
    · right
      exact Nat.le_of_not_lt fun hlt => hn ⟨hs, hlt⟩
    · exact .inl hs

theorem Filled.foldl {i : Fin n} (slots : List (Fin n)) {run : Run σ n m} (h : run.Filled i) :
    (slots.foldl Run.refillSlot run).Filled i := by
  induction slots generalizing run with
  | nil => exact h
  | cons j slots ih => exact ih (h.refillSlot j)

theorem filled_foldl {i : Fin n} {slots : List (Fin n)} (hi : i ∈ slots) (run : Run σ n m) :
    (slots.foldl Run.refillSlot run).Filled i := by
  induction slots generalizing run with
  | nil => exact absurd hi List.not_mem_nil
  | cons j slots ih =>
    obtain rfl | hi := List.mem_cons.1 hi
    · exact (filled_refillSlot run i).foldl slots
    · exact ih hi _

/-- A slot that is unused after a refill found no transaction left to hold. -/
theorem le_nextPending_of_unused {run : Run σ n m} {i : Fin n}
    (h : run.refill.slots[i].state = .unused) : m ≤ run.refill.nextPending := by
  have hfilled : run.refill.Filled i := filled_foldl (List.mem_finRange i) run
  exact hfilled.resolve_left fun hne => hne h

theorem unused_of_idle {run : Run σ n m} (idle : run.isBusy = false) (i : Fin n) :
    run.slots[i].state = .unused := by
  simp only [isBusy, Vector.any_eq_false] at idle
  simpa using idle i i.isLt

@[simp] theorem client_refill (run : Run σ n m) : run.refill.client = run.client :=
  refill_of_hand (P := fun r => r.client = run.client) rfl fun hr _ _ => hr

/-! ## Routing -/

theorem slots_assign (run : Run σ n m) (i j : Fin n) (t : Fin m) (tid : Tid) (rest : List (Fin n)) :
    (run.assign i t tid rest).slots[j] =
      if i = j then { run.slots[i] with tid := some tid, state := .write } else run.slots[j] :=
  getElem_set_fin ..

theorem transactions_assign (run : Run σ n m) (i : Fin n) (t u : Fin m) (tid : Tid)
    (rest : List (Fin n)) :
    (run.assign i t tid rest).transactions[u] =
      if t = u then { run.transactions[t] with tid := some tid } else run.transactions[u] :=
  getElem_set_fin ..

theorem slots_finish (run : Run σ n m) (i j : Fin n) (tid : Tid) :
    (run.finish i tid).slots[j] = if i = j then Slot.empty else run.slots[j] :=
  getElem_set_fin ..

/-- Only the transaction of the slot that is freed leaves the slots. -/
theorem left_of_finish (tid : Tid) {run : Run σ n m} {i : Fin n} {t u : Fin m}
    (holds : run.slots[i].transaction = some t) (hne : t ≠ u)
    (left : ∀ j : Fin n, (run.finish i tid).slots[j].transaction ≠ some u) (j : Fin n) :
    run.slots[j].transaction ≠ some u := by
  intro hj
  refine left j ?_
  rw [slots_finish, if_neg]
  · exact hj
  · rintro rfl
    rw [holds] at hj
    exact hne (Option.some.inj hj)

@[simp] theorem transactions_finish (run : Run σ n m) (i : Fin n) (tid : Tid) :
    (run.finish i tid).transactions = run.transactions :=
  rfl

/-- What routing a response does when it succeeds. -/
inductive Delivered (run : Run σ n m) (response : Response) : Run σ n m → Prop where
  | assigned {i : Fin n} {t : Fin m} {rest : List (Fin n)} (kind : response.kind? = some .tid)
      (awaiting : run.awaitingTid = i :: rest) (state : run.slots[i].state = .newWriteWait)
      (fresh : run.routes.lookup response.tid = none) (holds : run.slots[i].transaction = some t) :
      Delivered run response (run.assign i t response.tid rest)
  | given {i : Fin n} {t : Fin m} (kind : response.kind? = some .data)
      (route : run.routes.lookup response.tid = some i)
      (state : run.slots[i].state = .read ∨ run.slots[i].state = .readWait)
      (holds : run.slots[i].transaction = some t)
      (unfinished : (run.transactions[t].addOutput response.element).isComplete = false) :
      Delivered run response (run.modifyTransaction t (·.addOutput response.element))
  | finished {i : Fin n} {t : Fin m} (kind : response.kind? = some .data)
      (route : run.routes.lookup response.tid = some i)
      (state : run.slots[i].state = .read ∨ run.slots[i].state = .readWait)
      (holds : run.slots[i].transaction = some t)
      (complete : (run.transactions[t].addOutput response.element).isComplete = true) :
      Delivered run response
        ((run.modifyTransaction t (·.addOutput response.element)).finish i response.tid)

theorem delivered_of_routeTid {run run' : Run σ n m} {response : Response}
    (kind : response.kind? = some .tid) (h : run.routeTid response.tid = .ok run') :
    Delivered run response run' := by
  unfold routeTid at h
  cases hw : run.awaitingTid with
  | nil =>
    simp only [hw] at h
    cases h
  | cons i rest =>
    simp only [hw] at h
    split at h
    · next hs hr ht =>
      cases h
      exact .assigned kind hw hs hr ht
    · cases h

theorem delivered_of_routeData {run run' : Run σ n m} {response : Response}
    (kind : response.kind? = some .data)
    (h : run.routeData response.tid response.element = .ok run') : Delivered run response run' := by
  unfold routeData at h
  cases hr : run.routes.lookup response.tid with
  | none =>
    simp only [hr] at h
    cases h
  | some i =>
    cases ht : run.slots[i].transaction with
    | none =>
      simp only [hr, ht] at h
      cases h
    | some t =>
      simp only [hr, ht, transactions_modifyTransaction, if_pos] at h
      split at h
      · next hs =>
        cases hc : (run.transactions[t].addOutput response.element).isComplete <;>
          simp only [hc, if_true, if_false, Bool.false_eq_true] at h <;> cases h
        · exact .given kind hr hs ht hc
        · exact .finished kind hr hs ht hc
      · cases h

theorem delivered_of_route {run run' : Run σ n m} {response : Response}
    (h : run.route response = .ok run') : Delivered run response run' := by
  unfold route at h
  rcases hk : response.kind? with - | (- | - | -) <;> simp only [hk] at h
  case some.tid => exact delivered_of_routeTid hk h
  case some.data => exact delivered_of_routeData hk h
  all_goals cases h

theorem Delivered.client_eq {run run' : Run σ n m} {response : Response}
    (h : Delivered run response run') : run'.client = run.client := by
  cases h <;> rfl

end Run

end NeuralEngine
