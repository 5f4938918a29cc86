import NeuralEngine.Proofs.Scheduler.Pool

/-!
# Which responses are routed

When the slots of a run fit together, the fate of a response is settled by its kind, the line and the
map: it is routed if it is awaited, it finds its slot in the wrong state if it is misrouted, and nobody
waits for it otherwise. The exit code that it carries plays no part.
-/

namespace NeuralEngine.Run

variable {σ : Type} {n m : Nat}

/-- A slot waits for the response: one that stands in line for an identifier that is not in use, or
the one that reads the transaction of a data word. -/
def Awaited (run : Run σ n m) (response : Response) : Prop :=
  response.kind? = some .tid ∧ run.awaitingTid ≠ [] ∧ run.routes.lookup response.tid = none ∨
    response.kind? = some .data ∧ ∃ i : Fin n, run.routes.lookup response.tid = some i ∧
      (run.slots[i].state = .read ∨ run.slots[i].state = .readWait)

/-- The response is for a slot that is not in the state for it: it repeats an identifier in use, or
it is data for a transaction that does not read. -/
def Misrouted (run : Run σ n m) (response : Response) : Prop :=
  ∃ i : Fin n, run.routes.lookup response.tid = some i ∧
    (response.kind? = some .tid ∧ run.awaitingTid ≠ [] ∨
      response.kind? = some .data ∧ run.slots[i].state ≠ .read ∧ run.slots[i].state ≠ .readWait)

theorem Delivered.awaited {run run' : Run σ n m} {response : Response}
    (h : Delivered run response run') : run.Awaited response := by
  cases h with
  | assigned kind awaiting _ fresh => exact .inl ⟨kind, by simp [awaiting], fresh⟩
  | given kind route state => exact .inr ⟨kind, _, route, state⟩
  | finished kind route state => exact .inr ⟨kind, _, route, state⟩

theorem Awaited.not_misrouted {run : Run σ n m} {response : Response} (h : run.Awaited response) :
    ¬ run.Misrouted response := by
  rintro ⟨i, hi, ⟨kind, -⟩ | ⟨kind, hread, hwait⟩⟩
  · obtain ⟨-, -, fresh⟩ | ⟨kind', -⟩ := h
    · rw [hi] at fresh
      cases fresh
    · rw [kind] at kind'
      cases kind'
  · obtain ⟨kind', -⟩ | ⟨-, j, hj, state⟩ := h
    · rw [kind] at kind'
      cases kind'
    · obtain rfl : i = j := Option.some.inj (hi.symm.trans hj)
      exact state.elim hread hwait

namespace Pool

variable {work : Vector Transaction m} {run : Run σ n m}

theorem routeTid_cases (h : Pool work run) (tid : Tid) :
    (run.awaitingTid = [] ∧ run.routeTid tid = .error .unrecognizedResponse) ∨
      (∃ i, run.routes.lookup tid = some i ∧ run.awaitingTid ≠ [] ∧
        run.routeTid tid = .error .slotStateInconsistent) ∨
      run.awaitingTid ≠ [] ∧ run.routes.lookup tid = none ∧ ∃ run', run.routeTid tid = .ok run' := by
  unfold routeTid
  cases hw : run.awaitingTid with
  | nil => exact .inl ⟨rfl, rfl⟩
  | cons i rest =>
    have hstate : run.slots[i].state = .newWriteWait := by
      rw [← h.mem_awaiting, hw]
      exact List.mem_cons_self
    obtain ⟨t, ht⟩ := (h.stage i).transaction_isSome (by rw [hstate]; simp)
    cases hl : run.routes.lookup tid with
    | some j => exact .inr (.inl ⟨j, rfl, by simp, by simp only [hstate, ht]⟩)
    | none => exact .inr (.inr ⟨by simp, rfl, _, by simp only [hstate, ht]; rfl⟩)

theorem routeData_cases (h : Pool work run) (tid : Tid) (value : Element) :
    (run.routes.lookup tid = none ∧ run.routeData tid value = .error .unrecognizedResponse) ∨
      ∃ i, run.routes.lookup tid = some i ∧
        (¬ (run.slots[i].state = .read ∨ run.slots[i].state = .readWait) ∧
            run.routeData tid value = .error .slotStateInconsistent ∨
          (run.slots[i].state = .read ∨ run.slots[i].state = .readWait) ∧
            ∃ run', run.routeData tid value = .ok run') := by
  unfold routeData
  cases hl : run.routes.lookup tid with
  | none => exact .inl ⟨rfl, rfl⟩
  | some i =>
    refine .inr ⟨i, rfl, ?_⟩
    have hnamed := (h.lookup_iff tid i).1 hl
    obtain ⟨t, ht⟩ := (h.stage i).transaction_isSome fun hs => by
      have hnone := (h.stage i).tid_eq_none_iff.2 (.inl hs)
      rw [hnone] at hnamed
      cases hnamed
    simp only [ht]
    split
    · next hs => exact .inr ⟨hs, _, rfl⟩
    · next hs => exact .inl ⟨hs, rfl⟩

/-- A response is awaited, misrouted or for nobody, and routed accordingly. -/
theorem route_cases (h : Pool work run) (response : Response) :
    (run.Awaited response ∧ ∃ run', run.route response = .ok run') ∨
      (run.Misrouted response ∧ run.route response = .error .slotStateInconsistent) ∨
      (¬ run.Awaited response ∧ ¬ run.Misrouted response ∧
        run.route response = .error .unrecognizedResponse) := by
  unfold route Awaited Misrouted
  rcases response.kind? with - | (- | - | -)
  case some.tid =>
    obtain ⟨hw, hr⟩ | ⟨i, hl, hw, hr⟩ | ⟨hw, hl, run', hr⟩ := h.routeTid_cases response.tid
    · exact .inr (.inr ⟨by simp [hw], by simp [hw], hr⟩)
    · exact .inr (.inl ⟨⟨i, hl, .inl ⟨rfl, hw⟩⟩, hr⟩)
    · exact .inl ⟨.inl ⟨rfl, hw, hl⟩, run', hr⟩
  case some.data =>
    obtain ⟨hl, hr⟩ | ⟨i, hl, ⟨hs, hr⟩ | ⟨hs, run', hr⟩⟩ :=
      h.routeData_cases response.tid response.element
    · exact .inr (.inr ⟨by simp [hl], by simp [hl], hr⟩)
    · exact .inr (.inl ⟨⟨i, hl, .inr ⟨rfl, not_or.1 hs⟩⟩, hr⟩)
    · exact .inl ⟨.inr ⟨rfl, i, hl, hs⟩, run', hr⟩
  all_goals exact .inr (.inr ⟨by simp, by simp, rfl⟩)

theorem route_ok_iff (h : Pool work run) (response : Response) :
    (∃ run', run.route response = .ok run') ↔ run.Awaited response := by
  obtain ⟨ha, hr⟩ | ⟨hm, hr⟩ | ⟨ha, -, hr⟩ := h.route_cases response
  · exact iff_of_true hr ha
  · exact iff_of_false (by simp [hr]) fun ha => ha.not_misrouted hm
  · exact iff_of_false (by simp [hr]) ha

theorem route_inconsistent_iff (h : Pool work run) (response : Response) :
    run.route response = .error .slotStateInconsistent ↔ run.Misrouted response := by
  obtain ⟨ha, run', hr⟩ | ⟨hm, hr⟩ | ⟨-, hm, hr⟩ := h.route_cases response
  · exact iff_of_false (by simp [hr]) ha.not_misrouted
  · exact iff_of_true hr hm
  · exact iff_of_false (by simp [hr]) hm

theorem route_error (h : Pool work run) {response : Response} {e : SchedulerError}
    (hr : run.route response = .error e) : e = .unrecognizedResponse ∨ e = .slotStateInconsistent := by
  obtain ⟨-, run', hok⟩ | ⟨-, hbad⟩ | ⟨-, -, hbad⟩ := h.route_cases response
  · rw [hok] at hr
    cases hr
  · rw [hbad] at hr
    exact .inr (Except.error.inj hr).symm
  · rw [hbad] at hr
    exact .inl (Except.error.inj hr).symm

end Pool

end NeuralEngine.Run
