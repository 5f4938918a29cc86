import NeuralEngine.Proofs.Scheduler.Pool

/-!
# From cycles to steps

The cycles of a run are made of steps. `Visits` names the points between cycles and between the
responses that a cycle routes, and `Ended` the ways in which a run ends, with its history; what the
definitions of a run compute is in the one (`Visits.reach`) and ends as the other says
(`ended_of_cycles_ok`, `ended_of_cycles_error`). `Completes` counts the cycles of a run that completes,
whatever its budget.
-/

namespace NeuralEngine

namespace Run

open Inversion

variable {σ : Type} {n m : Nat} [DrainingChannel σ]

/-- The points of a run between its cycles and between the responses that a cycle routes, each with
the responses that are still to be routed. -/
inductive Visits (start : Run σ n m) : List Response → Run σ n m → Prop where
  | start : Visits start [] start
  | refill {run : Run σ n m} (visits : Visits start [] run) : Visits start [] run.refill
  | cycle {inbox : List Response} {run run' : Run σ n m} (visits : Visits start [] run)
      (busy : run.refill.isBusy = true) (gathered : gather run.refill = .ok inbox run') :
      Visits start inbox run'
  | route {response : Response} {inbox : List Response} {run run' : Run σ n m}
      (visits : Visits start (response :: inbox) run) (routed : run.route response = .ok run') :
      Visits start inbox run'

/-- How a run ends: what took place until then, the result and the state that is left. -/
inductive Ended (start : Run σ n m) :
    List (Event m) → Except SchedulerError Unit → Run σ n m → Prop where
  | completed {history : List (Event m)} {run : Run σ n m} (reach : Reach start history [] run)
      (visits : Visits start [] run) (idle : run.refill.isBusy = false) :
      Ended start history (.ok ()) run.refill
  | outOfBudget {history : List (Event m)} {run : Run σ n m} (reach : Reach start history [] run)
      (visits : Visits start [] run) (busy : run.refill.isBusy = true) :
      Ended start history (.error .cycleBudgetExceeded) run.refill
  | failed {history : List (Event m)} {event : Event m} {e : SchedulerError} {run run' : Run σ n m}
      (reach : Reach start history [] run) (visits : Visits start [] run)
      (turn : FailedTurn run.refill event e run') : Ended start (history ++ [event]) (.error e) run'
  | unroutable {history : List (Event m)} {response : Response} {inbox : List Response}
      {e : SchedulerError} {run : Run σ n m} (reach : Reach start history (response :: inbox) run)
      (visits : Visits start (response :: inbox) run) (route : run.route response = .error e) :
      Ended start history (.error e) run

/-- A run that takes so many cycles until nothing is left to do. -/
inductive Completes : Nat → Run σ n m → Run σ n m → Prop where
  | idle {run : Run σ n m} (idle : run.refill.isBusy = false) : Completes 0 run run.refill
  | cycle {k : Nat} {u : Unit} {run next run' : Run σ n m} (busy : run.refill.isBusy = true)
      (cycle : Run.cycle run.refill = .ok u next) (rest : Completes k next run') : Completes (k + 1) run run'

variable {start run run' : Run σ n m} {history : List (Event m)} {inbox responses : List Response}

/-- The history of a run that has ended is what took its channel to where it is. -/
theorem Ended.play {result : Except SchedulerError Unit} (h : Ended start history result run) :
    Event.Play history start.client.channel run.client.channel := by
  cases h with
  | completed reach =>
    rw [client_refill]
    exact reach.play
  | outOfBudget reach =>
    rw [client_refill]
    exact reach.play
  | failed reach _ turn =>
    have hpasses := turn.passes
    rw [client_refill] at hpasses
    exact Event.play_append.2 ⟨_, reach.play, Event.play_singleton.2 hpasses⟩
  | unroutable reach => exact reach.play

/-! ## The parts of a cycle -/

theorem Reach.refill (h : Reach start history [] run) : Reach start history [] run.refill :=
  h.silent .refill

theorem Reach.pollWithin {limit : Nat} {c : Client σ} (h : Reach start history inbox run)
    (hp : Client.pollWithin limit run.client = .ok responses c) :
    ∃ events, Reach start (history ++ events) (inbox ++ responses)
      ({ run with client := c }.tally fun r =>
        { r with deferredResponses := r.deferredResponses + responses.length }) := by
  induction limit generalizing run history inbox responses with
  | zero =>
    obtain ⟨rfl, rfl⟩ := pure_ok_iff.1 hp
    refine ⟨[], ?_⟩
    rw [List.append_nil, List.append_nil]
    exact h
  | succ limit ih =>
    obtain ⟨answer, b, hpoll, hp⟩ := bind_ok_iff.1 hp
    have hnext := h.step (.poll (Client.poll_ok hpoll))
    cases answer with
    | none =>
      obtain ⟨rfl, rfl⟩ := pure_ok_iff.1 hp
      exact ⟨_, hnext⟩
    | some response =>
      obtain ⟨rest, b', hrest, hp⟩ := bind_ok_iff.1 hp
      obtain ⟨rfl, rfl⟩ := pure_ok_iff.1 hp
      obtain ⟨events, hreach⟩ := ih hnext hrest
      refine ⟨[.polled (some response)] ++ events, ?_⟩
      rw [List.append_assoc, List.append_assoc] at hreach
      simpa [takeIn, tally, Nat.add_assoc, Nat.add_comm 1] using hreach

/-- What the engine had to hand out was polled. -/
theorem collect_ok (h : collect run = .ok responses run') :
    ∃ c, Client.pollAll run.client = .ok responses c ∧
      run' = { run with client := c }.tally fun r =>
        { r with deferredResponses := r.deferredResponses + responses.length } := by
  obtain ⟨late, run₁, hask, h⟩ := bind_ok_iff.1 h
  simp only [modify_bind, pure_ok_iff] at h
  obtain ⟨rfl, rfl⟩ := h
  obtain ⟨c, hpoll, rfl⟩ := ask_ok hask
  exact ⟨c, hpoll, rfl⟩

theorem Reach.collect (h : Reach start history inbox run) (hc : collect run = .ok responses run') :
    ∃ events, Reach start (history ++ events) (inbox ++ responses) run' := by
  obtain ⟨c, hpoll, rfl⟩ := collect_ok hc
  exact h.pollWithin hpoll

theorem collect_error {e : SchedulerError} (h : collect run = .error e run') : False := by
  obtain hask | ⟨late, run₁, -, h⟩ := bind_error_iff.1 h
  · obtain ⟨d, c, hc, -, -⟩ := ask_error hask
    exact Client.pollWithin_error hc
  · simp only [modify_bind, pure_error_iff] at h

/-- Only a slot that executes asks anything. -/
theorem promote_cases (run : Run σ n m) (i : Fin n) :
    (∃ tid, run.slots[i].state = .executing ∧ run.slots[i].tid = some tid ∧
      promote i run = (do
        if ← ask (Client.isDone tid) then modify (modifySlot i (·.transition .read))
        else return ()) run) ∨
      (run.slots[i].state = .executing → run.slots[i].tid = none) ∧ promote i run = .ok () run := by
  simp only [promote, get_bind]
  cases hs : run.slots[i].state <;> cases ht : run.slots[i].tid
  case executing.some tid => exact .inl ⟨tid, rfl, rfl, rfl⟩
  case executing.none => exact .inr ⟨fun _ => rfl, rfl⟩
  all_goals exact .inr ⟨SlotState.noConfusion, rfl⟩

/-- What a promotion does: it learns whether the transaction of a slot that executes has finished. -/
theorem promote_ok {i : Fin n} {u : Unit} (h : promote i run = .ok u run') :
    (∃ tid done c, run.slots[i].state = .executing ∧ run.slots[i].tid = some tid ∧
      Channel.isDone tid run.client.channel = (done, c.channel) ∧ run' = run.learn i done c) ∨
      (run.slots[i].state = .executing → run.slots[i].tid = none) ∧ run' = run := by
  obtain ⟨tid, hs, ht, heq⟩ | ⟨hnone, heq⟩ := promote_cases run i <;> rw [heq] at h
  · obtain ⟨done, run₁, hask, h⟩ := bind_ok_iff.1 h
    obtain ⟨c, hc, rfl⟩ := ask_ok hask
    refine .inl ⟨tid, done, c, hs, ht, Client.isDone_ok hc, ?_⟩
    cases done with
    | false => exact (pure_ok_iff.1 h).2.symm
    | true => exact (modify_ok_iff.1 h).symm
  · cases h
    exact .inr ⟨hnone, rfl⟩

theorem promote_error {e : SchedulerError} {i : Fin n} (h : promote i run = .error e run') : False := by
  obtain ⟨tid, -, -, hp⟩ | ⟨-, hp⟩ := promote_cases run i <;> rw [hp] at h
  · obtain hask | ⟨done, run₁, -, h⟩ := bind_error_iff.1 h
    · obtain ⟨d, c, hc, -, -⟩ := ask_error hask
      exact Client.isDone_error hc
    · cases done <;> simp at h
  · cases h

theorem forM_promote_error {e : SchedulerError} {slots : List (Fin n)}
    (h : slots.forM promote run = .error e run') : False := by
  induction slots generalizing run with
  | nil => exact (pure_error_iff.1 h).elim
  | cons i slots ih =>
    obtain h | ⟨u, run₁, -, h⟩ := bind_error_iff.1 h
    · exact promote_error h
    · exact ih h

theorem takeTurn_of_gather_error {e : SchedulerError} (h : gather run = .error e run') :
    takeTurn run = .error e run' := by
  obtain h | ⟨prompt, run₁, -, h⟩ := bind_error_iff.1 h
  · exact h
  simp only [modify_bind] at h
  obtain h | ⟨late, run₂, -, h⟩ := bind_error_iff.1 h
  · exact (collect_error h).elim
  obtain h | ⟨u, run₃, -, h⟩ := bind_error_iff.1 h
  · exact (forM_promote_error h).elim
  · exact (pure_error_iff.1 h).elim

/-! ## Cycles of a run of transactions that are ready -/

section Ready

variable {work : Vector Transaction m} {client : Client σ}

theorem Reach.promote (ready : ∀ t : Fin m, work[t].Ready)
    (h : Reach (Run.start client work) history inbox run) {i : Fin n} {u : Unit}
    (hp : promote i run = .ok u run') :
    ∃ events, Reach (Run.start client work) (history ++ events) inbox run' := by
  obtain ⟨tid, done, c, hs, ht, hask, rfl⟩ | ⟨-, rfl⟩ := promote_ok hp
  · obtain ⟨t, holds⟩ := ((Pool.of_reach ready h).stage i).transaction_isSome (by rw [hs]; simp)
    exact ⟨_, h.step (.ask hs holds ht hask)⟩
  · refine ⟨[], ?_⟩
    rw [List.append_nil]
    exact h

theorem Reach.forM_promote (ready : ∀ t : Fin m, work[t].Ready)
    (h : Reach (Run.start client work) history inbox run) {slots : List (Fin n)} {u : Unit}
    (hp : slots.forM Run.promote run = .ok u run') :
    ∃ events, Reach (Run.start client work) (history ++ events) inbox run' := by
  induction slots generalizing run history with
  | nil =>
    obtain ⟨-, rfl⟩ := pure_ok_iff.1 hp
    refine ⟨[], ?_⟩
    rw [List.append_nil]
    exact h
  | cons i slots ih =>
    obtain ⟨v, run₁, hi, hp⟩ := bind_ok_iff.1 hp
    obtain ⟨events, hreach⟩ := h.promote ready hi
    obtain ⟨more, hmore⟩ := ih hreach hp
    refine ⟨events ++ more, ?_⟩
    rw [← List.append_assoc]
    exact hmore

theorem Reach.gather (ready : ∀ t : Fin m, work[t].Ready)
    (h : Reach (Run.start client work) history [] run) (hg : gather run = .ok inbox run') :
    ∃ events, Reach (Run.start client work) (history ++ events) inbox run' := by
  obtain ⟨prompt, run₁, hturn, hg⟩ := bind_ok_iff.1 hg
  simp only [modify_bind] at hg
  obtain ⟨late, run₂, hcollect, hg⟩ := bind_ok_iff.1 hg
  obtain ⟨u, run₃, hpromote, hg⟩ := bind_ok_iff.1 hg
  obtain ⟨rfl, rfl⟩ := pure_ok_iff.1 hg
  obtain ⟨event, turn⟩ := takeTurn_ok hturn
  obtain ⟨polls, hpolls⟩ := (h.step (.turn turn)).collect hcollect
  obtain ⟨questions, hquestions⟩ := hpolls.forM_promote ready hpromote
  exact ⟨[event] ++ polls ++ questions, by simpa only [List.append_assoc] using hquestions⟩

/-- Every point that a run visits is one that its steps come to. -/
theorem Visits.reach (ready : ∀ t : Fin m, work[t].Ready)
    (h : Visits (Run.start client work : Run σ n m) inbox run) :
    ∃ history, Reach (Run.start client work) history inbox run := by
  induction h with
  | start => exact ⟨[], .start⟩
  | refill _ ih =>
    obtain ⟨history, hreach⟩ := ih
    exact ⟨history, hreach.refill⟩
  | cycle _ _ gathered ih =>
    obtain ⟨history, hreach⟩ := ih
    obtain ⟨events, hnext⟩ := hreach.refill.gather ready gathered
    exact ⟨_, hnext⟩
  | route _ routed ih =>
    obtain ⟨history, hreach⟩ := ih
    exact ⟨_, hreach.step (.route (delivered_of_route routed))⟩

theorem Visits.pool (ready : ∀ t : Fin m, work[t].Ready)
    (h : Visits (Run.start client work : Run σ n m) inbox run) : Pool work run := by
  obtain ⟨history, hreach⟩ := h.reach ready
  exact Pool.of_reach ready hreach

/-! ## Runs -/

omit [DrainingChannel σ] in
theorem attempt_ok {change : Run σ n m → Except SchedulerError (Run σ n m)} {u : Unit}
    (h : attempt change run = .ok u run') : change run = .ok run' := by
  unfold attempt at h
  cases hc : change run <;> simp only [hc] at h <;> cases h
  rfl

omit [DrainingChannel σ] in
theorem attempt_error {change : Run σ n m → Except SchedulerError (Run σ n m)} {e : SchedulerError}
    (h : attempt change run = .error e run') : change run = .error e ∧ run' = run := by
  unfold attempt at h
  cases hc : change run <;> simp only [hc] at h <;> cases h
  exact ⟨rfl, rfl⟩

theorem Reach.routeAll {u : Unit} (h : Reach start history inbox run) (hv : Visits start inbox run)
    (hr : routeAll inbox run = .ok u run') :
    ∃ events, Reach start (history ++ events) [] run' ∧ Visits start [] run' := by
  induction inbox generalizing run history with
  | nil =>
    obtain ⟨-, rfl⟩ := pure_ok_iff.1 hr
    exact ⟨[], by rwa [List.append_nil], hv⟩
  | cons response rest ih =>
    obtain ⟨v, run₁, hroute, hr⟩ := bind_ok_iff.1 hr
    have hroute := attempt_ok hroute
    obtain ⟨events, hreach, hvisits⟩ :=
      ih (h.step (.route (delivered_of_route hroute))) (hv.route hroute) hr
    exact ⟨_ ++ events, by rwa [← List.append_assoc], hvisits⟩

/-- Routing fails at a response that finds no slot that waits for it. -/
theorem unroutable_of_routeAll_error {e : SchedulerError} (h : Reach start history inbox run)
    (hv : Visits start inbox run) (hr : routeAll inbox run = .error e run') :
    ∃ events response rest, Reach start (history ++ events) (response :: rest) run' ∧
      Visits start (response :: rest) run' ∧ run'.route response = .error e := by
  induction inbox generalizing run history with
  | nil => exact (pure_error_iff.1 hr).elim
  | cons response rest ih =>
    obtain hroute | ⟨v, run₁, hroute, hr⟩ := bind_error_iff.1 hr
    · obtain ⟨hroute, rfl⟩ := attempt_error hroute
      exact ⟨[], response, rest, by rwa [List.append_nil], hv, hroute⟩
    · have hroute := attempt_ok hroute
      obtain ⟨events, next, others, hreach, hnext⟩ :=
        ih (h.step (.route (delivered_of_route hroute))) (hv.route hroute) hr
      exact ⟨_ ++ events, next, others, by rwa [← List.append_assoc], hnext⟩

theorem Reach.cycle (ready : ∀ t : Fin m, work[t].Ready)
    (h : Reach (Run.start client work) history [] run) (hv : Visits (Run.start client work) [] run)
    (busy : run.refill.isBusy = true) {u : Unit} (hc : cycle run.refill = .ok u run') :
    ∃ events, Reach (Run.start client work) (history ++ events) [] run' ∧
      Visits (Run.start client work) [] run' := by
  obtain ⟨inbox, run₁, hgather, hroute⟩ := bind_ok_iff.1 hc
  obtain ⟨events, hreach⟩ := h.refill.gather ready hgather
  obtain ⟨more, hmore, hvisits⟩ := hreach.routeAll (hv.cycle busy hgather) hroute
  exact ⟨events ++ more, by rwa [← List.append_assoc], hvisits⟩

/-- A cycle fails with its turn, or at a response that finds no slot that waits for it. -/
theorem failed_of_cycle_error (ready : ∀ t : Fin m, work[t].Ready)
    (h : Reach (Run.start client work) history [] run) (hv : Visits (Run.start client work) [] run)
    (busy : run.refill.isBusy = true) {e : SchedulerError} (hc : cycle run.refill = .error e run') :
    (∃ event, FailedTurn run.refill event e run') ∨
      ∃ events response rest, Reach (Run.start client work) (history ++ events) (response :: rest) run' ∧
        Visits (Run.start client work) (response :: rest) run' ∧ run'.route response = .error e := by
  obtain hgather | ⟨inbox, run₁, hgather, hroute⟩ := bind_error_iff.1 hc
  · obtain hfailed | ⟨i, hi, hstuck⟩ := takeTurn_error (takeTurn_of_gather_error hgather)
    · exact .inl hfailed
    · exact absurd hstuck ((Pool.of_reach ready h.refill).not_stuck ready hi)
  · obtain ⟨events, hreach⟩ := h.refill.gather ready hgather
    obtain ⟨more, response, rest, hreach, hvisits, hroute⟩ :=
      unroutable_of_routeAll_error hreach (hv.cycle busy hgather) hroute
    exact .inr ⟨events ++ more, response, rest, by rwa [← List.append_assoc], hvisits, hroute⟩

theorem ended_of_cycle_error (ready : ∀ t : Fin m, work[t].Ready)
    (h : Reach (Run.start client work) history [] run) (hv : Visits (Run.start client work) [] run)
    (busy : run.refill.isBusy = true) {e : SchedulerError} (hc : cycle run.refill = .error e run') :
    ∃ events, Ended (Run.start client work) (history ++ events) (.error e) run' := by
  obtain ⟨event, turn⟩ | ⟨events, response, rest, hreach, hvisits, hroute⟩ :=
    failed_of_cycle_error ready h hv busy hc
  · exact ⟨[event], .failed h hv turn⟩
  · exact ⟨events, .unroutable hreach hvisits hroute⟩

theorem cycles_of_idle (idle : run.refill.isBusy = false) (budget : Nat) :
    cycles budget run = .ok () run.refill := by
  cases budget with
  | zero =>
    simp only [cycles, modify_bind, get_bind, idle, if_false, Bool.false_eq_true]
    rfl
  | succ budget =>
    simp only [cycles, modify_bind, get_bind, idle, if_false, Bool.false_eq_true]
    rfl

theorem cycles_zero_of_busy (busy : run.refill.isBusy = true) :
    cycles 0 run = .error .cycleBudgetExceeded run.refill := by
  simp only [cycles, modify_bind, get_bind, busy, if_true]
  rfl

theorem cycles_succ_of_busy (busy : run.refill.isBusy = true) (budget : Nat) :
    cycles (budget + 1) run = (do cycle; cycles budget) run.refill := by
  simp only [cycles, modify_bind, get_bind, busy, if_true]

/-- The run completes within so many cycles. -/
theorem completes_of_cycles {budget : Nat} {u : Unit} (h : cycles budget run = .ok u run') :
    ∃ k ≤ budget, Completes k run run' := by
  induction budget generalizing run with
  | zero =>
    cases hbusy : run.refill.isBusy with
    | false =>
      rw [cycles_of_idle hbusy] at h
      cases h
      exact ⟨0, Nat.le_refl 0, .idle hbusy⟩
    | true =>
      rw [cycles_zero_of_busy hbusy] at h
      cases h
  | succ budget ih =>
    cases hbusy : run.refill.isBusy with
    | false =>
      rw [cycles_of_idle hbusy] at h
      cases h
      exact ⟨0, Nat.zero_le _, .idle hbusy⟩
    | true =>
      rw [cycles_succ_of_busy hbusy] at h
      obtain ⟨v, next, hcycle, h⟩ := bind_ok_iff.1 h
      obtain ⟨k, hle, hcompletes⟩ := ih h
      exact ⟨k + 1, Nat.succ_le_succ hle, .cycle hbusy hcycle hcompletes⟩

theorem ended_of_cycles_ok (ready : ∀ t : Fin m, work[t].Ready) {budget : Nat} {u : Unit}
    (h : Reach (Run.start client work) history [] run) (hv : Visits (Run.start client work) [] run)
    (hc : cycles budget run = .ok u run') :
    ∃ events, Ended (Run.start client work) (history ++ events) (.ok ()) run' := by
  obtain ⟨k, -, hcompletes⟩ := completes_of_cycles hc
  clear hc
  induction hcompletes generalizing history with
  | idle hbusy => exact ⟨[], by rw [List.append_nil]; exact .completed h hv hbusy⟩
  | cycle hbusy hcycle _ ih =>
    obtain ⟨events, hreach, hvisits⟩ := h.cycle ready hv hbusy hcycle
    obtain ⟨more, hended⟩ := ih hreach hvisits
    exact ⟨events ++ more, by rwa [← List.append_assoc]⟩

theorem ended_of_cycles_error (ready : ∀ t : Fin m, work[t].Ready) {budget : Nat} {e : SchedulerError}
    (h : Reach (Run.start client work) history [] run) (hv : Visits (Run.start client work) [] run)
    (hc : cycles budget run = .error e run') :
    ∃ events, Ended (Run.start client work) (history ++ events) (.error e) run' := by
  induction budget generalizing run history with
  | zero =>
    cases hbusy : run.refill.isBusy with
    | false =>
      rw [cycles_of_idle hbusy] at hc
      cases hc
    | true =>
      rw [cycles_zero_of_busy hbusy] at hc
      cases hc
      exact ⟨[], by rw [List.append_nil]; exact .outOfBudget h hv hbusy⟩
  | succ budget ih =>
    cases hbusy : run.refill.isBusy with
    | false =>
      rw [cycles_of_idle hbusy] at hc
      cases hc
    | true =>
      rw [cycles_succ_of_busy hbusy] at hc
      obtain hcycle | ⟨v, run₁, hcycle, hc⟩ := bind_error_iff.1 hc
      · exact ended_of_cycle_error ready h hv hbusy hcycle
      · obtain ⟨events, hreach, hvisits⟩ := h.cycle ready hv hbusy hcycle
        obtain ⟨more, hended⟩ := ih hreach hvisits hc
        exact ⟨events ++ more, by rwa [← List.append_assoc]⟩

end Ready

end Run

end NeuralEngine
