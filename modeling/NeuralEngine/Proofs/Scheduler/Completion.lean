import NeuralEngine.Proofs.Scheduler.ExpectedOutputs
import NeuralEngine.Proofs.Scheduler.Progress

/-!
# Runs over the simulator complete

What follows the turn of a cycle does not raise the rank of the run, and leaves it settled: the polls take
all that is due, every slot whose transaction has finished goes on to read, and a response that is routed
makes no slot execute. No cycle fails, so a run cycles until no slot holds a transaction, and a budget that
is large enough is not used up (`run_completes`).
-/

namespace NeuralEngine

open Simulator Inversion

namespace Run

variable {n m : Nat} {work : Vector Transaction m} {run run' : Run Simulator n m} {inbox : List Response}
  {history : List (Event m)} {u : Unit}

/-! ## The parts of a cycle -/

theorem collect_settles {responses : List Response} (h : collect run = .ok responses run') :
    run'.rank ≤ run.rank ∧ ∀ d ∈ run'.client.channel.deferred, run'.client.channel.cycle < d.due := by
  obtain ⟨c, hpoll, rfl⟩ := collect_ok h
  obtain ⟨hwait, hlate⟩ := late_of_pollWithin hpoll (Nat.lt_succ_self _)
  exact ⟨rank_le rfl (Nat.le_refl _) hwait, hlate⟩

theorem promote_settles (pool : Pool work run) {i : Fin n} (h : promote i run = .ok u run') :
    run'.rank ≤ run.rank ∧ Pool work run' ∧ run'.client.channel = run.client.channel ∧
      ∀ j, j = i ∨ run.AtWork j → run'.AtWork j := by
  obtain ⟨x, done, c, state, named, hask, rfl⟩ | ⟨hnone, rfl⟩ := promote_ok h
  · obtain ⟨hdone, hchannel⟩ := Prod.mk.inj hask
    have hsame : (run.learn i done c).client.channel = run.client.channel := by
      rw [client_learn, ← hchannel]
    have hwait : (run.learn i done c).client.channel.wait ≤ run.client.channel.wait := by rw [hsame]
    have hnext : (run.learn i done c).nextPending = run.nextPending := by cases done <;> rfl
    refine ⟨rank_le hnext (workload_learn pool state done c) hwait, pool.learn state done c, hsame,
      fun j hj => ?_⟩
    by_cases hij : i = j
    · subst hij
      cases done with
      | true =>
        refine .of_ne ?_
        show (run.modifySlot i _).slots[i].state ≠ _
        rw [slots_modifySlot_self]
        exact SlotState.noConfusion
      | false =>
        intro _ y hy
        obtain rfl : x = y := Option.some.inj (named.symm.trans hy)
        rw [hsame]
        exact hdone
    · refine (hj.resolve_left fun h => hij h.symm).of_eq ?_ hsame
      cases done with
      | true => exact slots_modifySlot_ne run hij _
      | false => rfl
  · refine ⟨le_refl _, pool, rfl, fun j hj => ?_⟩
    obtain rfl | hj := hj
    · intro hs y hy
      rw [hnone hs] at hy
      cases hy
    · exact hj

theorem forM_promote_settles (pool : Pool work run) {slots : List (Fin n)}
    (h : slots.forM promote run = .ok u run') :
    run'.rank ≤ run.rank ∧ Pool work run' ∧ run'.client.channel = run.client.channel ∧
      ∀ j, j ∈ slots ∨ run.AtWork j → run'.AtWork j := by
  induction slots generalizing run with
  | nil =>
    obtain ⟨-, rfl⟩ := pure_ok_iff.1 h
    exact ⟨le_refl _, pool, rfl, fun j hj => hj.resolve_left List.not_mem_nil⟩
  | cons i slots ih =>
    obtain ⟨v, run₁, hi, h⟩ := bind_ok_iff.1 h
    obtain ⟨hrank, hpool, hchannel, hwork⟩ := promote_settles pool hi
    obtain ⟨hrest, hpool, hsame, hall⟩ := ih hpool h
    refine ⟨hrest.trans hrank, hpool, hsame.trans hchannel, fun j hj => hall j ?_⟩
    rw [List.mem_cons, or_assoc] at hj
    obtain rfl | hmem | hj := hj
    · exact .inr (hwork j (.inl rfl))
    · exact .inl hmem
    · exact .inr (hwork j (.inr hj))

theorem routeAll_settles (ready : ∀ t : Fin m, work[t].Ready) (pool : Pool work run) (settled : run.Settled)
    (h : routeAll inbox run = .ok u run') : run'.rank ≤ run.rank ∧ run'.Settled := by
  induction inbox generalizing run with
  | nil =>
    obtain ⟨-, rfl⟩ := pure_ok_iff.1 h
    exact ⟨le_refl _, settled⟩
  | cons response rest ih =>
    obtain ⟨v, run₁, hroute, h⟩ := bind_ok_iff.1 h
    have hdelivered := delivered_of_route (attempt_ok hroute)
    have hnext : run₁.nextPending = run.nextPending := by cases hdelivered <;> rfl
    obtain ⟨hrest, hsettled⟩ := ih (pool.delivered ready hdelivered) (settled.delivered hdelivered) h
    exact ⟨hrest.trans (rank_lt_of_workload hnext (hdelivered.workload_lt pool)).le, hsettled⟩

/-! ## Cycles -/

variable {engine : Simulator} {name : Fin n → Option Tid}

theorem Tenancy.gather_settles (h : Tenancy engine work name [] run) (pool : Pool work run)
    (ready : ∀ t : Fin m, work[t].Ready) (settled : run.Settled) (busy : run.isBusy = true)
    (depth : 1 ≤ engine.options.queueDepth) (hg : gather run = .ok inbox run') :
    run'.rank < run.rank ∧ Pool work run' ∧ run'.Settled := by
  obtain ⟨prompt, run₁, hturn, hg⟩ := bind_ok_iff.1 hg
  simp only [modify_bind] at hg
  obtain ⟨late, run₂, hcollect, hg⟩ := bind_ok_iff.1 hg
  obtain ⟨v, run₃, hpromote, hg⟩ := bind_ok_iff.1 hg
  obtain ⟨rfl, rfl⟩ := pure_ok_iff.1 hg
  obtain ⟨event, turn⟩ := takeTurn_ok hturn
  have hlt : run₁.rank < run.rank := h.rank_lt pool ready settled busy depth turn
  have hpolled : Pool work run₂ := by
    obtain ⟨c, -, rfl⟩ := collect_ok hcollect
    exact (pool.turn turn).of_eq rfl rfl rfl rfl rfl
  obtain ⟨hpolls, hlate⟩ := collect_settles hcollect
  obtain ⟨hpromotions, hpool, hchannel, hwork⟩ := forM_promote_settles hpolled hpromote
  refine ⟨(hpromotions.trans hpolls).trans_lt hlt, hpool, ?_, fun j => hwork j (.inl (List.mem_finRange j))⟩
  rw [hchannel]
  exact hlate

theorem Tenancy.cycle_settles (h : Tenancy engine work name [] run) (pool : Pool work run)
    (ready : ∀ t : Fin m, work[t].Ready) (settled : run.Settled) (busy : run.isBusy = true)
    (depth : 1 ≤ engine.options.queueDepth) (hc : cycle run = .ok u run') :
    run'.rank < run.rank ∧ run'.Settled := by
  obtain ⟨inbox, run₁, hgather, hroute⟩ := bind_ok_iff.1 hc
  obtain ⟨hlt, hpool, hsettled⟩ := h.gather_settles pool ready settled busy depth hgather
  obtain ⟨hle, hsettled⟩ := routeAll_settles ready hpool hsettled hroute
  exact ⟨hle.trans_lt hlt, hsettled⟩

section Alone

variable {client : Client Simulator} (ready : ∀ t : Fin m, work[t].Ready)

include ready

/-- The cycles leave this run, whether they complete it or not. -/
def Leaves (budget : Nat) (run run' : Run Simulator n m) : Prop :=
  cycles budget run = .ok () run' ∨ ∃ e, cycles budget run = .error e run'

omit ready in
theorem Leaves.of_succ {budget : Nat} (busy : run.refill.isBusy = true) (h : Leaves (budget + 1) run run') :
    (∃ e, cycle run.refill = .error e run') ∨
      ∃ next, cycle run.refill = .ok () next ∧ Leaves budget next run' := by
  unfold Leaves at h
  rw [cycles_succ_of_busy busy] at h
  obtain hok | ⟨e, herror⟩ := h
  · obtain ⟨u, next, hcycle, hrest⟩ := bind_ok_iff.1 hok
    exact .inr ⟨next, hcycle, .inl hrest⟩
  · obtain hcycle | ⟨u, next, hcycle, hrest⟩ := bind_error_iff.1 herror
    · exact .inl ⟨e, hcycle⟩
    · exact .inr ⟨next, hcycle, .inr ⟨e, hrest⟩⟩

/-- The clock only goes on: where it is in time at the end of a run, it was so wherever the run came to. -/
theorem Leaves.inTime {budget : Nat} (h : Leaves budget run run')
    (reach : Reach (Run.start client work) history [] run) (visits : Visits (Run.start client work) [] run)
    (inTime : run'.client.channel.InTime) : run.client.channel.InTime := by
  obtain ⟨events, result, ended⟩ : ∃ events result, Ended (Run.start client work) (history ++ events) result run' := by
    obtain hok | ⟨e, herror⟩ := h
    · obtain ⟨events, hended⟩ := ended_of_cycles_ok ready reach visits hok
      exact ⟨events, _, hended⟩
    · obtain ⟨events, hended⟩ := ended_of_cycles_error ready reach visits herror
      exact ⟨events, _, hended⟩
  obtain ⟨channel, hbefore, hafter⟩ := Event.play_append.1 ended.play
  obtain rfl := Event.play_unique hbefore reach.play
  exact hafter.evolves.inTime inTime

variable (fits : client.channel.Fits n work) (entries : client.channel.tids = [])
  (deferred : client.channel.deferred = [])

include fits entries deferred

/-- No cycle of a run that has the simulator to itself fails while the clock is in time. -/
theorem not_inTime_of_cycle_error (reach : Reach (Run.start client work) history [] run)
    (visits : Visits (Run.start client work) [] run) (busy : run.refill.isBusy = true) {e : SchedulerError}
    (hc : cycle run.refill = .error e run') : ¬ run'.client.channel.InTime := by
  intro inTime
  obtain ⟨event, turn⟩ | ⟨events, response, rest, hreach, -, hroute⟩ :=
    failed_of_cycle_error ready reach visits busy hc
  · exact not_failed_of_reach ready fits entries deferred reach.refill (turn.inTime inTime) turn
  · obtain ⟨next, hnext⟩ := route_ok_of_reach ready fits entries deferred hreach inTime
    rw [hnext] at hroute
    cases hroute

/-- By induction on the rank: a run that has the simulator to itself completes, if its budget and the clock
allow. -/
theorem exists_budget (depth : 1 ≤ client.channel.options.queueDepth)
    (reach : Reach (Run.start client work) history [] run) (visits : Visits (Run.start client work) [] run)
    (settled : run.Settled) :
    ∃ least final, ∀ budget left, least ≤ budget → Leaves budget run left → left.client.channel.InTime →
      cycles budget run = .ok () final := by
  induction hrank : run.rank using WellFoundedLT.induction generalizing run history with
  | ind rank ih =>
    by_cases hinTime : run.client.channel.InTime
    case neg => exact ⟨0, run, fun budget left _ leaves h => absurd (leaves.inTime ready reach visits h) hinTime⟩
    cases hbusy : run.refill.isBusy with
    | false => exact ⟨0, run.refill, fun budget _ _ _ _ => cycles_of_idle hbusy budget⟩
    | true =>
      cases hcycle : cycle run.refill with
      | error e run' =>
        have hlate := not_inTime_of_cycle_error ready fits entries deferred reach visits hbusy hcycle
        refine ⟨1, run, fun budget left hbudget leaves h => ?_⟩
        obtain ⟨budget, rfl⟩ := Nat.exists_eq_add_of_le' hbudget
        obtain ⟨e', hleft⟩ | ⟨next, hnext, -⟩ := leaves.of_succ hbusy
        · cases hcycle.symm.trans hleft
          exact absurd h hlate
        · cases hcycle.symm.trans hnext
      | ok u run' =>
        obtain ⟨name, hservice⟩ :=
          Service.of_reach ready fits entries deferred reach.refill (client_refill run ▸ hinTime)
        obtain ⟨hlt, hsettled⟩ := hservice.tenancy.cycle_settles (Pool.of_reach ready reach.refill) ready
          settled.refill hbusy depth hcycle
        obtain ⟨events, hreach, hvisits⟩ := reach.cycle ready visits hbusy hcycle
        obtain ⟨least, final, hfinal⟩ :=
          ih run'.rank (hrank ▸ hlt.trans_le run.rank_refill_le) hreach hvisits hsettled rfl
        refine ⟨least + 1, final, fun budget left hbudget leaves h => ?_⟩
        obtain ⟨budget, rfl⟩ := Nat.exists_eq_add_of_le' (Nat.le_of_add_left_le hbudget)
        obtain ⟨e, hleft⟩ | ⟨next, hnext, hleaves⟩ := leaves.of_succ hbusy
        · cases hcycle.symm.trans hleft
        · cases hcycle.symm.trans hnext
          have hrest := hfinal budget left (Nat.le_of_succ_le_succ hbudget) hleaves h
          rw [cycles_succ_of_busy hbusy]
          exact bind_ok_iff.2 ⟨(), run', hcycle, hrest⟩

end Alone

end Run

/-! ## The run of a batch -/

namespace Scheduler

/-- The run of a batch that a simulator can run succeeds, with one report, for every budget from some
number of cycles on, unless the clock has run out by then. A clock without a bound never does. -/
theorem run_completes (s : Scheduler Simulator) (batch : Array Transaction) (bound : s.Bound)
    (valid : s.validate batch = .ok ()) (suits : ∀ x ∈ batch, s.Suits x)
    (depth : 1 ≤ s.client.channel.options.queueDepth) :
    ∃ least report, ∀ budget, least ≤ budget →
      (run batch { s with cycleBudget := budget }).2.client.channel.InTime →
      (run batch { s with cycleBudget := budget }).1.result = .ok report := by
  have room : 0 < s.capacity := by
    rw [s.capacity_eq]
    exact bound.capacity_pos
  obtain ⟨least, final, hfinal⟩ := Run.exists_budget (ready_of_validate valid) (bound.fits valid suits)
    ((tids_eq_nil_iff _).2 bound.entries) bound.deferred depth .start .start (.start bound.deferred)
  refine ⟨least, final.report, fun budget hbudget inTime => ?_⟩
  let t : Scheduler Simulator := { s with cycleBudget := budget }
  have hvalid : t.validate batch = .ok () := valid
  have hrun : (t.run batch).1 = (t.runBatch batch).1 ∧ (t.run batch).2.client = (t.runBatch batch).2 := ⟨rfl, rfl⟩
  change (t.run batch).2.client.channel.InTime at inTime
  change (t.run batch).1.result = _
  rw [hrun.2, runBatch_eq hvalid room] at inTime
  rw [hrun.1, runBatch_eq hvalid room]
  cases hc : Run.cycles t.cycleBudget (t.launch batch) with
  | ok u left =>
    rw [runChecked_ok hc] at inTime ⊢
    cases hc.symm.trans (hfinal budget left hbudget (.inl hc) inTime)
    rfl
  | error e left =>
    rw [runChecked_error hc] at inTime
    cases hc.symm.trans (hfinal budget left hbudget (.inr ⟨e, hc⟩) inTime)

/-- A scheduler bound to a simulator whose queues hold one element, whose intake takes an element in every
twelfth step, and which refuses two data writes whatever its queues hold. -/
def congested : Scheduler Simulator :=
  { deferring with
    client := {
      channel := { deferring.client.channel with
        options := { deferring.client.channel.options with
          queueDepth := 1
          drainInterval := 12
          drainInterval_pos := by decide }
        forcedBusy := 2 } } }

/-- The same with a clock that has no bound. -/
def timeless : Scheduler Simulator :=
  { congested with
    client := {
      channel := { congested.client.channel with
        options := { congested.client.channel.options with clock := .unbounded } } } }

theorem bound_timeless : timeless.Bound where
  entries := rfl
  deferred := rfl
  fault := rfl
  table := rfl
  asid := rfl
  narrow := by decide
  capacity_pos := by decide
  identifiers := by decide

theorem suits_timeless : ∀ x ∈ sums, timeless.Suits x :=
  suits_sums

/-- The run of the batch completes all the same, but 54 cycles are too few for it. -/
theorem congested_completes :
    timeless.validate sums = .ok () ∧
      (∃ least report, ∀ budget, least ≤ budget →
        (run sums { timeless with cycleBudget := budget }).1.result = .ok report) ∧
      (run sums { timeless with cycleBudget := 54 }).1.result = .error .cycleBudgetExceeded := by
  refine ⟨rfl, ?_, ?_⟩
  · obtain ⟨least, report, hruns⟩ := run_completes timeless sums bound_timeless rfl suits_timeless (by decide)
    refine ⟨least, report, fun budget hbudget => hruns budget hbudget (inTime_of_unbounded ?_)⟩
    exact congrArg Options.clock (evolves_run { timeless with cycleBudget := budget } sums).options
  · decide +kernel

end Scheduler

end NeuralEngine
