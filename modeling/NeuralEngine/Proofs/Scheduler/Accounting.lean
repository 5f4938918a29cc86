import NeuralEngine.Proofs.Scheduler.Completion
import NeuralEngine.Proofs.Scheduler.Counts
import NeuralEngine.Proofs.Scheduler.SlotPool

/-!
# The report of a run

The report of a run counts what the channel is asked. Every step of a run keeps the counts (`Tallied.step`),
the peaks (`Peaked.step`) and the balance of the transactions that were handed out (`Handed.step`). A run
that completes has handed out every transaction and holds none, and what was said on behalf of each of them
tells how many requests that took (`Spoken.requests_eq`).
-/

namespace NeuralEngine

open scoped BigOperators

theorem Access.isIssue_eq : Access.isIssue = Access.issues fun _ _ => true := by
  funext a
  cases a <;> rfl

namespace Run

open Inversion

variable {σ : Type} {n m : Nat} {work : Vector Transaction m} {run run' : Run σ n m}
  {inbox inbox' : List Response} {events : List (Event m)}

/-! ## Counts -/

/-- The report counts what the channel was asked. -/
structure Tallied (asked : List Access) (r : RunReport) : Prop where
  cycles_eq : r.cycles = asked.countP Access.isIssue + asked.countP Access.isStep
  idleSteps_eq : r.idleSteps = asked.countP Access.isStep
  busyRetries_eq : r.busyRetries = asked.countP (Access.issues isBusyWrite)
  notDonePolls_eq : r.notDonePolls = asked.countP (Access.issues isEarlyRead)
  deferredResponses_eq : r.deferredResponses = (asked.filterMap Access.polled?).length

@[simp] theorem report_refill (run : Run σ n m) : run.refill.report = run.report :=
  refill_of_hand (P := fun r => r.report = run.report) rfl fun hr _ _ => hr

@[simp] theorem report_learn (run : Run σ n m) (i : Fin n) (done : Bool) (c : Client σ) :
    (run.learn i done c).report = run.report := by
  cases done <;> rfl

namespace Tallied

variable {asked : List Access} {r r' : RunReport}

theorem append (h : Tallied asked r) (more : List Access)
    (cycles : r'.cycles = r.cycles + (more.countP Access.isIssue + more.countP Access.isStep))
    (idleSteps : r'.idleSteps = r.idleSteps + more.countP Access.isStep)
    (busyRetries : r'.busyRetries = r.busyRetries + more.countP (Access.issues isBusyWrite))
    (notDonePolls : r'.notDonePolls = r.notDonePolls + more.countP (Access.issues isEarlyRead))
    (deferredResponses : r'.deferredResponses =
      r.deferredResponses + (more.filterMap Access.polled?).length) : Tallied (asked ++ more) r' where
  cycles_eq := by
    rw [cycles, h.cycles_eq, List.countP_append, List.countP_append]
    omega
  idleSteps_eq := by rw [idleSteps, h.idleSteps_eq, List.countP_append]
  busyRetries_eq := by rw [busyRetries, h.busyRetries_eq, List.countP_append]
  notDonePolls_eq := by rw [notDonePolls, h.notDonePolls_eq, List.countP_append]
  deferredResponses_eq := by
    rw [deferredResponses, h.deferredResponses_eq, List.filterMap_append, List.length_append]

/-- The capability word is read outside the cycles. -/
theorem capability (h : Tallied asked r) (w : Capability) : Tallied (.capability w :: asked) r where
  cycles_eq := h.cycles_eq
  idleSteps_eq := h.idleSteps_eq
  busyRetries_eq := h.busyRetries_eq
  notDonePolls_eq := h.notDonePolls_eq
  deferredResponses_eq := h.deferredResponses_eq

/-- A request that is accepted. -/
theorem ok (h : Tallied asked r) {request : Request} {answer : Response} (ok : answer.exitCode = .ok)
    (cycles : r'.cycles = r.cycles + 1) (idleSteps : r'.idleSteps = r.idleSteps)
    (busyRetries : r'.busyRetries = r.busyRetries) (notDonePolls : r'.notDonePolls = r.notDonePolls)
    (deferredResponses : r'.deferredResponses = r.deferredResponses) :
    Tallied (asked ++ [.issue request answer]) r' := by
  have hbusy : isBusyWrite request answer = false := by simp [isBusyWrite, ok]
  have hearly : isEarlyRead request answer = false := by simp [isEarlyRead, ok]
  refine h.append _ cycles idleSteps ?_ ?_ deferredResponses
  · simpa [Access.issues, hbusy] using busyRetries
  · simpa [Access.issues, hearly] using notDonePolls

variable [DrainingChannel σ]

theorem turn (h : Tallied asked run.report) {event : Event m} {prompt : Option Response}
    (turn : Turn run event prompt run') :
    Tallied (asked ++ event.access?.toList) run'.countCycle.report := by
  cases turn with
  | idle => exact h.append [.step] rfl rfl rfl rfl rfl
  | opened _ _ _ ok => exact h.ok ok rfl rfl rfl rfl rfl
  | registered _ _ _ _ ok => exact h.ok ok rfl rfl rfl rfl rfl
  | accepted _ _ _ _ _ _ ok => exact h.ok ok rfl rfl rfl rfl rfl
  | read _ _ _ ok => exact h.ok ok rfl rfl rfl rfl rfl
  | @busy i t c answer tid value last _ _ _ _ _ _ code =>
    have hbusy : isBusyWrite (.writeData tid value last) answer = true := by
      cases last <;> simp [isBusyWrite, Request.isDataWrite, code]
    refine h.append [.issue _ _] rfl rfl ?_ ?_ rfl
    · simp [Access.issues, hbusy, countCycle, tally, passTurn]
    · simp [Access.issues, isEarlyRead, Request.isRead, code, countCycle, tally, passTurn]
  | @notDone i t c answer tid _ _ _ code =>
    have hearly : isEarlyRead (.readData tid) answer = true := by
      simp [isEarlyRead, Request.isRead, code]
    refine h.append [.issue _ _] rfl rfl ?_ ?_ rfl
    · simp [Access.issues, isBusyWrite, Request.isDataWrite, countCycle, tally, passTurn]
    · simp [Access.issues, hearly, countCycle, tally, passTurn]

theorem step (h : Tallied asked run.report) (s : Step inbox run events inbox' run') :
    Tallied (asked ++ events.filterMap Event.access?) run'.report := by
  cases s with
  | refill =>
    rw [report_refill]
    exact h.append [] rfl rfl rfl rfl rfl
  | @turn _ _ event _ turn =>
    have hturn := h.turn turn
    cases event <;> exact hturn
  | @poll inbox run answer c _ => cases answer <;> exact h.append [.poll _] rfl rfl rfl rfl rfl
  | ask =>
    rw [report_learn]
    exact h.append [.isDone _ _] rfl rfl rfl rfl rfl
  | route delivered => cases delivered <;> exact h.append [] rfl rfl rfl rfl rfl

/-- The report of a run counts what the channel was asked, wherever the run comes to. -/
theorem of_reach {client : Client σ} {history : List (Event m)}
    (h : Reach (Run.start client work : Run σ n m) history inbox run) :
    Tallied (history.filterMap Event.access?) run.report :=
  h.invariant (P := fun history _ run => Tallied (history.filterMap Event.access?) run.report)
    ⟨rfl, rfl, rfl, rfl, rfl⟩ fun hp hs => by
      rw [List.filterMap_append]
      exact hp.step hs

end Tallied

/-! ## Peaks -/

/-- No peak of the report is higher than there are slots. -/
structure Peaked (run : Run σ n m) : Prop where
  awaiting_le : run.report.peakAwaitingTid ≤ run.report.peakActive
  active_le : run.report.peakActive ≤ n

/-- A slot that awaits an identifier occupies a row. -/
theorem Pool.length_awaitingTid_le (pool : Pool work run) : run.awaitingTid.length ≤ run.active := by
  have hsub : run.awaitingTid ⊆ (List.finRange n).filter fun i => run.slots[i].state.holdsEntry := by
    intro i hi
    rw [List.mem_filter, (pool.mem_awaiting i).1 hi]
    exact ⟨List.mem_finRange i, rfl⟩
  rw [run.active_eq, List.countP_eq_length_filter]
  exact (pool.awaiting_nodup.subperm hsub).length_le

namespace Peaked

theorem of_eq (h : Peaked run) (awaiting : run'.report.peakAwaitingTid = run.report.peakAwaitingTid)
    (active : run'.report.peakActive = run.report.peakActive) : Peaked run' where
  awaiting_le := by rw [awaiting, active]; exact h.awaiting_le
  active_le := by rw [active]; exact h.active_le

variable [DrainingChannel σ]

theorem turn (h : Peaked run) (pool : Pool work run) {event : Event m} {prompt : Option Response}
    (turn : Turn run event prompt run') : Peaked run'.countCycle := by
  have hactive : run'.report.peakActive = run.report.peakActive := by cases turn <;> rfl
  have hawaiting : run'.report.peakAwaitingTid ≤
      max run.report.peakAwaitingTid run'.awaitingTid.length := by
    cases turn with
    | opened => exact le_refl _
    | _ => exact Nat.le_max_left ..
  constructor
  case awaiting_le =>
    change run'.report.peakAwaitingTid ≤ max run'.report.peakActive run'.active
    rw [hactive]
    exact hawaiting.trans (max_le_max h.awaiting_le (pool.turn turn).length_awaitingTid_le)
  case active_le =>
    change max run'.report.peakActive run'.active ≤ n
    rw [hactive]
    exact max_le h.active_le run'.active_le

theorem step (h : Peaked run) (pool : Pool work run) (s : Step inbox run events inbox' run') : Peaked run' := by
  cases s with
  | refill => exact h.of_eq (by rw [report_refill]) (by rw [report_refill])
  | turn turn => exact h.turn pool turn
  | poll => exact h.of_eq rfl rfl
  | ask => exact h.of_eq (by rw [report_learn]) (by rw [report_learn])
  | route delivered => cases delivered <;> exact h.of_eq rfl rfl

theorem of_reach (ready : ∀ t : Fin m, work[t].Ready) {client : Client σ} {history : List (Event m)}
    (h : Reach (Run.start client work : Run σ n m) history inbox run) : Peaked run :=
  Pool.invariant ready (P := fun _ _ run => Peaked run) ⟨le_refl _, Nat.zero_le n⟩
    (fun hp pool hs => hp.step pool hs) h

end Peaked

/-! ## Transactions that are complete -/

/-- The number of slots that hold a transaction. -/
def held (run : Run σ n m) : Nat :=
  ∑ i : Fin n, run.slots[i].transaction.toList.length

theorem held_congr (h : ∀ i : Fin n, run'.slots[i].transaction = run.slots[i].transaction) :
    run'.held = run.held :=
  Finset.sum_congr rfl fun i _ => congrArg (fun t => t.toList.length) (h i)

/-- The slots hold one transaction more if one that holds none is given one. -/
theorem held_of_take {i : Fin n} (others : ∀ j : Fin n, i ≠ j → run'.slots[j] = run.slots[j]) {t : Fin m}
    (free : run.slots[i].transaction = none) (holds : run'.slots[i].transaction = some t) :
    run'.held = run.held + 1 := by
  have hrest : ∑ j ∈ Finset.univ.erase i, run'.slots[j].transaction.toList.length =
      ∑ j ∈ Finset.univ.erase i, run.slots[j].transaction.toList.length :=
    Finset.sum_congr rfl fun j hj => by rw [others j (Finset.ne_of_mem_erase hj).symm]
  unfold held
  rw [← Finset.add_sum_erase _ _ (Finset.mem_univ i), hrest, holds,
    ← Finset.add_sum_erase _ (fun j : Fin n => run.slots[j].transaction.toList.length) (Finset.mem_univ i), free]
  simp only [Option.toList_some, Option.toList_none, List.length_singleton, List.length_nil]
  omega

/-- Every transaction that was handed out is held by a slot or counted as complete. -/
def Handed (run : Run σ n m) : Prop :=
  run.report.completed + run.held = run.nextPending

namespace Handed

theorem of_eq (h : Handed run) (completed : run'.report.completed = run.report.completed)
    (transaction : ∀ i : Fin n, run'.slots[i].transaction = run.slots[i].transaction)
    (nextPending : run'.nextPending = run.nextPending) : Handed run' := by
  unfold Handed
  rw [completed, held_congr transaction, nextPending]
  exact h

theorem hand (h : Handed run) (pool : Pool work run) {i : Fin n} {t : Fin m}
    (unused : run.slots[i].state = .unused) (ht : t = run.nextPending) : Handed (run.hand i t) := by
  have hheld : (run.hand i t).held = run.held + 1 := by
    refine held_of_take (i := i) (t := t) (fun j hij => ?_) ((pool.stage i).transaction_eq_none_iff.2 unused) ?_
    · rw [slots_hand, if_neg hij]
    · rw [slots_hand, if_pos rfl]
      rfl
  change run.report.completed + (run.hand i t).held = t.val + 1
  rw [hheld, ht, ← h, Nat.add_assoc]

theorem refill (ready : ∀ t : Fin m, work[t].Ready) (h : Handed run) (pool : Pool work run) :
    Handed run.refill :=
  pool.refill_of_hand ready h fun h pool => h.hand pool

theorem delivered (h : Handed run) {response : Response} (d : Delivered run response run') : Handed run' := by
  cases d with
  | assigned => exact h.of_eq rfl (apply_getElem_set Slot.transaction rfl) rfl
  | given => exact h.of_eq rfl (fun _ => rfl) rfl
  | @finished i t _ _ _ holds =>
    -- seen from the end, the slot takes its transaction
    have hheld : run.held =
        ((run.modifyTransaction t (·.addOutput response.element)).finish i response.tid).held + 1 := by
      refine held_of_take (i := i) (t := t) (fun j hij => ?_) ?_ holds
      · rw [slots_finish, if_neg hij]
        rfl
      · rw [slots_finish, if_pos rfl]
        rfl
    change run.report.completed + 1 + _ = run.nextPending
    rw [← h, hheld]
    omega

variable [DrainingChannel σ]

theorem turn (h : Handed run) {event : Event m} {prompt : Option Response}
    (turn : Turn run event prompt run') : Handed run' := by
  cases turn with
  | idle => exact h.of_eq rfl (fun _ => rfl) rfl
  | busy => exact h.of_eq rfl (fun _ => rfl) rfl
  | notDone => exact h.of_eq rfl (fun _ => rfl) rfl
  | opened => exact h.of_eq rfl (apply_getElem_set Slot.transaction rfl) rfl
  | registered => exact h.of_eq rfl (apply_getElem_set Slot.transaction rfl) rfl
  | accepted => exact h.of_eq rfl (apply_getElem_set Slot.transaction rfl) rfl
  | read => exact h.of_eq rfl (apply_getElem_set Slot.transaction rfl) rfl

theorem step (ready : ∀ t : Fin m, work[t].Ready) (h : Handed run) (pool : Pool work run)
    (s : Step inbox run events inbox' run') : Handed run' := by
  cases s with
  | refill => exact h.refill ready pool
  | turn turn => exact (h.turn turn).of_eq rfl (fun _ => rfl) rfl
  | poll => exact h.of_eq rfl (fun _ => rfl) rfl
  | @ask _ _ i t tid done c =>
    cases done with
    | false => exact h.of_eq rfl (fun _ => rfl) rfl
    | true => exact h.of_eq rfl (apply_getElem_set Slot.transaction rfl) rfl
  | route delivered => exact h.delivered delivered

theorem of_reach (ready : ∀ t : Fin m, work[t].Ready) {client : Client σ} {history : List (Event m)}
    (h : Reach (Run.start client work : Run σ n m) history inbox run) : Handed run := by
  have hstart : Handed (Run.start client work : Run σ n m) := by
    change 0 + ∑ i : Fin n, _ = 0
    simp [Run.start, Slot.empty]
  exact Pool.invariant ready (P := fun _ _ run => Handed run) hstart (fun hp pool hs => hp.step ready pool hs) h

end Handed

/-- A run that is idle has completed every transaction. -/
theorem Handed.completed_of_idle (h : Handed run.refill) (pool : Pool work run.refill)
    (room : 0 < m → 0 < n) (idle : run.refill.isBusy = false) : run.refill.report.completed = m := by
  have hheld : run.refill.held = 0 := Finset.sum_eq_zero fun i _ => by
    rw [(pool.stage i).transaction_eq_none_iff.2 (unused_of_idle idle i)]
    rfl
  have hall : run.refill.nextPending = m := by
    refine Nat.le_antisymm pool.nextPending_le (Nat.le_of_not_lt fun hlt => ?_)
    have hleft := (pool.left_of_idle room idle ⟨run.refill.nextPending, hlt⟩).1
    exact absurd hleft (Nat.lt_irrefl _)
  have hsum : run.refill.report.completed + run.refill.held = run.refill.nextPending := h
  rwa [hheld, hall, Nat.add_zero] at hsum

/-! ## The budget -/

section Budget

variable [DrainingChannel σ]

theorem Turn.cycles_eq {event : Event m} {prompt : Option Response} (turn : Turn run event prompt run') :
    run'.report.cycles = run.report.cycles := by
  cases turn <;> rfl

omit [DrainingChannel σ] in
theorem Delivered.cycles_eq {response : Response} (d : Delivered run response run') :
    run'.report.cycles = run.report.cycles := by
  cases d <;> rfl

theorem cycles_eq_of_forM_promote {slots : List (Fin n)} {u : Unit} (h : slots.forM promote run = .ok u run') :
    run'.report.cycles = run.report.cycles := by
  induction slots generalizing run with
  | nil =>
    obtain ⟨-, rfl⟩ := pure_ok_iff.1 h
    rfl
  | cons i slots ih =>
    obtain ⟨v, run₁, hi, h⟩ := bind_ok_iff.1 h
    rw [ih h]
    obtain ⟨tid, done, c, -, -, -, rfl⟩ | ⟨-, rfl⟩ := promote_ok hi
    · rw [report_learn]
    · rfl

omit [DrainingChannel σ] in
theorem cycles_eq_of_routeAll {responses : List Response} {u : Unit} (h : routeAll responses run = .ok u run') :
    run'.report.cycles = run.report.cycles := by
  induction responses generalizing run with
  | nil =>
    obtain ⟨-, rfl⟩ := pure_ok_iff.1 h
    rfl
  | cons response rest ih =>
    obtain ⟨v, run₁, hroute, h⟩ := bind_ok_iff.1 h
    rw [ih h, (delivered_of_route (attempt_ok hroute)).cycles_eq]

/-- A cycle is counted once. -/
theorem cycles_of_cycle {u : Unit} (h : cycle run = .ok u run') :
    run'.report.cycles = run.report.cycles + 1 := by
  obtain ⟨inbox, run₁, hgather, hroute⟩ := bind_ok_iff.1 h
  obtain ⟨prompt, run₂, hturn, hgather⟩ := bind_ok_iff.1 hgather
  simp only [modify_bind] at hgather
  obtain ⟨late, run₃, hcollect, hgather⟩ := bind_ok_iff.1 hgather
  obtain ⟨v, run₄, hpromote, hgather⟩ := bind_ok_iff.1 hgather
  obtain ⟨rfl, rfl⟩ := pure_ok_iff.1 hgather
  obtain ⟨event, turn⟩ := takeTurn_ok hturn
  obtain ⟨c, -, rfl⟩ := collect_ok hcollect
  rw [cycles_eq_of_routeAll hroute, cycles_eq_of_forM_promote hpromote]
  exact congrArg (· + 1) turn.cycles_eq

theorem Completes.cycles_eq {k : Nat} (h : Completes k run run') :
    run'.report.cycles = run.report.cycles + k := by
  induction h with
  | idle => rw [report_refill, Nat.add_zero]
  | cycle _ hcycle _ ih => rw [ih, cycles_of_cycle hcycle, report_refill, Nat.add_assoc, Nat.add_comm 1]

/-- A run that completes has kept within its budget. -/
theorem cycles_le_of_cycles {budget : Nat} {u : Unit} (h : cycles budget run = .ok u run') :
    run'.report.cycles ≤ run.report.cycles + budget := by
  obtain ⟨k, hle, hcompletes⟩ := completes_of_cycles h
  rw [hcompletes.cycles_eq]
  exact Nat.add_le_add_left hle _

end Budget

/-! ## Requests -/

/-- When every transaction has left the slots, each was opened once, and each of its registers and each of its
elements was accepted once; it was read as often as it has outputs at most. -/
theorem Spoken.requests_eq {history : List (Event m)} (h : Spoken work history run)
    (left : ∀ t : Fin m, t < run.nextPending ∧ ∀ i : Fin n, run.slots[i].transaction ≠ some t) :
    history.countP (Event.issues fun _ _ => true) =
        m + ∑ t : Fin m, work[t].registers.length + ∑ t : Fin m, work[t].stream.size +
          history.countP (Event.issues isBusyWrite) + history.countP (Event.issues isEarlyRead) +
          history.countP (Event.issues isTakenRead) ∧
      history.countP (Event.issues isTakenRead) ≤ ∑ t : Fin m, work[t].outputCount := by
  have hword : ∀ t : Fin m, ∃ reads,
      Balanced (1 + work[t].registers.length + work[t].stream.size) reads (dialogue t history) ∧
        reads ≤ work[t].outputCount := fun t => by
    obtain ⟨tid, reads, -, hsaid⟩ := h.done t (left t).1 (left t).2
    exact ⟨reads, hsaid.balanced⟩
  choose reads hbalanced hreads using hword
  have htaken : history.countP (Event.issues isTakenRead) = ∑ t : Fin m, reads t := by
    rw [countP_issues_dialogue]
    exact Finset.sum_congr rfl fun t _ => (hbalanced t).reads_eq
  constructor
  · rw [htaken, countP_issues_dialogue, Finset.sum_congr rfl fun t _ => (hbalanced t).issues_eq]
    simp only [Finset.sum_add_distrib, ← countP_issues_dialogue, Finset.sum_const, Finset.card_univ,
      Fintype.card_fin, smul_eq_mul, mul_one]
  · rw [htaken]
    exact Finset.sum_le_sum fun t _ => hreads t

end Run

/-! ## The run of a batch -/

namespace Scheduler

variable {σ : Type} [DrainingChannel σ] {s : Scheduler σ} {batch : Array Transaction} {report : RunReport}

/-- What a run that succeeds has gone through. -/
theorem reach_of_ok (ok : (s.run batch).1.result = .ok report) :
    s.validate batch = .ok () ∧ (0 < batch.size → 0 < s.capacity) ∧
      ∃ history run, Run.Reach (s.launch batch) history [] run ∧ run.refill.isBusy = false ∧
        run.refill.report = report ∧ run.client = (s.run batch).2.client := by
  obtain ⟨history, transcript⟩ := s.exists_transcript batch
  generalize (s.run batch).1 = outcome at ok transcript
  generalize (s.run batch).2.client = client at transcript ⊢
  cases transcript with
  | invalid => cases ok
  | noCapacity => cases ok
  | ran valid room ended =>
    cases ended with
    | completed reach _ idle =>
      cases ok
      exact ⟨valid, room, _, _, reach, idle, rfl, (Run.client_refill _).symm⟩
    | outOfBudget => cases ok
    | failed => cases ok
    | unroutable => cases ok

/-- A run that succeeds has kept within the budget. -/
theorem cycles_le_cycleBudget (ok : (s.run batch).1.result = .ok report) : report.cycles ≤ s.cycleBudget := by
  change (s.runBatch batch).1.result = _ at ok
  unfold runBatch at ok
  cases hv : s.validate batch with
  | error e =>
    rw [hv] at ok
    cases ok
  | ok u =>
    rw [hv] at ok
    dsimp only at ok
    split at ok
    · cases ok
    · change (runChecked s.cycleBudget s.capacity batch s.informed).1.result = _ at ok
      cases hc : Run.cycles s.cycleBudget (s.launch batch) with
      | ok u run =>
        rw [runChecked_ok hc] at ok
        cases ok
        exact (Run.cycles_le_of_cycles hc).trans (Nat.zero_add _).le
      | error e run =>
        unfold launch work at hc
        simp only [runChecked, hc] at ok
        cases ok

/-- What a run that succeeds has gone through, and what the channel was asked meanwhile. -/
theorem traced_of_ok (ok : (s.run batch).1.result = .ok report) :
    s.validate batch = .ok () ∧ (0 < batch.size → 0 < s.capacity) ∧
      ∃ history run, Run.Reach (s.traced.launch batch) history [] run ∧ run.refill.isBusy = false ∧
        run.refill.report = report ∧
        s.trace batch =
          .capability (Channel.capability s.client.channel).1 :: history.filterMap Event.access? := by
  have htraced : (s.traced.run batch).1.result = .ok report := by
    rw [(s.run_traced batch).1]
    exact ok
  obtain ⟨valid, room, history, run, reach, idle, hreport, hclient⟩ := reach_of_ok htraced
  refine ⟨valid, room, history, run, reach, idle, hreport, ?_⟩
  unfold trace
  rw [← hclient, Event.Play.trace_eq reach.play]
  rfl

/-- The report of a run that succeeds accounts for all that the channel was asked, and for
every request of the batch. -/
theorem report_accounts (s : Scheduler σ) (batch : Array Transaction) (report : RunReport)
    (ok : (s.run batch).1.result = .ok report) :
    report.cycles = (s.trace batch).countP Access.isIssue + (s.trace batch).countP Access.isStep ∧
      report.cycles ≤ s.cycleBudget ∧
      report.idleSteps = (s.trace batch).countP Access.isStep ∧
      report.busyRetries = (s.trace batch).countP (Access.issues isBusyWrite) ∧
      report.notDonePolls = (s.trace batch).countP (Access.issues isEarlyRead) ∧
      report.deferredResponses = ((s.trace batch).filterMap Access.polled?).length ∧
      report.completed = batch.size ∧
      (s.trace batch).countP Access.isIssue =
        batch.size + ∑ t : Fin batch.size, batch[t].registers.length +
          ∑ t : Fin batch.size, batch[t].stream.size + report.busyRetries + report.notDonePolls +
          (s.trace batch).countP (Access.issues isTakenRead) ∧
      (s.trace batch).countP (Access.issues isTakenRead) ≤ ∑ t : Fin batch.size, batch[t].outputCount ∧
      report.peakAwaitingTid ≤ report.peakActive ∧ report.peakActive ≤ min batch.size s.capacity := by
  obtain ⟨valid, room, history, run, reach, idle, hreport, htrace⟩ := traced_of_ok ok
  have ready := ready_of_validate valid
  have hroom : 0 < batch.size → 0 < min batch.size s.capacity := fun hpos => Nat.lt_min.2 ⟨hpos, room hpos⟩
  have pool := Run.Pool.of_reach ready reach.refill
  have completed := (Run.Handed.of_reach ready reach.refill).completed_of_idle pool hroom idle
  have tallied := (Run.Tallied.of_reach reach.refill).capability (Channel.capability s.client.channel).1
  have peaked := Run.Peaked.of_reach ready reach.refill
  obtain ⟨requests, reads⟩ := (Run.Spoken.of_reach ready reach.refill).requests_eq (pool.left_of_idle hroom idle)
  have hissues : ∀ p, (s.trace batch).countP (Access.issues p) = history.countP (Event.issues p) := fun p => by
    rw [htrace, List.countP_cons_of_neg (by simp [Access.issues]), countP_issues_access]
  rw [hreport, ← htrace] at tallied
  rw [hreport] at completed
  refine ⟨tallied.cycles_eq, cycles_le_cycleBudget ok, tallied.idleSteps_eq, tallied.busyRetries_eq,
    tallied.notDonePolls_eq, tallied.deferredResponses_eq, completed, ?_, ?_, ?_, ?_⟩
  · rw [Access.isIssue_eq, tallied.busyRetries_eq, tallied.notDonePolls_eq, hissues, hissues, hissues, hissues,
      requests]
    simp only [getElem_work, Transaction.reset]
  · rw [hissues]
    simpa only [getElem_work, Transaction.reset] using reads
  · exact hreport ▸ peaked.awaiting_le
  · exact hreport ▸ peaked.active_le

/-- Of 55 cycles, 37 are bare steps; of 18 requests, five are refused as busy and six are reads. -/
theorem congested_report_accounts :
    ∃ report, (congested.run sums).1.result = .ok report ∧ report.busyRetries = 5 ∧
      (congested.trace sums).countP Access.isStep = 37 ∧ (congested.trace sums).countP Access.isIssue = 18 ∧
      (congested.trace sums).countP (Access.issues isBusyWrite) = 5 ∧
      (congested.trace sums).countP (Access.issues isTakenRead) = 6 := by
  have hown : sums.size + ∑ t : Fin sums.size, sums[t].registers.length +
      ∑ t : Fin sums.size, sums[t].stream.size = 7 := by decide
  obtain ⟨report, hreport⟩ : ∃ report, (congested.run sums).1.result = .ok report := by
    apply Inversion.except_ok_of_map (f := RunReport.completed) (b := 3)
    decide +kernel
  have hcounts : (congested.run sums).1.result.map
      (fun r => (r.cycles, r.idleSteps, r.busyRetries, r.notDonePolls)) = .ok (55, 37, 5, 0) := by
    decide +kernel
  rw [hreport] at hcounts
  simp only [Except.map, Except.ok.injEq, Prod.mk.injEq] at hcounts
  obtain ⟨hcycles, hidle, hbusy, hearly⟩ := hcounts
  have haccount := report_accounts congested sums report hreport
  rw [hcycles, hidle, hbusy, hearly, hown] at haccount
  obtain ⟨cycles, -, steps, busy, -, -, -, requests, -⟩ := haccount
  exact ⟨report, hreport, hbusy, steps.symm, by omega, busy.symm, by omega⟩

end Scheduler

end NeuralEngine
