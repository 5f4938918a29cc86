import NeuralEngine.Channel.Replay
import NeuralEngine.Proofs.Scheduler.Ledger
import NeuralEngine.Proofs.Scheduler.SlotPool

/-!
# What becomes of the responses

Responses are used in the order in which they reach the scheduler, each for one transaction: the
identifiers go to the opens in their order, and a data word to the transaction that was last given its
identifier, as long as that has room. A run that fails at a response uses none from there on, not even
one that reached the scheduler in the same cycle (`identifier_behind_stray_word_is_dropped`); a run that
succeeds has used them all.
-/

namespace NeuralEngine

namespace Run

variable {σ : Type} [DrainingChannel σ] {n m : Nat}

/-- A run ends at the response `r`, before those of `more`: an answer that ends the run, or a
response that cannot be routed. -/
inductive EndsAt (start : Run σ n m) (history : List (Event m)) (e : SchedulerError) :
    Response → List Response → Prop where
  | refused {before : List (Event m)} {t : Fin m} {request : Request} {answer : Response}
      (last : history = before ++ [.issued t request answer])
      (fatal : request.tolerates answer.exitCode = false)
      (error : e = .client (.engine answer.exitCode)) : EndsAt start history e answer []
  | unroutable {r : Response} {more : List Response} {run : Run σ n m}
      (visits : Visits start (r :: more) run) (route : run.route r = .error e) :
      EndsAt start history e r more

variable {work : Vector Transaction m} {client : Client σ} {history : List (Event m)}
  {result : Except SchedulerError Unit} {run run' : Run σ n m} {event : Event m} {e : SchedulerError}

/-- The arrival of a turn that fails is the answer that ends the run. -/
theorem FailedTurn.endsAt (start : Run σ n m) (h : FailedTurn run event e run') {r : Response}
    (arrival : event.arrival? = some r) : EndsAt start (history ++ [event]) e r [] := by
  cases h with
  | @refused _ _ _ request answer _ _ fatal =>
    obtain rfl : answer = r := by
      simp only [Event.arrival?] at arrival
      split at arrival
      · split at arrival <;> cases arrival
        rfl
      · split at arrival <;> cases arrival
        rfl
      · cases arrival
    exact .refused rfl fatal rfl
  | unexpected _ _ _ data => simp [Event.arrival?, data] at arrival

/-- The open of a turn that fails is the first of its transaction. -/
theorem FailedTurn.opened_nodup {inbox : List Response} {uses : List (Response × Fin m)}
    (h : FailedTurn run event e run') (ledger : Ledger history inbox uses run) :
    (opened (history ++ [event])).Nodup := by
  rw [opened_append, opened_singleton, List.nodup_append]
  refine ⟨ledger.opened_nodup, by cases event.opening? <;> simp, fun a ha b hb => ?_⟩
  rintro rfl
  rw [ledger.mem_opened] at ha
  cases h with
  | unexpected => cases hb
  | refused presents =>
    cases presents with
    | opening turn =>
      obtain rfl := Option.some.inj (Option.mem_toList.1 hb)
      exact ha.2 _ turn.holds turn.state
    | register => cases hb
    | @element tid value turn =>
      rw [← opened_singleton, opened_writeData] at hb
      cases hb
    | read => cases hb

theorem FailedTurn.transactions_eq (h : FailedTurn run event e run') :
    run'.transactions = run.transactions := by
  cases h <;> rfl

/-- What becomes of the responses of a run that has ended: those that were used come first, and the run
ended at the one after them, if there is one. -/
structure Account (start : Run σ n m) (history : List (Event m)) (result : Except SchedulerError Unit)
    (run : Run σ n m) (uses : List (Response × Fin m)) (rest : List Response) : Prop where
  arrived : arrivals history = uses.map Prod.fst ++ rest
  opened_nodup : (opened history).Nodup
  in_order : assigned uses <+: opened history
  credit : ∀ t : Fin m, Credit uses t run.transactions[t]
  ends : ∀ r more, rest = r :: more → ∃ e, result = .error e ∧ EndsAt start history e r more

theorem Ended.same (ready : ∀ t : Fin m, work[t].Ready)
    (h : Ended (Run.start client work) history result run) (t : Fin m) :
    run.transactions[t].reset = work[t] := by
  cases h with
  | completed reach => exact (Pool.of_reach ready reach.refill).same t
  | outOfBudget reach => exact (Pool.of_reach ready reach.refill).same t
  | failed reach _ turn =>
    have htransactions := turn.transactions_eq
    rw [htransactions]
    exact (Pool.of_reach ready reach.refill).same t
  | unroutable reach => exact (Pool.of_reach ready reach).same t

theorem Ended.account (ready : ∀ t : Fin m, work[t].Ready)
    (h : Ended (Run.start client work) history result run) :
    ∃ uses rest, Account (Run.start client work) history result run uses rest := by
  cases h with
  | completed reach =>
    obtain ⟨uses, hl⟩ := Ledger.of_reach ready reach.refill
    exact ⟨uses, [], hl.arrived, hl.opened_nodup, hl.in_order, hl.credit, nofun⟩
  | outOfBudget reach =>
    obtain ⟨uses, hl⟩ := Ledger.of_reach ready reach.refill
    exact ⟨uses, [], hl.arrived, hl.opened_nodup, hl.in_order, hl.credit, nofun⟩
  | unroutable reach visits route =>
    obtain ⟨uses, hl⟩ := Ledger.of_reach ready reach
    refine ⟨uses, _, hl.arrived, hl.opened_nodup, hl.in_order, hl.credit, ?_⟩
    rintro r more ⟨⟩
    exact ⟨_, rfl, .unroutable visits route⟩
  | @failed _ event e _ _ reach _ turn =>
    obtain ⟨uses, hl⟩ := Ledger.of_reach ready reach.refill
    refine ⟨uses, event.arrival?.toList, ?_, turn.opened_nodup hl, ?_, ?_, ?_⟩
    · rw [arrivals_append, hl.arrived, arrivals_singleton, List.append_nil]
    · rw [opened_append]
      exact hl.in_order.trans (List.prefix_append ..)
    · have htransactions := turn.transactions_eq
      rw [htransactions]
      exact hl.credit
    · intro r more hr
      cases ha : event.arrival? with
      | none =>
        rw [ha] at hr
        cases hr
      | some answer =>
        rw [ha] at hr
        cases hr
        exact ⟨e, rfl, turn.endsAt _ ha⟩

namespace Account

variable {start : Run σ n m} {uses : List (Response × Fin m)} {rest : List Response}

/-- Every transaction was given an identifier if every transaction is complete, -/
theorem length_assigned (h : Account start history result run uses rest)
    (pos : ∀ t : Fin m, 0 < run.transactions[t].outputCount)
    (complete : ∀ t : Fin m, run.transactions[t].isComplete = true) : (assigned uses).length = m := by
  have hmem : ∀ t : Fin m, t ∈ assigned uses := by
    intro t
    have hfull := (Transaction.isComplete_iff _).1 (complete t)
    have hpos := pos t
    cases h.credit t with
    | unassigned _ _ outputs_eq =>
      rw [← hfull, outputs_eq] at hpos
      exact absurd hpos (Nat.lt_irrefl 0)
    | assigned first before after uses_eq kind =>
      refine List.mem_map.2 ⟨(first, t), ?_, rfl⟩
      simp [uses_eq, kind]
  have hnodup : (assigned uses).Nodup := h.in_order.sublist.nodup h.opened_nodup
  have hperm : (assigned uses).Perm (List.finRange m) := by
    apply (List.perm_ext_iff_of_nodup hnodup (List.nodup_finRange m)).2
    intro t
    exact iff_of_true (hmem t) (List.mem_finRange t)
  rw [hperm.length_eq, List.length_finRange]

/-- and every data word that was used has its place among the outputs. -/
theorem length_dataUsed (h : Account start history result run uses rest)
    (complete : ∀ t : Fin m, run.transactions[t].isComplete = true) :
    (dataUsed uses).length = ∑ t : Fin m, run.transactions[t].outputCount := by
  rw [Run.length_dataUsed]
  apply Finset.sum_congr rfl
  intro t _
  rw [(h.credit t).length_dataUsed_share]
  exact (Transaction.isComplete_iff _).1 (complete t)

end Account

end Run

namespace Scheduler

open Run

variable {σ : Type} [DrainingChannel σ] {s : Scheduler σ} {batch : Array Transaction}
  {history : List (Event batch.size)} {outcome : Outcome} {client : Client σ}

/-- A batch is turned down, or its run leaves an account. -/
theorem Transcript.account (h : s.Transcript batch history outcome client) :
    (history = [] ∧ outcome.transactions = batch ∧ ∃ e, outcome.result = .error e) ∨
      ∃ result run uses rest, Account (s.launch batch) history result run uses rest ∧
        (∀ t : Fin batch.size, 0 < batch[t].outputCount ∧
          run.transactions[t].outputCount = batch[t].outputCount) ∧
        outcome.result = result.map (fun _ => run.report) ∧
        outcome.transactions = run.transactions.toArray := by
  cases h with
  | invalid => exact .inl ⟨rfl, rfl, _, rfl⟩
  | noCapacity => exact .inl ⟨rfl, rfl, _, rfl⟩
  | @ran _ result run valid room ended =>
    have ready := ready_of_validate valid
    obtain ⟨uses, rest, account⟩ := ended.account ready
    refine .inr ⟨result, run, uses, rest, account, fun t => ⟨?_, ?_⟩, rfl, rfl⟩
    · exact (checked_of_validate valid t).outputs_pos
    · rw [Transaction.outputCount_of_reset (ended.same ready t), getElem_work]
      rfl

/-- Whatever the channel answers and however the run ends, the responses that reach the scheduler are
used one by one, up to the one at which the run ends: the `j`-th identifier for the transaction of the
`j`-th open, and a data word for the transaction that was last given its identifier, until that is
complete. A run that succeeds uses every response. -/
theorem responses_used_in_order (s : Scheduler σ) (batch : Array Transaction) :
    (∃ history, s.Transcript batch history (s.run batch).1 (s.run batch).2.client) ∧
      ∀ history, s.Transcript batch history (s.run batch).1 (s.run batch).2.client →
        (∃ before, (before = s.client.channel ∨ before = s.informed.channel) ∧
          Event.Play history before (s.run batch).2.client.channel) ∧
        ((history = [] ∧ (s.run batch).1.transactions = batch ∧ ∃ e, (s.run batch).1.result = .error e) ∨
          ∃ (uses : List (Response × Fin batch.size)) (rest : List Response),
            arrivals history = uses.map Prod.fst ++ rest ∧
            (opened history).Nodup ∧ assigned uses <+: opened history ∧
            (∀ t : Fin batch.size, ∃ x, (s.run batch).1.transactions[t.val]? = some x ∧
              x.outputCount = batch[t].outputCount ∧ Credit uses t x) ∧
            (∀ r more, rest = r :: more →
              ∃ e, (s.run batch).1.result = .error e ∧ EndsAt (s.launch batch) history e r more) ∧
            ∀ report, (s.run batch).1.result = .ok report →
              rest = [] ∧ (assigned uses).length = batch.size ∧
                (dataUsed uses).length = ∑ t : Fin batch.size, batch[t].outputCount ∧
                ∀ x ∈ (s.run batch).1.transactions, x.isComplete = true) := by
  refine ⟨s.exists_transcript batch, fun history h => ⟨h.play, ?_⟩⟩
  obtain rejected | ⟨result, run, uses, rest, account, hcount, hresult, htransactions⟩ := h.account
  · exact .inl rejected
  rw [hresult, htransactions]
  refine .inr ⟨uses, rest, account.arrived, account.opened_nodup, account.in_order, ?_, ?_, ?_⟩
  · intro t
    exact ⟨run.transactions[t], by simp, (hcount t).2, account.credit t⟩
  · intro r more hrest
    obtain ⟨e, rfl, hends⟩ := account.ends r more hrest
    exact ⟨e, rfl, hends⟩
  · intro report hok
    have hall := h.complete (hresult.trans hok)
    rw [htransactions] at hall
    have hcomplete : ∀ t : Fin batch.size, run.transactions[t].isComplete = true := fun t =>
      hall _ (by simp)
    have hrest : rest = [] := by
      cases rest with
      | nil => rfl
      | cons r more =>
        obtain ⟨e, rfl, -⟩ := account.ends r more rfl
        cases hok
    refine ⟨hrest, account.length_assigned (fun t => ?_) hcomplete, ?_, hall⟩
    · rw [(hcount t).2]
      exact (hcount t).1
    · rw [account.length_dataUsed hcomplete]
      exact Finset.sum_congr rfl fun t _ => (hcount t).2

/-- A scheduler over a channel that hands out a data word that nobody waits for just before the
identifier of the first open. -/
def strayed : Scheduler Replay where
  client :=
    { channel :=
        { responses := [.status .ok]
          deferred := [⟨1, .ofWord 0x700090020⟩, ⟨1, .ofWord 0x50010⟩]
          tableEntries := 1 } }
  table := { spaces := [{ capacity := 1, configs := [.ofWords [0, 1]] }], configsPerSpace := 1 }
  asid := 0
  cycleBudget := 12

/-- One open is presented and one identifier is taken from the channel, but the transaction is given
none: the run fails at the data word before it. -/
theorem identifier_behind_stray_word_is_dropped :
    strayed.client.channel.deferred.map (·.response.kind?) = [some .data, some .tid] ∧
      (strayed.run #[.feedforward 0 [4] 1]).2.client.channel.deferred = [] ∧
      (strayed.run #[.feedforward 0 [4] 1]).2.client.channel.requests = [.newTransaction 0 .feedforward 0] ∧
      (strayed.run #[.feedforward 0 [4] 1]).1.result = .error .unrecognizedResponse ∧
      (strayed.run #[.feedforward 0 [4] 1]).1.transactions.toList.map (·.tid) = [none] := by
  decide +kernel

end Scheduler

end NeuralEngine
