import NeuralEngine.Channel.Replay
import NeuralEngine.Proofs.Scheduler.Routing
import NeuralEngine.Proofs.Scheduler.Transcript

/-!
# Fatal exit codes

A fatal code in the immediate answer to a request ends the run, and nothing that the answer carries is
kept. The code of a deferred response is never looked at: whether the response is routed depends on who
waits for it alone. So a run is abandoned at every fatal response exactly if no deferred response with a
fatal code finds a slot that waits for it.
-/

namespace NeuralEngine

namespace Run

variable {σ : Type} {n m : Nat} [DrainingChannel σ] {start run run' : Run σ n m} {history : List (Event m)}
  {inbox : List Response}

theorem Turn.tolerates {t : Fin m} {request : Request} {answer : Response} {prompt : Option Response}
    (h : Turn run (.issued t request answer) prompt run') : request.tolerates answer.exitCode = true := by
  cases h with
  | opened _ _ _ ok => rw [ok, Request.tolerates_ok]
  | registered _ _ _ _ ok => rw [ok, Request.tolerates_ok]
  | accepted _ _ _ _ _ _ ok => rw [ok, Request.tolerates_ok]
  | busy _ _ _ _ _ _ code => rw [code, Request.tolerates_writeData_busy]
  | read _ _ _ ok => rw [ok, Request.tolerates_ok]
  | notDone _ _ _ code => rw [code, Request.tolerates_readData_notDone]

/-- An immediate answer that is left to be routed carries `ok`. -/
theorem Turn.prompt_ok {event : Event m} {prompt : Option Response} (h : Turn run event prompt run') :
    ∀ r ∈ prompt.toList, r.exitCode = .ok := by
  cases h with
  | opened _ _ _ ok =>
    split <;> simp [ok]
  | read _ _ _ ok =>
    split <;> simp [ok]
  | _ => simp

/-- The responses of a run: every answer that it went on after was tolerated, and what is or was to be
routed with a fatal code came out of a poll. -/
structure Answered (history : List (Event m)) (inbox : List Response) : Prop where
  tolerated : ∀ t request answer, .issued t request answer ∈ history →
    request.tolerates answer.exitCode = true
  polled : ∀ r, r ∈ inbox ∨ .routed r ∈ history → r.exitCode ≠ .ok → .polled (some r) ∈ history
  routed : ∀ r, .polled (some r) ∈ history → r ∈ inbox ∨ .routed r ∈ history

/-- A turn neither polls nor routes. -/
theorem Turn.event_ne {event : Event m} {prompt : Option Response} (h : Turn run event prompt run') :
    (∀ answer, event ≠ .polled answer) ∧ ∀ r, event ≠ .routed r := by
  cases h <;> simp

namespace Answered

theorem turn (h : Answered history []) {event : Event m} {prompt : Option Response}
    (turn : Turn run event prompt run') : Answered (history ++ [event]) prompt.toList where
  tolerated t request answer hmem := by
    obtain hmem | hmem := List.mem_append.1 hmem
    · exact h.tolerated t request answer hmem
    · rw [← List.mem_singleton.1 hmem] at turn
      exact turn.tolerates
  polled r hr hfatal := by
    obtain hr | hr := hr
    · exact absurd (turn.prompt_ok r hr) hfatal
    obtain hr | hr := List.mem_append.1 hr
    · exact List.mem_append_left _ (h.polled r (.inr hr) hfatal)
    · exact absurd (List.mem_singleton.1 hr).symm (turn.event_ne.2 r)
  routed r hr := by
    obtain hr | hr := List.mem_append.1 hr
    · exact .inr (List.mem_append_left _ ((h.routed r hr).resolve_left List.not_mem_nil))
    · exact absurd (List.mem_singleton.1 hr).symm (turn.event_ne.1 _)

theorem poll (h : Answered history inbox) (answer : Option Response) :
    Answered (history ++ [.polled answer]) (inbox ++ answer.toList) where
  tolerated t request answer hmem := by
    obtain hmem | hmem := List.mem_append.1 hmem
    · exact h.tolerated t request answer hmem
    · cases List.mem_singleton.1 hmem
  polled r hr hfatal := by
    simp only [List.mem_append, Option.mem_toList, List.mem_singleton, reduceCtorEq, or_false] at hr ⊢
    obtain (hr | hr) | hr := hr
    · exact .inl (h.polled r (.inl hr) hfatal)
    · exact .inr (by rw [hr])
    · exact .inl (h.polled r (.inr hr) hfatal)
  routed r hr := by
    simp only [List.mem_append, Option.mem_toList, List.mem_singleton, Event.polled.injEq, reduceCtorEq,
      or_false] at hr ⊢
    obtain hr | hr := hr
    · exact (h.routed r hr).imp_left .inl
    · exact .inl (.inr hr.symm)

theorem ask (h : Answered history inbox) (t : Fin m) (tid : Tid) (done : Bool) :
    Answered (history ++ [.asked t tid done]) inbox where
  tolerated t request answer hmem := h.tolerated t request answer (by simpa using hmem)
  polled r hr hfatal := List.mem_append_left _ (h.polled r (by simpa using hr) hfatal)
  routed r hr := by simpa using h.routed r (by simpa using hr)

theorem route {r : Response} (h : Answered history (r :: inbox)) :
    Answered (history ++ [.routed r]) inbox where
  tolerated t request answer hmem := h.tolerated t request answer (by simpa using hmem)
  polled s hs hfatal := by
    simp only [List.mem_append, List.mem_singleton, Event.routed.injEq] at hs
    refine List.mem_append_left _ (h.polled s ?_ hfatal)
    obtain hs | hs | rfl := hs
    · exact .inl (List.mem_cons_of_mem _ hs)
    · exact .inr hs
    · exact .inl List.mem_cons_self
  routed s hs := by
    simp only [List.mem_append, List.mem_singleton, Event.routed.injEq, reduceCtorEq, or_false] at hs ⊢
    obtain hs | hs := h.routed s hs
    · obtain rfl | hs := List.mem_cons.1 hs
      · exact .inr (.inr rfl)
      · exact .inl hs
    · exact .inr (.inl hs)

theorem of_reach (h : Reach start history inbox run) : Answered history inbox := by
  refine h.invariant (P := fun history inbox _ => Answered history inbox) ⟨?_, ?_, ?_⟩ fun hp hs => ?_
  · exact fun _ _ _ hmem => absurd hmem List.not_mem_nil
  · exact fun _ hr => absurd hr (by simp)
  · exact fun _ hmem => absurd hmem List.not_mem_nil
  · cases hs with
    | refill => rwa [List.append_nil]
    | turn turn => exact hp.turn turn
    | poll => exact hp.poll _
    | ask => exact hp.ask _ _ _
    | route => exact hp.route

end Answered

/-! ## Runs that have ended -/

/-- A run that succeeds has routed every response that it polled. -/
theorem Ended.routed_of_ok (h : Ended start history (.ok ()) run) {r : Response}
    (hr : .polled (some r) ∈ history) : .routed r ∈ history := by
  cases h with
  | completed reach => exact ((Answered.of_reach reach).routed r hr).resolve_left List.not_mem_nil

/-- What a run routes with a fatal code came out of a poll. -/
theorem Ended.polled_of_routed {result : Except SchedulerError Unit} (h : Ended start history result run)
    {r : Response} (hr : .routed r ∈ history) (hfatal : r.exitCode ≠ .ok) :
    .polled (some r) ∈ history := by
  cases h with
  | completed reach => exact (Answered.of_reach reach).polled r (.inr hr) hfatal
  | outOfBudget reach => exact (Answered.of_reach reach).polled r (.inr hr) hfatal
  | unroutable reach => exact (Answered.of_reach reach).polled r (.inr hr) hfatal
  | failed reach _ turn =>
    refine List.mem_append_left _ ((Answered.of_reach reach).polled r (.inr ?_) hfatal)
    obtain hr | hr := List.mem_append.1 hr
    · exact hr
    · cases turn <;> cases List.mem_singleton.1 hr

/-- A run is over at an answer that its request does not tolerate, and leaves its transactions as they
were when the request was presented. -/
theorem Ended.of_fatal {result : Except SchedulerError Unit} (h : Ended start history result run)
    {before after : List (Event m)} {t : Fin m} {request : Request} {answer : Response}
    (hhistory : history = before ++ .issued t request answer :: after)
    (fatal : request.tolerates answer.exitCode = false) :
    after = [] ∧ result = .error (.client (.engine answer.exitCode)) ∧
      ∃ run', Reach start before [] run' ∧ run.slots = run'.slots ∧ run.transactions = run'.transactions := by
  have htolerated : ∀ {history : List (Event m)} {inbox : List Response} {run : Run σ n m},
      Reach start history inbox run → .issued t request answer ∉ history := by
    intro history inbox run reach hmem
    rw [(Answered.of_reach reach).tolerated t request answer hmem] at fatal
    cases fatal
  have hmem : .issued t request answer ∈ history := by
    rw [hhistory]
    simp
  cases h with
  | completed reach => exact absurd hmem (htolerated reach)
  | outOfBudget reach => exact absurd hmem (htolerated reach)
  | unroutable reach => exact absurd hmem (htolerated reach)
  | @failed history event _ run _ reach _ turn =>
    obtain rfl | ⟨init, last, rfl⟩ := List.eq_nil_or_concat after
    · obtain ⟨rfl, hevent⟩ := List.append_inj' hhistory rfl
      cases List.singleton_inj.1 hevent
      cases turn with
      | refused => exact ⟨rfl, rfl, _, reach.refill, rfl, rfl⟩
      | unexpected _ _ ok =>
        rw [ok, Request.tolerates_ok] at fatal
        cases fatal
    · refine absurd ?_ (htolerated reach)
      rw [List.concat_eq_append, ← List.cons_append, ← List.append_assoc] at hhistory
      rw [(List.append_inj' hhistory rfl).1]
      simp

omit [DrainingChannel σ] in
/-- What a response carries is kept: the identifier by a slot and its transaction, or the element by a
transaction. -/
def Keeps (run run' : Run σ n m) (r : Response) : Prop :=
  ∃ t : Fin m,
    (∃ i : Fin n, run'.slots[i].tid = some r.tid) ∧ run'.transactions[t].tid = some r.tid ∨
      run'.transactions[t] = run.transactions[t].addOutput r.element

omit [DrainingChannel σ] in
theorem Delivered.keeps {r : Response} (h : Delivered run r run') : Keeps run run' r := by
  cases h with
  | @assigned i t =>
    refine ⟨t, .inl ⟨⟨i, ?_⟩, ?_⟩⟩
    · rw [slots_assign, if_pos rfl]
    · rw [transactions_assign, if_pos rfl]
  | @given i t =>
    refine ⟨t, .inr ?_⟩
    rw [transactions_modifyTransaction, if_pos rfl]
  | @finished i t =>
    refine ⟨t, .inr ?_⟩
    rw [transactions_finish, transactions_modifyTransaction, if_pos rfl]

end Run

namespace Scheduler

open Run

variable {σ : Type} [DrainingChannel σ] {s : Scheduler σ} {batch : Array Transaction}
  {history : List (Event batch.size)} {outcome : Outcome} {client : Client σ}

theorem Transcript.of_fatal (h : s.Transcript batch history outcome client)
    {before after : List (Event batch.size)} {t : Fin batch.size} {request : Request}
    {answer : Response} (hhistory : history = before ++ .issued t request answer :: after)
    (fatal : request.tolerates answer.exitCode = false) :
    after = [] ∧ outcome.result = .error (.client (.engine answer.exitCode)) ∧
      ∃ run, Reach (s.launch batch) before [] run ∧ outcome.transactions = run.transactions.toArray := by
  cases h with
  | invalid => simp at hhistory
  | noCapacity => simp at hhistory
  | ran _ _ ended =>
    obtain ⟨hafter, rfl, run', hreach, -, htransactions⟩ := ended.of_fatal hhistory fatal
    exact ⟨hafter, rfl, run', hreach, by rw [htransactions]⟩

/-- A run is abandoned at every deferred response with a fatal code exactly if it routes none. -/
theorem Transcript.abandoned_iff (h : s.Transcript batch history outcome client) :
    (∀ r, .polled (some r) ∈ history → r.exitCode ≠ .ok →
      (∃ e, outcome.result = .error e) ∧ .routed r ∉ history) ↔
        ∀ r, .routed r ∈ history → r.exitCode = .ok := by
  cases h with
  | invalid => simp
  | noCapacity => simp
  | @ran _ result _ _ _ ended =>
    constructor
    · intro habandoned r hr
      refine Decidable.byContradiction fun hfatal => ?_
      exact (habandoned r (ended.polled_of_routed hr hfatal) hfatal).2 hr
    · intro hok r hr hfatal
      refine ⟨?_, fun hrouted => hfatal (hok r hrouted)⟩
      cases result with
      | error e => exact ⟨e, rfl⟩
      | ok u => exact absurd (hok r (ended.routed_of_ok hr)) hfatal

/-- Every fatal answer to a request ends the run, which keeps nothing of it. A deferred response with a
fatal code ends it exactly if nobody waits for the response when it comes to be routed; otherwise what it
carries is kept, whatever the code. -/
theorem fatal_responses_abort_unless_awaited (s : Scheduler σ) (batch : Array Transaction) :
    (∃ history, s.Transcript batch history (s.run batch).1 (s.run batch).2.client) ∧
      (∀ history, s.Transcript batch history (s.run batch).1 (s.run batch).2.client →
        (∀ before t request answer after, history = before ++ .issued t request answer :: after →
          request.tolerates answer.exitCode = false →
            after = [] ∧ (s.run batch).1.result = .error (.client (.engine answer.exitCode)) ∧
              ∃ run, Reach (s.launch batch) before [] run ∧
                (s.run batch).1.transactions = run.transactions.toArray) ∧
        ((∀ r, .polled (some r) ∈ history → r.exitCode ≠ .ok →
          (∃ e, (s.run batch).1.result = .error e) ∧ .routed r ∉ history) ↔
            ∀ r, .routed r ∈ history → r.exitCode = .ok)) ∧
      (s.validate batch = .ok () → ∀ r inbox run, Visits (s.launch batch) (r :: inbox) run →
        (run.Awaited r → ∃ run', run.route r = .ok run' ∧ Keeps run run' r) ∧
          (¬ run.Awaited r → ∃ e, run.route r = .error e) ∧
          ∀ code, run.Awaited { r with code := code } ↔ run.Awaited r) := by
  refine ⟨s.exists_transcript batch, fun history h => ⟨?_, h.abandoned_iff⟩, ?_⟩
  · exact fun before t request answer after hhistory hfatal => h.of_fatal hhistory hfatal
  · intro valid r inbox run visits
    have pool := visits.pool (ready_of_validate valid)
    refine ⟨fun ha => ?_, fun hn => ?_, fun _ => Iff.rfl⟩
    · obtain ⟨run', hr⟩ := (pool.route_ok_iff r).2 ha
      exact ⟨run', hr, (delivered_of_route hr).keeps⟩
    · obtain ⟨ha, -⟩ | ⟨-, hr⟩ | ⟨-, -, hr⟩ := pool.route_cases r
      · exact absurd ha hn
      · exact ⟨_, hr⟩
      · exact ⟨_, hr⟩

/-- A scheduler over a channel whose deferred identifier carries `badRequest`. -/
def refused : Scheduler Replay where
  client :=
    { channel :=
        { responses := [.status .ok, .status .ok, .ofWord 0x700050020]
          deferred := [⟨1, .ofWord 0x50013⟩]
          tableEntries := 1 } }
  table := { spaces := [{ capacity := 1, configs := [.ofWords [0, 1]] }], configsPerSpace := 1 }
  asid := 0
  cycleBudget := 50

/-- The deferred response is fatal, but the run succeeds and keeps its identifier. -/
theorem refused_identifier_is_kept :
    (Response.ofWord 0x50013).exitCode = .badRequest ∧
      (refused.run #[.feedforward 0 [1] 1]).2.client.channel.deferred = [] ∧
      (refused.run #[.feedforward 0 [1] 1]).1.result.isOk = true ∧
      (refused.run #[.feedforward 0 [1] 1]).1.transactions.toList.map (·.tid) =
        [some (Response.ofWord 0x50013).tid] := by
  decide +kernel

end Scheduler

end NeuralEngine
