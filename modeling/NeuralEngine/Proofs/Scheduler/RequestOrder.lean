import NeuralEngine.Proofs.Scheduler.Dialogue

/-!
# The order of the requests of a transaction

Whatever a channel answers and however the run of a batch ends, the requests on behalf of each
transaction come in the order of the protocol. Only the last request of a run may have an answer that
the protocol does not allow; that answer ends the run.
-/

namespace NeuralEngine

section Reset

variable {x : Transaction} {tid : Tid} {word : List Exchange}

theorem Written.of_reset (h : Written x.reset tid word) : Written x tid word := by
  cases h with
  | intro ok registers elements => exact .intro ok registers elements

theorem Follows.of_reset (h : Follows x.reset tid word) : Follows x tid word := by
  obtain ⟨whole, hscript, hprefix⟩ := h
  cases hscript with
  | intro written waits reads le => exact ⟨_, .intro written.of_reset waits reads le, hprefix⟩

end Reset

/-- The answer to a request ends the run with the error. -/
inductive Aborts (request : Request) (answer : Response) : ClientError → Prop where
  | refused (fatal : request.tolerates answer.exitCode = false) :
      Aborts request answer (.engine answer.exitCode)
  | unexpected (ok : answer.exitCode = .ok) (data : answer.kind? ≠ some .data)
      (status : answer.kind? ≠ some .status) : Aborts request answer .unexpectedResponse

/-- The last request of the history is for transaction `t`, its answer ends the run with the result, and
with another answer it would be one that the protocol allows. -/
def Aborted {m : Nat} {α : Type} (x : Transaction) (tid : Tid) (t : Fin m) (history : List (Event m))
    (result : Except SchedulerError α) : Prop :=
  ∃ said request answer error, dialogue t history = said ++ [.request request answer] ∧
    history.getLast? = some (.issued t request answer) ∧ Aborts request answer error ∧
    result = .error (.client error) ∧ Follows x tid (said ++ [.request request (.status .ok)])

section Aborted

variable {m : Nat} {α β : Type} {x : Transaction} {tid : Tid} {t : Fin m} {history : List (Event m)}
  {result : Except SchedulerError α}

theorem Aborted.of_reset (h : Aborted x.reset tid t history result) : Aborted x tid t history result := by
  obtain ⟨said, request, answer, error, hsaid, hlast, haborts, hresult, hfollows⟩ := h
  exact ⟨said, request, answer, error, hsaid, hlast, haborts, hresult, hfollows.of_reset⟩

theorem Aborted.map (h : Aborted x tid t history result) (f : α → β) :
    Aborted x tid t history (result.map f) := by
  obtain ⟨said, request, answer, error, hsaid, hlast, haborts, rfl, hfollows⟩ := h
  exact ⟨said, request, answer, error, hsaid, hlast, haborts, rfl, hfollows⟩

end Aborted

/-- The word is said under the identifier of the transaction. Before it has one, nothing but its open
is presented. -/
def SaidUnder (x : Transaction) (tid : Tid) (word : List Exchange) : Prop :=
  x.tid = some tid ∨ x.tid = none ∧ word.length ≤ 1

theorem Said.length_le {x : Transaction} {tid : Tid} {p : Progress} {word : List Exchange}
    (h : Said x tid p word) (hp : p = .silent ∨ p = .opened) : word.length ≤ 1 := by
  rcases hp with rfl | rfl <;> cases h
  · exact Nat.zero_le _
  · exact Nat.le_refl _

theorem Said.eq_nil {x : Transaction} {tid : Tid} {word : List Exchange} (h : Said x tid .silent word) :
    word = [] := by
  cases h
  rfl

theorem Said.written {x : Transaction} {tid : Tid} {r : Nat} {word : List Exchange}
    (h : Said x tid (.reading r) word) : ∃ written, Written x tid written ∧ written <+: word := by
  cases h with
  | reading hw =>
    refine ⟨_, hw, ?_⟩
    rw [List.append_assoc]
    exact List.prefix_append ..

namespace Run

variable {σ : Type} {n m : Nat} {work : Vector Transaction m} {run run' : Run σ n m}
  {history : List (Event m)}

theorem Spoken.saidUnder (h : Spoken work history run) (pool : Pool work run)
    (ready : ∀ t : Fin m, work[t].Ready) {i : Fin n} {t : Fin m}
    (hi : run.slots[i].transaction = some t) :
    SaidUnder run.transactions[t] (run.slots[i].tid.getD 0) (dialogue t history) := by
  cases htid : run.slots[i].tid with
  | some tid => exact .inl (pool.named hi htid)
  | none =>
    refine .inr ⟨?_, (h.held hi).length_le ((pool.stage i).progress_of_tid_eq_none htid)⟩
    rw [pool.unnamed hi htid]
    exact (ready t).tid_eq

theorem Spoken.follows (h : Spoken work history run) (pool : Pool work run)
    (ready : ∀ t : Fin m, work[t].Ready) (t : Fin m) :
    ∃ tid, SaidUnder run.transactions[t] tid (dialogue t history) ∧
      Follows work[t] tid (dialogue t history) := by
  by_cases hpending : run.nextPending ≤ t
  · refine ⟨0, .inr ?_, ?_⟩
    · rw [pool.pending t hpending, h.pending t hpending]
      exact ⟨(ready t).tid_eq, Nat.zero_le _⟩
    · rw [h.pending t hpending]
      exact Said.silent.follows
  by_cases hheld : ∃ i : Fin n, run.slots[i].transaction = some t
  · obtain ⟨i, hi⟩ := hheld
    exact ⟨_, h.saidUnder pool ready hi, (h.held hi).follows⟩
  · obtain ⟨tid, reads, htid, hsaid⟩ := h.done t (Nat.lt_of_not_le hpending) fun i hi => hheld ⟨i, hi⟩
    exact ⟨tid, .inl htid, hsaid.follows⟩

theorem Spoken.follows_of_held {i : Fin n} {t : Fin m} {request : Request} {answer : Response}
    {tid : Tid} (h : Spoken work (history ++ [.issued t request answer]) run)
    (holds : run.slots[i].transaction = some t) (tid_eq : run.slots[i].tid = some tid) :
    Follows work[t] tid (dialogue t history ++ [.request request answer]) := by
  have hsaid := h.held holds
  rw [tid_eq, dialogue_append, dialogue_issued] at hsaid
  exact hsaid.follows

/-- The request that a slot presents is one that the protocol allows next. -/
theorem Spoken.presents (h : Spoken work history run) (pool : Pool work run)
    (ready : ∀ t : Fin m, work[t].Ready) {i : Fin n} {t : Fin m} {request : Request}
    (presents : run.Presents i t request) (answer : Response) :
    ∃ tid, SaidUnder run.transactions[t] tid (dialogue t history ++ [.request request answer]) ∧
      Follows work[t] tid (dialogue t history ++ [.request request (.status .ok)]) := by
  have hok : (Response.status .ok).exitCode = .ok := rfl
  cases presents with
  | opening turn =>
    obtain ⟨u, hs⟩ := (pool.stage i).of_newWrite turn.state
    have hsaid := h.held turn.holds
    have hnone : run.slots[i].tid = none := by rw [hs]; rfl
    rw [hs] at hsaid
    refine ⟨0, .inr ⟨?_, ?_⟩, ?_⟩
    · rw [pool.unnamed turn.holds hnone]
      exact (ready t).tid_eq
    · rw [hsaid.eq_nil]
      exact Nat.le_refl _
    · rw [pool.opening_eq]
      exact (hsaid.openingTaken hok).follows
  | register turn tid_eq entry =>
    have hspoken := h.registered (c := run.client) pool turn tid_eq entry hok
    exact ⟨_, .inl (pool.named turn.holds tid_eq),
      hspoken.follows_of_held (i := i) ((congrArg Slot.transaction (slots_modifySlot_self ..)).trans turn.holds)
        ((congrArg Slot.tid (slots_modifySlot_self ..)).trans tid_eq)⟩
  | element turn tid_eq written entry =>
    have hspoken := h.accepted (c := run.client) pool turn tid_eq written entry rfl hok
    exact ⟨_, .inl (pool.named turn.holds tid_eq),
      hspoken.follows_of_held (i := i) ((congrArg Slot.transaction (slots_modifySlot_self ..)).trans turn.holds)
        ((congrArg Slot.tid (slots_modifySlot_self ..)).trans tid_eq)⟩
  | read turn tid_eq =>
    have hspoken := h.read (c := run.client) pool turn tid_eq hok
    exact ⟨_, .inl (pool.named turn.holds tid_eq),
      hspoken.follows_of_held (i := i) ((congrArg Slot.transaction (slots_modifySlot_self ..)).trans turn.holds)
        ((congrArg Slot.tid (slots_modifySlot_self ..)).trans tid_eq)⟩

/-- When a run succeeds, everything was written on behalf of every transaction. -/
theorem Spoken.written (h : Spoken work history run) (t : Fin m) (ht : t.val < run.nextPending)
    (hn : ∀ i : Fin n, run.slots[i].transaction ≠ some t) :
    ∃ tid, run.transactions[t].tid = some tid ∧
      ∃ written, Written work[t] tid written ∧ written <+: dialogue t history := by
  obtain ⟨tid, reads, htid, hsaid⟩ := h.done t ht hn
  exact ⟨tid, htid, hsaid.written⟩

variable [DrainingChannel σ]

theorem FailedTurn.aborts {event : Event m} {e : SchedulerError} (h : FailedTurn run event e run') :
    ∃ i t request answer error, run.Presents i t request ∧ event = .issued t request answer ∧
      e = .client error ∧ Aborts request answer error ∧ run'.transactions = run.transactions := by
  cases h with
  | refused presents _ fatal => exact ⟨_, _, _, _, _, presents, rfl, rfl, .refused fatal, rfl⟩
  | unexpected presents _ ok data status =>
    exact ⟨_, _, _, _, _, presents, rfl, rfl, .unexpected ok data status, rfl⟩

theorem Ended.follows (ready : ∀ t : Fin m, work[t].Ready) {client : Client σ}
    {result : Except SchedulerError Unit}
    (h : Ended (Run.start client work : Run σ n m) history result run) (t : Fin m) :
    ∃ tid, SaidUnder run.transactions[t] tid (dialogue t history) ∧
      (Follows work[t] tid (dialogue t history) ∨ Aborted work[t] tid t history result) := by
  have hreach : ∀ {history : List (Event m)} {inbox : List Response} {run : Run σ n m},
      Reach (Run.start client work) history inbox run →
        ∃ tid, SaidUnder run.transactions[t] tid (dialogue t history) ∧
          Follows work[t] tid (dialogue t history) := fun reach =>
    (Spoken.of_reach ready reach).follows (Pool.of_reach ready reach) ready t
  cases h with
  | completed reach =>
    obtain ⟨tid, hunder, hfollows⟩ := hreach reach.refill
    exact ⟨tid, hunder, .inl hfollows⟩
  | outOfBudget reach =>
    obtain ⟨tid, hunder, hfollows⟩ := hreach reach.refill
    exact ⟨tid, hunder, .inl hfollows⟩
  | unroutable reach =>
    obtain ⟨tid, hunder, hfollows⟩ := hreach reach
    exact ⟨tid, hunder, .inl hfollows⟩
  | failed reach _ turn =>
    obtain ⟨i, u, request, answer, error, presents, rfl, rfl, haborts, htransactions⟩ := turn.aborts
    rw [htransactions, dialogue_append]
    by_cases htu : u = t
    · subst htu
      obtain ⟨tid, hunder, hfollows⟩ := (Spoken.of_reach ready reach.refill).presents
        (Pool.of_reach ready reach.refill) ready presents answer
      rw [dialogue_issued]
      refine ⟨tid, hunder, .inr ⟨_, request, answer, error, ?_, ?_, haborts, rfl, hfollows⟩⟩
      · rw [dialogue_append, dialogue_issued]
      · rw [List.getLast?_concat]
    · obtain ⟨tid, hunder, hfollows⟩ := hreach reach.refill
      rw [dialogue_issued_ne htu, List.append_nil]
      exact ⟨tid, hunder, .inl hfollows⟩

end Run

namespace Scheduler

open Run

variable {σ : Type} [DrainingChannel σ] {s : Scheduler σ} {batch : Array Transaction}
  {history : List (Event batch.size)} {outcome : Outcome} {client : Client σ}

theorem Transcript.follows (h : s.Transcript batch history outcome client) (t : Fin batch.size) :
    ∃ x tid, outcome.transactions[t.val]? = some x ∧ SaidUnder x tid (dialogue t history) ∧
      (Follows batch[t] tid (dialogue t history) ∨
        Aborted batch[t] tid t history outcome.result) := by
  have hsilent : ∃ x tid, batch[t.val]? = some x ∧ SaidUnder x tid [] ∧ Follows batch[t] tid [] := by
    refine ⟨batch[t], batch[t].tid.getD 0, Array.getElem?_eq_getElem t.isLt, ?_, Said.silent.follows⟩
    cases htid : batch[t].tid with
    | some tid => exact .inl htid
    | none => exact .inr ⟨htid, Nat.zero_le _⟩
  cases h with
  | invalid =>
    obtain ⟨x, tid, hx, hunder, hfollows⟩ := hsilent
    exact ⟨x, tid, hx, hunder, .inl hfollows⟩
  | noCapacity =>
    obtain ⟨x, tid, hx, hunder, hfollows⟩ := hsilent
    exact ⟨x, tid, hx, hunder, .inl hfollows⟩
  | @ran _ result run valid _ ended =>
    obtain ⟨tid, hunder, hfollows⟩ := ended.follows (ready_of_validate valid) t
    refine ⟨run.transactions[t], tid, by simp, hunder, hfollows.imp (fun hf => ?_) fun ha => ?_⟩
    · rw [getElem_work] at hf
      exact hf.of_reset
    · rw [getElem_work] at ha
      exact ha.of_reset.map _

/-- When the run of a batch succeeds, every transaction was written as a whole. -/
theorem Transcript.written (h : s.Transcript batch history outcome client) {report : RunReport}
    (result : outcome.result = .ok report) (t : Fin batch.size) :
    ∃ x tid, outcome.transactions[t.val]? = some x ∧ x.tid = some tid ∧
      ∃ written, Written batch[t] tid written ∧ written <+: dialogue t history := by
  cases h with
  | invalid => cases result
  | noCapacity => cases result
  | @ran _ _ run valid room ended =>
    cases ended with
    | outOfBudget => cases result
    | failed => cases result
    | unroutable => cases result
    | @completed _ run reach _ idle =>
      have ready := ready_of_validate valid
      obtain ⟨hlt, hleft⟩ := (Pool.of_reach ready reach.refill).left_of_idle
        (fun hpos => Nat.lt_min.2 ⟨hpos, room hpos⟩) idle t
      obtain ⟨tid, htid, written, hwritten, hprefix⟩ :=
        (Spoken.of_reach ready reach.refill).written t hlt hleft
      rw [getElem_work] at hwritten
      exact ⟨run.refill.transactions[t], tid, by simp, htid, written, hwritten.of_reset, hprefix⟩

/-- Whatever the channel answers and however the run ends, the requests on behalf of a transaction
come in the order of the protocol, and the history of the run has all that the channel was asked. -/
theorem requests_follow_protocol (s : Scheduler σ) (batch : Array Transaction) :
    (∃ history, s.Transcript batch history (s.run batch).1 (s.run batch).2.client) ∧
      ∀ history, s.Transcript batch history (s.run batch).1 (s.run batch).2.client →
        (∃ before, (before = s.client.channel ∨ before = s.informed.channel) ∧
          Event.Play history before (s.run batch).2.client.channel) ∧
        ∀ t : Fin batch.size, ∃ x tid, (s.run batch).1.transactions[t.val]? = some x ∧
          SaidUnder x tid (dialogue t history) ∧
          (Follows batch[t] tid (dialogue t history) ∨
            Aborted batch[t] tid t history (s.run batch).1.result) ∧
          ((∃ report, (s.run batch).1.result = .ok report) →
            ∃ written, Written batch[t] tid written ∧ written <+: dialogue t history) := by
  refine ⟨s.exists_transcript batch, fun history h => ⟨h.play, fun t => ?_⟩⟩
  obtain ⟨x, tid, hx, hunder, hfollows⟩ := h.follows t
  refine ⟨x, tid, hx, hunder, hfollows, ?_⟩
  rintro ⟨report, hok⟩
  obtain ⟨y, other, hy, hother, written, hwritten, hprefix⟩ := h.written hok t
  obtain rfl : x = y := Option.some.inj (hx.symm.trans hy)
  obtain rfl : other = tid := by
    obtain htid | ⟨hnone, -⟩ := hunder
    · exact Option.some.inj (hother.symm.trans htid)
    · rw [hother] at hnone
      cases hnone
  exact ⟨written, hwritten, hprefix⟩

end Scheduler

end NeuralEngine
