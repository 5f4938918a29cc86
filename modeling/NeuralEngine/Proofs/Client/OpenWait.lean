import NeuralEngine.Proofs.Client.Asking
import NeuralEngine.Proofs.Simulator.Performs

/-!
# How long an open waits

An open whose answer is deferred succeeds if the identifier comes before its last poll. The steps until a response
comes are counted by `Arrives`, which only depends on the channel, and `outcome_openTransaction_ok_iff` compares them
with the retry limit. Over a simulator that holds nothing back, they are the delay of the identifiers, unless the
clock overflows.
-/

namespace NeuralEngine

/-- The first response that the channel yields to polls comes after so many steps, with a poll before each. -/
def Arrives {σ : Type} [Channel σ] (r : Response) : Nat → σ → Prop
  | 0, s => (Channel.poll s).1 = some r
  | i + 1, s => (Channel.poll s).1 = none ∧ Arrives r i (Channel.step (Channel.poll s).2)

/-- The response assigns the identifier to an open. -/
def Response.AssignsTid (tid : Tid) (r : Response) : Prop :=
  r.exitCode = .ok ∧ r.kind? = some .tid ∧ r.tid = tid

section Arrives

variable {σ : Type} [Channel σ] {s : σ} {r : Response} {limit : Nat}

theorem exists_arrives_of_poll {response : Response} (h : (Channel.poll s).1 = some response) :
    (∃ i < limit + 1, Arrives r i s) ↔ response = r := by
  constructor
  · rintro ⟨_ | i, -, harrives⟩
    · exact Option.some.inj (h.symm.trans harrives)
    · cases h.symm.trans harrives.1
  · rintro rfl
    exact ⟨0, Nat.succ_pos _, h⟩

theorem exists_arrives_of_poll_none (h : (Channel.poll s).1 = none) :
    (∃ i < limit + 1, Arrives r i s) ↔ ∃ i < limit, Arrives r i (Channel.step (Channel.poll s).2) := by
  constructor
  · rintro ⟨_ | i, hi, harrives⟩
    · cases h.symm.trans harrives
    · exact ⟨i, Nat.lt_of_succ_lt_succ hi, harrives.2⟩
  · rintro ⟨i, hi, harrives⟩
    exact ⟨i + 1, Nat.succ_lt_succ hi, h, harrives⟩

end Arrives

namespace Client

variable {σ : Type}

theorem outcome_accept_ok_iff {response r : Response} {c : Client σ} :
    outcome (accept response) c = .ok r ↔ r.exitCode = .ok ∧ response = r := by
  by_cases hok : response.exitCode = .ok
  · rw [accept_of_ok hok]
    constructor
    · rintro ⟨⟩
      exact ⟨hok, rfl⟩
    · rintro ⟨-, rfl⟩
      rfl
  · rw [accept_of_ne hok]
    constructor
    · nofun
    · rintro ⟨h, rfl⟩
      exact absurd h hok

/-- The identifier of a response, which has to be of that kind. -/
theorem outcome_tid_ok_iff {r : Response} {c : Client σ} {tid : Tid} :
    outcome (if r.kind? = some .tid then pure r.tid else throw .unexpectedResponse : ClientM σ Tid) c = .ok tid ↔
      r.kind? = some .tid ∧ r.tid = tid := by
  split
  · next hkind =>
    constructor
    · rintro ⟨⟩
      exact ⟨hkind, rfl⟩
    · rintro ⟨-, rfl⟩
      rfl
  · next hkind => exact ⟨nofun, fun h => absurd h.1 hkind⟩

variable [Channel σ]

/-- A wait succeeds if a response that is in order comes before its last poll. -/
theorem outcome_awaitWithin_ok_iff (attempts : Nat) (c : Client σ) (r : Response) :
    outcome (awaitWithin attempts) c = .ok r ↔ r.exitCode = .ok ∧ ∃ i < attempts, Arrives r i c.channel := by
  induction attempts generalizing c with
  | zero =>
    constructor
    · nofun
    · rintro ⟨-, i, hi, -⟩
      exact absurd hi (Nat.not_lt_zero i)
  | succ attempts ih =>
    cases hanswer : (Channel.poll c.channel).1 with
    | some response =>
      have hpoll : outcome poll c = .ok (some response) := congrArg Except.ok hanswer
      have hawait : outcome (awaitWithin (attempts + 1)) c = outcome (accept response) (after poll c) :=
        (bind_of_outcome_ok hpoll).1
      rw [hawait, outcome_accept_ok_iff, exists_arrives_of_poll hanswer]
    | none =>
      have hpoll : outcome poll c = .ok none := congrArg Except.ok hanswer
      have hawait : outcome (awaitWithin (attempts + 1)) c =
          outcome (awaitWithin attempts) (after idle (after poll c)) :=
        (bind_of_outcome_ok hpoll).1
      rw [hawait, ih, exists_arrives_of_poll_none hanswer]
      rfl

theorem issueOpen_of_ok {nnid : Nnid} {mode : LearningMode} {trainOutputs : BitVec 16} {c : Client σ}
    (ok : (Channel.issue (.newTransaction nnid mode trainOutputs) c.channel).1.exitCode = .ok) :
    issueOpen nnid mode trainOutputs c =
      .ok (Channel.issue (.newTransaction nnid mode trainOutputs) c.channel).1
        { c with channel := (Channel.issue (.newTransaction nnid mode trainOutputs) c.channel).2 } := by
  change accept (Channel.issue (.newTransaction nnid mode trainOutputs) c.channel).1 _ = _
  rw [accept_of_ok ok]
  rfl

/-- An open succeeds if the identifier comes with the answer, or, if the answer is a bare `ok`, before the last
poll. -/
theorem outcome_openTransaction_ok_iff (nnid : Nnid) (mode : LearningMode) (trainOutputs : BitVec 16)
    (c : Client σ) (tid : Tid) :
    let asked := Channel.issue (.newTransaction nnid mode trainOutputs) c.channel
    outcome (openTransaction nnid mode trainOutputs) c = .ok tid ↔
      asked.1.AssignsTid tid ∨
        asked.1.exitCode = .ok ∧ asked.1.kind? = some .status ∧
          ∃ i < c.retryLimit, ∃ r, Arrives r i asked.2 ∧ r.AssignsTid tid := by
  intro asked
  rw [openTransaction_eq, outcome_bind_ok_iff]
  by_cases hok : asked.1.exitCode = .ok
  swap
  · constructor
    · rintro ⟨answer, hopen, -⟩
      obtain ⟨hasks, hcode⟩ := issueOpen_ok (eq_ok_of_outcome hopen)
      exact absurd (congrArg (·.1.exitCode) hasks ▸ hcode) hok
    · rintro (h | h)
      · exact absurd h.1 hok
      · exact absurd h.1 hok
  have hopen := issueOpen_of_ok hok
  have houtcome : outcome (issueOpen nnid mode trainOutputs) c = .ok asked.1 := by
    unfold outcome
    rw [hopen]
  have hafter : after (issueOpen nnid mode trainOutputs) c = { c with channel := asked.2 } := by
    unfold after
    rw [hopen]
  simp only [houtcome, hafter, Except.ok.injEq, exists_eq_left', outcome_bind_ok_iff, outcome_tid_ok_iff]
  by_cases hstatus : asked.1.kind? = some .status
  · have hwait : outcome awaitDeferred { c with channel := asked.2 } =
        outcome (awaitWithin c.retryLimit) { c with channel := asked.2 } := rfl
    simp only [if_pos hstatus, hwait, outcome_awaitWithin_ok_iff]
    constructor
    · rintro ⟨r, ⟨hcode, i, hi, harrives⟩, hkind, htid⟩
      exact .inr ⟨hok, hstatus, i, hi, r, harrives, hcode, hkind, htid⟩
    · rintro (h | ⟨-, -, i, hi, r, harrives, hcode, hkind, htid⟩)
      · cases hstatus.symm.trans h.2.1
      · exact ⟨r, ⟨hcode, i, hi, harrives⟩, hkind, htid⟩
  · simp only [if_neg hstatus]
    constructor
    · rintro ⟨r, ⟨⟩, hkind, htid⟩
      exact .inl ⟨hok, hkind, htid⟩
    · rintro (h | h)
      · exact ⟨asked.1, rfl, h.2⟩
      · exact absurd h.2.1 hstatus

end Client

/-! ## Over a simulator -/

namespace Simulator

variable {s s' : Simulator} {request : Request} {answer r : Response} {d : Deferred} {i delay : Nat}

theorem poll_of_deferred_eq (deferred : s.deferred = [d]) :
    s.poll.1 = (if d.due ≤ s.cycle then some d.response else none) ∧ (s.cycle < d.due → s.poll.2 = s) := by
  unfold poll
  rw [deferred, List.find?_singleton]
  by_cases hdue : d.due ≤ s.cycle
  · simp [isDue, hdue, Nat.not_lt.2 hdue]
  · simp [isDue, hdue]

/-- The only response held back arrives when it is due. -/
theorem arrives_iff (deferred : s.deferred = [d]) : Arrives r i s ↔ d.response = r ∧ i = d.due - s.cycle := by
  obtain ⟨hpoll, hstays⟩ := poll_of_deferred_eq deferred
  induction i generalizing s with
  | zero =>
    have harrives : Arrives r 0 s ↔ s.poll.1 = some r := Iff.rfl
    rw [harrives, hpoll]
    split
    · simp; omega
    · simp; omega
  | succ i ih =>
    have harrives : Arrives r (i + 1) s ↔ s.poll.1 = none ∧ Arrives r i s.poll.2.tick := Iff.rfl
    rw [harrives, hpoll]
    split
    · simp; omega
    · next hdue =>
      have hlater : s.cycle < d.due := Nat.lt_of_not_le hdue
      have hdeferred : s.tick.deferred = [d] := deferred
      obtain ⟨hpoll', hstays'⟩ := poll_of_deferred_eq hdeferred
      rw [hstays hlater, ih hdeferred hpoll' hstays']
      have hcycle : s.tick.cycle = s.cycle + 1 := rfl
      simp; omega

/-- An open that is accepted holds the identifier back for as long as identifiers are deferred. -/
theorem deferred_of_open (op : request.op? = some .newRequest) (tidDelay : s.options.tidDelay = some delay)
    (h : s.issue request = (answer, s')) (ok : answer.exitCode = .ok) :
    answer = .status .ok ∧
      ∃ tid r, r.AssignsTid tid ∧
        s'.deferred = s.deferred ++ [⟨s.options.clock.count (s.cycle + 1 + delay), r⟩] ∧
        s'.cycle = s.cycle + 1 := by
  obtain ⟨code, hrefused, rfl, -⟩ | hperform := issue_cases h
  · rw [Response.exitCode_status] at ok
    exact absurd ok (ExitCode.ne_ok_of_isFatal (perform_error hrefused))
  cases performs_of_ok hperform with
  | exhausted => cases ok
  | @opened o tid next _ t _ _ _ respond =>
    cases hr : Response.tidAssigned? o.asid tid with
    | none =>
      rw [hr] at respond
      cases respond
      cases ok
    | some r =>
      obtain ⟨hok, hkind, htid⟩ := Response.of_tidAssigned hr
      have hdelay : (s.record request).options.tidDelay = some delay := tidDelay
      rw [hr, hdelay] at respond
      cases respond
      exact ⟨rfl, tid, r, ⟨hok, hkind, htid⟩, rfl, rfl⟩
  | registered _ _ op' | notDone _ op' | read _ _ _ op' => cases op.symm.trans op'
  | busy _ last op' | enqueued _ last op' => cases last <;> cases op.symm.trans op'

end Simulator

/-- Over a simulator that holds nothing back, an open that is accepted succeeds if, and only if, identifiers are
deferred by fewer steps than the client has polls, as long as the clock can count these steps. -/
theorem Client.openTransaction_succeeds_iff {c : Client Simulator} {nnid : Nnid} {mode : LearningMode}
    {trainOutputs : BitVec 16} {delay : Nat} (deferred : c.channel.deferred = [])
    (tidDelay : c.channel.options.tidDelay = some delay)
    (reaches : c.channel.options.clock.Reaches (c.channel.cycle + 1 + delay))
    (accepted : (c.channel.issue (.newTransaction nnid mode trainOutputs)).1.exitCode = .ok) :
    (∃ tid, outcome (openTransaction nnid mode trainOutputs) c = .ok tid) ↔ delay < c.retryLimit := by
  have hissue : c.channel.issue (.newTransaction nnid mode trainOutputs) =
      ((c.channel.issue (.newTransaction nnid mode trainOutputs)).1,
        (c.channel.issue (.newTransaction nnid mode trainOutputs)).2) := rfl
  obtain ⟨hanswer, own, r, hr, hdeferred, hcycle⟩ :=
    Simulator.deferred_of_open (Request.op?_newTransaction nnid mode trainOutputs) tidDelay hissue accepted
  rw [deferred, List.nil_append, reaches.count_eq, ← hcycle] at hdeferred
  have harrives : ∀ r' i, Arrives r' i (Channel.issue (.newTransaction nnid mode trainOutputs) c.channel).2 ↔
      r = r' ∧ i = delay := by
    intro r' i
    have h := Simulator.arrives_iff (r := r') (i := i) hdeferred
    rwa [Nat.add_sub_cancel_left] at h
  constructor
  · rintro ⟨tid, htid⟩
    obtain h | ⟨-, -, i, hi, r', harrived, -⟩ :=
      (outcome_openTransaction_ok_iff nnid mode trainOutputs c tid).1 htid
    · cases (congrArg Response.kind? hanswer).symm.trans h.2.1
    · exact ((harrives r' i).1 harrived).2 ▸ hi
  · intro hlt
    refine ⟨own, (outcome_openTransaction_ok_iff nnid mode trainOutputs c own).2 (.inr ⟨accepted, ?_, ?_⟩)⟩
    · exact congrArg Response.kind? hanswer
    · exact ⟨delay, hlt, r, (harrives r delay).2 ⟨rfl, rfl⟩, hr⟩

end NeuralEngine
