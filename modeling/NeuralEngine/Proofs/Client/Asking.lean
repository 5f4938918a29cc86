import NeuralEngine.Proofs.Channel.Traced
import NeuralEngine.Proofs.Client.Session

/-!
# What a call asks

`outcome` is what a call comes to and `callTrace` what it asks its channel on the way. `Asking` has both for a call
over a traced channel, and its rules follow the call as it is put together: what a call asks is what its parts ask,
in order, up to the part that fails.
-/

namespace NeuralEngine.Client

variable {σ α β : Type}

/-- What a call comes to. -/
def outcome (call : ClientM σ α) (c : Client σ) : Except ClientError α :=
  match call c with
  | .ok a _ => .ok a
  | .error e _ => .error e

section Bind

variable {x : ClientM σ α} {f : α → ClientM σ β} {c : Client σ} {a : α} {e : ClientError}

theorem eq_ok_of_outcome (h : outcome x c = .ok a) : x c = .ok a (after x c) := by
  unfold outcome at h
  unfold after
  split at h
  · next hx =>
    cases h
    rw [hx]
  · cases h

theorem eq_error_of_outcome (h : outcome x c = .error e) : x c = .error e (after x c) := by
  unfold outcome at h
  unfold after
  split at h
  · cases h
  · next hx =>
    cases h
    rw [hx]

theorem bind_of_outcome_ok (h : outcome x c = .ok a) :
    outcome (x >>= f) c = outcome (f a) (after x c) ∧ after (x >>= f) c = after (f a) (after x c) := by
  have hbind : (x >>= f) c = f a (after x c) := by
    simp only [Bind.bind, EStateM.bind]
    rw [eq_ok_of_outcome h]
  exact ⟨by simp only [outcome, hbind], by simp only [after, hbind]⟩

theorem bind_of_outcome_error (h : outcome x c = .error e) :
    outcome (x >>= f) c = .error e ∧ after (x >>= f) c = after x c := by
  have hbind : (x >>= f) c = .error e (after x c) := by
    simp only [Bind.bind, EStateM.bind]
    rw [eq_error_of_outcome h]
  exact ⟨by simp only [outcome, hbind], by simp only [after, hbind]⟩

theorem outcome_bind_ok_iff {b : β} :
    outcome (x >>= f) c = .ok b ↔ ∃ a, outcome x c = .ok a ∧ outcome (f a) (after x c) = .ok b := by
  constructor
  · intro h
    cases hx : outcome x c with
    | error e =>
      rw [(bind_of_outcome_error hx).1] at h
      cases h
    | ok a =>
      rw [(bind_of_outcome_ok hx).1] at h
      exact ⟨a, rfl, h⟩
  · rintro ⟨a, hx, h⟩
    exact (bind_of_outcome_ok hx).1.trans h

end Bind

/-- What the channel is asked in a call. -/
def callTrace (call : ClientM (Traced σ) α) (c : Client σ) : List Access :=
  (after call c.traced).channel.trace

/-- Over a channel with a trace, the call asks what is listed and comes to the result; its retry limit stays. -/
structure Asking (call : ClientM (Traced σ) α) (c : Client (Traced σ)) (asked : List Access)
    (result : Except ClientError α) : Prop where
  outcome : outcome call c = result
  trace : (after call c).channel.trace = c.channel.trace ++ asked
  retryLimit : (after call c).retryLimit = c.retryLimit

namespace Asking

protected theorem pure (a : α) (c : Client (Traced σ)) : Asking (pure a) c [] (.ok a) :=
  ⟨rfl, (List.append_nil _).symm, rfl⟩

protected theorem throw (e : ClientError) (c : Client (Traced σ)) :
    Asking (throw e : ClientM (Traced σ) α) c [] (.error e) :=
  ⟨rfl, (List.append_nil _).symm, rfl⟩

protected theorem count (f : Statistics → Statistics) (c : Client (Traced σ)) : Asking (count f) c [] (.ok ()) :=
  ⟨rfl, (List.append_nil _).symm, rfl⟩

variable {c : Client (Traced σ)} {x : ClientM (Traced σ) α} {f : α → ClientM (Traced σ) β}
  {asked more : List Access} {a : α} {e : ClientError} {result : Except ClientError β}

theorem bind (first : Asking x c asked (.ok a)) (rest : Asking (f a) (after x c) more result) :
    Asking (x >>= f) c (asked ++ more) result := by
  obtain ⟨houtcome, hafter⟩ := bind_of_outcome_ok (f := f) first.outcome
  refine ⟨houtcome.trans rest.outcome, ?_, ?_⟩
  · rw [hafter, rest.trace, first.trace, List.append_assoc]
  · rw [hafter, rest.retryLimit, first.retryLimit]

/-- Nothing more is asked. -/
theorem bind_quiet (first : Asking x c asked (.ok a)) (rest : Asking (f a) (after x c) [] result) :
    Asking (x >>= f) c asked result := by
  have h := first.bind rest
  rwa [List.append_nil] at h

theorem bind_error (first : Asking x c asked (.error e)) : Asking (x >>= f) c asked (.error e) := by
  obtain ⟨houtcome, hafter⟩ := bind_of_outcome_error (f := f) first.outcome
  exact ⟨houtcome, hafter ▸ first.trace, hafter ▸ first.retryLimit⟩

protected theorem fatal (code : ExitCode) (c : Client (Traced σ)) :
    Asking (fatal code : ClientM (Traced σ) α) c [] (.error (.engine code)) :=
  (Asking.count _ c).bind (.throw _ _)

protected theorem issue [Channel σ] (request : Request) (c : Client (Traced σ)) :
    ∃ answer, Asking (issue request) c [.issue request answer] (.ok answer) :=
  ⟨_, rfl, rfl, rfl⟩

protected theorem poll [Channel σ] (c : Client (Traced σ)) :
    ∃ answer, Asking poll c [.poll answer] (.ok answer) :=
  ⟨_, rfl, rfl, rfl⟩

protected theorem idle [Channel σ] (c : Client (Traced σ)) : Asking idle c [.step] (.ok ()) :=
  ⟨rfl, rfl, rfl⟩

/-- A response is passed on, or its code is. -/
theorem accept (response : Response) (c : Client (Traced σ)) :
    response.exitCode = .ok ∧ Asking (accept response) c [] (.ok response) ∨
      response.exitCode ≠ .ok ∧ Asking (accept response) c [] (.error (.engine response.exitCode)) := by
  by_cases hok : response.exitCode = .ok
  · refine .inl ⟨hok, ?_⟩
    rw [accept_of_ok hok]
    exact .pure _ _
  · refine .inr ⟨hok, ?_⟩
    rw [accept_of_ne hok]
    exact .fatal _ _

/-- A computation that goes by the retry limit. -/
theorem limited {call : Nat → ClientM (Traced σ) α} {result : Except ClientError α}
    (h : Asking (call c.retryLimit) c asked result) :
    Asking (do call (← MonadState.get).retryLimit) c asked result :=
  ⟨h.outcome, h.trace, h.retryLimit⟩

end Asking

/-- A call over the channel comes to what it comes to over the channel with a trace. -/
theorem outcome_traced {call : ClientM σ α} {traced : ClientM (Traced σ) α}
    (h : Beside (Traces (σ := σ)) (fun _ => True) call traced) (c : Client σ) :
    outcome traced c.traced = outcome call c := by
  have hsame := h c c.traced rfl
  unfold outcome
  generalize call c = bare at hsame ⊢
  generalize traced c.traced = recorded at hsame ⊢
  cases hsame <;> rfl

end NeuralEngine.Client
