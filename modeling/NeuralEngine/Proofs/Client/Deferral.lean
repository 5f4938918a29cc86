import NeuralEngine.Proofs.Client.Asking

/-!
# Waits for a deferred response

A client that waits polls, and steps the engine after each poll that yields nothing, until a response is there or it
has polled as often as the retry limit allows. `WaitEnds` lists the ways in which that can end, with what was asked
until then.
-/

namespace NeuralEngine.Client

variable {σ : Type}

/-- Polls that yield nothing, with a step after each of them. -/
def emptyPolls (n : Nat) : List Access :=
  (List.replicate n [.poll none, .step]).flatten

theorem emptyPolls_succ (n : Nat) : emptyPolls (n + 1) = [.poll none, .step] ++ emptyPolls n := rfl

theorem mem_emptyPolls {n : Nat} {a : Access} (h : a ∈ emptyPolls n) : a = .poll none ∨ a = .step := by
  obtain ⟨pair, hpair, ha⟩ := List.mem_flatten.1 h
  obtain rfl := List.eq_of_mem_replicate hpair
  simpa using ha

/-- How a wait ends. -/
inductive WaitEnds (attempts : Nat) : List Access → Except ClientError Response → Prop where
  /-- A response comes that is in order. -/
  | arrived {n : Nat} {response : Response} (room : n < attempts) (code : response.exitCode = .ok) :
      WaitEnds attempts (emptyPolls n ++ [.poll (some response)]) (.ok response)
  /-- A response comes with another code. -/
  | refused {n : Nat} {response : Response} (room : n < attempts) (code : response.exitCode ≠ .ok) :
      WaitEnds attempts (emptyPolls n ++ [.poll (some response)]) (.error (.engine response.exitCode))
  /-- No response comes. -/
  | exhausted : WaitEnds attempts (emptyPolls attempts) (.error .retryLimitExceeded)

/-- One more poll before the others, which yields nothing. -/
theorem WaitEnds.cons {attempts : Nat} {asked : List Access} {result : Except ClientError Response}
    (h : WaitEnds attempts asked result) : WaitEnds (attempts + 1) ([.poll none, .step] ++ asked) result := by
  cases h with
  | arrived room code =>
    rw [← List.append_assoc, ← emptyPolls_succ]
    exact .arrived (Nat.succ_lt_succ room) code
  | refused room code =>
    rw [← List.append_assoc, ← emptyPolls_succ]
    exact .refused (Nat.succ_lt_succ room) code
  | exhausted => exact .exhausted

variable [Channel σ]

theorem asking_awaitWithin (attempts : Nat) (c : Client (Traced σ)) :
    ∃ asked result, WaitEnds attempts asked result ∧ Asking (awaitWithin attempts) c asked result := by
  induction attempts generalizing c with
  | zero => exact ⟨_, _, .exhausted, .throw _ _⟩
  | succ attempts ih =>
    obtain ⟨answer, hpoll⟩ := Asking.poll c
    cases answer with
    | none =>
      obtain ⟨asked, result, hends, hmore⟩ := ih (after idle (after poll c))
      exact ⟨_, result, hends.cons, hpoll.bind ((Asking.idle _).bind hmore)⟩
    | some response =>
      obtain ⟨hcode, haccept⟩ | ⟨hcode, haccept⟩ := Asking.accept response (after poll c)
      · exact ⟨_, _, .arrived (n := 0) (Nat.succ_pos _) hcode, hpoll.bind_quiet haccept⟩
      · exact ⟨_, _, .refused (n := 0) (Nat.succ_pos _) hcode, hpoll.bind_quiet haccept⟩

theorem asking_awaitDeferred (c : Client (Traced σ)) :
    ∃ asked result, WaitEnds c.retryLimit asked result ∧ Asking awaitDeferred c asked result := by
  obtain ⟨asked, result, hends, h⟩ := asking_awaitWithin c.retryLimit c
  exact ⟨asked, result, hends, h.limited⟩

end NeuralEngine.Client
