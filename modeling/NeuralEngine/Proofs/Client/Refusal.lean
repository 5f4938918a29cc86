import NeuralEngine.Proofs.Channel.Traced
import NeuralEngine.Proofs.Client.Attempt

/-!
# Calls that turn their arguments down

A call may refuse what it is asked for: a sample without inputs, more expected outputs than an open can
announce, a cancellation. The same errors could come from a call inside of it, after requests were
presented. They never do: once the arguments are accepted, a call fails with what the engine answers or
with the end of its attempts only.
-/

namespace NeuralEngine

/-- The arguments of the call were turned down. -/
def ClientError.isRefusal : ClientError → Bool
  | emptyInput | tooManyOutputs | cancellationUnsupported => true
  | engine _ | unexpectedResponse | retryLimitExceeded => false

namespace Client

variable {σ α : Type}

/-- The computation fails with no refusal. -/
abbrev Accepted (x : ClientM σ α) : Prop :=
  Beside Eq (fun e => e.isRefusal = false) x x

theorem accepted_of {x : ClientM σ α} (h : ∀ {c d e}, x c = .error e d → e.isRefusal = false) : Accepted x := by
  rintro c - rfl
  cases hx : x c with
  | ok a d => exact .ok rfl
  | error e d => exact .error (h hx) rfl

theorem Accepted.error {x : ClientM σ α} (h : Accepted x) {c d : Client σ} {e : ClientError}
    (hx : x c = .error e d) : e.isRefusal = false := by
  have hsame := h c c rfl
  rw [hx] at hsame
  cases hsame with
  | error arises => exact arises

/-- A call, over a channel and over the channel with a trace: if it turns its arguments down, the client
is as it was and the trace is empty. -/
def RefusesAtOnce (call : ClientM σ α) (traced : ClientM (Traced σ) α) : Prop :=
  ∀ (c d : Client σ) (e : ClientError), call c = .error e d → e.isRefusal = true →
    d = c ∧ traced c.traced = .error e c.traced

/-- A call either turns its arguments down before it does anything, or never. -/
theorem RefusesAtOnce.of_cases {call : ClientM σ α} {traced : ClientM (Traced σ) α}
    (h : (∃ e, call = throw e ∧ traced = throw e) ∨ Accepted call) : RefusesAtOnce call traced := by
  intro c d e hcall hrefusal
  obtain ⟨e', rfl, rfl⟩ | haccepted := h
  · cases hcall
    exact ⟨rfl, rfl⟩
  · rw [haccepted.error hcall] at hrefusal
    cases hrefusal

variable [Channel σ]

/-- No attempt of a client turns its arguments down, so neither does a call that got as far as that. -/
theorem couples_accepted : Couples (Eq : Client σ → Client σ → Prop) fun e => e.isRefusal = false where
  retryLimit h := h ▸ rfl
  unexpectedResponse := rfl
  retryLimitExceeded := rfl
  idle := accepted_of fun h => by cases h
  capability := accepted_of fun h => by cases h
  isDone _ := accepted_of fun h => (isDone_error h).elim
  poll := accepted_of fun h => (poll_error h).elim
  await h := by
    refine Beside.bind (accepted_of fun h => (poll_error h).elim) fun answer => ?_
    cases answer with
    | none => exact h
    | some response =>
      refine accepted_of fun h => ?_
      obtain ⟨-, rfl, -⟩ := accept_error h
      rfl
  issueOpen _ _ _ := accepted_of fun h => by
    obtain ⟨_, -, -, rfl⟩ := issueOpen_error h
    rfl
  writeRegister _ _ _ := accepted_of fun h => by
    obtain ⟨_, -, -, rfl⟩ := writeRegister_error h
    rfl
  tryWrite _ _ _ := accepted_of fun h => by
    obtain ⟨_, -, -, -, rfl⟩ := tryWrite_error h
    rfl
  tryRead _ := accepted_of fun h => by
    obtain ⟨_, -, ⟨-, -, rfl⟩ | ⟨-, -, -, rfl⟩⟩ := tryRead_error h <;> rfl

/-! ## The calls that check their arguments -/

theorem refusesAtOnce_writeAll (tid : Tid) (values : List Element) :
    RefusesAtOnce (writeAll tid values : ClientM σ Unit) (writeAll tid values) := by
  by_cases hempty : values = []
  · subst hempty
    exact .of_cases (.inl ⟨_, rfl, rfl⟩)
  · exact .of_cases (.inr (couples_accepted.composes.writeAll tid fun h => absurd h hempty))

theorem refusesAtOnce_writeTraining (tid : Tid) (inputs expected : List Element) :
    RefusesAtOnce (writeTraining tid inputs expected : ClientM σ Unit) (writeTraining tid inputs expected) := by
  by_cases hempty : inputs = []
  · exact .of_cases (.inl ⟨_, if_pos hempty, if_pos hempty⟩)
  · exact .of_cases (.inr (couples_accepted.composes.writeTraining tid fun h => absurd h hempty))

theorem refusesAtOnce_feedforward (nnid : Nnid) (inputs : List Element) (n : Nat) :
    RefusesAtOnce (feedforward nnid inputs n : ClientM σ _) (feedforward nnid inputs n) := by
  by_cases hempty : inputs = []
  · exact .of_cases (.inl ⟨_, if_pos hempty, if_pos hempty⟩)
  · exact .of_cases (.inr (couples_accepted.composes.feedforward nnid n fun h => absurd h hempty))

theorem refusesAtOnce_trainIncremental (nnid : Nnid) (inputs expected : List Element) :
    RefusesAtOnce (trainIncremental nnid inputs expected : ClientM σ _)
      (trainIncremental nnid inputs expected) := by
  by_cases hempty : inputs = []
  · exact .of_cases (.inl ⟨_, if_pos hempty, if_pos hempty⟩)
  by_cases hmany : 2 ^ 16 ≤ expected.length
  · refine .of_cases (.inl ⟨.tooManyOutputs, ?_, ?_⟩) <;>
      exact (if_neg hempty).trans (if_pos hmany)
  · exact .of_cases (.inr (couples_accepted.composes.trainIncremental nnid (fun h => absurd h hempty)
      fun h => absurd h hmany))

theorem refusesAtOnce_runCompare (nnid : Nnid) (inputs expected : List Element) (numInputs numOutputs : Nat) :
    RefusesAtOnce (runCompare nnid inputs expected numInputs numOutputs : ClientM σ _)
      (runCompare nnid inputs expected numInputs numOutputs) := by
  by_cases hempty : numInputs = 0 ∨ numOutputs = 0
  · exact .of_cases (.inl ⟨_, if_pos hempty, if_pos hempty⟩)
  · exact .of_cases (.inr (couples_accepted.composes.runCompare nnid _ _ fun h => absurd h hempty))

theorem refusesAtOnce_feedforwardPrimed (nnid : Nnid) (samples : List (List Element)) (n : Nat) :
    RefusesAtOnce (feedforwardPrimed nnid samples n : ClientM σ _) (feedforwardPrimed nnid samples n) := by
  by_cases hempty : [] ∈ samples
  · exact .of_cases (.inl ⟨_, if_pos hempty, if_pos hempty⟩)
  · exact .of_cases (.inr (couples_accepted.composes.feedforwardPrimed nnid n fun h => absurd h hempty))

omit [Channel σ] in
theorem refusesAtOnce_kill (tid : Tid) : RefusesAtOnce (kill tid : ClientM σ Unit) (kill tid) :=
  .of_cases (.inl ⟨_, rfl, rfl⟩)

end Client

end NeuralEngine
