/-!
# Inverting computations

Client calls and the parts of a run are computations on a state that keep what they did when they
fail. The lemmas here take a computation apart along its result: a sequence succeeds if both parts
do, and it fails in its first part or, after that, in its second.
-/

namespace NeuralEngine.Inversion

variable {ε σ α β : Type} {s t : σ}

@[simp] theorem bind_ok_iff {x : EStateM ε σ α} {f : α → EStateM ε σ β} {b : β} :
    (x >>= f) s = .ok b t ↔ ∃ a u, x s = .ok a u ∧ f a u = .ok b t := by
  simp only [bind, EStateM.bind]
  cases x s with
  | error d u => simp
  | ok a u =>
    constructor
    · intro h
      exact ⟨a, u, rfl, h⟩
    · rintro ⟨_, _, ⟨⟩, h⟩
      exact h

@[simp] theorem bind_error_iff {x : EStateM ε σ α} {f : α → EStateM ε σ β} {e : ε} :
    (x >>= f) s = .error e t ↔ x s = .error e t ∨ ∃ a u, x s = .ok a u ∧ f a u = .error e t := by
  simp only [bind, EStateM.bind]
  cases x s with
  | error d u => simp
  | ok a u =>
    constructor
    · intro h
      exact .inr ⟨a, u, rfl, h⟩
    · rintro (h | ⟨_, _, ⟨⟩, h⟩)
      · cases h
      · exact h

@[simp] theorem pure_ok_iff {a b : α} : (pure a : EStateM ε σ α) s = .ok b t ↔ a = b ∧ s = t := by
  simp [pure, EStateM.pure]

@[simp] theorem pure_error_iff {a : α} {e : ε} : (pure a : EStateM ε σ α) s = .error e t ↔ False := by
  simp [pure, EStateM.pure]

@[simp] theorem throw_ok_iff {e : ε} {a : α} : (throw e : EStateM ε σ α) s = .ok a t ↔ False := by
  refine iff_of_false ?_ id
  rintro ⟨⟩

@[simp] theorem throw_error_iff {d e : ε} :
    (throw d : EStateM ε σ α) s = .error e t ↔ d = e ∧ s = t := by
  show EStateM.Result.error d s = .error e t ↔ _
  rw [EStateM.Result.error.injEq]

@[simp] theorem get_bind {f : σ → EStateM ε σ β} : (get >>= f) s = f s s :=
  rfl

@[simp] theorem modify_bind {g : σ → σ} {f : PUnit → EStateM ε σ β} :
    (modify g >>= f) s = f ⟨⟩ (g s) :=
  rfl

@[simp] theorem modifyGet_ok_iff {f : σ → α × σ} {a : α} :
    (modifyGet f : EStateM ε σ α) s = .ok a t ↔ f s = (a, t) := by
  show EStateM.Result.ok (f s).1 (f s).2 = .ok a t ↔ _
  rw [EStateM.Result.ok.injEq, Prod.ext_iff]

@[simp] theorem modifyGet_error_iff {f : σ → α × σ} {e : ε} :
    (modifyGet f : EStateM ε σ α) s = .error e t ↔ False := by
  refine iff_of_false ?_ id
  rintro ⟨⟩

@[simp] theorem modify_ok_iff {f : σ → σ} {u : PUnit} :
    (modify f : EStateM ε σ PUnit) s = .ok u t ↔ f s = t := by
  show EStateM.Result.ok PUnit.unit (f s) = .ok u t ↔ _
  rw [EStateM.Result.ok.injEq, and_iff_right rfl]

@[simp] theorem modify_error_iff {f : σ → σ} {e : ε} :
    (modify f : EStateM ε σ PUnit) s = .error e t ↔ False := by
  refine iff_of_false ?_ id
  rintro ⟨⟩

/-! ## Computations without a state -/

variable {x : Except ε α}

theorem except_bind_ok_iff {f : α → Except ε β} {b : β} : (x >>= f) = .ok b ↔ ∃ a, x = .ok a ∧ f a = .ok b := by
  cases x <;> simp [bind, Except.bind]

theorem except_bind_error_iff {f : α → Except ε β} {e : ε} :
    (x >>= f) = .error e ↔ x = .error e ∨ ∃ a, x = .ok a ∧ f a = .error e := by
  cases x <;> simp [bind, Except.bind]

/-- Something was computed from the value, so there is one. -/
theorem except_ok_of_map {f : α → β} {b : β} (h : x.toOption.map f = some b) : ∃ a, x = .ok a := by
  cases x with
  | error e => cases h
  | ok a => exact ⟨a, rfl⟩

end NeuralEngine.Inversion
