import NeuralEngine.Proofs.Client.Compose

/-!
# Clients side by side

Two computations go side by side along a relation of their states if from related states they yield
the same value, or fail with the same error, and leave related states. A client asks its channel by
single attempts, and every other call is put together from those, so a relation that the attempts go
along is one that all calls go along (`Couples`). The graph of a map between channels is such a
relation, and so is the diagonal of what every attempt preserves.
-/

namespace NeuralEngine

section Beside

variable {ε S T α β : Type}

/-- The same value, or the same error that may arise, and related states. -/
inductive SameResult (R : S → T → Prop) (P : ε → Prop) :
    EStateM.Result ε S α → EStateM.Result ε T α → Prop where
  | ok {a : α} {s : S} {t : T} (related : R s t) : SameResult R P (.ok a s) (.ok a t)
  | error {e : ε} {s : S} {t : T} (arises : P e) (related : R s t) :
      SameResult R P (.error e s) (.error e t)

theorem SameResult.of_ok {R : S → T → Prop} {P : ε → Prop} {a b : α} {s : S} {t : T}
    (h : SameResult R P (.ok a s) (.ok b t)) : b = a ∧ R s t := by
  cases h with
  | ok related => exact ⟨rfl, related⟩

/-- From related states the computations come to the same. -/
def Beside (R : S → T → Prop) (P : ε → Prop) (x : EStateM ε S α) (y : EStateM ε T α) : Prop :=
  ∀ s t, R s t → SameResult R P (x s) (y t)

namespace Beside

variable {R : S → T → Prop} {P : ε → Prop}

protected theorem pure (a : α) : Beside R P (pure a) (pure a) :=
  fun _ _ h => .ok h

protected theorem throw {e : ε} (arises : P e) : Beside R P (throw e : EStateM ε S α) (throw e) :=
  fun _ _ h => .error arises h

protected theorem bind {x : EStateM ε S α} {y : EStateM ε T α} {p : α → EStateM ε S β}
    {q : α → EStateM ε T β} (first : Beside R P x y) (rest : ∀ a, Beside R P (p a) (q a)) :
    Beside R P (x >>= p) (y >>= q) := by
  intro s t h
  have hfirst := first s t h
  simp only [Bind.bind, EStateM.bind]
  generalize x s = r at hfirst ⊢
  generalize y t = r' at hfirst ⊢
  cases hfirst with
  | ok related => exact rest _ _ _ related
  | error arises related => exact .error arises related

/-- Computations that look at their states first. -/
protected theorem get {p : S → EStateM ε S α} {q : T → EStateM ε T α}
    (rest : ∀ s t, R s t → SameResult R P (p s s) (q t t)) : Beside R P (get >>= p) (get >>= q) :=
  rest

/-- Computations that change their states first. -/
protected theorem modify {p : S → S} {q : T → T} {x : PUnit → EStateM ε S α} {y : PUnit → EStateM ε T α}
    (related : ∀ s t, R s t → R (p s) (q t)) (rest : ∀ u, Beside R P (x u) (y u)) :
    Beside R P (modify p >>= x) (modify q >>= y) :=
  Beside.bind (fun s t h => .ok (related s t h)) rest

protected theorem forM {p : α → EStateM ε S Unit} {q : α → EStateM ε T Unit}
    (each : ∀ a, Beside R P (p a) (q a)) (as : List α) : Beside R P (as.forM p) (as.forM q) := by
  induction as with
  | nil => exact .pure _
  | cons a as ih => exact (each a).bind fun _ => ih

end Beside

end Beside

namespace Client

variable {σ τ α : Type} [Channel σ] [Channel τ]

omit [Channel σ] [Channel τ] in
theorem closed_beside {R : Client σ → Client τ → Prop} {P : ClientError → Prop} :
    Closed (fun x y => Beside R P x y) P where
  pure := .pure
  throw := .throw
  bind := .bind

/-- Every single attempt goes along the relation and fails with errors that may arise. -/
structure Couples (R : Client σ → Client τ → Prop) (P : ClientError → Prop) : Prop where
  retryLimit : ∀ {c d}, R c d → d.retryLimit = c.retryLimit
  unexpectedResponse : P .unexpectedResponse
  retryLimitExceeded : P .retryLimitExceeded
  idle : Beside R P idle idle
  capability : Beside R P capability capability
  isDone : ∀ tid, Beside R P (isDone tid) (isDone tid)
  poll : Beside R P poll poll
  /-- A look for a deferred response, which has to be in order if there is one. -/
  await : ∀ {x : ClientM σ Response} {y : ClientM τ Response}, Beside R P x y →
    Beside R P
      (Client.poll >>= fun answer => match answer with | some response => accept response | none => x)
      (Client.poll >>= fun answer => match answer with | some response => accept response | none => y)
  issueOpen : ∀ nnid mode trainOutputs,
    Beside R P (issueOpen nnid mode trainOutputs) (issueOpen nnid mode trainOutputs)
  writeRegister : ∀ tid register value,
    Beside R P (writeRegister tid register value) (writeRegister tid register value)
  tryWrite : ∀ tid value last, Beside R P (tryWrite tid value last) (tryWrite tid value last)
  tryRead : ∀ tid, Beside R P (tryRead tid) (tryRead tid)

namespace Couples

variable {R : Client σ → Client τ → Prop} {P : ClientError → Prop} (h : Couples R P)

include h

/-- Calls that go by the retry limit. -/
theorem limited {p : Nat → ClientM σ α} {q : Nat → ClientM τ α} (each : ∀ n, Beside R P (p n) (q n)) :
    Beside R P (do p (← get).retryLimit) (do q (← get).retryLimit) :=
  .get fun c d hcd => by
    rw [h.retryLimit hcd]
    exact each _ c d hcd

/-! ## Blocking calls -/

theorem pollWithin (limit : Nat) : Beside R P (pollWithin limit) (pollWithin limit) := by
  induction limit with
  | zero => exact .pure _
  | succ limit ih =>
    refine h.poll.bind fun answer => ?_
    cases answer with
    | none => exact .pure _
    | some response => exact ih.bind fun _ => .pure _

theorem awaitDeferred : Beside R P awaitDeferred awaitDeferred := by
  refine h.limited fun attempts => ?_
  induction attempts with
  | zero => exact .throw h.retryLimitExceeded
  | succ attempts ih => exact h.await (h.idle.bind fun _ => ih)

theorem openTransaction (nnid : Nnid) (mode : LearningMode) (trainOutputs : BitVec 16) :
    Beside R P (openTransaction nnid mode trainOutputs) (openTransaction nnid mode trainOutputs) := by
  have tidOf : ∀ response : Response, Beside R P
      (if response.kind? = some .tid then pure response.tid else throw .unexpectedResponse)
      (if response.kind? = some .tid then pure response.tid else throw .unexpectedResponse) := by
    intro response
    split
    · exact .pure _
    · exact .throw h.unexpectedResponse
  refine (h.issueOpen _ _ _).bind fun answer => ?_
  split
  · exact h.awaitDeferred.bind tidOf
  · exact (Beside.pure answer).bind tidOf

theorem write (tid : Tid) (value : Element) (last : Bool) :
    Beside R P (write tid value last) (write tid value last) := by
  refine h.limited fun attempts => ?_
  induction attempts with
  | zero => exact .throw h.retryLimitExceeded
  | succ attempts ih =>
    refine (h.tryWrite _ _ _).bind fun status => ?_
    cases status with
    | accepted => exact .pure _
    | busy => exact ih

theorem elementOf (tid : Tid) (response : Response) :
    Beside R P (elementOf tid response) (elementOf tid response) := by
  unfold Client.elementOf
  split
  · exact .pure _
  · exact .throw h.unexpectedResponse

theorem readNext (tid : Tid) : Beside R P (readNext tid) (readNext tid) := by
  refine h.limited fun attempts => ?_
  induction attempts with
  | zero => exact .throw h.retryLimitExceeded
  | succ attempts ih =>
    refine (h.tryRead tid).bind fun status => ?_
    cases status with
    | data response => exact h.elementOf _ _
    | deferred => exact h.awaitDeferred.bind fun _ => h.elementOf _ _
    | notDone => exact ih

/-- Every call goes along the relation. -/
theorem composes : Composes (fun x y => Beside R P x y) P where
  toClosed := closed_beside
  capability := h.capability
  openTransaction := h.openTransaction
  write := h.write
  readNext := h.readNext

end Couples

end Client

namespace Client

variable {σ τ : Type} [DrainingChannel σ] [DrainingChannel τ] {R : Client σ → Client τ → Prop}
  {P : ClientError → Prop}

/-- The single attempts go along the relation, and related clients have as much left to poll. -/
structure CouplesDraining (R : Client σ → Client τ → Prop) (P : ClientError → Prop) : Prop
    extends Couples R P where
  backlog : ∀ {c d}, R c d → DrainingChannel.backlog d.channel = DrainingChannel.backlog c.channel

theorem CouplesDraining.pollAll (h : CouplesDraining R P) : Beside R P pollAll pollAll :=
  .get fun c d hcd => by
    rw [h.backlog hcd]
    exact h.pollWithin _ c d hcd

end Client

end NeuralEngine
