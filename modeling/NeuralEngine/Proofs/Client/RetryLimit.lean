import NeuralEngine.Proofs.Client.Asking

/-!
# The retry limit of a client

A call goes by the retry limit only where it runs out of attempts. So a call that does not fail for want of attempts
does the same with a higher limit (`Outlasts`): it presents the same requests, takes the same steps and comes to the
same. An attempt does not look at the limit at all, a loop of attempts that is left before the limit is left at the
same point under a higher one, and the relation is kept when computations are put together.
-/

namespace NeuralEngine.Client

variable {σ α β : Type}

/-- The client with another retry limit. -/
def withLimit (limit : Nat) (c : Client σ) : Client σ :=
  { c with retryLimit := limit }

/-- The one client is the other with a limit that is not lower. -/
def Raised (limit : Nat) (c d : Client σ) : Prop :=
  c.retryLimit ≤ limit ∧ d = c.withLimit limit

/-- The one computation runs out of attempts, or the other yields the same under the higher limit. -/
def Outlasts (limit : Nat) (x y : ClientM σ α) : Prop :=
  ∀ c, c.retryLimit ≤ limit → outcome x c = .error .retryLimitExceeded ∨
    SameResult (Raised limit) (fun _ => True) (x c) (y (c.withLimit limit))

namespace Outlasts

variable {limit : Nat}

theorem of_beside {x y : ClientM σ α} (h : Beside (Raised limit) (fun _ => True) x y) : Outlasts limit x y :=
  fun c hc => .inr (h c (c.withLimit limit) ⟨hc, rfl⟩)

theorem closed : Closed (fun x y : ClientM σ _ => Outlasts limit x y) fun _ => True where
  pure a := of_beside (.pure a)
  throw _ := of_beside (.throw trivial)
  bind {_ _ x y _ _} first rest := by
    intro c hc
    obtain hout | hsame := first c hc
    · exact .inl (bind_of_outcome_error hout).1
    unfold outcome
    simp only [Bind.bind, EStateM.bind]
    generalize x c = r at hsame ⊢
    generalize y (c.withLimit limit) = r' at hsame ⊢
    cases hsame with
    | ok related =>
      obtain ⟨hle, rfl⟩ := related
      exact rest _ _ hle
    | error arises related => exact .inr (.error arises related)

/-- Loops of attempts that go by the limit. -/
theorem limited {loop : Nat → ClientM σ α} (each : ∀ {n m}, n ≤ m → Outlasts limit (loop n) (loop m)) :
    Outlasts limit (do loop (← get).retryLimit) (do loop (← get).retryLimit) :=
  fun c hc => each hc c hc

/-! ## Single attempts -/

theorem elementOf (tid : Tid) (response : Response) :
    Outlasts (σ := σ) limit (elementOf tid response) (elementOf tid response) := by
  unfold Client.elementOf
  split
  · exact closed.pure _
  · exact closed.throw trivial

variable [Channel σ]

theorem issue (request : Request) : Outlasts (σ := σ) limit (issue request) (issue request) := by
  refine of_beside ?_
  rintro c - ⟨hle, rfl⟩
  exact .ok ⟨hle, rfl⟩

theorem poll : Outlasts (σ := σ) limit poll poll := by
  refine of_beside ?_
  rintro c - ⟨hle, rfl⟩
  exact .ok ⟨hle, rfl⟩

theorem idle : Outlasts (σ := σ) limit idle idle := by
  refine of_beside ?_
  rintro c - ⟨hle, rfl⟩
  exact .ok ⟨hle, rfl⟩

theorem capability : Outlasts (σ := σ) limit capability capability := by
  refine of_beside ?_
  rintro c - ⟨hle, rfl⟩
  exact .ok ⟨hle, rfl⟩

theorem attempts : Attempts (fun x y : ClientM σ _ => Outlasts limit x y) fun _ => True where
  toClosed := closed
  engine _ := trivial
  unexpectedResponse := trivial
  count f := by
    refine of_beside ?_
    rintro c - ⟨hle, rfl⟩
    exact .ok ⟨hle, rfl⟩
  issue request _ := issue request

/-! ## Blocking calls -/

theorem awaitWithin {n m : Nat} (le : n ≤ m) : Outlasts (σ := σ) limit (awaitWithin n) (awaitWithin m) := by
  induction n generalizing m with
  | zero => exact fun _ _ => .inl rfl
  | succ n ih =>
    obtain ⟨m, rfl⟩ : ∃ k, m = k + 1 := ⟨m - 1, by omega⟩
    refine closed.bind poll fun answer => ?_
    cases answer with
    | some response => exact attempts.accept response
    | none => exact closed.bind idle fun _ => ih (Nat.le_of_succ_le_succ le)

theorem writeWithin (tid : Tid) (value : Element) (last : Bool) {n m : Nat} (le : n ≤ m) :
    Outlasts (σ := σ) limit (writeWithin tid value last n) (writeWithin tid value last m) := by
  induction n generalizing m with
  | zero => exact fun _ _ => .inl rfl
  | succ n ih =>
    obtain ⟨m, rfl⟩ : ∃ k, m = k + 1 := ⟨m - 1, by omega⟩
    refine closed.bind (attempts.tryWrite tid value last) fun status => ?_
    cases status with
    | accepted => exact closed.pure _
    | busy => exact ih (Nat.le_of_succ_le_succ le)

theorem readWithin (tid : Tid) {n m : Nat} (le : n ≤ m) :
    Outlasts (σ := σ) limit (readWithin tid n) (readWithin tid m) := by
  induction n generalizing m with
  | zero => exact fun _ _ => .inl rfl
  | succ n ih =>
    obtain ⟨m, rfl⟩ : ∃ k, m = k + 1 := ⟨m - 1, by omega⟩
    refine closed.bind (attempts.tryRead tid) fun status => ?_
    cases status with
    | data response => exact elementOf tid response
    | deferred => exact closed.bind (limited awaitWithin) fun response => elementOf tid response
    | notDone => exact ih (Nat.le_of_succ_le_succ le)

theorem openTransaction (nnid : Nnid) (mode : LearningMode) (trainOutputs : BitVec 16) :
    Outlasts (σ := σ) limit (openTransaction nnid mode trainOutputs) (openTransaction nnid mode trainOutputs) := by
  have hopen : Outlasts (σ := σ) limit (issueOpen nnid mode trainOutputs) (issueOpen nnid mode trainOutputs) :=
    closed.bind (issue _) fun response => attempts.accept response
  rw [openTransaction_eq]
  refine closed.bind hopen fun answer => closed.bind ?_ fun response => ?_
  · split
    · exact limited awaitWithin
    · exact closed.pure _
  · split
    · exact closed.pure _
    · exact closed.throw trivial

theorem write (tid : Tid) (value : Element) (last : Bool) :
    Outlasts (σ := σ) limit (write tid value last) (write tid value last) :=
  limited (writeWithin tid value last)

theorem readNext (tid : Tid) : Outlasts (σ := σ) limit (readNext tid) (readNext tid) :=
  limited (readWithin tid)

end Outlasts

/-- With a higher limit the call, over a channel and over the channel with a trace, comes to the same, leaves the same
client and asks the same, unless it runs out of attempts. -/
def IgnoresLimit (call : ClientM σ α) (traced : ClientM (Traced σ) α) (c : Client σ) : Prop :=
  outcome call c ≠ .error .retryLimitExceeded → ∀ limit, c.retryLimit ≤ limit →
    outcome call (c.withLimit limit) = outcome call c ∧
      after call (c.withLimit limit) = (after call c).withLimit limit ∧
      callTrace traced (c.withLimit limit) = callTrace traced c

namespace Outlasts

variable {limit : Nat} {call : ClientM σ α} {c : Client σ}

theorem same (h : Outlasts limit call call) (le : c.retryLimit ≤ limit)
    (enough : outcome call c ≠ .error .retryLimitExceeded) :
    outcome call (c.withLimit limit) = outcome call c ∧
      after call (c.withLimit limit) = (after call c).withLimit limit := by
  obtain hout | hsame := h c le
  · exact absurd hout enough
  unfold outcome after
  generalize call c = r at hsame ⊢
  generalize call (c.withLimit limit) = r' at hsame ⊢
  cases hsame with
  | ok related => exact ⟨rfl, related.2⟩
  | error _ related => exact ⟨rfl, related.2⟩

end Outlasts

/-- A call, over a channel and over the channel with a trace, that goes by the retry limit only where it runs out of
attempts. -/
structure LimitFree [Channel σ] (call : ClientM σ α) (traced : ClientM (Traced σ) α) : Prop where
  bare : ∀ limit, Outlasts limit call call
  recorded : ∀ limit, Outlasts limit traced traced
  alike : Beside (Traces (σ := σ)) (fun _ => True) call traced

namespace LimitFree

variable [Channel σ]

theorem ignoresLimit {call : ClientM σ α} {traced : ClientM (Traced σ) α} (h : LimitFree call traced)
    (c : Client σ) : IgnoresLimit call traced c := by
  intro enough limit le
  obtain ⟨houtcome, hafter⟩ := (h.bare limit).same le enough
  refine ⟨houtcome, hafter, ?_⟩
  rw [← outcome_traced h.alike] at enough
  exact congrArg (·.channel.trace) ((h.recorded limit).same (c := c.traced) le enough).2

/-- Every call is of that kind. -/
theorem composes : Composes (fun (x : ClientM σ _) y => LimitFree x y) fun _ => True where
  pure a := ⟨fun _ => Outlasts.closed.pure a, fun _ => Outlasts.closed.pure a, .pure a⟩
  throw _ := ⟨fun _ => Outlasts.closed.throw trivial, fun _ => Outlasts.closed.throw trivial, .throw trivial⟩
  bind first rest :=
    ⟨fun limit => Outlasts.closed.bind (first.bare limit) fun a => (rest a).bare limit,
      fun limit => Outlasts.closed.bind (first.recorded limit) fun a => (rest a).recorded limit,
      first.alike.bind fun a => (rest a).alike⟩
  capability := ⟨fun _ => .capability, fun _ => .capability, couples_traced.capability⟩
  openTransaction nnid mode trainOutputs :=
    ⟨fun _ => .openTransaction nnid mode trainOutputs, fun _ => .openTransaction nnid mode trainOutputs,
      couples_traced.openTransaction nnid mode trainOutputs⟩
  write tid value last :=
    ⟨fun _ => .write tid value last, fun _ => .write tid value last, couples_traced.write tid value last⟩
  readNext tid := ⟨fun _ => .readNext tid, fun _ => .readNext tid, couples_traced.readNext tid⟩

end LimitFree

end NeuralEngine.Client
