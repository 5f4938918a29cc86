import NeuralEngine.Proofs.Client.Compose

/-!
# Sessions of a client

A session is a series of blocking calls. Inside of a call the client presents requests, polls and steps;
`Session` splits what it does into the opens that it makes, each with its result, and steps that present no
open. Every call extends a session, whether it succeeds or not (`session_perform`), and what opens and quiet
steps preserve holds at every point of it (`Covers`).
-/

namespace NeuralEngine.Client

open Inversion

variable {σ α β : Type}

/-- The client after a computation, which may have failed. -/
def after (call : ClientM σ α) (c : Client σ) : Client σ :=
  match call c with
  | .ok _ d => d
  | .error _ d => d

/-- The computation takes the client from where it is to where the relation allows. -/
def Along (R : Client σ → Client σ → Prop) (call : ClientM σ α) : Prop :=
  ∀ c, R c (after call c)

variable [Channel σ]

/-- A step of a client that presents no open. -/
inductive Quiet (c d : Client σ) : Prop where
  | count (channel : d.channel = c.channel)
  | idle (channel : d.channel = Channel.step c.channel)
  | poll {answer : Option Response} (poll : Channel.poll c.channel = (answer, d.channel))
  | capability {capability : Capability} (read : Channel.capability c.channel = (capability, d.channel))
  | request {request : Request} {answer : Response} (other : request.op? ≠ some .newRequest)
      (asks : c.Asks request answer d)

/-- The relation can be followed through quiet steps. -/
structure Follows (R : Client σ → Client σ → Prop) : Prop where
  refl : ∀ c, R c c
  trans : ∀ {c d e}, R c d → R d e → R c e
  quiet : ∀ {c d}, Quiet c d → R c d

namespace Follows

variable {R : Client σ → Client σ → Prop} (h : Follows R)

include h

theorem pure (a : α) : Along R (pure a : ClientM σ α) :=
  fun c => h.refl c

theorem throw (e : ClientError) : Along R (throw e : ClientM σ α) :=
  fun c => h.refl c

theorem bind {x : ClientM σ α} {f : α → ClientM σ β} (first : Along R x) (rest : ∀ a, Along R (f a)) :
    Along R (x >>= f) := by
  intro c
  have hfirst := first c
  unfold after at hfirst ⊢
  simp only [Bind.bind, EStateM.bind]
  cases hx : x c with
  | error e d =>
    simp only [hx] at hfirst ⊢
    exact hfirst
  | ok a d =>
    simp only [hx] at hfirst ⊢
    exact h.trans hfirst (rest a d)

omit [Channel σ] h in
/-- A computation that looks at the client first. -/
theorem get {f : Client σ → ClientM σ α} (rest : ∀ c, Along R (f c)) : Along R (MonadState.get >>= f) :=
  fun c => rest c c

/-! ## Single attempts -/

theorem attempts : Attempts (fun x (_ : ClientM σ _) => Along R x) fun _ => True where
  pure := h.pure
  throw _ := h.throw _
  bind := h.bind
  engine _ := trivial
  unexpectedResponse := trivial
  count _ _ := h.quiet (.count rfl)
  issue _ other _ := h.quiet (.request other rfl)

theorem accept (response : Response) : Along R (accept response) :=
  h.attempts.accept response

theorem poll : Along R poll :=
  fun _ => h.quiet (.poll rfl)

theorem idle : Along R idle :=
  fun _ => h.quiet (.idle rfl)

theorem capability : Along R capability :=
  fun _ => h.quiet (.capability rfl)

/-! ## Calls without an open -/

theorem awaitWithin (attempts : Nat) : Along R (awaitWithin attempts) := by
  induction attempts with
  | zero => exact h.throw _
  | succ attempts ih =>
    refine h.bind h.poll fun answer => ?_
    cases answer with
    | some response => exact h.accept response
    | none => exact h.bind h.idle fun _ => ih

theorem awaitDeferred : Along R awaitDeferred :=
  get fun _ => h.awaitWithin _

theorem writeWithin (tid : Tid) (value : Element) (last : Bool) (attempts : Nat) :
    Along R (writeWithin tid value last attempts) := by
  induction attempts with
  | zero => exact h.throw _
  | succ attempts ih =>
    refine h.bind (h.attempts.tryWrite _ _ _) fun status => ?_
    cases status with
    | accepted => exact h.pure _
    | busy => exact ih

theorem write (tid : Tid) (value : Element) (last : Bool) : Along R (write tid value last) :=
  get fun _ => h.writeWithin _ _ _ _

theorem elementOf (tid : Tid) (response : Response) : Along R (elementOf tid response) := by
  unfold Client.elementOf
  split
  · exact h.pure _
  · exact h.throw _

theorem readWithin (tid : Tid) (attempts : Nat) : Along R (readWithin tid attempts) := by
  induction attempts with
  | zero => exact h.throw _
  | succ attempts ih =>
    refine h.bind (h.attempts.tryRead tid) fun status => ?_
    cases status with
    | data response => exact h.elementOf _ _
    | deferred => exact h.bind h.awaitDeferred fun _ => h.elementOf _ _
    | notDone => exact ih

theorem readNext (tid : Tid) : Along R (readNext tid) :=
  get fun _ => h.readWithin _ _

end Follows

/-- An open is the request, the wait if the answer is deferred, and a look at the response. -/
theorem openTransaction_eq (nnid : Nnid) (mode : LearningMode) (trainOutputs : BitVec 16) :
    (openTransaction nnid mode trainOutputs : ClientM σ Tid) =
      issueOpen nnid mode trainOutputs >>= fun answer =>
        (if answer.kind? = some .status then awaitDeferred else pure answer) >>= fun response =>
          if response.kind? = some .tid then pure response.tid else throw .unexpectedResponse := by
  unfold openTransaction
  congr 1
  funext answer
  split <;> rfl

/-- The relation can be followed through opens, too. -/
structure Covers (R : Client σ → Client σ → Prop) : Prop extends Follows R where
  opens : ∀ nnid mode trainOutputs, Along R (openTransaction nnid mode trainOutputs)

namespace Covers

variable {R : Client σ → Client σ → Prop}

/-- It is enough that the relation can be followed through the request of an open. -/
theorem of_issue (h : Follows R)
    (asks : ∀ nnid mode trainOutputs, Along R (issue (.newTransaction nnid mode trainOutputs))) :
    Covers R where
  toFollows := h
  opens nnid mode trainOutputs := by
    have hopen : Along R (issueOpen nnid mode trainOutputs) :=
      h.bind (asks nnid mode trainOutputs) fun response => h.accept response
    rw [openTransaction_eq]
    refine h.bind hopen fun answer => h.bind ?_ fun response => ?_
    · split
      · exact h.awaitDeferred
      · exact h.pure _
    · split
      · exact h.pure _
      · exact h.throw _

/-- The relation can be followed through every call. -/
theorem composes (h : Covers R) : Composes (fun x (_ : ClientM σ _) => Along R x) fun _ => True where
  toClosed := h.attempts.toClosed
  capability := h.capability
  openTransaction := h.opens
  write := h.write
  readNext := h.readNext

end Covers

/-! ## Calls -/

/-- A blocking call. -/
inductive Call where
  | openTransaction (nnid : Nnid) (mode : LearningMode) (trainOutputs : BitVec 16)
  | writeRegister (tid : Tid) (register : Register) (value : RegisterValue)
  | write (tid : Tid) (value : Element) (last : Bool)
  | writeExceptLast (tid : Tid) (values : List Element)
  | writeAll (tid : Tid) (values : List Element)
  | writeTraining (tid : Tid) (inputs expected : List Element)
  | read (tid : Tid) (n : Nat)
  | feedforward (nnid : Nnid) (inputs : List Element) (n : Nat)
  | trainIncremental (nnid : Nnid) (inputs expected : List Element)
  | runCompare (nnid : Nnid) (inputs expected : List Element) (numInputs numOutputs : Nat)
  | feedforwardPrimed (nnid : Nnid) (samples : List (List Element)) (n : Nat)

/-- The client after a call, whatever it yields. -/
def perform (c : Client σ) : Call → Client σ
  | .openTransaction nnid mode trainOutputs => after (openTransaction nnid mode trainOutputs) c
  | .writeRegister tid register value => after (writeRegister tid register value) c
  | .write tid value last => after (write tid value last) c
  | .writeExceptLast tid values => after (writeExceptLast tid values) c
  | .writeAll tid values => after (writeAll tid values) c
  | .writeTraining tid inputs expected => after (writeTraining tid inputs expected) c
  | .read tid n => after (read tid n) c
  | .feedforward nnid inputs n => after (feedforward nnid inputs n) c
  | .trainIncremental nnid inputs expected => after (trainIncremental nnid inputs expected) c
  | .runCompare nnid inputs expected numInputs numOutputs =>
    after (runCompare nnid inputs expected numInputs numOutputs) c
  | .feedforwardPrimed nnid samples n => after (feedforwardPrimed nnid samples n) c

theorem Covers.perform {R : Client σ → Client σ → Prop} (h : Covers R) (c : Client σ) (call : Call) :
    R c (c.perform call) := by
  cases call with
  | openTransaction => exact h.opens _ _ _ c
  | writeRegister => exact h.attempts.writeRegister _ _ _ c
  | write => exact h.write _ _ _ c
  | writeExceptLast => exact h.composes.writeExceptLast _ _ c
  | writeAll => exact h.composes.writeAll _ (fun _ => trivial) c
  | writeTraining => exact h.composes.writeTraining _ (fun _ => trivial) c
  | read => exact h.composes.read _ _ c
  | feedforward => exact h.composes.feedforward _ _ (fun _ => trivial) c
  | trainIncremental => exact h.composes.trainIncremental _ (fun _ => trivial) (fun _ => trivial) c
  | runCompare => exact h.composes.runCompare _ _ _ (fun _ => trivial) c
  | feedforwardPrimed => exact h.composes.feedforwardPrimed _ _ (fun _ => trivial) c

theorem Covers.performAll {R : Client σ → Client σ → Prop} (h : Covers R) (c : Client σ)
    (calls : List Call) : R c (calls.foldl Client.perform c) := by
  induction calls generalizing c with
  | nil => exact h.refl c
  | cons call calls ih => exact h.trans (h.perform c call) (ih _)

/-! ## Sessions -/

/-- An open that a client makes: where it starts and what it asks for. -/
structure OpenCall (σ : Type) where
  start : Client σ
  nnid : Nnid
  mode : LearningMode
  trainOutputs : BitVec 16

namespace OpenCall

/-- What the open presents. -/
def request (o : OpenCall σ) : Request :=
  .newTransaction o.nnid o.mode o.trainOutputs

/-- What the open yields. -/
def result (o : OpenCall σ) : EStateM.Result ClientError (Client σ) Tid :=
  Client.openTransaction o.nnid o.mode o.trainOutputs o.start

end OpenCall

/-- From one client to another by opens, which are listed, and steps that present none. -/
inductive Session : Client σ → List (OpenCall σ) → Client σ → Prop where
  | refl (c : Client σ) : Session c [] c
  | quiet {c d e : Client σ} {opens : List (OpenCall σ)} (session : Session c opens d) (step : Quiet d e) :
      Session c opens e
  | opened {c : Client σ} {opens : List (OpenCall σ)} (o : OpenCall σ) (session : Session c opens o.start) :
      Session c (opens ++ [o]) (after (openTransaction o.nnid o.mode o.trainOutputs) o.start)

theorem Session.trans {c d e : Client σ} {opens more : List (OpenCall σ)} (h : Session c opens d)
    (h' : Session d more e) : Session c (opens ++ more) e := by
  induction h' with
  | refl => rwa [List.append_nil]
  | quiet _ step ih => exact ih.quiet step
  | opened o _ ih =>
    rw [← List.append_assoc]
    exact .opened o ih

/-- Everything that a client does in a blocking call is part of a session. -/
theorem covers_session : Covers fun c d : Client σ => ∃ opens, Session c opens d where
  refl c := ⟨[], .refl c⟩
  trans := fun ⟨_, h⟩ ⟨_, h'⟩ => ⟨_, h.trans h'⟩
  quiet step := ⟨[], .quiet (.refl _) step⟩
  opens nnid mode trainOutputs c := ⟨_, .opened ⟨c, nnid, mode, trainOutputs⟩ (.refl c)⟩

/-- What quiet steps and opens allow holds between the start of a session and each of its opens. -/
theorem Session.covered {R : Client σ → Client σ → Prop} (h : Covers R) {c d : Client σ}
    {opens : List (OpenCall σ)} (s : Session c opens d) : R c d ∧ ∀ o ∈ opens, R c o.start := by
  induction s with
  | refl => exact ⟨h.refl c, fun o ho => absurd ho List.not_mem_nil⟩
  | quiet _ step ih => exact ⟨h.trans ih.1 (h.quiet step), ih.2⟩
  | opened o _ ih =>
    refine ⟨h.trans ih.1 (h.opens _ _ _ o.start), fun o' ho' => ?_⟩
    obtain ho' | ho' := List.mem_append.1 ho'
    · exact ih.2 o' ho'
    · obtain rfl := List.mem_singleton.1 ho'
      exact ih.1

end NeuralEngine.Client
