import NeuralEngine.Client.Batch
import NeuralEngine.Proofs.Client.Attempt

/-!
# How calls are put together

Every attempt of a client is put together from requests and counts (`Attempts`), and every call from opens, writes
of an element, reads of an output and looks at the capability word (`Composes`). So a relation between computations of
two clients that is kept when computations are put together relates every call to itself if it relates those to
themselves. Errors that a call raises have to be ones that may arise.
-/

namespace NeuralEngine

theorem length_of_mem_blocks {α : Type} {size count : Nat} {xs b : List α} (room : count * size ≤ xs.length)
    (h : b ∈ blocks size count xs) : b.length = size := by
  induction count generalizing xs with
  | zero => exact absurd h List.not_mem_nil
  | succ count ih =>
    rw [Nat.add_mul, Nat.one_mul] at room
    obtain rfl | h := List.mem_cons.1 h
    · rw [List.length_take]
      omega
    · refine ih ?_ h
      rw [List.length_drop]
      omega

theorem length_of_mem_wholeBlocks {α : Type} {size : Nat} {xs b : List α} (h : b ∈ wholeBlocks size xs) :
    b.length = size :=
  length_of_mem_blocks (Nat.div_mul_le_self _ _) h

namespace Client

variable {σ τ α β : Type} [Channel σ] [Channel τ]

/-- The relation is kept when computations are put together; errors have to be ones that may arise. -/
structure Closed (Q : ∀ {α : Type}, ClientM σ α → ClientM τ α → Prop) (P : ClientError → Prop) : Prop where
  pure : ∀ {α : Type} (a : α), Q (pure a) (pure a)
  throw : ∀ {α : Type} {e : ClientError}, P e → Q (throw e : ClientM σ α) (throw e)
  bind : ∀ {α β : Type} {x : ClientM σ α} {y : ClientM τ α} {p : α → ClientM σ β} {q : α → ClientM τ β},
    Q x y → (∀ a, Q (p a) (q a)) → Q (x >>= p) (y >>= q)

/-! ## Single attempts -/

/-- The relation also relates counting and the requests other than opens to themselves, and whatever an engine
answers may arise. -/
structure Attempts (Q : ∀ {α : Type}, ClientM σ α → ClientM τ α → Prop) (P : ClientError → Prop) : Prop
    extends Closed Q P where
  engine : ∀ code, P (.engine code)
  unexpectedResponse : P .unexpectedResponse
  count : ∀ f, Q (count f) (count f)
  issue : ∀ request : Request, request.op? ≠ some .newRequest → Q (issue request) (issue request)

namespace Attempts

variable {Q : ∀ {α : Type}, ClientM σ α → ClientM τ α → Prop} {P : ClientError → Prop} (h : Attempts Q P)

include h

theorem fatal (code : ExitCode) : Q (fatal code : ClientM σ α) (fatal code) :=
  h.bind (h.count _) fun _ => h.throw (h.engine code)

theorem accept (response : Response) : Q (accept response) (accept response) := by
  unfold Client.accept
  split
  · exact h.pure _
  · exact h.fatal _

theorem writeRegister (tid : Tid) (register : Register) (value : RegisterValue) :
    Q (writeRegister tid register value) (writeRegister tid register value) :=
  h.bind (h.issue _ (by simp)) fun response => h.bind (h.accept response) fun _ => h.pure _

theorem tryWrite (tid : Tid) (value : Element) (last : Bool) :
    Q (tryWrite tid value last) (tryWrite tid value last) := by
  refine h.bind (h.issue _ (by cases last <;> simp)) fun response => ?_
  split
  · exact h.pure _
  · exact h.bind (h.count _) fun _ => h.pure _
  · exact h.fatal _

theorem tryRead (tid : Tid) : Q (tryRead tid) (tryRead tid) := by
  refine h.bind (h.issue _ (by simp)) fun response => ?_
  split
  · split
    · exact h.pure _
    · exact h.pure _
    · exact h.throw h.unexpectedResponse
  · exact h.bind (h.count _) fun _ => h.pure _
  · exact h.fatal _

end Attempts

/-! ## Calls -/

/-- The relation also relates the parts of every call to themselves. -/
structure Composes (Q : ∀ {α : Type}, ClientM σ α → ClientM τ α → Prop) (P : ClientError → Prop) : Prop
    extends Closed Q P where
  capability : Q capability capability
  openTransaction : ∀ nnid mode trainOutputs,
    Q (openTransaction nnid mode trainOutputs) (openTransaction nnid mode trainOutputs)
  write : ∀ tid value last, Q (write tid value last) (write tid value last)
  readNext : ∀ tid, Q (readNext tid) (readNext tid)

namespace Composes

variable {Q : ∀ {α : Type}, ClientM σ α → ClientM τ α → Prop} {P : ClientError → Prop} (h : Composes Q P)

include h

theorem mapM {p : α → ClientM σ β} {q : α → ClientM τ β} {as : List α} (each : ∀ a ∈ as, Q (p a) (q a)) :
    Q (as.mapM p) (as.mapM q) := by
  induction as with
  | nil => exact h.pure _
  | cons a as ih =>
    rw [List.mapM_cons, List.mapM_cons]
    refine h.bind (each a List.mem_cons_self) fun _ => ?_
    exact h.bind (ih fun b hb => each b (List.mem_cons_of_mem _ hb)) fun _ => h.pure _

theorem forM {p : α → ClientM σ Unit} {q : α → ClientM τ Unit} (each : ∀ a, Q (p a) (q a)) (as : List α) :
    Q (as.forM p) (as.forM q) := by
  induction as with
  | nil => exact h.pure _
  | cons a as ih => exact h.bind (each a) fun _ => ih

theorem writeExceptLast (tid : Tid) (values : List Element) :
    Q (writeExceptLast tid values) (writeExceptLast tid values) := by
  induction values with
  | nil => exact h.pure _
  | cons value rest ih => exact h.bind (h.write _ _ _) fun _ => ih

theorem writeAll (tid : Tid) {values : List Element} (empty : values = [] → P .emptyInput) :
    Q (writeAll tid values) (writeAll tid values) := by
  induction values with
  | nil => exact h.throw (empty rfl)
  | cons value rest ih =>
    cases rest with
    | nil => exact h.write _ _ _
    | cons next rest => exact h.bind (h.write _ _ _) fun _ => ih (List.cons_ne_nil _ _ · |>.elim)

theorem writeTraining (tid : Tid) {inputs expected : List Element} (empty : inputs = [] → P .emptyInput) :
    Q (writeTraining tid inputs expected) (writeTraining tid inputs expected) := by
  unfold Client.writeTraining
  split
  · next hnil => exact h.throw (empty hnil)
  · exact h.bind (h.writeExceptLast _ _) fun _ => h.writeAll _ empty

theorem read (tid : Tid) (n : Nat) : Q (read tid n) (read tid n) := by
  suffices honto : ∀ got, Q (readOnto tid n got) (readOnto tid n got) from honto []
  induction n with
  | zero => exact fun got => h.pure _
  | succ n ih => exact fun got => h.bind (h.readNext tid) fun value => ih (value :: got)

theorem feedforward (nnid : Nnid) {inputs : List Element} (n : Nat) (empty : inputs = [] → P .emptyInput) :
    Q (feedforward nnid inputs n) (feedforward nnid inputs n) := by
  unfold Client.feedforward
  split
  · next hnil => exact h.throw (empty hnil)
  · exact h.bind (h.openTransaction _ _ _) fun _ => h.bind (h.writeAll _ empty) fun _ => h.read _ _

theorem trainIncremental (nnid : Nnid) {inputs expected : List Element} (empty : inputs = [] → P .emptyInput)
    (many : 2 ^ 16 ≤ expected.length → P .tooManyOutputs) :
    Q (trainIncremental nnid inputs expected) (trainIncremental nnid inputs expected) := by
  unfold Client.trainIncremental
  split
  · next hnil => exact h.throw (empty hnil)
  split
  · next hmany => exact h.throw (many hmany)
  · exact h.bind (h.openTransaction _ _ _) fun _ => h.bind (h.writeTraining _ empty) fun _ => h.read _ _

theorem compareSamples (nnid : Nnid) {samples : List (List Element × List Element)}
    (report : CompareReport) (empty : ∀ sample ∈ samples, sample.1 = [] → P .emptyInput) :
    Q (compareSamples nnid samples report) (compareSamples nnid samples report) := by
  induction samples generalizing report with
  | nil => exact h.pure _
  | cons sample rest ih =>
    refine h.bind (h.feedforward _ _ (empty sample List.mem_cons_self)) fun _ => ih _ fun x hx => ?_
    exact empty x (List.mem_cons_of_mem _ hx)

theorem runCompare (nnid : Nnid) (inputs expected : List Element) {numInputs numOutputs : Nat}
    (empty : numInputs = 0 ∨ numOutputs = 0 → P .emptyInput) :
    Q (runCompare nnid inputs expected numInputs numOutputs)
      (runCompare nnid inputs expected numInputs numOutputs) := by
  unfold Client.runCompare
  split
  · next hzero => exact h.throw (empty hzero)
  · next hpos =>
    refine h.compareSamples _ _ fun sample hsample hnil => ?_
    have hlength := length_of_mem_wholeBlocks (List.of_mem_zip (a := sample.1) (b := sample.2) hsample).1
    rw [hnil] at hlength
    exact absurd (.inl hlength.symm) hpos

theorem prime (nnid : Nnid) {sample : List Element} (empty : sample = [] → P .emptyInput) :
    Q (prime nnid sample) (prime nnid sample) := by
  refine h.bind (h.openTransaction _ _ _) fun tid => ?_
  split
  · next hlast => exact h.throw (empty (List.getLast?_eq_none_iff.1 hlast))
  · exact h.bind (h.writeExceptLast _ _) fun _ => h.pure _

theorem runPrimed (nnid : Nnid) (n : Nat) {samples : List (List Element)} (empty : [] ∈ samples → P .emptyInput) :
    Q (runPrimed nnid n samples) (runPrimed nnid n samples) := by
  refine h.bind (h.mapM fun sample hsample => h.prime nnid fun hnil => empty (hnil ▸ hsample)) fun _ => ?_
  exact h.bind (h.forM (fun _ => h.write _ _ _) _) fun _ => h.mapM fun _ _ => h.read _ _

theorem feedforwardPrimed (nnid : Nnid) {samples : List (List Element)} (n : Nat)
    (empty : [] ∈ samples → P .emptyInput) :
    Q (feedforwardPrimed nnid samples n) (feedforwardPrimed nnid samples n) := by
  unfold Client.feedforwardPrimed
  split
  · next hnil => exact h.throw (empty hnil)
  · next hnone =>
    refine h.bind h.capability fun word => h.bind (h.mapM fun block hblock => ?_) fun _ => h.pure _
    refine h.runPrimed nnid n fun hnil => absurd ?_ hnone
    have hflatten := flatten_allBlocks (Nat.le_max_right word.tableEntries.toNat 1) samples
    exact hflatten ▸ List.mem_flatten_of_mem hblock hnil

end Composes

end Client

end NeuralEngine
