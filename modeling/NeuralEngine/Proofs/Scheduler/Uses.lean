import NeuralEngine.Proofs.Channel.Traced
import NeuralEngine.Proofs.Client.Session

/-!
# Uses of a client

A client is used by single attempts, by blocking calls and by schedulers that run batches over it, in any
order and whatever each of them yields. A relation that the single attempts go along is one that all uses go
along (`CouplesDraining.useAll`). So a use is the same over a traced channel, whose trace tells what the channel was
asked (`useAll_traced`).
-/

namespace NeuralEngine

/-- From related states the computations leave related ones, whether they fail or not. -/
theorem Beside.after {σ τ α : Type} {R : Client σ → Client τ → Prop} {P : ClientError → Prop}
    {x : ClientM σ α} {y : ClientM τ α} (h : Beside R P x y) {c : Client σ} {d : Client τ} (hcd : R c d) :
    R (Client.after x c) (Client.after y d) := by
  have hresult := h c d hcd
  unfold Client.after
  generalize x c = r at hresult ⊢
  generalize y d = r' at hresult ⊢
  cases hresult with
  | ok related => exact related
  | error _ related => exact related

namespace Client

/-- What a client is used for. -/
inductive Use where
  | issueOpen (nnid : Nnid) (mode : LearningMode) (trainOutputs : BitVec 16)
  | tryWrite (tid : Tid) (value : Element) (last : Bool)
  | tryRead (tid : Tid)
  | poll
  | idle
  | isDone (tid : Tid)
  | capability
  | kill (tid : Tid)
  | call (call : Call)
  /-- A scheduler with the given table, address space and budget runs a batch over the client. -/
  | run (table : ConfigTable) (asid : Asid) (cycleBudget : Nat) (batch : Array Transaction)

variable {σ τ : Type} [DrainingChannel σ] [DrainingChannel τ]

/-- The client after a use, whatever that yields. -/
def use (c : Client σ) : Use → Client σ
  | .issueOpen nnid mode trainOutputs => after (issueOpen nnid mode trainOutputs) c
  | .tryWrite tid value last => after (tryWrite tid value last) c
  | .tryRead tid => after (tryRead tid) c
  | .poll => after poll c
  | .idle => after idle c
  | .isDone tid => after (isDone tid) c
  | .capability => after capability c
  | .kill tid => after (kill tid) c
  | .call call => c.perform call
  | .run table asid cycleBudget batch =>
    (Scheduler.run batch { client := c, table := table, asid := asid, cycleBudget := cycleBudget }).2.client

/-- The client after a series of uses. -/
def useAll (c : Client σ) (uses : List Use) : Client σ :=
  uses.foldl use c

variable {R : Client σ → Client τ → Prop} {c : Client σ} {d : Client τ}

theorem Couples.perform (h : Couples R fun _ => True) (hcd : R c d) (call : Call) :
    R (c.perform call) (d.perform call) := by
  cases call with
  | openTransaction => exact (h.openTransaction _ _ _).after hcd
  | writeRegister => exact (h.writeRegister _ _ _).after hcd
  | write => exact (h.write _ _ _).after hcd
  | writeExceptLast => exact (h.composes.writeExceptLast _ _).after hcd
  | writeAll => exact (h.composes.writeAll _ fun _ => trivial).after hcd
  | writeTraining => exact (h.composes.writeTraining _ fun _ => trivial).after hcd
  | read => exact (h.composes.read _ _).after hcd
  | feedforward => exact (h.composes.feedforward _ _ fun _ => trivial).after hcd
  | trainIncremental => exact (h.composes.trainIncremental _ (fun _ => trivial) fun _ => trivial).after hcd
  | runCompare => exact (h.composes.runCompare _ _ _ fun _ => trivial).after hcd
  | feedforwardPrimed => exact (h.composes.feedforwardPrimed _ _ fun _ => trivial).after hcd

namespace CouplesDraining

variable (h : CouplesDraining R fun _ => True)

include h

theorem use (hcd : R c d) (u : Use) : R (c.use u) (d.use u) := by
  cases u with
  | issueOpen => exact (h.issueOpen _ _ _).after hcd
  | tryWrite => exact (h.tryWrite _ _ _).after hcd
  | tryRead => exact (h.tryRead _).after hcd
  | poll => exact h.poll.after hcd
  | idle => exact h.idle.after hcd
  | isDone => exact (h.isDone _).after hcd
  | capability => exact h.capability.after hcd
  | kill => exact hcd
  | call call => exact h.perform hcd call
  | run table asid cycleBudget batch =>
    exact (Scheduler.runBatch_withClient h batch
      { client := c, table := table, asid := asid, cycleBudget := cycleBudget } hcd).2

theorem useAll (hcd : R c d) (uses : List Use) : R (c.useAll uses) (d.useAll uses) := by
  induction uses generalizing c d with
  | nil => exact hcd
  | cons u uses ih => exact ih (h.use hcd u)

end CouplesDraining

/-- What the channel is asked in a series of uses. -/
def trace (c : Client σ) (uses : List Use) : List Access :=
  (c.traced.useAll uses).channel.trace

/-- A trace makes no difference to any use. -/
theorem useAll_traced (c : Client σ) (uses : List Use) :
    c.useAll uses = (c.traced.useAll uses).untraced :=
  couplesDraining_traced.useAll (c := c) (d := c.traced) rfl uses

end Client

end NeuralEngine
