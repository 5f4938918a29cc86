import NeuralEngine.Capability
import NeuralEngine.Request
import NeuralEngine.Response

/-!
# Channels

A channel is what the runtime knows of an engine: a state machine that answers requests, takes
bare steps, hands out deferred responses, reports its capability word and tells whether a
transaction has finished. The immediate answer to an open or a read may be a bare `ok` status; the
identifier or the data word is then deferred and handed out by `poll` some steps later.

Nothing is asked of how a channel answers. Only who polls until nothing comes needs a
`DrainingChannel`, which never hands out more deferred responses in a row than its `backlog`.
-/

namespace NeuralEngine

/-- An engine as the runtime sees it, with states `σ`. -/
class Channel (σ : Type) where
  /-- Presents a request, which takes the engine one step, and yields the immediate answer. -/
  issue : Request → σ → Response × σ
  /-- Takes the engine one step without a request. -/
  step : σ → σ
  /-- Takes the oldest deferred response that the engine has to hand out. -/
  poll : σ → Option Response × σ
  /-- Reads the capability word. -/
  capability : σ → Capability × σ
  /-- Tells whether a transaction has finished and its outputs can be read. -/
  isDone : Tid → σ → Bool × σ

/-- A channel that runs out of deferred responses when it is polled again and again. -/
class DrainingChannel (σ : Type) extends Channel σ where
  /-- A bound on the deferred responses that can be handed out in a row. -/
  backlog : σ → Nat
  backlog_poll : ∀ {s s' : σ} {r : Response}, poll s = (some r, s') → backlog s' < backlog s

end NeuralEngine
