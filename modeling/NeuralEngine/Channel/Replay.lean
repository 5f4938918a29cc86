import NeuralEngine.Channel.Basic

/-!
# Replayed channels

A channel that answers from a script, whatever it is asked: each request is answered with the next
response of a list and with a fixed one once the list is used up. Deferred responses come out in
their order, each as soon as enough requests and steps have been made.
-/

namespace NeuralEngine

/-- Which transactions a replayed channel reports as finished. -/
inductive DoneScript where
  | always (done : Bool)
  | only (tids : List Tid)
deriving DecidableEq, Repr

namespace DoneScript

def holds (tid : Tid) : DoneScript → Bool
  | always done => done
  | only tids => tids.contains tid

end DoneScript

/-- A response that is held back until `after` requests and steps have been made. -/
structure HeldResponse where
  after : Nat
  response : Response
deriving DecidableEq, Repr

/-- The state of a replayed channel. -/
structure Replay where
  /-- The answers still to be given. -/
  responses : List Response := []
  /-- The answer to every request after those. -/
  fallback : Response := .status .badRequest
  deferred : List HeldResponse := []
  tableEntries : BitVec 16 := 2
  done : DoneScript := .always true
  steps : Nat := 0
  /-- The requests made so far, the latest first. -/
  issued : List Request := []
  /-- The number of requests made so far. -/
  issuedCount : Nat := 0
deriving DecidableEq, Repr

namespace Replay

/-- The requests made so far, in order. -/
def requests (s : Replay) : List Request :=
  s.issued.reverse

/-- Answers a request. -/
def issue (request : Request) (s : Replay) : Response × Replay :=
  (s.responses.headD s.fallback,
   { s with responses := s.responses.tail, issued := request :: s.issued, issuedCount := s.issuedCount + 1 })

/-- Hands out the first held response if its time has come. -/
def poll (s : Replay) : Option Response × Replay :=
  match s.deferred with
  | [] => (none, s)
  | held :: rest =>
    if held.after ≤ s.steps + s.issuedCount then (some held.response, { s with deferred := rest })
    else (none, s)

theorem length_deferred_poll {s s' : Replay} {r : Response} (h : s.poll = (some r, s')) :
    s'.deferred.length < s.deferred.length := by
  unfold poll at h
  split at h
  · simp at h
  · next held rest hs =>
    split at h
    · cases h
      simp [hs]
    · simp at h

instance : DrainingChannel Replay where
  issue := issue
  step s := { s with steps := s.steps + 1 }
  poll := poll
  capability s := ({ tableEntries := s.tableEntries }, s)
  isDone tid s := (s.done.holds tid, s)
  backlog s := s.deferred.length
  backlog_poll := length_deferred_poll

end Replay

end NeuralEngine
