import NeuralEngine.Proofs.Scheduler.Beside

/-!
# Traced channels

A traced channel is a channel together with all that it was asked so far. It answers as the channel
does, so clients and schedulers work over it as they work over the channel (`couples_traced`), and its
trace tells what a call or a run has asked.
-/

namespace NeuralEngine

/-- What a channel is asked, with what it yields. -/
inductive Access where
  | issue (request : Request) (answer : Response)
  | step
  | poll (answer : Option Response)
  | capability (capability : Capability)
  | isDone (tid : Tid) (done : Bool)
deriving DecidableEq, Repr

namespace Access

/-- The request, if one is presented. -/
def request? : Access → Option Request
  | issue request _ => some request
  | _ => none

/-- The immediate answer to a request, if one is presented. -/
def answer? : Access → Option Response
  | issue _ answer => some answer
  | _ => none

/-- The response that is taken by a poll, if any. -/
def polled? : Access → Option Response
  | poll answer => answer
  | _ => none

/-- A request is presented. -/
def isIssue (a : Access) : Bool :=
  a.request?.isSome

/-- The channel takes a step without a request. -/
def isStep : Access → Bool
  | step => true
  | _ => false

end Access

/-- A channel with what it was asked so far. -/
structure Traced (σ : Type) where
  channel : σ
  trace : List Access := []

namespace Traced

variable {σ : Type}

instance [Channel σ] : Channel (Traced σ) where
  issue request s :=
    let answer := Channel.issue request s.channel
    (answer.1, ⟨answer.2, s.trace ++ [.issue request answer.1]⟩)
  step s := ⟨Channel.step s.channel, s.trace ++ [.step]⟩
  poll s :=
    let answer := Channel.poll s.channel
    (answer.1, ⟨answer.2, s.trace ++ [.poll answer.1]⟩)
  capability s :=
    let answer := Channel.capability s.channel
    (answer.1, ⟨answer.2, s.trace ++ [.capability answer.1]⟩)
  isDone tid s :=
    let answer := Channel.isDone tid s.channel
    (answer.1, ⟨answer.2, s.trace ++ [.isDone tid answer.1]⟩)

instance [DrainingChannel σ] : DrainingChannel (Traced σ) where
  backlog s := DrainingChannel.backlog s.channel
  backlog_poll {s s' r} h := by
    obtain ⟨hanswer, rfl⟩ := Prod.mk.injEq .. ▸ h
    exact DrainingChannel.backlog_poll (Prod.ext hanswer rfl)

end Traced

namespace Client

variable {σ : Type}

/-- The client over its channel with a trace, which is empty at first. -/
def traced (c : Client σ) : Client (Traced σ) where
  channel := { channel := c.channel }
  retryLimit := c.retryLimit
  statistics := c.statistics

/-- The client over its channel without the trace. -/
def untraced (d : Client (Traced σ)) : Client σ where
  channel := d.channel.channel
  retryLimit := d.retryLimit
  statistics := d.statistics

/-- The one client is the other with a trace. -/
def Traces (c : Client σ) (d : Client (Traced σ)) : Prop :=
  c = d.untraced

variable [Channel σ]

/-- A trace makes no difference to what a client does. -/
theorem couples_traced : Couples (Traces (σ := σ)) fun _ => True := by
  have issue : ∀ request, Beside (Traces (σ := σ)) (fun _ => True) (issue request) (issue request) := by
    rintro request - d rfl
    exact .ok rfl
  have poll : Beside (Traces (σ := σ)) (fun _ => True) Client.poll Client.poll := by
    rintro - d rfl
    exact .ok rfl
  have attempts : Attempts (fun x y => Beside (Traces (σ := σ)) (fun _ => True) x y) fun _ => True :=
  { toClosed := closed_beside
    engine := fun _ => trivial
    unexpectedResponse := trivial
    count := by
      rintro f - d rfl
      exact .ok rfl
    issue := fun request _ => issue request }
  exact
  { retryLimit := fun h => h ▸ rfl
    unexpectedResponse := trivial
    retryLimitExceeded := trivial
    idle := by
      rintro - d rfl
      exact .ok rfl
    capability := by
      rintro - d rfl
      exact .ok rfl
    isDone := by
      rintro tid - d rfl
      exact .ok rfl
    poll := poll
    await := fun h => poll.bind fun answer => by
      cases answer with
      | none => exact h
      | some response => exact attempts.accept response
    issueOpen := fun _ _ _ => (issue _).bind fun response => attempts.accept response
    writeRegister := attempts.writeRegister
    tryWrite := attempts.tryWrite
    tryRead := attempts.tryRead }

end Client

namespace Client

theorem couplesDraining_traced {σ : Type} [DrainingChannel σ] :
    CouplesDraining (Traces (σ := σ)) fun _ => True where
  toCouples := couples_traced
  backlog h := h ▸ rfl

end Client

namespace Scheduler

variable {σ : Type}

/-- The scheduler over its channel with a trace. -/
def traced (s : Scheduler σ) : Scheduler (Traced σ) :=
  s.withClient s.client.traced

variable [DrainingChannel σ]

/-- What the channel is asked in the run of a batch. -/
def trace (s : Scheduler σ) (batch : Array Transaction) : List Access :=
  (s.traced.run batch).2.client.channel.trace

/-- The traced run is the run. -/
theorem run_traced (s : Scheduler σ) (batch : Array Transaction) :
    (s.traced.run batch).1 = (s.run batch).1 ∧
      (s.traced.run batch).2.client.untraced = (s.run batch).2.client := by
  obtain ⟨houtcome, hclient⟩ := runBatch_withClient Client.couplesDraining_traced batch s (d := s.client.traced) rfl
  exact ⟨houtcome, hclient.symm⟩

end Scheduler

end NeuralEngine
