import NeuralEngine.Channel.Basic

/-!
# The transaction client: single attempts

A client drives transactions over a channel and counts what does not go smoothly. The operations
here present one request each: a transient exit code is an outcome of its own (`busy`, `notDone`),
every other code but `ok` is an error that passes the code on. A bare `ok` status in answer to an
open or a read means that the answer proper is deferred.
-/

namespace NeuralEngine

/-- Why a client call fails. -/
inductive ClientError where
  /-- The engine refused a request with this code. -/
  | engine (code : ExitCode)
  /-- The engine answered with a response of the wrong kind. -/
  | unexpectedResponse
  /-- A transient code or a wait outlasted the attempts that are allowed. -/
  | retryLimitExceeded
  | emptyInput
  /-- More expected outputs than an open can announce. -/
  | tooManyOutputs
  | cancellationUnsupported
deriving DecidableEq, Repr

namespace ClientError

def message : ClientError → String
  | engine code => "Engine(" ++ code.name ++ ")"
  | unexpectedResponse => "UnexpectedResponse"
  | retryLimitExceeded => "RetryLimitExceeded"
  | emptyInput => "EmptyInput"
  | tooManyOutputs => "TooManyOutputs"
  | cancellationUnsupported => "CancellationUnsupported"

/-- The exit code that the error passes on. -/
def exitCode? : ClientError → Option ExitCode
  | engine code => some code
  | _ => none

end ClientError

/-- An exit code as a result: an error unless it is `ok`. -/
def ExitCode.toResult (code : ExitCode) : Except ClientError Unit :=
  if code = .ok then .ok () else .error (.engine code)

namespace Client

/-- Counts of what does not go smoothly. -/
structure Statistics where
  busyRetries : Nat := 0
  notDonePolls : Nat := 0
  fatalCodes : Nat := 0
  deferredResponses : Nat := 0
deriving DecidableEq, Repr

end Client

/-- A client of a channel with states `σ`. -/
structure Client (σ : Type) where
  channel : σ
  /-- The attempts per element before a transient code becomes an error. -/
  retryLimit : Nat := 2 ^ 16
  statistics : Client.Statistics := {}

/-- A computation on a client. What it did stays done when it fails. -/
abbrev ClientM (σ : Type) : Type → Type :=
  EStateM ClientError (Client σ)

/-- The outcome of one write attempt. -/
inductive WriteStatus where
  | accepted
  /-- The queue is full and the element was not taken. -/
  | busy
deriving DecidableEq, Repr

/-- The outcome of one read attempt. -/
inductive ReadStatus where
  /-- The data response. -/
  | data (response : Response)
  /-- The read was taken, and the data response will be handed out later. -/
  | deferred
  | notDone
deriving DecidableEq, Repr

namespace Client

variable {σ : Type} [Channel σ]

/-- Changes the statistics. -/
def count (f : Statistics → Statistics) : ClientM σ Unit :=
  modify fun c => { c with statistics := f c.statistics }

/-- Presents a request. -/
def issue (request : Request) : ClientM σ Response :=
  modifyGet fun c =>
    let answer := Channel.issue request c.channel
    (answer.1, { c with channel := answer.2 })

/-- Lets the engine take one step without a request. -/
def idle : ClientM σ Unit :=
  modify fun c => { c with channel := Channel.step c.channel }

/-- The capability word of the engine. -/
def capability : ClientM σ Capability :=
  modifyGet fun c =>
    let answer := Channel.capability c.channel
    (answer.1, { c with channel := answer.2 })

/-- The transaction has finished and its outputs can be read. -/
def isDone (tid : Tid) : ClientM σ Bool :=
  modifyGet fun c =>
    let answer := Channel.isDone tid c.channel
    (answer.1, { c with channel := answer.2 })

/-- The statistics after a poll that yielded the given response. -/
def Statistics.addPoll (response : Option Response) (t : Statistics) : Statistics :=
  match response with
  | some _ => { t with deferredResponses := t.deferredResponses + 1 }
  | none => t

/-- Takes the oldest deferred response that the engine has to hand out. -/
def poll : ClientM σ (Option Response) :=
  modifyGet fun c =>
    let answer := Channel.poll c.channel
    (answer.1, { c with channel := answer.2, statistics := c.statistics.addPoll answer.1 })

/-- Fails with an exit code. -/
def fatal {α : Type} (code : ExitCode) : ClientM σ α := do
  count fun t => { t with fatalCodes := t.fatalCodes + 1 }
  throw (.engine code)

/-- The response, if its exit code is `ok`. -/
def accept (response : Response) : ClientM σ Response :=
  match response.exitCode with
  | .ok => return response
  | code => fatal code

/-- Presents an open and yields the immediate answer. -/
def issueOpen (nnid : Nnid) (mode : LearningMode) (trainOutputs : BitVec 16) : ClientM σ Response := do
  accept (← issue (.newTransaction nnid mode trainOutputs))

/-- Sets a register of a transaction, which must precede its first data write. -/
def writeRegister (tid : Tid) (register : Register) (value : RegisterValue) : ClientM σ Unit := do
  let _ ← accept (← issue (.setRegister tid register value))

/-- Presents a data write once. -/
def tryWrite (tid : Tid) (value : Element) (last : Bool) : ClientM σ WriteStatus := do
  let response ← issue (.writeData tid value last)
  match response.exitCode with
  | .ok => return .accepted
  | .queueBusy =>
    count fun t => { t with busyRetries := t.busyRetries + 1 }
    return .busy
  | code => fatal code

/-- Presents a read once. -/
def tryRead (tid : Tid) : ClientM σ ReadStatus := do
  let response ← issue (.readData tid)
  match response.exitCode with
  | .ok =>
    match response.kind? with
    | some .data => return .data response
    | some .status => return .deferred
    | _ => throw .unexpectedResponse
  | .notDone =>
    count fun t => { t with notDonePolls := t.notDonePolls + 1 }
    return .notDone
  | code => fatal code

/-- Cancels a transaction, which no engine supports. -/
def kill (_tid : Tid) : ClientM σ Unit :=
  throw .cancellationUnsupported

omit [Channel σ]

def Statistics.describe (t : Statistics) : String :=
  "Statistics \x7b busy_retries: " ++ toString t.busyRetries ++ ", not_done_polls: " ++
    toString t.notDonePolls ++ ", fatal_codes: " ++ toString t.fatalCodes ++
    ", deferred_responses: " ++ toString t.deferredResponses ++ " \x7d"

/-- The client in two lines. -/
def describe (c : Client σ) : List String :=
  ["Transaction client: ClientConfig \x7b retry_limit: " ++ toString c.retryLimit ++ " \x7d",
   c.statistics.describe]

end Client

end NeuralEngine
