import NeuralEngine.Client.Basic

/-!
# The transaction client: blocking calls

A blocking call presents the identical request again while the engine answers with a transient
code, and steps the engine while it waits for a deferred response. Every element and every wait has
as many attempts as the retry limit of the client; a call whose attempts are used up fails with
`retryLimitExceeded`.
-/

namespace NeuralEngine.Client

variable {σ : Type}

section Calls

variable [Channel σ]

/-- Takes at most `limit` deferred responses that the engine has to hand out. -/
def pollWithin : Nat → ClientM σ (List Response)
  | 0 => return []
  | limit + 1 => do
    match ← poll with
    | none => return []
    | some response => return response :: (← pollWithin limit)

/-- Waits for a deferred response, with a step after each of at most `attempts` empty polls. -/
def awaitWithin : Nat → ClientM σ Response
  | 0 => throw .retryLimitExceeded
  | attempts + 1 => do
    match ← poll with
    | some response => accept response
    | none =>
      idle
      awaitWithin attempts

/-- Waits for a deferred response. -/
def awaitDeferred : ClientM σ Response := do
  awaitWithin (← get).retryLimit

/-- Opens a transaction on a network; `trainOutputs` expected outputs lead its stream. -/
def openTransaction (nnid : Nnid) (mode : LearningMode) (trainOutputs : BitVec 16) : ClientM σ Tid := do
  let answer ← issueOpen nnid mode trainOutputs
  let response ← if answer.kind? = some .status then awaitDeferred else pure answer
  if response.kind? = some .tid then return response.tid else throw .unexpectedResponse

/-- Writes an element in at most `attempts` attempts. -/
def writeWithin (tid : Tid) (value : Element) (last : Bool) : Nat → ClientM σ Unit
  | 0 => throw .retryLimitExceeded
  | attempts + 1 => do
    match ← tryWrite tid value last with
    | .accepted => return ()
    | .busy => writeWithin tid value last attempts

/-- Writes an element; the last one starts the execution. -/
def write (tid : Tid) (value : Element) (last : Bool) : ClientM σ Unit := do
  writeWithin tid value last (← get).retryLimit

/-- Writes elements, none of which is the last. -/
def writeExceptLast (tid : Tid) : List Element → ClientM σ Unit
  | [] => return ()
  | value :: rest => do
    write tid value false
    writeExceptLast tid rest

/-- Writes the whole stream of a transaction. -/
def writeAll (tid : Tid) : List Element → ClientM σ Unit
  | [] => throw .emptyInput
  | [value] => write tid value true
  | value :: rest => do
    write tid value false
    writeAll tid rest

/-- Writes the stream of an incremental training step: the expected outputs, then the inputs. -/
def writeTraining (tid : Tid) (inputs expected : List Element) : ClientM σ Unit :=
  if inputs = [] then throw .emptyInput
  else do
    writeExceptLast tid expected
    writeAll tid inputs

/-- The element of a data response for the transaction. -/
def elementOf (tid : Tid) (response : Response) : ClientM σ Element :=
  if response.kind? = some .data ∧ response.tid = tid then return response.element
  else throw .unexpectedResponse

/-- Reads the next output of a transaction in at most `attempts` attempts. -/
def readWithin (tid : Tid) : Nat → ClientM σ Element
  | 0 => throw .retryLimitExceeded
  | attempts + 1 => do
    match ← tryRead tid with
    | .data response => elementOf tid response
    | .deferred => elementOf tid (← awaitDeferred)
    | .notDone => readWithin tid attempts

/-- Reads the next output of a transaction. -/
def readNext (tid : Tid) : ClientM σ Element := do
  readWithin tid (← get).retryLimit

/-- Reads outputs of a transaction after those of `got`, which has the latest one first. -/
def readOnto (tid : Tid) : Nat → List Element → ClientM σ (List Element)
  | 0, got => return got.reverse
  | n + 1, got => do
    let value ← readNext tid
    readOnto tid n (value :: got)

/-- Reads the next `n` outputs of a transaction. -/
def read (tid : Tid) (n : Nat) : ClientM σ (List Element) :=
  readOnto tid n []

end Calls

/-- Takes every deferred response that the engine has to hand out, until a poll yields none. -/
def pollAll [DrainingChannel σ] : ClientM σ (List Response) := do
  pollWithin (DrainingChannel.backlog (← get).channel + 1)

end NeuralEngine.Client
