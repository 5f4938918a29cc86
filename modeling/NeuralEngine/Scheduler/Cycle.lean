import NeuralEngine.Client.Blocking
import NeuralEngine.Scheduler.Route

/-!
# The cycles of a run

Each cycle presents at most one request, for the next slot in turn that has something to present,
then takes the deferred responses, finds out which transactions have finished, and routes what came
in, the immediate answer first. The run ends when no slot holds a transaction, at the first error,
or when its budget of cycles is used up.
-/

namespace NeuralEngine

/-- A computation on a run. What it did stays done when it fails. -/
abbrev RunM (σ : Type) (n m : Nat) : Type → Type :=
  EStateM SchedulerError (Run σ n m)

namespace Run

variable {σ : Type} {n m : Nat}

/-- Makes a client call. -/
def ask {α : Type} (call : ClientM σ α) : RunM σ n m α := fun run =>
  match call run.client with
  | .ok a client => .ok a { run with client := client }
  | .error e client => .error (.client e) { run with client := client }

/-- The transaction of a slot. -/
def transactionOf (i : Fin n) : RunM σ n m (Fin m) := do
  match (← get).slots[i].transaction with
  | some t => return t
  | none => throw .slotStateInconsistent

/-- The identifier of the transaction of a slot. -/
def tidOf (i : Fin n) : RunM σ n m Tid := do
  match (← get).slots[i].tid with
  | some tid => return tid
  | none => throw .slotStateInconsistent

section Present

variable [Channel σ]

/-- Presents the open of a transaction. -/
def presentOpen (i : Fin n) (t : Fin m) : RunM σ n m (Option Response) := do
  let transaction := (← get).transactions[t]
  if 2 ^ 16 ≤ transaction.trainOutputs then throw (.client .tooManyOutputs)
  else
    let response ← ask (Client.issueOpen transaction.nnid transaction.mode
      (BitVec.ofNat 16 transaction.trainOutputs))
    modify (awaitTid i)
    return if response.kind? = some .status then none else some response

/-- Presents the next register write or data write of a transaction. -/
def presentWrite (i : Fin n) (t : Fin m) : RunM σ n m (Option Response) := do
  let tid ← tidOf i
  let run ← get
  let slot := run.slots[i]
  let transaction := run.transactions[t]
  match transaction.registers[slot.registersWritten]? with
  | some (register, value) =>
    ask (Client.writeRegister tid register value)
    modify (countRegister i)
    return none
  | none =>
    match transaction.stream[slot.cursor]? with
    | none => throw .slotStateInconsistent
    | some value =>
      let last := slot.cursor + 1 == transaction.stream.size
      match ← ask (Client.tryWrite tid value last) with
      | .accepted =>
        modify (countElement i last)
        return none
      | .busy =>
        modify (tally fun r => { r with busyRetries := r.busyRetries + 1 })
        return none

/-- Presents the next read of a transaction. -/
def presentRead (i : Fin n) (t : Fin m) : RunM σ n m (Option Response) := do
  let tid ← tidOf i
  match ← ask (Client.tryRead tid) with
  | .notDone =>
    modify (tally fun r => { r with notDonePolls := r.notDonePolls + 1 })
    return none
  | .deferred =>
    modify (countRead i t)
    return none
  | .data response =>
    modify (countRead i t)
    return some response

/-- Presents the next request of a slot. The result is the answer, if it has to be routed. -/
def present (i : Fin n) : RunM σ n m (Option Response) := do
  let t ← transactionOf i
  match (← get).slots[i].state with
  | .newWrite => presentOpen i t
  | .write => presentWrite i t
  | .read => presentRead i t
  | _ => throw .slotStateInconsistent

/-- Presents the request of the slot whose turn it is, or lets the engine take a bare step. -/
def takeTurn : RunM σ n m (Option Response) := do
  let run ← get
  match next? run.slots run.cursor with
  | some i =>
    modify fun run => { run with cursor := (i + 1) % n }
    present i
  | none =>
    ask Client.idle
    modify (tally fun r => { r with idleSteps := r.idleSteps + 1 })
    return none

/-- Lets a slot go on to read once its transaction has finished. -/
def promote (i : Fin n) : RunM σ n m Unit := do
  let slot := (← get).slots[i]
  match slot.state, slot.tid with
  | .executing, some tid =>
    if ← ask (Client.isDone tid) then modify (modifySlot i (·.transition .read)) else return ()
  | _, _ => return ()

/-- Lets every slot whose transaction has finished go on to read. -/
def promoteFinished : RunM σ n m Unit :=
  (List.finRange n).forM promote

end Present

/-- A change that may fail, as a computation. -/
def attempt (change : Run σ n m → Except SchedulerError (Run σ n m)) : RunM σ n m Unit := fun run =>
  match change run with
  | .ok next => .ok () next
  | .error e => .error e run

/-- Routes responses in order. -/
def routeAll : List Response → RunM σ n m Unit
  | [] => return ()
  | response :: rest => do
    attempt (route response)
    routeAll rest

section Cycle

variable [DrainingChannel σ]

/-- Takes every deferred response that the engine has to hand out. -/
def collect : RunM σ n m (List Response) := do
  let responses ← ask Client.pollAll
  modify (tally fun r => { r with deferredResponses := r.deferredResponses + responses.length })
  return responses

/-- Presents a request and takes in what has to be routed, the answer to the request first. -/
def gather : RunM σ n m (List Response) := do
  let prompt ← takeTurn
  modify countCycle
  let late ← collect
  promoteFinished
  return prompt.toList ++ late

/-- One cycle of the run. -/
def cycle : RunM σ n m Unit := do
  routeAll (← gather)

/-- Cycles until every transaction is complete, at most `budget` times. -/
def cycles : Nat → RunM σ n m Unit
  | 0 => do
    modify refill
    if (← get).isBusy then throw .cycleBudgetExceeded else return ()
  | budget + 1 => do
    modify refill
    if (← get).isBusy then
      cycle
      cycles budget
    else return ()

end Cycle

end Run

end NeuralEngine
