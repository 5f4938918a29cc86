import NeuralEngine.Channel.Basic
import NeuralEngine.Simulator.Basic

/-!
# How the simulator answers

A request takes one step and is then answered by its operation. An operation either refuses the
request with an exit code, which leaves the state as the step left it, or yields a response and a
new state. Answers to opens and reads may be deferred: the immediate answer is then a bare `ok`,
and `poll` hands the response out once it is due, the oldest one that is due first.
-/

namespace NeuralEngine.Simulator

/-- The value, or a refusal with the given code. -/
def orRefuse {α : Type} (code : ExitCode) : Option α → Except ExitCode α
  | some a => .ok a
  | none => .error code

/-- The identifier is carried by a transaction or by a response not handed out yet. -/
def isTaken (s : Simulator) (tid : Tid) : Bool :=
  (s.find? tid).isSome || s.deferred.any (·.response.tid == tid)

/-- The first identifier that is not taken among the next `n` ones, and the one after it. -/
def firstFree (taken : Tid → Bool) (stride : Tid) : Nat → Tid → Option (Tid × Tid)
  | 0, _ => none
  | n + 1, tid => if taken tid then firstFree taken stride n (tid + stride) else some (tid, tid + stride)

/-- The identifier for a new transaction, and the one to try first the next time. The stride
comes back to where it started within `2 ^ 16` identifiers, so no more of them need be tried. -/
def allocate? (s : Simulator) : Option (Tid × Tid) :=
  firstFree s.isTaken s.options.tidStride (2 ^ 16) s.nextTid

/-- The engine can no longer answer. -/
def fail (fault : Fault) (s : Simulator) : Response × Simulator :=
  (.status .unknown, { s with fault := some fault })

/-- Holds a response back for the given number of steps. -/
def defer (response : Response) (steps : Nat) (s : Simulator) : Simulator :=
  { s with deferred := s.deferred ++ [⟨s.options.clock.count (s.cycle + steps), response⟩] }

/-- Answers with the response, or defers it by the given number of steps. -/
def respond (response : Option Response) (delay : Option Nat) (s : Simulator) : Response × Simulator :=
  match response, delay with
  | none, _ => s.fail .addressSpaceTooWide
  | some r, none => (r, s)
  | some r, some steps => (.status .ok, s.defer r steps)

/-- The number of identifiers produced and not handed out. -/
def deferredTids (s : Simulator) : Nat :=
  s.deferred.countP (·.response.kind? == some .tid)

/-- The address space in force; number zero if none is active. -/
def activeAsid (s : Simulator) : Asid :=
  s.asid.getD 0

/-- The active address space with its number, if there is one and the table has it. -/
def activeSpace? (s : Simulator) : Option (Asid × AddressSpace) :=
  match s.asid, s.table with
  | some asid, some table => (table.space? asid).map fun space => (asid, space)
  | _, _ => none

/-- The number of outputs that a configuration declares. -/
def declaredOutputs (config : NetworkConfig) : Nat :=
  match config.words[1]? with
  | some word => (word.extractLsb' 0 16).toNat
  | none => 1

/-- The configuration of a network that the engine can run. -/
def usableConfig (space : AddressSpace) (nnid : Nnid) (s : Simulator) : Except ExitCode NetworkConfig :=
  match space.config? nnid with
  | none => .error .invalidNetworkId
  | some config =>
    if config.size = 0 then .error .zeroSizeNetwork
    else if config.elementsPerBlock ≠ s.params.elementsPerBlock then .error .invalidBlockEncoding
    else .ok config

/-- What an open that the engine accepts asks for. -/
structure Opening where
  asid : Asid
  nnid : Nnid
  mode : LearningMode
  trainOutputs : Nat
  outputCount : Nat
deriving DecidableEq, Repr

/-- Reads an open, if the engine accepts it: the network can be run and a row is free. -/
def checkOpen (request : Request) (s : Simulator) : Except ExitCode Opening := do
  let (asid, space) ← orRefuse .noActiveAddressSpace s.activeSpace?
  let config ← s.usableConfig space request.nnid
  let mode ← orRefuse .badRequest (LearningMode.ofCode? request.modeCode.toNat)
  if s.capacity ≤ s.resident then throw .badRequest
  else return ⟨asid, request.nnid, mode, request.trainOutputs.toNat, declaredOutputs config⟩

/-- The entry of a transaction that was just opened. -/
def Opening.entry (o : Opening) (tid : Tid) : Entry where
  tid := tid
  nnid := o.nnid
  mode := o.mode
  trainOutputs := o.trainOutputs
  outputCount := o.outputCount

/-- The state with a new transaction in the lowest free row. -/
def addEntry (entry : Entry) (nextTid : Tid) (s : Simulator) : Simulator :=
  let held := { s with rows := Rows.place entry s.rows, nextTid := nextTid }
  { held with statistics :=
      { s.statistics with peakResident := max s.statistics.peakResident held.resident } }

/-- Takes the count of deferred identifiers into its peak. -/
def countDeferredTids (s : Simulator) : Simulator :=
  { s with statistics :=
      { s.statistics with peakDeferredTids := max s.statistics.peakDeferredTids s.deferredTids } }

/-- Opens the transaction that an accepted open asks for. -/
def acceptOpen (o : Opening) (s : Simulator) : Response × Simulator :=
  match s.allocate? with
  | none => s.fail .identifiersExhausted
  | some (tid, nextTid) =>
    let answer := (s.addEntry (o.entry tid) nextTid).respond (Response.tidAssigned? o.asid tid)
      s.options.tidDelay
    (answer.1, answer.2.countDeferredTids)

/-- Opens a transaction. -/
def openTransaction (request : Request) (s : Simulator) : Except ExitCode (Response × Simulator) :=
  (s.checkOpen request).map fun o => s.acceptOpen o

/-- The transaction that a request is about. -/
def target (request : Request) (s : Simulator) : Except ExitCode Entry :=
  orRefuse .badRequest (s.find? request.tid)

/-- Changes the transaction with the given identifier; it is freed if `f` yields none. -/
def update (tid : Tid) (f : Entry → Option Entry) (s : Simulator) : Simulator :=
  { s with rows := Rows.update tid f s.rows }

/-- Sets a register of a transaction. -/
def writeRegister (request : Request) (s : Simulator) : Except ExitCode (Response × Simulator) := do
  let register ← orRefuse .badRequest (Register.ofCode? request.registerCode.toNat)
  let entry ← s.target request
  if !entry.isWritable then throw .badRequest
  else return (.status .ok, s.update request.tid fun e =>
    some { e with registers := e.registers.set register request.registerValue })

/-- Refuses a data write as busy. -/
def refuseBusy (s : Simulator) : Response × Simulator :=
  (.status .queueBusy,
   { s with
     forcedBusy := s.forcedBusy - 1
     statistics := { s.statistics with busyResponses := s.statistics.busyResponses + 1 } })

/-- The state with one more element in the queue of a transaction. -/
def enqueue (tid : Tid) (value : Element) (last : Bool) (s : Simulator) : Simulator :=
  s.update tid fun e => some { e with queue := e.queue ++ [value], lastSeen := last }

/-- Writes an element of the stream of a transaction. -/
def writeData (last : Bool) (request : Request) (s : Simulator) : Except ExitCode (Response × Simulator) := do
  let entry ← s.target request
  if !entry.isWritable then throw .badRequest
  else if 0 < s.forcedBusy ∨ s.options.queueDepth ≤ entry.queue.length then return s.refuseBusy
  else return (.status .ok, s.enqueue request.tid request.element last)

/-- Refuses a read of a transaction that has not finished. -/
def refuseNotDone (s : Simulator) : Response × Simulator :=
  (.status .notDone,
   { s with
     statistics := { s.statistics with notDoneResponses := s.statistics.notDoneResponses + 1 } })

/-- The state with the given outputs left to read; a transaction without any is freed. -/
def leaveOutputs (tid : Tid) (rest : List Element) (s : Simulator) : Simulator :=
  s.update tid fun e => if rest = [] then none else some { e with outputs := rest }

/-- Reads the next output of a transaction, which is freed with the last one. -/
def readData (request : Request) (s : Simulator) : Except ExitCode (Response × Simulator) := do
  let entry ← s.target request
  if !entry.isDone then return s.refuseNotDone
  else match entry.outputs with
    | [] => throw .badRequest
    | value :: rest =>
      return (s.leaveOutputs request.tid rest).respond
        (Response.dataOut? s.activeAsid request.tid value)
        (s.options.dataDelay.map fun delay => delay request.tid)

/-- The answer to a request in the state after its step. -/
def perform (request : Request) (s : Simulator) : Except ExitCode (Response × Simulator) :=
  match request.op? with
  | some .newRequest => s.openTransaction request
  | some .writeRegister => s.writeRegister request
  | some .writeData => s.writeData false request
  | some .writeDataLast => s.writeData true request
  | some .readData => s.readData request
  | none => .error .badRequest

/-- The state after the step of a request, which enters the history. -/
def record (request : Request) (s : Simulator) : Simulator :=
  { s.tick with issued := request :: s.issued }

/-- Refuses a request for good. -/
def refuse (code : ExitCode) (s : Simulator) : Response × Simulator :=
  (.status code,
   { s with statistics := { s.statistics with fatalResponses := s.statistics.fatalResponses + 1 } })

/-- Presents a request. -/
def issue (request : Request) (s : Simulator) : Response × Simulator :=
  let recorded := s.record request
  match recorded.perform request with
  | .ok answer => answer
  | .error code => recorded.refuse code

/-- The response can be handed out. -/
def isDue (s : Simulator) (d : Deferred) : Bool :=
  decide (d.due ≤ s.cycle)

/-- Hands out the oldest response that is due. -/
def poll (s : Simulator) : Option Response × Simulator :=
  match s.deferred.find? s.isDue with
  | none => (none, s)
  | some d =>
    (some d.response,
     { s with deferred := s.deferred.eraseP s.isDue, delivered := d.response :: s.delivered })

theorem length_deferred_poll {s s' : Simulator} {r : Response} (h : s.poll = (some r, s')) :
    s'.deferred.length < s.deferred.length := by
  unfold poll at h
  split at h
  · simp at h
  · next d hd =>
    cases h
    have hmem := List.mem_of_find?_eq_some hd
    have hpos := List.length_pos_of_mem hmem
    have hlen := List.length_eraseP_of_mem hmem (List.find?_some hd)
    simp only [hlen]
    omega

instance : DrainingChannel Simulator where
  issue := issue
  step := tick
  poll := poll
  capability s := (s.capability, s)
  isDone tid s := (s.isDone tid, s)
  backlog s := s.deferred.length
  backlog_poll := length_deferred_poll

end NeuralEngine.Simulator
