import NeuralEngine.Client.Basic
import NeuralEngine.Scheduler.Slot
import NeuralEngine.Scheduler.Transaction

/-!
# The state of a run

A run drives `m` transactions through `n` slots. Transactions are handed to unused slots in the
order of the batch, slots that await an identifier stand in a line, and the slot of each identifier
in use is kept in a map. Slots that have something to present take turns: after slot `i` has had its
turn, slot `i + 1` comes first.
-/

namespace NeuralEngine

/-- Why a run fails. -/
inductive SchedulerError where
  | client (e : ClientError)
  | cycleBudgetExceeded
  /-- A response of unknown kind, or one that no slot waits for. -/
  | unrecognizedResponse
  | slotStateInconsistent
  /-- The transaction names a network that the address space lacks. -/
  | unknownNetwork (index : Nat)
  /-- The transaction has no inputs or no outputs. -/
  | emptyTransaction (index : Nat)
  | noEngineCapacity
deriving DecidableEq, Repr

def SchedulerError.message : SchedulerError → String
  | client e => "Client(" ++ e.message ++ ")"
  | cycleBudgetExceeded => "CycleBudgetExceeded"
  | unrecognizedResponse => "UnrecognizedResponse"
  | slotStateInconsistent => "SlotStateInconsistent"
  | unknownNetwork i => "UnknownNetwork(" ++ toString i ++ ")"
  | emptyTransaction i => "EmptyTransaction(" ++ toString i ++ ")"
  | noEngineCapacity => "NoEngineCapacity"

/-- What a run took. -/
structure RunReport where
  cycles : Nat := 0
  completed : Nat := 0
  /-- The most slots that occupied a row of the engine at once. -/
  peakActive : Nat := 0
  busyRetries : Nat := 0
  notDonePolls : Nat := 0
  idleSteps : Nat := 0
  /-- The most opens that awaited their identifier at once. -/
  peakAwaitingTid : Nat := 0
  deferredResponses : Nat := 0
deriving DecidableEq, Repr

/-- The state of a run of `m` transactions over `n` slots. -/
structure Run (σ : Type) (n m : Nat) where
  client : Client σ
  slots : Vector (Slot (Fin m)) n
  transactions : Vector Transaction m
  /-- The first transaction that no slot has held yet. -/
  nextPending : Nat := 0
  /-- The slots that await an identifier, in the order of their opens. -/
  awaitingTid : List (Fin n) := []
  /-- The slot of each identifier in use. -/
  routes : List (Tid × Fin n) := []
  /-- The slot whose turn comes first. -/
  cursor : Nat := 0
  report : RunReport := {}

namespace Run

variable {σ : Type} {n m : Nat}

/-- The run before its first cycle. -/
def start (client : Client σ) (transactions : Vector Transaction m) : Run σ n m where
  client := client
  slots := Vector.replicate n Slot.empty
  transactions := transactions

/-- Hands transaction `t` to a slot; the one after it is pending then. -/
def hand (i : Fin n) (t : Fin m) (run : Run σ n m) : Run σ n m :=
  { run with slots := run.slots.set i (Slot.holding t) i.isLt, nextPending := t + 1 }

/-- Hands the next pending transaction to a slot that is unused. -/
def refillSlot (run : Run σ n m) (i : Fin n) : Run σ n m :=
  if h : run.slots[i].state = .unused ∧ run.nextPending < m then run.hand i ⟨run.nextPending, h.2⟩
  else run

/-- Hands pending transactions to the unused slots, the lowest slot first. -/
def refill (run : Run σ n m) : Run σ n m :=
  (List.finRange n).foldl refillSlot run

/-- Some slot holds a transaction. -/
def isBusy (run : Run σ n m) : Bool :=
  run.slots.any fun s => s.state != .unused

/-- The number of slots that occupy a row of the engine. -/
def active (run : Run σ n m) : Nat :=
  run.slots.countP fun s => s.state.holdsEntry

/-- The slots in the order of their turns, starting at the cursor. -/
def turns (cursor n : Nat) : List (Fin n) :=
  (List.finRange n).map fun (k : Fin n) => ⟨(cursor + k) % n, Nat.mod_lt _ k.pos⟩

/-- The next slot in turn that has something to present. -/
def next? {ι : Type} (slots : Vector (Slot ι) n) (cursor : Nat) : Option (Fin n) :=
  (turns cursor n).find? fun i => slots[i].state.isActionable

/-- Changes a slot. -/
def modifySlot (i : Fin n) (f : Slot (Fin m) → Slot (Fin m)) (run : Run σ n m) : Run σ n m :=
  { run with slots := run.slots.set i (f run.slots[i]) i.isLt }

/-- Changes a transaction. -/
def modifyTransaction (t : Fin m) (f : Transaction → Transaction) (run : Run σ n m) : Run σ n m :=
  { run with transactions := run.transactions.set t (f run.transactions[t]) t.isLt }

/-- Changes the report. -/
def tally (f : RunReport → RunReport) (run : Run σ n m) : Run σ n m :=
  { run with report := f run.report }

/-- Enters a slot into the line for identifiers. -/
def awaitTid (i : Fin n) (run : Run σ n m) : Run σ n m :=
  let awaiting := run.awaitingTid ++ [i]
  { run.modifySlot i (·.transition .newWriteWait) with
    awaitingTid := awaiting
    report := { run.report with peakAwaitingTid := max run.report.peakAwaitingTid awaiting.length } }

/-- Counts a register write that was taken. -/
def countRegister (i : Fin n) (run : Run σ n m) : Run σ n m :=
  run.modifySlot i fun s => { s with registersWritten := s.registersWritten + 1 }

/-- Counts a stream element that was taken; the last one starts the execution. -/
def countElement (i : Fin n) (last : Bool) (run : Run σ n m) : Run σ n m :=
  run.modifySlot i fun s =>
    { s with cursor := s.cursor + 1, state := if last then .executing else s.state }

/-- Counts a read that was taken; after the last one the slot waits. -/
def countRead (i : Fin n) (t : Fin m) (run : Run σ n m) : Run σ n m :=
  run.modifySlot i fun s =>
    { s with
      readsIssued := s.readsIssued + 1
      state := if s.readsIssued + 1 = run.transactions[t].outputCount then .readWait else s.state }

/-- Enters the cycle into the report. -/
def countCycle (run : Run σ n m) : Run σ n m :=
  run.tally fun r => { r with cycles := r.cycles + 1, peakActive := max r.peakActive run.active }

end Run

end NeuralEngine
