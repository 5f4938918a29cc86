import NeuralEngine.Basic

/-!
# Slots

A slot carries one transaction at a time through its life: open, wait for the identifier, write
registers and stream, execute, read, wait for the last output. `Slot ι` names its transaction by an
index of type `ι`.
-/

namespace NeuralEngine

/-- Where a slot is in the life of its transaction. -/
inductive SlotState where
  | unused
  /-- Holds a transaction that has not been opened. -/
  | newWrite
  /-- The open was presented and the identifier is awaited. -/
  | newWriteWait
  | write
  | executing
  | read
  /-- Every read was presented and the last output is awaited. -/
  | readWait
deriving DecidableEq, Repr

namespace SlotState

/-- All states, in the order of a life. -/
def all : List SlotState :=
  [unused, newWrite, newWriteWait, write, executing, read, readWait]

def name : SlotState → String
  | unused => "Unused"
  | newWrite => "NewWrite"
  | newWriteWait => "NewWriteWait"
  | write => "Write"
  | executing => "Executing"
  | read => "Read"
  | readWait => "ReadWait"

/-- The slot has something to present to the engine. -/
def isActionable : SlotState → Bool
  | newWrite | write | read => true
  | _ => false

/-- The slot occupies a row of the transaction table of the engine, which takes it with the open,
before the identifier is known. -/
def holdsEntry : SlotState → Bool
  | unused | newWrite => false
  | _ => true

end SlotState

/-- A place for one transaction at a time. -/
structure Slot (ι : Type) where
  state : SlotState := .unused
  /-- The transaction, by its index in the batch. -/
  transaction : Option ι := none
  tid : Option Tid := none
  registersWritten : Nat := 0
  /-- The number of stream elements that were accepted. -/
  cursor : Nat := 0
  readsIssued : Nat := 0
deriving DecidableEq, Repr

namespace Slot

variable {ι : Type}

/-- A slot that holds nothing. -/
def empty : Slot ι := {}

/-- A slot that holds a transaction to be opened. -/
def holding (transaction : ι) : Slot ι :=
  { state := .newWrite, transaction := some transaction }

/-- The slot in another state. -/
def transition (next : SlotState) (s : Slot ι) : Slot ι :=
  { s with state := next }

end Slot

end NeuralEngine
