import NeuralEngine.Basic
import NeuralEngine.Simulator.Network

/-!
# Entries of the transaction table

An entry is a transaction that the engine holds. Elements written to it wait in a queue until the
intake takes them. Once the last element has been taken, the entry executes for the latency of
the engine and then holds the outputs. The rows of the table are listed from row 0 on; a row is
`none` when it is free, and rows after the last one listed have never been used.
-/

namespace NeuralEngine.Simulator

/-- How far a transaction has come. -/
inductive Phase where
  /-- Elements are still written or waiting. -/
  | writing
  /-- The network runs for another `left` steps. -/
  | executing (left : Nat)
  /-- The outputs can be read. -/
  | done
deriving DecidableEq, Repr

def Phase.describe : Phase → String
  | writing => "Writing"
  | executing left => "Executing(" ++ toString left ++ ")"
  | done => "Done"

/-- The registers of a transaction; a register that was never written has no value. -/
structure Registers where
  batchItems : Option RegisterValue := none
  learningRate : Option RegisterValue := none
  weightDecayLambda : Option RegisterValue := none
deriving DecidableEq, Repr

namespace Registers

def get (r : Registers) : Register → Option RegisterValue
  | .batchItems => r.batchItems
  | .learningRate => r.learningRate
  | .weightDecayLambda => r.weightDecayLambda

def set (r : Registers) (register : Register) (value : RegisterValue) : Registers :=
  match register with
  | .batchItems => { r with batchItems := some value }
  | .learningRate => { r with learningRate := some value }
  | .weightDecayLambda => { r with weightDecayLambda := some value }

@[simp] theorem get_set (r : Registers) (register : Register) (value : RegisterValue) :
    (r.set register value).get register = some value := by
  cases register <;> rfl

theorem get_set_ne (r : Registers) {register other : Register} (value : RegisterValue)
    (h : other ≠ register) : (r.set register value).get other = r.get other := by
  cases register <;> cases other <;> simp_all [get, set]

end Registers

/-- A transaction held by the engine. -/
structure Entry where
  tid : Tid
  nnid : Nnid
  mode : LearningMode
  /-- The number of expected outputs that lead the stream in incremental training. -/
  trainOutputs : Nat
  /-- The number of outputs that the configuration of the network declares. -/
  outputCount : Nat
  registers : Registers := {}
  /-- Elements accepted but not taken by the intake, the oldest first. -/
  queue : List Element := []
  /-- Elements taken by the intake, the latest first. -/
  taken : List Element := []
  /-- The last element of the stream has been accepted. -/
  lastSeen : Bool := false
  phase : Phase := .writing
  /-- Outputs not read yet. -/
  outputs : List Element := []
deriving DecidableEq, Repr

namespace Entry

/-- The elements taken by the intake, in the order of the stream. -/
def consumed (e : Entry) : List Element :=
  e.taken.reverse

/-- The elements taken by the intake that are inputs of the network. -/
def inputs (e : Entry) : List Element :=
  match e.mode with
  | .trainIncremental => e.consumed.drop e.trainOutputs
  | _ => e.consumed

/-- The entry takes more elements and register writes. -/
def isWritable (e : Entry) : Bool :=
  e.phase == .writing && !e.lastSeen

/-- The outputs of the entry can be read. -/
def isDone (e : Entry) : Bool :=
  e.phase == .done

/-- One step of the phase. -/
def advance (latency : Nat) (e : Entry) : Entry :=
  match e.phase with
  | .writing => if e.lastSeen && e.queue.isEmpty then { e with phase := .executing latency } else e
  | .executing 0 => { e with outputs := expectedOutputs e.inputs e.outputCount, phase := .done }
  | .executing (left + 1) => { e with phase := .executing left }
  | .done => e

end Entry

/-- A row of the transaction table. -/
abbrev Row := Option Entry

namespace Rows

/-- The entries, from the lowest row on. -/
def entries (rows : List Row) : List Entry :=
  rows.filterMap id

/-- The entry with the given identifier. -/
def find? (tid : Tid) (rows : List Row) : Option Entry :=
  (entries rows).find? (·.tid == tid)

/-- Puts an entry into the lowest free row. -/
def place (e : Entry) : List Row → List Row
  | [] => [some e]
  | none :: rows => some e :: rows
  | some f :: rows => some f :: place e rows

/-- Changes the entry with the given identifier; the row is freed if `f` yields none. -/
def update (tid : Tid) (f : Entry → Option Entry) (rows : List Row) : List Row :=
  rows.map fun row => row.bind fun e => if e.tid = tid then f e else some e

/-- The intake takes one element, from the lowest row with a waiting one. -/
def drain : List Row → List Row
  | [] => []
  | none :: rows => none :: drain rows
  | some e :: rows =>
    match e.queue with
    | [] => some e :: drain rows
    | x :: queue => some { e with queue := queue, taken := x :: e.taken } :: rows

/-- One step of the phase of every entry. -/
def advance (latency : Nat) (rows : List Row) : List Row :=
  rows.map (Option.map (Entry.advance latency))

end Rows

end NeuralEngine.Simulator
