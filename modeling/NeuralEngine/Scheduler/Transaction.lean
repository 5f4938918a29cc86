import NeuralEngine.Basic

/-!
# Transactions

A unit of work: a network, the elements to feed it, registers to set before the first element and
room for a number of outputs. In incremental training the expected outputs lead the stream and
there are as many outputs as expected ones; the stream of every other transaction holds inputs only.
-/

namespace NeuralEngine

/-- A transaction of a batch. -/
structure Transaction where
  nnid : Nnid
  mode : LearningMode
  stream : Array Element
  /-- The number of expected outputs that lead the stream. -/
  trainOutputs : Nat := 0
  registers : List (Register × RegisterValue) := []
  outputCount : Nat
  outputs : Array Element := #[]
  /-- The identifier assigned in the last run. -/
  tid : Option Tid := none
  trainOutputs_le : trainOutputs ≤ stream.size := by simp
  trainOutputs_eq_zero : mode ≠ .trainIncremental → trainOutputs = 0 := by simp
deriving DecidableEq, Repr

namespace Transaction

def feedforward (nnid : Nnid) (inputs : List Element) (outputCount : Nat) : Transaction where
  nnid := nnid
  mode := .feedforward
  stream := inputs.toArray
  outputCount := outputCount

def trainIncremental (nnid : Nnid) (inputs expected : List Element) : Transaction where
  nnid := nnid
  mode := .trainIncremental
  stream := (expected ++ inputs).toArray
  trainOutputs := expected.length
  outputCount := expected.length

def trainBatch (nnid : Nnid) (inputs : List Element) (outputCount : Nat) : Transaction where
  nnid := nnid
  mode := .trainBatch
  stream := inputs.toArray
  outputCount := outputCount

/-- The transaction with one more register write before the first element. -/
def withRegister (register : Register) (value : RegisterValue) (t : Transaction) : Transaction :=
  { t with registers := t.registers ++ [(register, value)] }

/-- The number of elements of the stream that are inputs of the network. -/
def inputCount (t : Transaction) : Nat :=
  t.stream.size - t.trainOutputs

/-- Every output has arrived. -/
def isComplete (t : Transaction) : Bool :=
  t.outputs.size == t.outputCount

/-- The transaction without the outputs and the identifier of earlier runs. -/
def reset (t : Transaction) : Transaction :=
  { t with outputs := #[], tid := none }

/-- The transaction with one more output. -/
def addOutput (value : Element) (t : Transaction) : Transaction :=
  { t with outputs := t.outputs.push value }

end Transaction

end NeuralEngine
