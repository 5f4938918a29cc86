import NeuralEngine.Blocks
import NeuralEngine.Client.Blocking

/-!
# The transaction client: whole transactions

Calls that run transactions from the open to the last output: one sample (`feedforward`), one
training step (`trainIncremental`), a list of samples against expected outputs (`runCompare`), and
a list of samples with as many transactions at once as the engine holds (`feedforwardPrimed`).
Arguments that no engine could accept are refused before anything is presented.
-/

namespace NeuralEngine

/-- The outcome of a comparison of outputs with expected ones. -/
structure CompareReport where
  samples : Nat := 0
  mismatches : Nat := 0
  /-- The position of the first sample whose outputs differ. -/
  firstMismatch : Option Nat := none
deriving DecidableEq, Repr

/-- The report after one more sample. -/
def CompareReport.add (agrees : Bool) (r : CompareReport) : CompareReport :=
  if agrees then { r with samples := r.samples + 1 }
  else
    { samples := r.samples + 1
      mismatches := r.mismatches + 1
      firstMismatch := r.firstMismatch <|> some r.samples }

namespace Client

variable {σ : Type} [Channel σ]

/-- Runs a sample through a network and reads `n` outputs. -/
def feedforward (nnid : Nnid) (inputs : List Element) (n : Nat) : ClientM σ (List Element) :=
  if inputs = [] then throw .emptyInput
  else do
    let tid ← openTransaction nnid .feedforward 0
    writeAll tid inputs
    read tid n

/-- Runs one incremental training step and reads the outputs of the network before it. -/
def trainIncremental (nnid : Nnid) (inputs expected : List Element) : ClientM σ (List Element) :=
  if inputs = [] then throw .emptyInput
  else if 2 ^ 16 ≤ expected.length then throw .tooManyOutputs
  else do
    let tid ← openTransaction nnid .trainIncremental (BitVec.ofNat 16 expected.length)
    writeTraining tid inputs expected
    read tid expected.length

/-- Runs samples through a network and compares the outputs of each with the expected ones. -/
def compareSamples (nnid : Nnid) : List (List Element × List Element) → CompareReport →
    ClientM σ CompareReport
  | [], report => return report
  | (sample, expected) :: rest, report => do
    let outputs ← feedforward nnid sample expected.length
    compareSamples nnid rest (report.add (outputs = expected))

/-- Runs the samples of `numInputs` inputs each through a network and compares with the samples of
`numOutputs` expected outputs each. Samples without a whole counterpart do not count. -/
def runCompare (nnid : Nnid) (inputs expected : List Element) (numInputs numOutputs : Nat) :
    ClientM σ CompareReport :=
  if numInputs = 0 ∨ numOutputs = 0 then throw .emptyInput
  else compareSamples nnid ((wholeBlocks numInputs inputs).zip (wholeBlocks numOutputs expected)) {}

/-- Opens a transaction and writes a sample up to its last element, which is given back. -/
def prime (nnid : Nnid) (sample : List Element) : ClientM σ (Tid × Element) := do
  let tid ← openTransaction nnid .feedforward 0
  match sample.getLast? with
  | none => throw .emptyInput
  | some last =>
    writeExceptLast tid sample.dropLast
    return (tid, last)

/-- Runs samples through a network: primes them all, starts them all and reads them all. -/
def runPrimed (nnid : Nnid) (n : Nat) (samples : List (List Element)) : ClientM σ (List (List Element)) := do
  let primed ← samples.mapM (prime nnid)
  primed.forM fun p => write p.1 p.2 true
  primed.mapM fun p => read p.1 n

/-- Runs samples through a network, as many at once as the engine holds, and reads `n` outputs of
each. -/
def feedforwardPrimed (nnid : Nnid) (samples : List (List Element)) (n : Nat) :
    ClientM σ (List (List Element)) :=
  if [] ∈ samples then throw .emptyInput
  else do
    let k := max (← capability).tableEntries.toNat 1
    let outputs ← (allBlocks k samples).mapM (runPrimed nnid n)
    return outputs.flatten

end Client

end NeuralEngine
