import NeuralEngine.Basic

/-!
# The simulated network

The networks that the simulator runs add up their inputs. Output `i` is the sum plus `i`, in
wrapping arithmetic. A configuration of such a network has two words: a header that encodes the
elements of a block, and the number of outputs in the low half of the second word.
-/

namespace NeuralEngine.Simulator

/-- The outputs of a network for the given inputs. -/
def expectedOutputs (inputs : List Element) (count : Nat) : List Element :=
  let sum := inputs.foldl (· + ·) 0
  (List.range count).map fun i => sum + BitVec.ofNat 32 i

/-- The number of zero bits below the lowest one bit; 64 for zero. -/
def trailingZeros (w : Word) : Nat :=
  ((List.range 64).takeWhile fun i => !w.getLsbD i).length

/-- The configuration of a network with the given block size and number of outputs. -/
def networkConfig (elementsPerBlock : Word) (outputs : BitVec 16) : List Word :=
  [BitVec.ofNat 64 ((trailingZeros elementsPerBlock - 2) % 4 * 16), outputs.zeroExtend 64]

end NeuralEngine.Simulator
