import NeuralEngine.Basic
import NeuralEngine.Blocks

/-!
# Bytes as words

A byte string is read as little-endian words of eight bytes; the last one is padded with zero
bytes.
-/

namespace NeuralEngine

/-- The number of bytes of a word. -/
def wordBytes : Nat := 8

/-- The number of words that hold the given number of bytes. -/
def wordsForBytes (bytes : Nat) : Nat :=
  blockCount bytes wordBytes

/-- The word of at most eight bytes, the lowest first. -/
def wordOfBytes (bytes : List Byte) : Word :=
  bytes.foldr (fun b w => w <<< 8 ||| b.zeroExtend 64) 0

/-- The words of a byte string. -/
def wordsOfBytes (bytes : List Byte) : List Word :=
  (allBlocks wordBytes bytes).map wordOfBytes

@[simp] theorem length_wordsOfBytes (bytes : List Byte) :
    (wordsOfBytes bytes).length = wordsForBytes bytes.length := by
  simp [wordsOfBytes, allBlocks, wordsForBytes]

end NeuralEngine
