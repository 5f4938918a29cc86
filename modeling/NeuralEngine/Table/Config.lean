import NeuralEngine.Basic
import NeuralEngine.Blocks

/-!
# Network configurations

The engine fetches a configuration in blocks of sixteen words. A `ConfigBuffer` holds the words of
one in whole blocks, zeros after the last word; a `NetworkConfig` is such a buffer or a placeholder
with nothing in it, which the engine refuses to run. Bits 4 and 5 of the first word encode how many
elements a block of the network has.
-/

namespace NeuralEngine

/-- The number of words of a block. -/
abbrev blockWords : Nat := 16

/-- The unit in which the engine fetches a configuration. -/
abbrev Block := Vector Word blockWords

/-- The first sixteen words of a list, with zeros for those it lacks. -/
def Block.ofWords (words : List Word) : Block :=
  Vector.ofFn fun i => words[i.val]?.getD 0

/-- The words of a configuration in whole blocks. -/
structure ConfigBuffer where
  blocks : List Block
  /-- The number of words in use. -/
  length : Nat
deriving DecidableEq, Repr

namespace ConfigBuffer

/-- The buffer of a list of words. -/
def ofWords (words : List Word) : ConfigBuffer where
  blocks := (allBlocks blockWords words).map Block.ofWords
  length := words.length

/-- The words in use. -/
def words (b : ConfigBuffer) : List Word :=
  (b.blocks.flatMap Vector.toList).take b.length

def isEmpty (b : ConfigBuffer) : Bool :=
  b.length == 0

/-- The buffer in one line. Where the words are held is not shown. -/
def describe (b : ConfigBuffer) : String :=
  "ConfigBuffer \x7b handle: HANDLE, words: " ++ toString b.length ++ " \x7d"

end ConfigBuffer

/-- The number of elements of a block, from the first word of a configuration. -/
def elementsPerBlock (header : Word) : Nat :=
  2 ^ ((header.extractLsb' 4 2).toNat + 2)

/-- A configuration attached to an address space. -/
inductive NetworkConfig where
  /-- Nothing is stored; opening a transaction on it fails. -/
  | placeholder
  | stored (buffer : ConfigBuffer)
deriving DecidableEq, Repr

namespace NetworkConfig

/-- The configuration that consists of the given words. -/
def ofWords (words : List Word) : NetworkConfig :=
  stored (ConfigBuffer.ofWords words)

/-- The size in words. -/
def size : NetworkConfig → Nat
  | placeholder => 0
  | stored buffer => buffer.length

def words : NetworkConfig → List Word
  | placeholder => []
  | stored buffer => buffer.words

/-- The number of elements of a block; zero for a placeholder. -/
def elementsPerBlock (c : NetworkConfig) : Nat :=
  match c.words with
  | [] => 0
  | header :: _ => NeuralEngine.elementsPerBlock header

def isPlaceholder : NetworkConfig → Bool
  | placeholder => true
  | stored _ => false

end NetworkConfig

end NeuralEngine
