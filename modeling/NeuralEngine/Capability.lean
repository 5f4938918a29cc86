import NeuralEngine.Basic
import NeuralEngine.Params.Basic

/-!
# The capability word

The engine describes itself in one 64-bit word: from the low end, the elements of a configuration
block, the number of processing elements, the number of cache entries, eight reserved bits and the
number of transactions that the engine holds at once. The word of given parameters exists if every
one of the four fits its field.
-/

namespace NeuralEngine

/-- The fields of the capability word. -/
structure Capability where
  elementsPerBlock : BitVec 8 := 0
  numPes : BitVec 16 := 0
  cacheEntries : BitVec 16 := 0
  reserved : BitVec 8 := 0
  tableEntries : BitVec 16 := 0
deriving DecidableEq, Repr

namespace Capability

/-- The word that carries the fields. -/
def toWord (c : Capability) : Word :=
  c.tableEntries ++ c.reserved ++ c.cacheEntries ++ c.numPes ++ c.elementsPerBlock

/-- The fields of a word. -/
def ofWord (w : Word) : Capability where
  elementsPerBlock := w.extractLsb' 0 8
  numPes := w.extractLsb' 8 16
  cacheEntries := w.extractLsb' 24 16
  reserved := w.extractLsb' 40 8
  tableEntries := w.extractLsb' 48 16

/-- The field of `width` bits that holds the value of a parameter. -/
def field (width : Nat) (p : EngineParams) (key : ParamKey) : Except ParamError (BitVec width) :=
  if p.get key < 2 ^ width then .ok (BitVec.ofNat width (p.get key)) else .error (.outOfRange key)

/-- The capability word of an engine with the given parameters. -/
def ofParams (p : EngineParams) : Except ParamError Capability := do
  let elementsPerBlock ← field 8 p .elementsPerBlock
  let numPes ← field 16 p .numPes
  let cacheEntries ← field 16 p .cacheEntries
  let tableEntries ← field 16 p .tableEntries
  return { elementsPerBlock, numPes, cacheEntries, tableEntries }

/-- The capability word in one line. -/
def describe (c : Capability) : String :=
  "EngineId \x7b elements_per_block: " ++ toString c.elementsPerBlock.toNat ++ ", num_pes: " ++
    toString c.numPes.toNat ++ ", cache_entries: " ++ toString c.cacheEntries.toNat ++
    ", transaction_table_entries: " ++ toString c.tableEntries.toNat ++ " \x7d"

end Capability

end NeuralEngine
