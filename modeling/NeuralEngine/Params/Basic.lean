/-!
# Deployment parameters of an engine

The fourteen numbers that describe an engine build (`EngineParams`), the keys that name them
(`ParamKey`) and the check that the four numbers reported through the capability word fit the
fields of that word (`EngineParams.validate`). A parameter is read and replaced through its key;
`get_set` and `get_set_ne` are the two laws of that access.
-/

namespace NeuralEngine

/-- What an engine build is made of. The defaults describe the smallest build in use. -/
structure EngineParams where
  numPes : Nat := 4
  cacheEntries : Nat := 4
  elementsPerBlock : Nat := 4
  /-- The number of transactions the engine can hold at once. -/
  tableEntries : Nat := 4
  tableSramElements : Nat := 64
  registerFileElements : Nat := 64
  asidWidth : Nat := 10
  tidWidth : Nat := 16
  nnidWidth : Nat := 32
  feedbackWidth : Nat := 16
  elementWidth : Nat := 32
  numCores : Nat := 1
  decimalPointOffset : Nat := 7
  decimalPointWidth : Nat := 3
deriving DecidableEq, Repr

/-- The parameters by name. -/
inductive ParamKey where
  | numPes
  | cacheEntries
  | elementsPerBlock
  | tableEntries
  | tableSramElements
  | registerFileElements
  | asidWidth
  | tidWidth
  | nnidWidth
  | feedbackWidth
  | elementWidth
  | numCores
  | decimalPointOffset
  | decimalPointWidth
deriving DecidableEq, Repr

namespace ParamKey

/-- All keys, in the order of the fields. -/
def all : List ParamKey :=
  [numPes, cacheEntries, elementsPerBlock, tableEntries, tableSramElements, registerFileElements,
   asidWidth, tidWidth, nnidWidth, feedbackWidth, elementWidth, numCores, decimalPointOffset,
   decimalPointWidth]

/-- The key as a parameter file spells it. -/
def name : ParamKey → String
  | numPes => "NUM_PES"
  | cacheEntries => "CACHE_NUM_ENTRIES"
  | elementsPerBlock => "ELEMENTS_PER_BLOCK"
  | tableEntries => "TRANSACTION_TABLE_NUM_ENTRIES"
  | tableSramElements => "TRANSACTION_TABLE_SRAM_ELEMENTS"
  | registerFileElements => "REGISTER_FILE_NUM_ELEMENTS"
  | asidWidth => "ASID_WIDTH"
  | tidWidth => "TID_WIDTH"
  | nnidWidth => "NNID_WIDTH"
  | feedbackWidth => "FEEDBACK_WIDTH"
  | elementWidth => "ELEMENT_WIDTH"
  | numCores => "NUM_CORES"
  | decimalPointOffset => "DECIMAL_POINT_OFFSET"
  | decimalPointWidth => "DECIMAL_POINT_WIDTH"

/-- The key that a parameter file spells `s`. -/
def ofName? (s : List Char) : Option ParamKey :=
  all.find? fun key => key.name.toList == s

/-- Widths and binary points are 32-bit numbers, counts are 64-bit numbers. -/
def bits : ParamKey → Nat
  | asidWidth | tidWidth | nnidWidth | feedbackWidth | elementWidth | decimalPointOffset
  | decimalPointWidth => 32
  | _ => 64

theorem mem_all (key : ParamKey) : key ∈ all := by
  cases key <;> decide

theorem ofName?_name (key : ParamKey) : ofName? key.name.toList = some key := by
  cases key <;> decide

end ParamKey

/-- Why parameters are refused. -/
inductive ParamError where
  /-- The line (counted from 1) is not of the form `(KEY,VALUE)`. -/
  | malformedLine (line : Nat)
  /-- The line carries a value that is not a number its key can hold. -/
  | badValue (line : Nat)
  /-- The parameter does not fit its field of the capability word. -/
  | outOfRange (key : ParamKey)
deriving DecidableEq, Repr

def ParamError.message : ParamError → String
  | malformedLine n => "MalformedLine(" ++ toString n ++ ")"
  | badValue n => "BadValue(" ++ toString n ++ ")"
  | outOfRange key => "OutOfRange(\"" ++ key.name ++ "\")"

/-- What is reported about parameters without refusing the line. -/
inductive ParamWarning where
  | unknownKey (key : List Char) (line : Nat)
  | tooWide (key : ParamKey) (value : Nat)
deriving DecidableEq, Repr

def ParamWarning.message : ParamWarning → String
  | unknownKey key n =>
    "Unknown engine parameter " ++ String.ofList key ++ " on line " ++ toString n ++ "; skipped"
  | tooWide key value => key.name ++ " = " ++ toString value ++ " does not fit the capability word"

namespace EngineParams

/-- The parameter named by the key. -/
def get (p : EngineParams) : ParamKey → Nat
  | .numPes => p.numPes
  | .cacheEntries => p.cacheEntries
  | .elementsPerBlock => p.elementsPerBlock
  | .tableEntries => p.tableEntries
  | .tableSramElements => p.tableSramElements
  | .registerFileElements => p.registerFileElements
  | .asidWidth => p.asidWidth
  | .tidWidth => p.tidWidth
  | .nnidWidth => p.nnidWidth
  | .feedbackWidth => p.feedbackWidth
  | .elementWidth => p.elementWidth
  | .numCores => p.numCores
  | .decimalPointOffset => p.decimalPointOffset
  | .decimalPointWidth => p.decimalPointWidth

/-- The parameters with the one named by the key replaced. -/
def set (p : EngineParams) (key : ParamKey) (value : Nat) : EngineParams :=
  match key with
  | .numPes => { p with numPes := value }
  | .cacheEntries => { p with cacheEntries := value }
  | .elementsPerBlock => { p with elementsPerBlock := value }
  | .tableEntries => { p with tableEntries := value }
  | .tableSramElements => { p with tableSramElements := value }
  | .registerFileElements => { p with registerFileElements := value }
  | .asidWidth => { p with asidWidth := value }
  | .tidWidth => { p with tidWidth := value }
  | .nnidWidth => { p with nnidWidth := value }
  | .feedbackWidth => { p with feedbackWidth := value }
  | .elementWidth => { p with elementWidth := value }
  | .numCores => { p with numCores := value }
  | .decimalPointOffset => { p with decimalPointOffset := value }
  | .decimalPointWidth => { p with decimalPointWidth := value }

@[simp] theorem get_set (p : EngineParams) (key : ParamKey) (value : Nat) :
    (p.set key value).get key = value := by
  cases key <;> rfl

theorem get_set_ne (p : EngineParams) {key other : ParamKey} (value : Nat) (h : other ≠ key) :
    (p.set key value).get other = p.get other := by
  cases key <;> cases other <;> simp_all [get, set]

/-- Parameters are determined by their values at all keys. -/
theorem ext_get {p q : EngineParams} (h : ∀ key, p.get key = q.get key) : p = q := by
  have h1 := h .numPes
  have h2 := h .cacheEntries
  have h3 := h .elementsPerBlock
  have h4 := h .tableEntries
  have h5 := h .tableSramElements
  have h6 := h .registerFileElements
  have h7 := h .asidWidth
  have h8 := h .tidWidth
  have h9 := h .nnidWidth
  have h10 := h .feedbackWidth
  have h11 := h .elementWidth
  have h12 := h .numCores
  have h13 := h .decimalPointOffset
  have h14 := h .decimalPointWidth
  cases p
  cases q
  simp_all [get]

/-- The parameters of the capability word with the largest number each field holds, in the order
in which they are checked. -/
def capabilityLimits : List (ParamKey × Nat) :=
  [(.elementsPerBlock, 2 ^ 8 - 1), (.numPes, 2 ^ 16 - 1), (.cacheEntries, 2 ^ 16 - 1),
   (.tableEntries, 2 ^ 16 - 1)]

/-- The first parameter that does not fit its field of the capability word. -/
def tooWide? (p : EngineParams) : Option ParamKey :=
  (capabilityLimits.find? fun limit => decide (limit.2 < p.get limit.1)).map (·.1)

/-- Checks the parameters against the capability word, reporting the one that is refused. -/
def validate (p : EngineParams) : Except ParamError Unit × List ParamWarning :=
  match p.tooWide? with
  | some key => (.error (.outOfRange key), [.tooWide key (p.get key)])
  | none => (.ok (), [])

end EngineParams

end NeuralEngine
