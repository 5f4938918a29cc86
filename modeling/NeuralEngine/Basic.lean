/-!
# Identifiers, elements and the codes of the request payloads

The machine words that the runtime and the engine exchange, as bit vectors of the engine's own
widths, and the two coded choices that a request carries besides numbers: how a transaction
treats its data stream (`LearningMode`) and which per-transaction register is written
(`Register`). A coded choice has a code for every member and a partial inverse; `ofCode?_code`
and `code_of_ofCode?` say that the two fit together.

Before them stands how the library reads what it holds: the entry of a vector or an array at a
position of its own range needs no proof of a bound.
-/

-- A power of numbers is the one of the core language, also where a monoid would offer its own.
attribute [instance (2000), default_instance 20000] instPowNat

namespace NeuralEngine

/-- A vector has an entry at each position of its own range. -/
instance vectorPosition {α : Type} {n : Nat} : GetElem (Vector α n) (Fin n) α fun _ _ => True where
  getElem xs i _ := xs.get i

/-- An array has an entry at each position below its size. -/
instance arrayPosition {α : Type} {n : Nat} : GetElem (Array α) (Fin n) α fun xs _ => n = xs.size where
  getElem xs i h := Vector.get ⟨xs, h.symm⟩ i

@[simp] theorem getElem_vector_fin {α : Type} {n : Nat} (xs : Vector α n) (i : Fin n) :
    xs[i] = GetElem.getElem xs i.val i.isLt :=
  rfl

@[simp] theorem getElem_array_fin {α : Type} (xs : Array α) (i : Fin xs.size) :
    xs[i] = GetElem.getElem xs i.val i.isLt :=
  rfl

/-- One byte of a stored configuration. -/
abbrev Byte := BitVec 8

/-- A 64-bit word of a configuration, an operand or a response. -/
abbrev Word := BitVec 64

/-- Address-space identifier: selects a row of the configuration table. -/
abbrev Asid := BitVec 16

/-- Network identifier: the position of a configuration within its address space. -/
abbrev Nnid := BitVec 32

/-- Transaction identifier, handed out by the engine when a transaction is opened. -/
abbrev Tid := BitVec 16

/-- A fixed-point data word. Its number is the signed reading, `BitVec.toInt`. -/
abbrev Element := BitVec 32

/-- The value written to a per-transaction register. -/
abbrev RegisterValue := BitVec 32

/-- A number that is no code of the coded choice `choice`. -/
structure UnknownCode where
  choice : String
  number : Nat
deriving DecidableEq, Repr

/-- The report of an unknown code, in one line. -/
def UnknownCode.message (e : UnknownCode) : String :=
  "No discriminant in enum `" ++ e.choice ++ "` matches the value `" ++ toString e.number ++ "`"

/-- How the engine treats the data stream of a transaction. -/
inductive LearningMode where
  /-- Inputs only. -/
  | feedforward
  /-- Expected outputs precede the inputs in the stream. -/
  | trainIncremental
  /-- Inputs of a training batch. -/
  | trainBatch
deriving DecidableEq, Repr

namespace LearningMode

def code : LearningMode → Nat
  | feedforward => 0
  | trainIncremental => 1
  | trainBatch => 2

def ofCode? : Nat → Option LearningMode
  | 0 => some feedforward
  | 1 => some trainIncremental
  | 2 => some trainBatch
  | _ => none

/-- The mode with the given code. -/
def ofCode (n : Nat) : Except UnknownCode LearningMode :=
  match ofCode? n with
  | some mode => .ok mode
  | none => .error ⟨"LearningMode", n⟩

/-- The mode as it is shown to a user. -/
def label : LearningMode → String
  | feedforward => "feedforward"
  | trainIncremental => "train-incremental"
  | trainBatch => "train-batch"

@[simp] theorem ofCode?_code (m : LearningMode) : ofCode? m.code = some m := by
  cases m <;> rfl

theorem code_of_ofCode? {n : Nat} {m : LearningMode} (h : ofCode? n = some m) : m.code = n := by
  unfold ofCode? at h
  split at h <;> cases h <;> rfl

end LearningMode

/-- The registers of a transaction, written before its first data element. -/
inductive Register where
  | batchItems
  | learningRate
  | weightDecayLambda
deriving DecidableEq, Repr

namespace Register

def code : Register → Nat
  | batchItems => 0
  | learningRate => 1
  | weightDecayLambda => 2

def ofCode? : Nat → Option Register
  | 0 => some batchItems
  | 1 => some learningRate
  | 2 => some weightDecayLambda
  | _ => none

/-- The register with the given code. -/
def ofCode (n : Nat) : Except UnknownCode Register :=
  match ofCode? n with
  | some register => .ok register
  | none => .error ⟨"Register", n⟩

def name : Register → String
  | batchItems => "BatchItems"
  | learningRate => "LearningRate"
  | weightDecayLambda => "WeightDecayLambda"

@[simp] theorem ofCode?_code (r : Register) : ofCode? r.code = some r := by
  cases r <;> rfl

theorem code_of_ofCode? {n : Nat} {r : Register} (h : ofCode? n = some r) : r.code = n := by
  unfold ofCode? at h
  split at h <;> cases h <;> rfl

end Register

end NeuralEngine
