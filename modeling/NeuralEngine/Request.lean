import NeuralEngine.Basic

/-!
# Requests

A request is three sub-function bits and two 64-bit operands. The sub-function bits name one of
five operations (`UserOp`); the first operand is the transaction identifier, and the second one
is an element, the payload of a register write or the payload of an open. The constructors build
the five kinds of request, the accessors read the operands back.
-/

namespace NeuralEngine

/-- The operations of a user request. -/
inductive UserOp where
  | readData
  | writeData
  | newRequest
  | writeDataLast
  | writeRegister
deriving DecidableEq, Repr

namespace UserOp

def code : UserOp → Nat
  | readData => 0
  | writeData => 1
  | newRequest => 3
  | writeDataLast => 5
  | writeRegister => 7

def ofCode? : Nat → Option UserOp
  | 0 => some readData
  | 1 => some writeData
  | 3 => some newRequest
  | 5 => some writeDataLast
  | 7 => some writeRegister
  | _ => none

/-- The operation with the given code. -/
def ofCode (n : Nat) : Except UnknownCode UserOp :=
  match ofCode? n with
  | some op => .ok op
  | none => .error ⟨"UserOp", n⟩

def name : UserOp → String
  | readData => "ReadData"
  | writeData => "WriteData"
  | newRequest => "NewRequest"
  | writeDataLast => "WriteDataLast"
  | writeRegister => "WriteRegister"

@[simp] theorem ofCode?_code (op : UserOp) : ofCode? op.code = some op := by
  cases op <;> rfl

theorem code_of_ofCode? {n : Nat} {op : UserOp} (h : ofCode? n = some op) : op.code = n := by
  unfold ofCode? at h
  split at h <;> cases h <;> rfl

end UserOp

/-- Set in the sub-function bits of every request but a read. -/
def functWrite : BitVec 3 := 0b001

/-- Set in the sub-function bits of an open and of a register write. -/
def functNew : BitVec 3 := 0b010

/-- Set in the sub-function bits of the last write of a stream and of a register write. -/
def functLast : BitVec 3 := 0b100

/-- What is presented to the engine. -/
structure Request where
  funct : BitVec 3
  rs1 : Word
  rs2 : Word
deriving DecidableEq, Repr

namespace Request

/-- Opens a transaction on a network; `trainOutputs` expected outputs lead its stream. -/
def newTransaction (nnid : Nnid) (mode : LearningMode) (trainOutputs : BitVec 16) : Request where
  funct := functWrite ||| functNew
  rs1 := 0
  rs2 := 0#14 ++ BitVec.ofNat 2 mode.code ++ trainOutputs ++ nnid

/-- Sets a register of a transaction. -/
def setRegister (tid : Tid) (register : Register) (value : RegisterValue) : Request where
  funct := functWrite ||| functNew ||| functLast
  rs1 := tid.zeroExtend 64
  rs2 := BitVec.ofNat 32 register.code ++ value

/-- Writes an element of the stream of a transaction. -/
def writeData (tid : Tid) (value : Element) (last : Bool) : Request where
  funct := if last then functWrite ||| functLast else functWrite
  rs1 := tid.zeroExtend 64
  rs2 := value.zeroExtend 64

/-- Reads the next output of a transaction. -/
def readData (tid : Tid) : Request where
  funct := 0
  rs1 := tid.zeroExtend 64
  rs2 := 0

/-- The operation, if the sub-function bits name one. -/
def op? (r : Request) : Option UserOp :=
  UserOp.ofCode? r.funct.toNat

/-- The transaction that the request is about. -/
def tid (r : Request) : Tid :=
  r.rs1.extractLsb' 0 16

/-- The element of a write. -/
def element (r : Request) : Element :=
  r.rs2.extractLsb' 0 32

/-- The network of an open. -/
def nnid (r : Request) : Nnid :=
  r.rs2.extractLsb' 0 32

/-- The number of expected outputs that an open announces. -/
def trainOutputs (r : Request) : BitVec 16 :=
  r.rs2.extractLsb' 32 16

/-- The code of the learning mode of an open. -/
def modeCode (r : Request) : BitVec 2 :=
  r.rs2.extractLsb' 48 2

/-- The value of a register write. -/
def registerValue (r : Request) : RegisterValue :=
  r.rs2.extractLsb' 0 32

/-- The code of the register of a register write. -/
def registerCode (r : Request) : BitVec 32 :=
  r.rs2.extractLsb' 32 32

end Request

end NeuralEngine
