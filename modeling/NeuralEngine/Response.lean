import NeuralEngine.Basic
import NeuralEngine.ExitCode
import NeuralEngine.Text

/-!
# Responses

A response is one 64-bit word of five fields, from the low end: the exit code, the kind of its
payload, an address space, a transaction identifier and a data word. `Response` holds the fields;
`toWord` and `ofWord` pack and unpack the word.
-/

namespace NeuralEngine

/-- What the payload of a response holds. -/
inductive ResponseKind where
  /-- The exit code only. -/
  | status
  /-- The transaction identifier that an open is given. -/
  | tid
  /-- One output, tagged with its transaction. -/
  | data
deriving DecidableEq, Repr

namespace ResponseKind

def code : ResponseKind → Nat
  | status => 0
  | tid => 1
  | data => 2

def ofCode? : Nat → Option ResponseKind
  | 0 => some status
  | 1 => some tid
  | 2 => some data
  | _ => none

/-- The kind with the given code. -/
def ofCode (n : Nat) : Except UnknownCode ResponseKind :=
  match ofCode? n with
  | some kind => .ok kind
  | none => .error ⟨"ResponseKind", n⟩

def name : ResponseKind → String
  | status => "Status"
  | tid => "Tid"
  | data => "Data"

@[simp] theorem ofCode?_code (k : ResponseKind) : ofCode? k.code = some k := by
  cases k <;> rfl

theorem code_of_ofCode? {n : Nat} {k : ResponseKind} (h : ofCode? n = some k) : k.code = n := by
  unfold ofCode? at h
  split at h <;> cases h <;> rfl

end ResponseKind

/-- What the engine answers. -/
structure Response where
  code : BitVec 4 := 0
  kind : BitVec 2 := 0
  asid : BitVec 10 := 0
  tid : Tid := 0
  data : BitVec 32 := 0
deriving DecidableEq, Repr

namespace Response

/-- The word that carries the fields. -/
def toWord (r : Response) : Word :=
  r.data ++ r.tid ++ r.asid ++ r.kind ++ r.code

/-- The fields of a word. -/
def ofWord (w : Word) : Response where
  code := w.extractLsb' 0 4
  kind := w.extractLsb' 4 2
  asid := w.extractLsb' 6 10
  tid := w.extractLsb' 16 16
  data := w.extractLsb' 32 32

/-- The exit code alone. -/
def status (code : ExitCode) : Response where
  code := BitVec.ofNat 4 code.code

/-- The address-space field of an identifier that fits its ten bits. -/
def asidField? (asid : Asid) : Option (BitVec 10) :=
  if asid.toNat < 2 ^ 10 then some (asid.truncate 10) else none

/-- The identifier given to an open, if the address space fits its field. -/
def tidAssigned? (asid : Asid) (tid : Tid) : Option Response :=
  (asidField? asid).map fun field =>
    { kind := BitVec.ofNat 2 ResponseKind.tid.code, asid := field, tid := tid }

/-- One output of a transaction, if the address space fits its field. -/
def dataOut? (asid : Asid) (tid : Tid) (value : Element) : Option Response :=
  (asidField? asid).map fun field =>
    { kind := BitVec.ofNat 2 ResponseKind.data.code, asid := field, tid := tid, data := value }

def exitCode (r : Response) : ExitCode :=
  ExitCode.ofCode r.code.toNat

/-- The kind, if it is a known one. -/
def kind? (r : Response) : Option ResponseKind :=
  ResponseKind.ofCode? r.kind.toNat

/-- The data word as an element. -/
def element (r : Response) : Element :=
  r.data

/-- The response in one line. -/
def describe (r : Response) : String :=
  "Response \x7b code: " ++ r.exitCode.name ++ ", kind: " ++ toString r.kind.toNat ++ ", asid: " ++
    toString r.asid.toNat ++ ", tid: " ++ toString r.tid.toNat ++ ", data: " ++
    Text.hex r.data.toNat ++ " \x7d"

end Response

end NeuralEngine
