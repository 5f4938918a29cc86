import NeuralEngine.Request

/-!
# Reading requests back

A request is made from the arguments of one of four kinds (`RequestContent`), and the accessors give back
what it was made from (`readsAs_request`): the fields of an operand do not overlap, and none of them is cut
short or carries a sign into its neighbour. A request can be read in one way only, so different arguments
make different requests.
-/

namespace NeuralEngine

/-! ## Fields of a word -/

section Field

variable {v w : Nat}

theorem extractLsb'_low (hi : BitVec v) (lo : BitVec w) : (hi ++ lo).extractLsb' 0 w = lo := by
  rw [BitVec.extractLsb'_append_eq_of_add_le (by omega), BitVec.extractLsb'_eq_self]

theorem extractLsb'_high (hi : BitVec v) (lo : BitVec w) (start len : Nat) :
    (hi ++ lo).extractLsb' (w + start) len = hi.extractLsb' start len := by
  rw [BitVec.extractLsb'_append_eq_of_le (by omega), Nat.add_sub_cancel_left]

theorem extractLsb'_zeroExtend (h : w ≤ v) (x : BitVec w) : (x.zeroExtend v).extractLsb' 0 w = x := by
  apply BitVec.eq_of_toNat_eq
  have hx : x.toNat < 2 ^ v := Nat.lt_of_lt_of_le x.isLt (Nat.pow_le_pow_right (by decide) h)
  rw [BitVec.extractLsb'_toNat, BitVec.zeroExtend, BitVec.toNat_setWidth, Nat.shiftRight_zero,
    Nat.mod_eq_of_lt hx, Nat.mod_eq_of_lt x.isLt]

end Field

theorem LearningMode.toNat_code (mode : LearningMode) : (BitVec.ofNat 2 mode.code).toNat = mode.code := by
  cases mode <;> rfl

theorem Register.toNat_code (register : Register) :
    (BitVec.ofNat 32 register.code).toNat = register.code := by
  cases register <;> rfl

/-! ## The four kinds of request -/

namespace Request

variable (nnid : Nnid) (mode : LearningMode) (trainOutputs : BitVec 16) (tid : Tid) (value : Element)
  (last : Bool) (register : Register) (setting : RegisterValue)

@[simp] theorem op?_newTransaction : (newTransaction nnid mode trainOutputs).op? = some .newRequest :=
  rfl

@[simp] theorem op?_setRegister : (setRegister tid register setting).op? = some .writeRegister :=
  rfl

@[simp] theorem op?_writeData :
    (writeData tid value last).op? = some (if last then .writeDataLast else .writeData) := by
  cases last <;> rfl

@[simp] theorem op?_readData : (readData tid).op? = some .readData :=
  rfl

theorem nnid_newTransaction : (newTransaction nnid mode trainOutputs).nnid = nnid :=
  extractLsb'_low (0#14 ++ BitVec.ofNat 2 mode.code ++ trainOutputs) nnid

theorem trainOutputs_newTransaction : (newTransaction nnid mode trainOutputs).trainOutputs = trainOutputs :=
  (extractLsb'_high (0#14 ++ BitVec.ofNat 2 mode.code ++ trainOutputs) nnid 0 16).trans
    (extractLsb'_low (0#14 ++ BitVec.ofNat 2 mode.code) trainOutputs)

theorem modeCode_newTransaction :
    (newTransaction nnid mode trainOutputs).modeCode = BitVec.ofNat 2 mode.code :=
  calc (newTransaction nnid mode trainOutputs).modeCode
    _ = (0#14 ++ BitVec.ofNat 2 mode.code ++ trainOutputs).extractLsb' 16 2 :=
      extractLsb'_high (0#14 ++ BitVec.ofNat 2 mode.code ++ trainOutputs) nnid 16 2
    _ = (0#14 ++ BitVec.ofNat 2 mode.code).extractLsb' 0 2 :=
      extractLsb'_high (0#14 ++ BitVec.ofNat 2 mode.code) trainOutputs 0 2
    _ = BitVec.ofNat 2 mode.code := extractLsb'_low 0#14 _

theorem tid_setRegister : (setRegister tid register setting).tid = tid :=
  extractLsb'_zeroExtend (by decide) tid

theorem registerCode_setRegister :
    (setRegister tid register setting).registerCode = BitVec.ofNat 32 register.code :=
  (extractLsb'_high (BitVec.ofNat 32 register.code) setting 0 32).trans BitVec.extractLsb'_eq_self

theorem registerValue_setRegister : (setRegister tid register setting).registerValue = setting :=
  extractLsb'_low (BitVec.ofNat 32 register.code) setting

theorem tid_writeData : (writeData tid value last).tid = tid :=
  extractLsb'_zeroExtend (by decide) tid

theorem element_writeData : (writeData tid value last).element = value :=
  extractLsb'_zeroExtend (by decide) value

theorem tid_readData : (readData tid).tid = tid :=
  extractLsb'_zeroExtend (by decide) tid

end Request

/-! ## What a request says -/

/-- What a request is made from: the arguments of one of the four kinds. -/
inductive RequestContent where
  | opening (nnid : Nnid) (mode : LearningMode) (trainOutputs : BitVec 16)
  | setting (tid : Tid) (register : Register) (value : RegisterValue)
  | element (tid : Tid) (value : Element) (last : Bool)
  | reading (tid : Tid)
deriving DecidableEq, Repr

namespace RequestContent

/-- The request that is made. -/
def request : RequestContent → Request
  | opening nnid mode trainOutputs => .newTransaction nnid mode trainOutputs
  | setting tid register value => .setRegister tid register value
  | element tid value last => .writeData tid value last
  | reading tid => .readData tid

/-- The operation of the request. -/
def op : RequestContent → UserOp
  | opening .. => .newRequest
  | setting .. => .writeRegister
  | element _ _ last => if last then .writeDataLast else .writeData
  | reading _ => .readData

/-- The operands of the request are read as the arguments. The code of a mode or of a register is turned
back into what it stands for. -/
def OperandsOf (r : Request) : RequestContent → Prop
  | opening nnid mode trainOutputs =>
    r.nnid = nnid ∧ LearningMode.ofCode? r.modeCode.toNat = some mode ∧ r.trainOutputs = trainOutputs
  | setting tid register value =>
    r.tid = tid ∧ Register.ofCode? r.registerCode.toNat = some register ∧ r.registerValue = value
  | element tid value _ => r.tid = tid ∧ r.element = value
  | reading tid => r.tid = tid

/-- The request is read as one of the kind with the arguments. -/
structure ReadsAs (r : Request) (c : RequestContent) : Prop where
  op : r.op? = some c.op
  operands : OperandsOf r c

variable {c d : RequestContent} {r : Request}

/-- The accessors give back what the request was made from. -/
theorem readsAs_request (c : RequestContent) : ReadsAs c.request c := by
  cases c with
  | opening nnid mode trainOutputs =>
    refine ⟨Request.op?_newTransaction .., Request.nnid_newTransaction .., ?_,
      Request.trainOutputs_newTransaction ..⟩
    simp only [request, Request.modeCode_newTransaction, LearningMode.toNat_code, LearningMode.ofCode?_code]
  | setting tid register value =>
    refine ⟨Request.op?_setRegister .., Request.tid_setRegister .., ?_, Request.registerValue_setRegister ..⟩
    simp only [request, Request.registerCode_setRegister, Register.toNat_code, Register.ofCode?_code]
  | element tid value last =>
    exact ⟨Request.op?_writeData .., Request.tid_writeData .., Request.element_writeData ..⟩
  | reading tid => exact ⟨Request.op?_readData tid, Request.tid_readData tid⟩

/-- The last write of a stream is told from the others by its operation. -/
theorem last_of_op {tid tid' : Tid} {value value' : Element} {last last' : Bool}
    (h : (element tid value last).op = (element tid' value' last').op) : last = last' := by
  cases last <;> cases last' <;> simp [op] at h ⊢

/-- A request is read in one way only. -/
theorem ReadsAs.unique (hc : ReadsAs r c) (hd : ReadsAs r d) : c = d := by
  have hop : c.op = d.op := Option.some.inj (hc.op.symm.trans hd.op)
  have hcs := hc.operands
  have hds := hd.operands
  -- two of one kind agree in their arguments, and two of different kinds differ in the operation
  cases c <;> cases d
  case opening.opening =>
    obtain ⟨rfl, hmode, rfl⟩ := hcs
    obtain ⟨rfl, hmode', rfl⟩ := hds
    obtain rfl := Option.some.inj (hmode.symm.trans hmode')
    rfl
  case setting.setting =>
    obtain ⟨rfl, hregister, rfl⟩ := hcs
    obtain ⟨rfl, hregister', rfl⟩ := hds
    obtain rfl := Option.some.inj (hregister.symm.trans hregister')
    rfl
  case element.element =>
    obtain ⟨rfl, rfl⟩ := hcs
    obtain ⟨rfl, rfl⟩ := hds
    rw [last_of_op hop]
  case reading.reading =>
    obtain rfl : r.tid = _ := hcs
    obtain rfl : r.tid = _ := hds
    rfl
  all_goals grind [RequestContent.op]

/-- Requests are framed faithfully: each one is read back as the operation and the arguments that it was made
from, whatever these are, and two requests are equal only if they were made from the same ones. -/
theorem requests_framed_faithfully :
    (∀ c : RequestContent, ReadsAs c.request c) ∧ ∀ c d : RequestContent, c.request = d.request → c = d := by
  refine ⟨readsAs_request, fun c d h => ?_⟩
  have hc : ReadsAs d.request c := h ▸ readsAs_request c
  exact hc.unique (readsAs_request d)

/-- A negative element keeps its sign, and its upper half stays empty. -/
example : (element 1 (-2) false).request.rs2 = 0xfffffffe ∧
    (element 1 (-2) false).request.element.toInt = -2 := by
  decide

end RequestContent

end NeuralEngine
