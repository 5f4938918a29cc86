import NeuralEngine.Response

/-!
# The word of a response

A response and its word carry the same five fields: `toWord_ofWord` and `ofWord_toWord` are inverse to each
other, and the word is the sum of the fields at their places (`hasFields_iff`). What is built for an exit
code, an identifier or an output is decoded to just that (`DecodesTo`), and a word that decodes to an
identifier or an output is the one that is built for it.
-/

namespace NeuralEngine

namespace Response

/-! ## Packing and unpacking -/

/-- The fields come back out of the word that carries them. -/
theorem ofWord_toWord (r : Response) : ofWord r.toWord = r := by
  obtain ⟨code, kind, asid, tid, data⟩ := r
  unfold ofWord toWord
  simp (disch := decide) only [BitVec.extractLsb'_append_eq_of_le, BitVec.extractLsb'_append_eq_of_add_le,
    BitVec.extractLsb'_eq_self, Nat.reduceSub]

/-- The fields cover the word. -/
theorem toWord_ofWord (w : Word) : (ofWord w).toWord = w := by
  simp only [ofWord, toWord]
  rw [BitVec.extractLsb'_append_extractLsb'_eq_extractLsb' (by decide),
    BitVec.extractLsb'_append_extractLsb'_eq_extractLsb' (by decide),
    BitVec.extractLsb'_append_extractLsb'_eq_extractLsb' (by decide),
    BitVec.extractLsb'_append_extractLsb'_eq_extractLsb' (by decide)]
  exact BitVec.extractLsb'_eq_self

/-- The numbers fit the widths of the fields, and the word is their sum, each at its place. -/
structure HasFields (w : Word) (code kind asid tid data : Nat) : Prop where
  code_lt : code < 2 ^ 4
  kind_lt : kind < 2 ^ 2
  asid_lt : asid < 2 ^ 10
  tid_lt : tid < 2 ^ 16
  data_lt : data < 2 ^ 32
  toNat_eq : w.toNat = code + kind * 2 ^ 4 + asid * 2 ^ 6 + tid * 2 ^ 16 + data * 2 ^ 32

/-- The fields of a word are the only numbers within the widths that add up to it. -/
theorem hasFields_iff {w : Word} {code kind asid tid data : Nat} :
    HasFields w code kind asid tid data ↔
      (ofWord w).code.toNat = code ∧ (ofWord w).kind.toNat = kind ∧ (ofWord w).asid.toNat = asid ∧
        (ofWord w).tid.toNat = tid ∧ (ofWord w).data.toNat = data := by
  have hw : w.toNat < 2 ^ 64 := w.isLt
  simp only [ofWord, BitVec.extractLsb'_toNat, Nat.shiftRight_eq_div_pow]
  constructor
  · rintro ⟨hcode, hkind, hasid, htid, hdata, hsum⟩
    omega
  · rintro ⟨rfl, rfl, rfl, rfl, rfl⟩
    constructor <;> omega

/-! ## What is built -/

theorem exitCode_status (code : ExitCode) : (status code).exitCode = code := by
  cases code <;> rfl

/-- What the accessors say of a word. -/
structure DecodesTo (w : Word) (code : ExitCode) (kind : ResponseKind) (asid : Nat) (tid : Tid)
    (data : BitVec 32) : Prop where
  exitCode : (ofWord w).exitCode = code
  kind : (ofWord w).kind? = some kind
  asid : (ofWord w).asid.toNat = asid
  tid : (ofWord w).tid = tid
  data : (ofWord w).data = data

theorem decodesTo_status (code : ExitCode) : DecodesTo (status code).toWord code .status 0 0 0 := by
  constructor <;> rw [ofWord_toWord]
  case exitCode => exact exitCode_status code
  all_goals rfl

section Build

variable {asid : Asid} {tid : Tid} {value : Element} {r : Response}

theorem asidField?_of_lt (narrow : asid.toNat < 2 ^ 10) : asidField? asid = some (asid.truncate 10) :=
  if_pos narrow

theorem asidField?_of_le (h : 2 ^ 10 ≤ asid.toNat) : asidField? asid = none :=
  if_neg (Nat.not_lt_of_le h)

/-- An identifier of an address space that fits its field. -/
theorem exists_tidAssigned (narrow : asid.toNat < 2 ^ 10) (tid : Tid) : ∃ r, tidAssigned? asid tid = some r := by
  unfold tidAssigned?
  rw [asidField?_of_lt narrow]
  exact ⟨_, rfl⟩

theorem of_tidAssigned (h : tidAssigned? asid tid = some r) :
    r.exitCode = .ok ∧ r.kind? = some .tid ∧ r.tid = tid := by
  obtain ⟨field, -, rfl⟩ := Option.map_eq_some_iff.1 h
  exact ⟨rfl, rfl, rfl⟩

theorem narrow_of_tidAssigned (h : tidAssigned? asid tid = some r) : asid.toNat < 2 ^ 10 := by
  refine Nat.lt_of_not_le fun hle => ?_
  unfold tidAssigned? at h
  rw [asidField?_of_le hle] at h
  cases h

/-- A data word of an address space that fits its field. -/
theorem exists_dataOut (narrow : asid.toNat < 2 ^ 10) (tid : Tid) (value : Element) :
    ∃ r, dataOut? asid tid value = some r := by
  unfold dataOut?
  rw [asidField?_of_lt narrow]
  exact ⟨_, rfl⟩

theorem of_dataOut (h : dataOut? asid tid value = some r) :
    r.exitCode = .ok ∧ r.kind? = some .data ∧ r.tid = tid ∧ r.element = value := by
  obtain ⟨field, -, rfl⟩ := Option.map_eq_some_iff.1 h
  exact ⟨rfl, rfl, rfl, rfl⟩

/-- The field of an address space, widened to an identifier, is the field again. -/
theorem asidField?_zeroExtend (field : BitVec 10) : asidField? (field.zeroExtend 16) = some field := by
  have hfield := field.isLt
  have hasid : (field.zeroExtend 16).toNat = field.toNat := by
    rw [BitVec.zeroExtend, BitVec.toNat_setWidth]
    omega
  rw [asidField?_of_lt (hasid ▸ hfield)]
  congr 1
  apply BitVec.eq_of_toNat_eq
  rw [BitVec.truncate, BitVec.toNat_setWidth, hasid]
  omega

theorem toNat_truncate_of_lt (narrow : asid.toNat < 2 ^ 10) : (asid.truncate 10).toNat = asid.toNat := by
  rw [BitVec.truncate, BitVec.toNat_setWidth]
  omega

theorem decodesTo_tidAssigned (narrow : asid.toNat < 2 ^ 10) (tid : Tid) :
    ∃ r, tidAssigned? asid tid = some r ∧ DecodesTo r.toWord .ok .tid asid.toNat tid 0 := by
  unfold tidAssigned?
  rw [asidField?_of_lt narrow]
  refine ⟨_, rfl, ?_⟩
  constructor <;> rw [ofWord_toWord]
  case asid => exact toNat_truncate_of_lt narrow
  all_goals rfl

theorem decodesTo_dataOut (narrow : asid.toNat < 2 ^ 10) (tid : Tid) (value : Element) :
    ∃ r, dataOut? asid tid value = some r ∧ DecodesTo r.toWord .ok .data asid.toNat tid value := by
  unfold dataOut?
  rw [asidField?_of_lt narrow]
  refine ⟨_, rfl, ?_⟩
  constructor <;> rw [ofWord_toWord]
  case asid => exact toNat_truncate_of_lt narrow
  all_goals rfl

end Build

/-! ## What is decoded -/

section Rebuild

variable {r : Response}

theorem tidAssigned?_of_fields (code : r.code = 0) (kind : r.kind = 1) (data : r.data = 0) :
    tidAssigned? (r.asid.zeroExtend 16) r.tid = some r := by
  unfold tidAssigned?
  rw [asidField?_zeroExtend, Option.map_some]
  cases r
  subst code kind data
  rfl

theorem dataOut?_of_fields (code : r.code = 0) (kind : r.kind = 2) :
    dataOut? (r.asid.zeroExtend 16) r.tid r.element = some r := by
  unfold dataOut?
  rw [asidField?_zeroExtend, Option.map_some]
  cases r
  subst code kind
  rfl

end Rebuild

/-- Responses and words are in bijection: a word is the sum of its five fields and is determined by them. What
is built for an exit code, an identifier or an output decodes to it, except that an address space above 1023
cannot be built in; and each word that decodes to an identifier or an output is the one that is built for it. -/
theorem responses_are_their_words :
    ((∀ w : Word, (ofWord w).toWord = w) ∧ ∀ r : Response, ofWord r.toWord = r) ∧
    (∀ (w : Word) (code kind asid tid data : Nat), HasFields w code kind asid tid data ↔
      (ofWord w).code.toNat = code ∧ (ofWord w).kind.toNat = kind ∧ (ofWord w).asid.toNat = asid ∧
        (ofWord w).tid.toNat = tid ∧ (ofWord w).data.toNat = data) ∧
    (∀ v w : Word, (ofWord v).code = (ofWord w).code → (ofWord v).kind = (ofWord w).kind →
      (ofWord v).asid = (ofWord w).asid → (ofWord v).tid = (ofWord w).tid →
        (ofWord v).data = (ofWord w).data → v = w) ∧
    (∀ code : ExitCode, DecodesTo (status code).toWord code .status 0 0 0) ∧
    (∀ (asid : Asid) (tid : Tid) (value : Element), asid.toNat ≤ 1023 →
      (∃ r, tidAssigned? asid tid = some r ∧ DecodesTo r.toWord .ok .tid asid.toNat tid 0) ∧
        ∃ r, dataOut? asid tid value = some r ∧ DecodesTo r.toWord .ok .data asid.toNat tid value) ∧
    (∀ (asid : Asid) (tid : Tid) (value : Element), 1023 < asid.toNat →
      tidAssigned? asid tid = none ∧ dataOut? asid tid value = none) ∧
    (∀ w : Word, (ofWord w).code = 0 → (ofWord w).kind = 2 →
      (dataOut? ((ofWord w).asid.zeroExtend 16) (ofWord w).tid (ofWord w).element).map toWord = some w) ∧
    ∀ w : Word, (ofWord w).code = 0 → (ofWord w).kind = 1 → (ofWord w).data = 0 →
      (tidAssigned? ((ofWord w).asid.zeroExtend 16) (ofWord w).tid).map toWord = some w := by
  refine ⟨⟨toWord_ofWord, ofWord_toWord⟩, fun _ _ _ _ _ _ => hasFields_iff, ?_, decodesTo_status, ?_, ?_, ?_, ?_⟩
  · intro v w code kind asid tid data
    have hfields : ofWord v = ofWord w := by
      rw [Response.mk.injEq]
      exact ⟨code, kind, asid, tid, data⟩
    rw [← toWord_ofWord v, hfields, toWord_ofWord]
  · intro asid tid value h
    have narrow : asid.toNat < 2 ^ 10 := by omega
    exact ⟨decodesTo_tidAssigned narrow tid, decodesTo_dataOut narrow tid value⟩
  · intro asid tid value h
    have wide : 2 ^ 10 ≤ asid.toNat := by omega
    unfold tidAssigned? dataOut?
    rw [asidField?_of_le wide]
    exact ⟨rfl, rfl⟩
  · intro w code kind
    rw [dataOut?_of_fields code kind, Option.map_some, toWord_ofWord]
  · intro w code kind data
    rw [tidAssigned?_of_fields code kind data, Option.map_some, toWord_ofWord]

end Response

end NeuralEngine
