import NeuralEngine.Capability

/-!
# The fields of the capability word

The check of the parameters and the capability word are two readings of the same four limits: the parameters
are refused for the first one that they exceed (`FirstBeyond`), and they have a capability word unless they are
refused (`ofParams_eq`). A word that was made of parameters tells their values, since no field is cut short.
-/

namespace NeuralEngine

namespace EngineParams

variable {p q : EngineParams} {key : ParamKey} {e : ParamError}

/-- The key is that of the first limit in the list that the parameters exceed. -/
def FirstBeyond (limits : List (ParamKey × Nat)) (p : EngineParams) (key : ParamKey) : Prop :=
  ∃ before max after, limits = before ++ (key, max) :: after ∧ max < p.get key ∧
    ∀ limit ∈ before, p.get limit.1 ≤ limit.2

theorem tooWide?_eq_some_iff : p.tooWide? = some key ↔ p.FirstBeyond capabilityLimits key := by
  unfold tooWide? FirstBeyond
  rw [Option.map_eq_some_iff]
  constructor
  · rintro ⟨⟨_, max⟩, hfind, rfl⟩
    obtain ⟨hmax, before, after, hsplit, hbefore⟩ := List.find?_eq_some_iff_append.1 hfind
    exact ⟨before, max, after, hsplit, by simpa using hmax, fun limit hlimit => by simpa using hbefore limit hlimit⟩
  · rintro ⟨before, max, after, hsplit, hmax, hbefore⟩
    refine ⟨(key, max), List.find?_eq_some_iff_append.2 ⟨by simpa using hmax, before, after, hsplit, ?_⟩, rfl⟩
    exact fun limit hlimit => by simpa using hbefore limit hlimit

theorem tooWide?_eq_none_iff : p.tooWide? = none ↔ ∀ limit ∈ capabilityLimits, p.get limit.1 ≤ limit.2 := by
  unfold tooWide?
  rw [Option.map_eq_none_iff, List.find?_eq_none]
  simp

theorem validate_eq_ok_iff : p.validate.1 = .ok () ↔ p.tooWide? = none := by
  unfold validate
  cases p.tooWide? <;> simp

/-- Parameters are refused for the first field of the capability word that they do not fit, and for nothing else. -/
theorem checked_eq_error_iff : p.validate.1.map (fun _ => p) = .error e ↔
    ∃ key, e = .outOfRange key ∧ p.FirstBeyond capabilityLimits key := by
  simp only [← tooWide?_eq_some_iff]
  unfold validate
  cases p.tooWide? with
  | none => simp [Except.map]
  | some key => simp [Except.map, eq_comm]

theorem checked_eq_ok_iff : p.validate.1.map (fun _ => p) = .ok q ↔
    q = p ∧ ∀ limit ∈ capabilityLimits, p.get limit.1 ≤ limit.2 := by
  rw [← tooWide?_eq_none_iff]
  unfold validate
  cases p.tooWide? with
  | none => simp [Except.map, eq_comm]
  | some key => simp [Except.map]

end EngineParams

namespace Capability

section

variable {width : Nat} {p : EngineParams} {key : ParamKey}

theorem field_of_le (h : p.get key ≤ 2 ^ width - 1) :
    field width p key = .ok (BitVec.ofNat width (p.get key)) :=
  if_pos (by have := Nat.two_pow_pos width; omega)

theorem field_of_lt (h : 2 ^ width - 1 < p.get key) : field width p key = .error (.outOfRange key) :=
  if_neg (by omega)

end

/-- The parameters that do not fit are looked for in the order of the fields. -/
theorem ofParams_eq (p : EngineParams) :
    ofParams p = match p.tooWide? with
      | some key => .error (.outOfRange key)
      | none => .ok
          { elementsPerBlock := BitVec.ofNat 8 p.elementsPerBlock
            numPes := BitVec.ofNat 16 p.numPes
            cacheEntries := BitVec.ofNat 16 p.cacheEntries
            tableEntries := BitVec.ofNat 16 p.tableEntries } := by
  unfold ofParams EngineParams.tooWide? EngineParams.capabilityLimits
  simp only [List.find?_cons, List.find?_nil]
  obtain hblock | hblock := Nat.lt_or_ge (2 ^ 8 - 1) (p.get .elementsPerBlock)
  · rw [field_of_lt hblock, decide_eq_true hblock]
    rfl
  rw [field_of_le hblock, decide_eq_false (Nat.not_lt.2 hblock)]
  obtain hpes | hpes := Nat.lt_or_ge (2 ^ 16 - 1) (p.get .numPes)
  · rw [field_of_lt hpes, decide_eq_true hpes]
    rfl
  rw [field_of_le hpes, decide_eq_false (Nat.not_lt.2 hpes)]
  obtain hcache | hcache := Nat.lt_or_ge (2 ^ 16 - 1) (p.get .cacheEntries)
  · rw [field_of_lt hcache, decide_eq_true hcache]
    rfl
  rw [field_of_le hcache, decide_eq_false (Nat.not_lt.2 hcache)]
  obtain hentries | hentries := Nat.lt_or_ge (2 ^ 16 - 1) (p.get .tableEntries)
  · rw [field_of_lt hentries, decide_eq_true hentries]
    rfl
  rw [field_of_le hentries, decide_eq_false (Nat.not_lt.2 hentries)]
  rfl

/-- The fields come back out of the word that carries them. -/
theorem ofWord_toWord (c : Capability) : ofWord c.toWord = c := by
  obtain ⟨block, pes, cache, reserved, entries⟩ := c
  unfold ofWord toWord
  simp (disch := decide) only [BitVec.extractLsb'_append_eq_of_le, BitVec.extractLsb'_append_eq_of_add_le,
    BitVec.extractLsb'_eq_self, Nat.reduceSub]

/-- The top of the word is the number of transactions. -/
theorem toNat_toWord_ushiftRight (c : Capability) : (c.toWord >>> 48).toNat = c.tableEntries.toNat := by
  have hentries : c.toWord.extractLsb' 48 16 = c.tableEntries := congrArg tableEntries c.ofWord_toWord
  have hlt : c.toWord.toNat >>> 48 < 2 ^ 16 := by
    have := c.toWord.isLt
    omega
  rw [← hentries, BitVec.extractLsb'_toNat, BitVec.toNat_ushiftRight, Nat.mod_eq_of_lt hlt]

/-- Parameters within the limits have a capability word, and all of its fields tell their values. -/
theorem exists_ofParams {p : EngineParams} (fits : p.tooWide? = none) :
    ∃ c, ofParams p = .ok c ∧ c.elementsPerBlock.toNat = p.elementsPerBlock ∧ c.numPes.toNat = p.numPes ∧
      c.cacheEntries.toNat = p.cacheEntries ∧ c.tableEntries.toNat = p.tableEntries ∧ c.reserved = 0 := by
  have hwithin := EngineParams.tooWide?_eq_none_iff.1 fits
  have hblock : p.elementsPerBlock ≤ 2 ^ 8 - 1 := hwithin (.elementsPerBlock, _) (by decide)
  have hpes : p.numPes ≤ 2 ^ 16 - 1 := hwithin (.numPes, _) (by decide)
  have hcache : p.cacheEntries ≤ 2 ^ 16 - 1 := hwithin (.cacheEntries, _) (by decide)
  have hentries : p.tableEntries ≤ 2 ^ 16 - 1 := hwithin (.tableEntries, _) (by decide)
  refine ⟨_, (ofParams_eq p).trans (by rw [fits]), ?_, ?_, ?_, ?_, rfl⟩
  · exact (BitVec.toNat_ofNat ..).trans (Nat.mod_eq_of_lt (by omega))
  · exact (BitVec.toNat_ofNat ..).trans (Nat.mod_eq_of_lt (by omega))
  · exact (BitVec.toNat_ofNat ..).trans (Nat.mod_eq_of_lt (by omega))
  · exact (BitVec.toNat_ofNat ..).trans (Nat.mod_eq_of_lt (by omega))

theorem fits_of_ofParams {p : EngineParams} {c : Capability} (h : ofParams p = .ok c) : p.tooWide? = none := by
  rw [ofParams_eq] at h
  split at h
  · cases h
  · assumption

theorem toNat_tableEntries {p : EngineParams} {c : Capability} (h : ofParams p = .ok c) :
    c.tableEntries.toNat = p.tableEntries := by
  obtain ⟨c', hc', -, -, -, hentries, -⟩ := exists_ofParams (fits_of_ofParams h)
  obtain rfl := Except.ok.inj (hc'.symm.trans h)
  exact hentries

end Capability
end NeuralEngine
