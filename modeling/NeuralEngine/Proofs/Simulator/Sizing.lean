import NeuralEngine.Proofs.Capability
import NeuralEngine.Proofs.Simulator.Counted

/-!
# Engines of given parameters

An engine is built from parameters that have a capability word, and a parameter file is read to parameters
that pass the check. As the check and the capability word refuse the same parameters, building an engine from
a file adds no refusal to reading it: the engine has as many rows as the file says, and its word reports them.
-/

namespace NeuralEngine

/-- The check comes after the last line: whatever a file is read to has passed it. -/
theorem ParamFile.fits_of_readLines {p q : EngineParams} {n : Nat} {lines : List (List Char)}
    (h : (readLines p n lines).1 = .ok q) : q.tooWide? = none := by
  induction lines generalizing p n with
  | nil =>
    obtain ⟨rfl, hwithin⟩ := EngineParams.checked_eq_ok_iff.1 h
    exact EngineParams.tooWide?_eq_none_iff.2 hwithin
  | cons line rest ih =>
    rw [readLines] at h
    split at h
    · cases h
    · exact ih h

namespace Simulator

variable {p : EngineParams} {c : Capability}

theorem ofParams_of_ok (h : Capability.ofParams p = .ok c) :
    ofParams p = .ok { params := p, capability := c, capability_ofParams := h } := by
  unfold ofParams
  split
  · next c' hc' =>
    obtain rfl := Except.ok.inj (hc'.symm.trans h)
    rfl
  · next e he =>
    rw [he] at h
    cases h

/-- An engine of a given capacity is one of the default parameters with that capacity. -/
theorem ofParams_withCapacity (k : BitVec 16) :
    ofParams { tableEntries := k.toNat } = .ok (withCapacity k) :=
  ofParams_of_ok (withCapacity k).capability_ofParams

end Simulator

/-- Parameters pass the check if they have a capability word, and otherwise both refuse them for the first
limit that they exceed. The word tells the four values, the number of transactions at its top and zeros where
bits are reserved. So a file gives an engine just if it can be read: one that has as many rows as the file
says and reports them. -/
theorem check_agrees_with_capability (p : EngineParams) (text : String) (k : BitVec 16) :
    ((∃ c, p.validate.1 = .ok () ∧ Capability.ofParams p = .ok c ∧
        (Capability.ofWord c.toWord).elementsPerBlock.toNat = p.elementsPerBlock ∧
        (Capability.ofWord c.toWord).numPes.toNat = p.numPes ∧
        (Capability.ofWord c.toWord).cacheEntries.toNat = p.cacheEntries ∧
        (Capability.ofWord c.toWord).tableEntries.toNat = p.tableEntries ∧
        (c.toWord >>> 48).toNat = p.tableEntries ∧ c.toWord.extractLsb' 40 8 = 0) ∨
      ∃ key, p.validate.1 = .error (.outOfRange key) ∧ Capability.ofParams p = .error (.outOfRange key) ∧
        p.FirstBeyond [(.elementsPerBlock, 255), (.numPes, 65535), (.cacheEntries, 65535), (.tableEntries, 65535)]
          key) ∧
      ((∃ e, (EngineParams.parse text).1 = .error e ∧ Simulator.ofFile text = .error e) ∨
        ∃ q s, (EngineParams.parse text).1 = .ok q ∧ Simulator.ofFile text = .ok s ∧ s.params = q ∧ s.Unused ∧
          s.capacity = q.tableEntries ∧ (Channel.capability s).1.tableEntries.toNat = q.tableEntries) ∧
      Simulator.ofParams { tableEntries := k.toNat } = .ok (Simulator.withCapacity k) := by
  refine ⟨?_, ?_, Simulator.ofParams_withCapacity k⟩
  · cases hwide : p.tooWide? with
    | none =>
      obtain ⟨c, hc, hblock, hpes, hcache, hentries, hreserved⟩ := Capability.exists_ofParams hwide
      refine .inl ⟨c, EngineParams.validate_eq_ok_iff.2 hwide, hc, ?_⟩
      rw [c.ofWord_toWord, c.toNat_toWord_ushiftRight]
      exact ⟨hblock, hpes, hcache, hentries, hentries, (congrArg Capability.reserved c.ofWord_toWord).trans hreserved⟩
    | some key =>
      refine .inr ⟨key, ?_, ?_, EngineParams.tooWide?_eq_some_iff.1 hwide⟩
      · rw [EngineParams.validate, hwide]
      · rw [Capability.ofParams_eq, hwide]
  · unfold Simulator.ofFile
    cases hparse : (EngineParams.parse text).1 with
    | error e => exact .inl ⟨e, rfl, rfl⟩
    | ok q =>
      obtain ⟨c, hc, -, -, -, hentries, -⟩ := Capability.exists_ofParams (ParamFile.fits_of_readLines hparse)
      have hbuilt := Simulator.ofParams_of_ok hc
      exact .inr ⟨q, _, rfl, hbuilt, rfl, Simulator.unused_of_ofParams hbuilt, rfl, hentries⟩

end NeuralEngine
