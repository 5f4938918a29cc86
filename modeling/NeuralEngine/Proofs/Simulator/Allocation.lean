import Mathlib.Data.Finset.Card
import Mathlib.Data.List.Nodup
import Mathlib.Data.Nat.ModEq
import NeuralEngine.Simulator.Answer

/-!
# Allocation of identifiers

The identifiers that are tried for a new transaction are a stride apart. With a stride `d` they come
back to the first one after `65536 / gcd d 65536` of them (`reach`) and not earlier: these are all that
are ever tried (`orbit`), and one of them is found as long as fewer are taken.
-/

namespace NeuralEngine.Simulator

/-- The number of identifiers that a stride reaches. -/
def reach (stride : Tid) : Nat :=
  2 ^ 16 / Nat.gcd (2 ^ 16) stride.toNat

theorem reach_le (stride : Tid) : reach stride ≤ 2 ^ 16 :=
  Nat.div_le_self _ _

/-- The identifier that is `k` strides after the first one. -/
def candidate (stride first : Tid) (k : Nat) : Tid :=
  first + BitVec.ofNat 16 k * stride

theorem candidate_succ (stride first : Tid) (k : Nat) :
    candidate stride (first + stride) k = candidate stride first (k + 1) := by
  unfold candidate
  rw [BitVec.ofNat_add, BitVec.add_mul, BitVec.one_mul, BitVec.add_comm (_ * _), BitVec.add_assoc]

/-- The identifiers that a stride reaches differ from one another. -/
theorem candidate_inj {stride first : Tid} {i j : Nat} (hi : i < reach stride) (hj : j < reach stride)
    (h : candidate stride first i = candidate stride first j) : i = j := by
  have hmul : BitVec.ofNat 16 i * stride = BitVec.ofNat 16 j * stride := by
    simpa [candidate] using h
  have hmod : i * stride.toNat ≡ j * stride.toNat [MOD 2 ^ 16] := by
    have hnat := congrArg BitVec.toNat hmul
    simpa [BitVec.toNat_mul, Nat.ModEq] using hnat
  have hcancel : i ≡ j [MOD reach stride] := hmod.cancel_right_div_gcd (by decide)
  exact hcancel.eq_of_lt_of_lt hi hj

theorem candidate_candidate (stride first : Tid) (j k : Nat) :
    candidate stride (candidate stride first j) k = candidate stride first (j + k) := by
  unfold candidate
  rw [BitVec.ofNat_add, BitVec.add_mul, BitVec.add_assoc]

/-- After as many identifiers as the stride reaches the search is back at the first one. -/
theorem candidate_mod (stride first : Tid) (k : Nat) :
    candidate stride first (k % reach stride) = candidate stride first k := by
  have hdvd : 2 ^ 16 ∣ reach stride * stride.toNat := by
    have hgcd := Nat.gcd_dvd_left (2 ^ 16) stride.toNat
    unfold reach
    rw [Nat.div_mul_right_comm hgcd, Nat.mul_div_assoc _ (Nat.gcd_dvd_right _ _)]
    exact Nat.dvd_mul_right _ _
  have hmod : k % reach stride * stride.toNat ≡ k * stride.toNat [MOD 2 ^ 16] :=
    ((Nat.mod_modEq k (reach stride)).mul_right' stride.toNat).of_dvd hdvd
  have hmul : BitVec.ofNat 16 (k % reach stride) * stride = BitVec.ofNat 16 k * stride := by
    apply BitVec.eq_of_toNat_eq
    simpa [BitVec.toNat_mul, Nat.ModEq] using hmod
  unfold candidate
  rw [hmul]

theorem reach_pos (stride : Tid) : 0 < reach stride :=
  Nat.div_pos (Nat.gcd_le_left _ (by decide)) (Nat.gcd_pos_of_pos_left _ (by decide))

theorem reach_eq_of_odd {stride : Tid} (odd : stride.toNat % 2 = 1) : reach stride = 2 ^ 16 := by
  have htwo : Nat.gcd 2 stride.toNat = 1 := by
    rw [Nat.gcd_rec, odd]
    rfl
  have hcoprime : Nat.gcd (2 ^ 16) stride.toNat = 1 := Nat.Coprime.pow_left 16 htwo
  unfold reach
  rw [hcoprime, Nat.div_one]

/-- The identifiers that a stride reaches from the first one on. -/
def orbit (stride first : Tid) : Finset Tid :=
  (Finset.range (reach stride)).image (candidate stride first)

theorem card_orbit (stride first : Tid) : (orbit stride first).card = reach stride := by
  unfold orbit
  rw [Finset.card_image_of_injOn, Finset.card_range]
  intro i hi j hj hij
  exact candidate_inj (Finset.mem_range.1 hi) (Finset.mem_range.1 hj) hij

theorem mem_orbit_iff {stride first tid : Tid} :
    tid ∈ orbit stride first ↔ ∃ k, candidate stride first k = tid := by
  unfold orbit
  rw [Finset.mem_image]
  constructor
  · rintro ⟨k, -, hk⟩
    exact ⟨k, hk⟩
  · rintro ⟨k, hk⟩
    refine ⟨k % reach stride, Finset.mem_range.2 (Nat.mod_lt _ (reach_pos stride)), ?_⟩
    rw [candidate_mod, hk]

theorem firstFree_some {taken : Tid → Bool} {stride first tid next : Tid} {n : Nat}
    (h : firstFree taken stride n first = some (tid, next)) : taken tid = false := by
  induction n generalizing first with
  | zero => cases h
  | succ n ih =>
    unfold firstFree at h
    split at h
    · exact ih h
    · next hfree =>
      cases h
      simpa using hfree

/-- A search ends at one of the candidates, and the next one goes on after it. -/
theorem exists_candidate_of_firstFree {taken : Tid → Bool} {stride first tid next : Tid} {n : Nat}
    (h : firstFree taken stride n first = some (tid, next)) :
    ∃ k, tid = candidate stride first k ∧ next = candidate stride first (k + 1) := by
  induction n generalizing first with
  | zero => cases h
  | succ n ih =>
    unfold firstFree at h
    split at h
    · obtain ⟨k, htid, hnext⟩ := ih h
      rw [candidate_succ] at htid hnext
      exact ⟨k + 1, htid, hnext⟩
    · cases h
      exact ⟨0, by simp [candidate], by simp [candidate]⟩

/-- A search that fails has found every candidate taken. -/
theorem taken_of_firstFree_eq_none {taken : Tid → Bool} {stride first : Tid} {n k : Nat}
    (h : firstFree taken stride n first = none) (hk : k < n) :
    taken (candidate stride first k) = true := by
  induction n generalizing first k with
  | zero => omega
  | succ n ih =>
    unfold firstFree at h
    split at h
    · next htaken =>
      cases k with
      | zero => simpa [candidate] using htaken
      | succ k =>
        rw [← candidate_succ]
        exact ih h (by omega)
    · cases h

/-- An identifier is found if fewer are taken than the stride reaches. -/
theorem exists_allocate {s : Simulator}
    (few : ∀ xs : List Tid, xs.Nodup → (∀ x ∈ xs, s.isTaken x = true) →
      xs.length < reach s.options.tidStride) : ∃ tid next, s.allocate? = some (tid, next) := by
  cases h : s.allocate? with
  | some found => exact ⟨found.1, found.2, rfl⟩
  | none =>
    have hall : ∀ k < 2 ^ 16, s.isTaken (candidate s.options.tidStride s.nextTid k) = true := fun k hk =>
      taken_of_firstFree_eq_none h hk
    have hlt := few ((List.range (reach s.options.tidStride)).map
      (candidate s.options.tidStride s.nextTid)) ?_ ?_
    · rw [List.length_map, List.length_range] at hlt
      omega
    · refine List.Nodup.map_on (fun i hi j hj hij => ?_) List.nodup_range
      exact candidate_inj (List.mem_range.1 hi) (List.mem_range.1 hj) hij
    · intro x hx
      obtain ⟨k, hk, rfl⟩ := List.mem_map.1 hx
      have hreach := reach_le s.options.tidStride
      exact hall k (Nat.lt_of_lt_of_le (List.mem_range.1 hk) hreach)

theorem isTaken_of_allocate {s : Simulator} {tid next : Tid} (h : s.allocate? = some (tid, next)) :
    s.find? tid = none ∧ ∀ d ∈ s.deferred, d.response.tid ≠ tid := by
  have hfree : s.isTaken tid = false := firstFree_some h
  unfold isTaken at hfree
  rw [Bool.or_eq_false_iff, Option.isSome_eq_false_iff, Option.isNone_iff_eq_none, List.any_eq_false] at hfree
  exact ⟨hfree.1, fun d hd => by simpa using hfree.2 d hd⟩

end NeuralEngine.Simulator
