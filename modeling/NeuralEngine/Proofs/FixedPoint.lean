import Mathlib.Data.Rat.Floor
import Mathlib.Tactic.FieldSimp
import Mathlib.Tactic.Linarith
import Mathlib.Tactic.Positivity
import NeuralEngine.FixedPoint
import NeuralEngine.Proofs.Binary32

/-!
# Fixed-point conversion in exact arithmetic

Scaling a binary32 number by a power of two loses nothing: the exact product and the exact quotient
have no more significant bits than the number (`decode_scaled`, `decode_fromFixed`). A product
beyond the finite numbers becomes an infinity, which clamps as the product would have. What is lost in a
conversion is therefore the fraction of an element, on the way to it, and the bits of an element
behind its first twenty-four, on the way from it (`round24`); the second loss happens only once.
-/

namespace NeuralEngine.FixedPoint

open Binary32

variable {s : Bool} {u n : Nat} {point : Nat} {bits : BitVec 32} {element : Element}

/-- The rational number that a pattern denotes; none for an infinity and a NaN. -/
def rational? (bits : BitVec 32) : Option ℚ :=
  match decode bits with
  | .finite negative units => some ((signed negative units : ℤ) / (one : ℚ))
  | _ => none

/-- The integer next to a rational number on the side of zero. -/
def truncate (q : ℚ) : ℤ :=
  if 0 ≤ q then ⌊q⌋ else ⌈q⌉

/-- The integer rounded to twenty-four significant bits. -/
def round24 (n : ℤ) : ℤ :=
  signed (decide (n < 0)) (rounded n.natAbs 1)

theorem rational?_finite (h : decode bits = .finite s u) : rational? bits = some ((signed s u : ℤ) / (one : ℚ)) := by
  unfold rational?
  rw [h]

/-- What it means to round an integer to twenty-four significant bits, ties to even. -/
structure Rounds24 (n r : ℤ) : Prop where
  significant : Significant r.natAbs
  nearest : ∀ t : ℤ, Significant t.natAbs → (n - r).natAbs ≤ (n - t).natAbs
  even : ∀ t : ℤ, Significant t.natAbs → (n - t).natAbs = (n - r).natAbs → t ≠ r →
    2 * 2 ^ (n.natAbs.log2 - 23) ∣ r.natAbs

theorem natAbs_signed (s : Bool) (n : Nat) : (signed s n).natAbs = n := by
  unfold signed
  split <;> omega

theorem signed_mul (s : Bool) (n c : Nat) : signed s (n * c) = signed s n * c := by
  unfold signed
  cases s <;> simp

theorem natAbs_round24 (n : ℤ) : (round24 n).natAbs = rounded n.natAbs 1 :=
  natAbs_signed _ _

theorem round24_eq (n : ℤ) : round24 n = if n < 0 then -(rounded n.natAbs 1 : ℤ) else rounded n.natAbs 1 := by
  unfold round24 signed
  simp

theorem rounds24_round24 (n : ℤ) : Rounds24 n (round24 n) where
  significant := by
    rw [natAbs_round24]
    exact significant_rounded _ _
  nearest := by
    intro t ht
    have hle := (distance_rounded n.natAbs ht).1
    unfold distance at hle
    rw [round24_eq]
    split <;> omega
  even := by
    intro t ht htie hne
    obtain ⟨hle, heven⟩ := distance_rounded n.natAbs ht
    rw [natAbs_round24]
    rw [excess_one] at heven
    have hsides := round24_eq n
    have hzero : n = 0 → rounded n.natAbs 1 = 0 := by
      rintro rfl
      exact rounded_small (by decide)
    unfold distance at hle heven
    refine heven ?_ ?_
    · split at hsides <;> omega
    · split at hsides <;> omega

/-! ## The range of an element -/

theorem toInt_ofInt_clamp (n : ℤ) : (BitVec.ofInt 32 (clamp n)).toInt = clamp n := by
  have hrange : -2 ^ 31 ≤ clamp n ∧ clamp n < 2 ^ 31 := by
    unfold clamp minElement maxElement
    omega
  exact BitVec.toInt_ofInt_eq_self (by decide) hrange.1 hrange.2

theorem clamp_toInt (element : Element) : clamp element.toInt = element.toInt := by
  have hlow := element.le_toInt
  have hhigh := element.toInt_lt
  unfold clamp minElement maxElement
  omega

theorem clamp_mono {m n : ℤ} (h : m ≤ n) : clamp m ≤ clamp n := by
  unfold clamp
  omega

theorem toInt_truncated_finite (h : decode bits = .finite s u) :
    (truncated bits).toInt = clamp (signed s (u / one)) := by
  unfold truncated
  rw [h]
  exact toInt_ofInt_clamp _

theorem toInt_truncated_infinite (h : decode bits = .infinite s) :
    (truncated bits).toInt = if s then minElement else maxElement := by
  unfold truncated
  rw [h]
  cases s <;> decide

/-- A number of `2 ^ 128` or more clamps as an infinity does. -/
theorem clamp_signed_large (h : 2 ^ 128 ≤ n) : clamp (signed s n) = if s then minElement else maxElement := by
  unfold clamp signed minElement maxElement
  cases s
  · simp only [Bool.false_eq_true, if_false]
    omega
  · simp only [if_true]
    omega

/-! ## Multiplication by the scale -/

theorem binaryPoint_le (point : Nat) : binaryPoint point ≤ 31 :=
  Nat.min_le_right _ _

theorem one_pos : 0 < one :=
  Nat.two_pow_pos 149

theorem decode_scale (point : Nat) : decode (scale point) = .finite false (2 ^ binaryPoint point * one) := by
  have hsig : Significant (2 ^ binaryPoint point * one) := by
    have hone : Significant 1 := significant_of_le (by decide)
    have := (hone.mul_two_pow (binaryPoint point)).mul_two_pow 149
    rwa [Nat.one_mul] at this
  have hsmall : 2 ^ binaryPoint point * one < 2 ^ 128 * one :=
    Nat.mul_lt_mul_of_pos_right
      (Nat.pow_lt_pow_right (by decide) (Nat.lt_of_le_of_lt (binaryPoint_le point) (by decide))) one_pos
  unfold scale ofInt
  rw [Int.natAbs_natCast, decide_eq_false (Int.not_lt.2 (Int.natCast_nonneg _))]
  have hexact := decode_nearest_of_significant (s := false) Nat.one_pos hsig
  rwa [Nat.one_mul, if_pos hsmall] at hexact

/-- Scaling a number is exact, unless the product is beyond the finite numbers. -/
theorem decode_scaled (h : decode bits = .finite s u) : decode (mul bits (scale point)) =
    if u * 2 ^ binaryPoint point < 2 ^ 128 * one then .finite s (u * 2 ^ binaryPoint point) else .infinite s := by
  have hproduct : u * (2 ^ binaryPoint point * one) = one * (u * 2 ^ binaryPoint point) := by
    rw [← Nat.mul_assoc, Nat.mul_comm]
  unfold mul
  rw [h, decode_scale]
  dsimp only
  rw [Bool.bne_false, hproduct]
  exact decode_nearest_of_significant one_pos ((significant_of_decode h).mul_two_pow _)

/-- The element of a number is its exact product with the scale, cut off and clamped. -/
theorem toInt_toFixed (h : decode bits = .finite s u) :
    (toFixed bits point).toInt = clamp (signed s (u * 2 ^ binaryPoint point / one)) := by
  have hscaled := @decode_scaled s u point bits h
  unfold toFixed
  split at hscaled
  case isTrue => exact toInt_truncated_finite hscaled
  case isFalse hlarge =>
    have hquotient : 2 ^ 128 ≤ u * 2 ^ binaryPoint point / one :=
      (Nat.le_div_iff_mul_le one_pos).2 (Nat.not_lt.1 hlarge)
    rw [toInt_truncated_infinite hscaled, clamp_signed_large hquotient]

theorem toInt_toFixed_infinite (h : decode bits = .infinite s) :
    (toFixed bits point).toInt = if s then minElement else maxElement := by
  have hpos : 2 ^ binaryPoint point * one ≠ 0 := Nat.ne_of_gt (Nat.mul_pos (Nat.two_pow_pos _) one_pos)
  have hscaled : decode (mul bits (scale point)) = .infinite s := by
    unfold mul
    rw [h, decode_scale]
    dsimp only
    rw [if_neg hpos, Bool.bne_false]
    exact decode_infinity
  exact toInt_truncated_infinite hscaled

theorem toFixed_nan (h : decode bits = .nan) : toFixed bits point = 0 := by
  have hscaled : mul bits (scale point) = nan := by
    unfold mul
    rw [h]
  unfold toFixed truncated
  rw [hscaled, decode_nan]

theorem truncate_neg {q : ℚ} (h : 0 ≤ q) : truncate (-q) = -truncate q := by
  unfold truncate
  rw [if_pos h]
  obtain rfl | hpos := h.eq_or_lt
  · simp
  · rw [if_neg (by linarith), Int.ceil_neg]

/-- Cutting off a ratio is dividing without a remainder, on both sides of zero. -/
theorem truncate_ratio (s : Bool) (n d : Nat) : truncate ((signed s n : ℤ) / (d : ℚ)) = signed s (n / d) := by
  have hnonneg : (0 : ℚ) ≤ (n : ℚ) / d := by positivity
  have hfloor : truncate ((n : ℚ) / d) = ((n / d : ℕ) : ℤ) := by
    unfold truncate
    rw [if_pos hnonneg, Rat.floor_natCast_div_natCast]
    exact (Int.natCast_div n d).symm
  unfold signed
  cases s
  · simpa using hfloor
  · have hneg : ((-(n : ℤ) : ℤ) : ℚ) / d = -((n : ℚ) / d) := by
      push_cast
      ring
    rw [if_pos rfl, if_pos rfl, hneg, truncate_neg hnonneg, hfloor]

theorem toInt_toFixed_rational {q : ℚ} (h : rational? bits = some q) :
    (toFixed bits point).toInt = clamp (truncate (q * 2 ^ min point 31)) := by
  unfold rational? at h
  split at h
  case h_2 => cases h
  case h_1 s u hfinite =>
    cases h
    have hproduct : ((signed s u : ℤ) : ℚ) / one * 2 ^ min point 31 =
        (signed s (u * 2 ^ binaryPoint point) : ℤ) / (one : ℚ) := by
      rw [signed_mul, div_mul_eq_mul_div]
      push_cast
      rfl
    rw [toInt_toFixed hfinite, hproduct, truncate_ratio]

/-! ## Division by the scale -/

theorem rounded_le (h : n ≤ 2 ^ 31) : rounded n 1 ≤ 2 ^ 31 := by
  have hsig : Significant (2 ^ 31) := ⟨1, 31, by decide, by decide⟩
  exact Nat.le_trans (rounded_mono h) (Nat.le_of_eq (rounded_one hsig))

theorem rounded_lt (h : n ≤ 2 ^ 31) : rounded n 1 * one < 2 ^ 128 * one :=
  Nat.mul_lt_mul_of_pos_right (Nat.lt_of_le_of_lt (rounded_le h) (by decide)) one_pos

/-- An integer in the range of an element as a binary32 number. -/
theorem decode_ofInt {m : ℤ} (h : m.natAbs ≤ 2 ^ 31) :
    decode (ofInt m) = .finite (decide (m < 0)) (rounded m.natAbs 1 * one) := by
  unfold ofInt
  rw [decode_nearest, rounded_mul_one]
  exact if_pos (rounded_lt h)

theorem natAbs_toInt_le (element : Element) : element.toInt.natAbs ≤ 2 ^ 31 := by
  have hlow := element.le_toInt
  have hhigh := element.toInt_lt
  omega

theorem two_pow_mul_two_pow (point : Nat) : 2 ^ (149 - binaryPoint point) * 2 ^ binaryPoint point = one := by
  have hle := binaryPoint_le point
  rw [← Nat.pow_add, Nat.sub_add_cancel (by omega)]
  rfl

/-- Once an element is rounded, dividing it is exact. -/
theorem decode_fromFixed (element : Element) (point : Nat) : decode (fromFixed element point) =
    .finite (decide (element.toInt < 0)) (rounded element.toInt.natAbs 1 * 2 ^ (149 - binaryPoint point)) := by
  have hrange := natAbs_toInt_le element
  have hpos : 0 < 2 ^ binaryPoint point * one := Nat.mul_pos (Nat.two_pow_pos _) one_pos
  unfold fromFixed div
  rw [decode_ofInt hrange, decode_scale]
  dsimp only
  rw [if_neg (Nat.ne_of_gt hpos), Bool.bne_false]
  generalize hm : rounded element.toInt.natAbs 1 = m
  have hquotient : m * one * one = 2 ^ binaryPoint point * one * (m * 2 ^ (149 - binaryPoint point)) := by
    rw [← two_pow_mul_two_pow point]
    ring
  have hsig : Significant (m * 2 ^ (149 - binaryPoint point)) := by
    rw [← hm]
    exact (significant_rounded _ _).mul_two_pow _
  have hsmall : m * 2 ^ (149 - binaryPoint point) < 2 ^ 128 * one := by
    refine Nat.lt_of_le_of_lt (Nat.mul_le_mul_left _ ?_) (hm ▸ rounded_lt hrange)
    exact Nat.pow_le_pow_right (by decide) (Nat.sub_le _ _)
  rw [hquotient, decode_nearest_of_significant hpos hsig, if_pos hsmall]

theorem rational?_fromFixed (element : Element) (point : Nat) : rational? (fromFixed element point) =
    some ((round24 element.toInt : ℚ) / 2 ^ min point 31) := by
  have hone : (one : ℚ) = 2 ^ (149 - binaryPoint point) * 2 ^ min point 31 := by
    rw [← two_pow_mul_two_pow point]
    push_cast
    rfl
  rw [rational?_finite (decode_fromFixed element point), signed_mul, hone]
  push_cast
  rw [mul_comm _ ((2 : ℚ) ^ (149 - binaryPoint point)), mul_div_mul_left _ _ (by positivity)]
  rfl

/-! ## There and back -/

/-- The element that is made of the binary32 number of an element. -/
theorem toInt_toFixed_fromFixed (element : Element) (point : Nat) :
    (toFixed (fromFixed element point) point).toInt = clamp (round24 element.toInt) := by
  rw [toInt_toFixed (decode_fromFixed element point), Nat.mul_assoc, two_pow_mul_two_pow,
    Nat.mul_div_cancel _ one_pos]
  rfl

theorem round24_small {m : ℤ} (h : m.natAbs ≤ 2 ^ 24) : round24 m = m := by
  rw [round24_eq, rounded_small h]
  split <;> omega

theorem round24_mono {m r : ℤ} (h : m ≤ r) : round24 m ≤ round24 r := by
  have hpos : 0 ≤ m → rounded m.natAbs 1 ≤ rounded r.natAbs 1 := fun _ => rounded_mono (by omega)
  have hneg : r < 0 → rounded r.natAbs 1 ≤ rounded m.natAbs 1 := fun _ => rounded_mono (by omega)
  rw [round24_eq, round24_eq]
  split <;> split <;> omega

theorem round24_round24 (m : ℤ) : round24 (round24 m) = round24 m := by
  have hagain : rounded (round24 m).natAbs 1 = (round24 m).natAbs := by
    rw [natAbs_round24]
    exact rounded_one (significant_rounded _ _)
  rw [round24_eq (round24 m), hagain]
  split <;> omega

/-- Only the largest elements leave the range by rounding. -/
theorem clamp_round24 {m : ℤ} (h : m.natAbs ≤ 2 ^ 31) :
    clamp (round24 m) = round24 m ∨ clamp (round24 m) = maxElement := by
  have hle := rounded_le h
  rw [round24_eq]
  unfold clamp minElement maxElement
  split <;> omega

theorem clamp_round24_clamp_round24 {m : ℤ} (h : m.natAbs ≤ 2 ^ 31) :
    clamp (round24 (clamp (round24 m))) = clamp (round24 m) := by
  obtain heq | heq := clamp_round24 h
  · rw [heq, round24_round24, heq]
  · rw [heq]
    decide +kernel

/-- What the two conversions come to. A number is multiplied by `2 ^ p`, cut off and clamped, an infinity
becomes the bound on its side, a NaN zero. An element is rounded to twenty-four significant bits and divided by
`2 ^ p`. One way and back is therefore no more than that rounding, clamped: it keeps all elements up to `2 ^ 24`,
keeps the order, and changes nothing when it is done again. -/
theorem conversions_exact (point : Nat) :
    (∀ bits q, rational? bits = some q →
      (toFixed bits point).toInt = clamp (truncate (q * 2 ^ min point 31))) ∧
    (∀ bits negative, decode bits = .infinite negative →
      (toFixed bits point).toInt = if negative then minElement else maxElement) ∧
    (∀ bits, decode bits = .nan → toFixed bits point = 0) ∧
    (∀ n, Rounds24 n (round24 n)) ∧
    ∀ element : Element,
      let there := fromFixed element point
      let back := toFixed there point
      rational? there = some ((round24 element.toInt : ℚ) / 2 ^ min point 31) ∧
      back.toInt = clamp (round24 element.toInt) ∧
      (element.toInt.natAbs ≤ 2 ^ 24 → back = element) ∧
      (∀ larger : Element, element.toInt ≤ larger.toInt →
        back.toInt ≤ (toFixed (fromFixed larger point) point).toInt) ∧
      toFixed (fromFixed back point) point = back := by
  refine ⟨fun bits q hq => toInt_toFixed_rational hq, fun bits s h => toInt_toFixed_infinite h,
    fun bits h => toFixed_nan h, rounds24_round24, fun element => ?element⟩
  case element =>
    intro there back
    have hback : ∀ e : Element, (toFixed (fromFixed e point) point).toInt = clamp (round24 e.toInt) :=
      fun e => toInt_toFixed_fromFixed e point
    have hrange := natAbs_toInt_le element
    refine ⟨rational?_fromFixed element point, hback element, fun hsmall => ?small, fun larger hle => ?mono, ?again⟩
    case small =>
      refine BitVec.eq_of_toInt_eq ((hback element).trans ?_)
      rw [round24_small hsmall, clamp_toInt]
    case mono =>
      rw [hback element, hback larger]
      exact clamp_mono (round24_mono hle)
    case again =>
      refine BitVec.eq_of_toInt_eq ?_
      rw [hback back, hback element]
      exact clamp_round24_clamp_round24 hrange

/-- With a binary point beyond the last bit, and an element of twenty-five significant bits. -/
theorem wide_point_conversions :
    (rational? 0xbf400000 = some (-3 / 4) ∧ (toFixed 0xbf400000 40).toInt = clamp (truncate (-3 / 4 * 2 ^ 31))) ∧
      (decode 0xff800000 = .infinite true ∧ (toFixed 0xff800000 40).toInt = minElement) ∧
      (decode 0x7fc00000 = .nan ∧ toFixed 0x7fc00000 40 = 0) ∧
      (fromFixed 0x1000001 40 = 0x3c000000 ∧ toFixed (fromFixed 0x1000001 40) 40 = 0x1000000) ∧
      ((0x1000000 : Element).toInt.natAbs ≤ 2 ^ 24 ∧ toFixed (fromFixed 0x1000000 40) 40 = 0x1000000) ∧
      (0x1000000 : Element).toInt ≤ (0x1000001 : Element).toInt ∧
      (toFixed (fromFixed 0x1000000 40) 40).toInt ≤ (toFixed (fromFixed 0x1000001 40) 40).toInt := by
  obtain ⟨hscaled, hinfinite, hnan, -, helement⟩ := conversions_exact 40
  have hrational : rational? 0xbf400000 = some (-3 / 4) := by
    have hdecode : decode 0xbf400000 = .finite true (3 * 2 ^ 147) := by decide +kernel
    rw [rational?_finite hdecode]
    norm_num [signed, one]
  have hinf : decode 0xff800000 = .infinite true := by decide
  have hnone : decode 0x7fc00000 = .nan := by decide
  obtain ⟨-, -, hsmall, hmono, -⟩ := helement 0x1000000
  have hle : (0x1000000 : Element).toInt ≤ (0x1000001 : Element).toInt := by decide
  have hmem : (0x1000000 : Element).toInt.natAbs ≤ 2 ^ 24 := by decide
  exact ⟨⟨hrational, hscaled _ _ hrational⟩, ⟨hinf, hinfinite _ _ hinf⟩, ⟨hnone, hnan _ hnone⟩,
    ⟨by decide +kernel, by decide +kernel⟩, ⟨hmem, hsmall hmem⟩, hle, hmono _ hle⟩

end NeuralEngine.FixedPoint
