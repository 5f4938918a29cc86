import Mathlib.Tactic.Ring
import NeuralEngine.Binary32

/-!
# Rounding to twenty-four significant bits

`rounded` is the number that a quotient is rounded to, and `decode_nearest` says that the pattern of
the quotient denotes it, or an infinity from `2 ^ 128` on. A number of at most twenty-four
significant bits is rounded to itself, so an operation whose exact result has no more is exact. No
number of at most twenty-four significant bits is nearer to an integer than the one it is rounded
to, and of two equally near ones that has an even last digit (`distance_rounded`).
-/

namespace NeuralEngine.Binary32

variable {num den n m a b c k : Nat} {s : Bool}

/-! ## The integer nearest to a quotient -/

theorem le_roundDiv (num den : Nat) : num / den ≤ roundDiv num den := by
  unfold roundDiv
  dsimp only
  split <;> omega

theorem roundDiv_le (num den : Nat) : roundDiv num den ≤ num / den + 1 := by
  unfold roundDiv
  dsimp only
  split <;> omega

/-- The nearest integer is at most half a unit away, and even if it is just that. -/
theorem roundDiv_near (num : Nat) (hden : 0 < den) :
    2 * num ≤ 2 * (roundDiv num den * den) + den ∧ 2 * (roundDiv num den * den) ≤ 2 * num + den ∧
      (2 * num = 2 * (roundDiv num den * den) + den ∨ 2 * (roundDiv num den * den) = 2 * num + den →
        roundDiv num den % 2 = 0) := by
  have hnum := Nat.div_add_mod num den
  have hrem := Nat.mod_lt num hden
  have hup : (num / den + 1) * den = den * (num / den) + den := by ring
  have hdown : num / den * den = den * (num / den) := Nat.mul_comm _ _
  unfold roundDiv
  dsimp only
  split
  · rw [hdown]
    omega
  · rw [hup]
    omega

theorem roundDiv_mul (n : Nat) (hden : 0 < den) : roundDiv (den * n) den = n := by
  simp [roundDiv, Nat.mul_div_cancel_left n hden, hden]

theorem roundDiv_mul_mul (a b : Nat) (hc : 0 < c) : roundDiv (a * c) (b * c) = roundDiv a b := by
  have hhalf : 2 * (a % b * c) = 2 * (a % b) * c := by ring
  unfold roundDiv
  simp only [Nat.mul_div_mul_right a b hc, Nat.mul_mod_mul_right, hhalf, Nat.mul_lt_mul_right hc,
    Nat.mul_left_inj (Nat.ne_of_gt hc)]

theorem roundDiv_mono (den : Nat) (h : a ≤ b) : roundDiv a den ≤ roundDiv b den := by
  obtain hlt | heq := Nat.lt_or_eq_of_le (Nat.div_le_div_right (c := den) h)
  · exact Nat.le_trans (roundDiv_le a den) (Nat.le_trans hlt (le_roundDiv b den))
  · -- with the same quotient it is the remainder that decides
    have hrem : a % den ≤ b % den := by
      have ha := Nat.div_add_mod a den
      have hb := Nat.div_add_mod b den
      rw [heq] at ha
      omega
    unfold roundDiv
    dsimp only
    rw [heq]
    split <;> split <;> omega

/-! ## Twenty-four significant bits -/

/-- The number has at most twenty-four significant bits. -/
def Significant (n : Nat) : Prop :=
  ∃ m k, m < 2 ^ 24 ∧ n = m * 2 ^ k

/-- The number that `num / den` is rounded to. -/
def rounded (num den : Nat) : Nat :=
  roundDiv num (den * 2 ^ excess num den) * 2 ^ excess num den

theorem excess_one (n : Nat) : excess n 1 = n.log2 - 23 := by
  rw [excess, Nat.div_one]

theorem excess_mul (n : Nat) (hden : 0 < den) : excess (den * n) den = n.log2 - 23 := by
  rw [excess, Nat.mul_div_cancel_left n hden]

/-- The bits behind the first twenty-four of a significant number are zeros. -/
theorem Significant.dvd (h : Significant n) : 2 ^ (n.log2 - 23) ∣ n := by
  obtain ⟨m, k, hm, rfl⟩ := h
  obtain rfl | hpos := Nat.eq_zero_or_pos m
  · simp
  · have hne : m * 2 ^ k ≠ 0 := Nat.mul_ne_zero (Nat.ne_of_gt hpos) (Nat.ne_of_gt (Nat.two_pow_pos k))
    have hlog : (m * 2 ^ k).log2 < 24 + k := by
      rw [Nat.log2_lt hne, Nat.pow_add]
      exact Nat.mul_lt_mul_of_pos_right hm (Nat.two_pow_pos k)
    exact Nat.dvd_trans (Nat.pow_dvd_pow 2 (by omega)) (Nat.dvd_mul_left _ _)

theorem Significant.mul_two_pow (h : Significant n) (k : Nat) : Significant (n * 2 ^ k) := by
  obtain ⟨m, j, hm, rfl⟩ := h
  exact ⟨m, j + k, hm, by rw [Nat.pow_add, Nat.mul_assoc]⟩

theorem significant_of_le (h : n ≤ 2 ^ 24) : Significant n := by
  obtain hlt | rfl := Nat.lt_or_eq_of_le h
  · exact ⟨n, 0, hlt, by simp⟩
  · exact ⟨1, 24, by decide, by decide⟩

theorem rounded_of_dvd (hden : 0 < den) (h : 2 ^ (n.log2 - 23) ∣ n) : rounded (den * n) den = n := by
  unfold rounded
  rw [excess_mul n hden]
  obtain ⟨q, hq⟩ := h
  have hpow := Nat.two_pow_pos (n.log2 - 23)
  generalize n.log2 - 23 = shift at hq hpow ⊢
  rw [hq, ← Nat.mul_assoc, roundDiv_mul q (Nat.mul_pos hden hpow), Nat.mul_comm]

/-- A number of at most twenty-four significant bits is rounded to itself. -/
theorem rounded_of_significant (hden : 0 < den) (h : Significant n) : rounded (den * n) den = n :=
  rounded_of_dvd hden h.dvd

theorem rounded_one (h : Significant n) : rounded n 1 = n := by
  simpa using rounded_of_significant Nat.one_pos h

/-- Rounding may carry the first twenty-four bits to the next power of two, no further. -/
theorem significand_le (num den : Nat) : roundDiv num (den * 2 ^ excess num den) ≤ 2 ^ 24 := by
  have hlt : num / den / 2 ^ excess num den < 2 ^ 24 := by
    rw [Nat.div_lt_iff_lt_mul (Nat.two_pow_pos _), ← Nat.pow_add]
    refine Nat.lt_of_lt_of_le Nat.lt_log2_self (Nat.pow_le_pow_right (by decide) ?_)
    unfold excess
    omega
  have hround := roundDiv_le num (den * 2 ^ excess num den)
  rw [← Nat.div_div_eq_div_mul] at hround
  omega

/-- Where bits are dropped, twenty-four are kept. -/
theorem le_significand (h : excess num den ≠ 0) : 2 ^ 23 ≤ roundDiv num (den * 2 ^ excess num den) := by
  have hne : num / den ≠ 0 := by
    intro hzero
    rw [excess, hzero] at h
    exact h rfl
  have hlog : 23 + excess num den = (num / den).log2 := by
    unfold excess at h ⊢
    omega
  refine Nat.le_trans ?_ (le_roundDiv _ _)
  rw [← Nat.div_div_eq_div_mul, Nat.le_div_iff_mul_le (Nat.two_pow_pos _), ← Nat.pow_add, hlog]
  exact Nat.log2_self_le hne

theorem significant_rounded (num den : Nat) : Significant (rounded num den) :=
  (significant_of_le (significand_le num den)).mul_two_pow _

/-! ## Patterns -/

theorem toNat_pack (h : m < 2 ^ 31) : (pack s m).toNat = s.toNat * 2 ^ 31 + m := by
  have hlow : (BitVec.ofNat 31 m).toNat = m := by
    rw [BitVec.toNat_ofNat, Nat.mod_eq_of_lt h]
  unfold pack
  rw [BitVec.toNat_append, hlow, BitVec.toNat_ofBool, ← Nat.shiftLeft_add_eq_or_of_lt h, Nat.shiftLeft_eq]

theorem msb_pack (m : Nat) : (pack s m).msb = s := by
  unfold pack
  rw [BitVec.msb_append]
  simp

/-- A pattern is read off the bits behind the sign: what they count up to 23 is the fraction, the rest
the exponent field. -/
theorem decode_pack (h : m < 2 ^ 31) : decode (pack s m) =
    if m / 2 ^ 23 = 255 then if m % 2 ^ 23 = 0 then .infinite s else .nan
    else if m / 2 ^ 23 = 0 then .finite s (m % 2 ^ 23)
    else .finite s ((2 ^ 23 + m % 2 ^ 23) * 2 ^ (m / 2 ^ 23 - 1)) := by
  have hnat := @toNat_pack m s h
  have hs : s.toNat ≤ 1 := Bool.toNat_le s
  have hfield : ((pack s m).extractLsb' 23 8).toNat = m / 2 ^ 23 := by
    rw [BitVec.extractLsb'_toNat, hnat, Nat.shiftRight_eq_div_pow]
    omega
  have hfraction : ((pack s m).extractLsb' 0 23).toNat = m % 2 ^ 23 := by
    rw [BitVec.extractLsb'_toNat, hnat, Nat.shiftRight_zero]
    omega
  unfold decode
  rw [msb_pack, hfield, hfraction]

theorem decode_infinity : decode (pack s infinity) = .infinite s := by
  cases s <;> decide

theorem decode_nan : decode nan = .nan := by
  decide

/-- A pattern below the infinities denotes its significand, shifted by its exponent. -/
theorem decode_pack_significand (hm : m ≤ 2 ^ 24) (hnormal : k ≠ 0 → 2 ^ 23 ≤ m)
    (hfinite : k * 2 ^ 23 + m < infinity) : decode (pack s (k * 2 ^ 23 + m)) = .finite s (m * 2 ^ k) := by
  unfold infinity at hfinite
  rw [decode_pack (by omega)]
  obtain hsub | hsig | rfl : m < 2 ^ 23 ∨ 2 ^ 23 ≤ m ∧ m < 2 ^ 24 ∨ m = 2 ^ 24 := by omega
  · -- a number without the leading one
    obtain rfl : k = 0 := by
      by_contra hk
      exact absurd (hnormal hk) (Nat.not_le.2 hsub)
    have hfield : (0 * 2 ^ 23 + m) / 2 ^ 23 = 0 := by omega
    have hfraction : (0 * 2 ^ 23 + m) % 2 ^ 23 = m := by omega
    rw [hfield, hfraction]
    simp
  · have hfield : (k * 2 ^ 23 + m) / 2 ^ 23 = k + 1 := by omega
    have hfraction : (k * 2 ^ 23 + m) % 2 ^ 23 = m - 2 ^ 23 := by omega
    rw [hfield, hfraction, if_neg (by omega), if_neg (by omega), Nat.add_sub_cancel,
      Nat.add_sub_cancel' hsig.1]
  · -- the significand carries into the exponent field
    have hfield : (k * 2 ^ 23 + 2 ^ 24) / 2 ^ 23 = k + 2 := by omega
    have hfraction : (k * 2 ^ 23 + 2 ^ 24) % 2 ^ 23 = 0 := by omega
    have hpow : (2 : Nat) ^ 24 * 2 ^ k = 2 ^ 23 * 2 ^ (k + 1) := by ring
    rw [hfield, hfraction, if_neg (by omega), if_neg (by omega), hpow]
    rfl

/-- A significand is in the range of the infinities exactly if its number is `2 ^ 128` or more. -/
theorem infinity_le_iff (hm : m ≤ 2 ^ 24) (hnormal : k ≠ 0 → 2 ^ 23 ≤ m) :
    infinity ≤ k * 2 ^ 23 + m ↔ 2 ^ 128 * one ≤ m * 2 ^ k := by
  have hlimit : 2 ^ 128 * one = 2 ^ 24 * 2 ^ 253 := rfl
  have hlimit' : 2 ^ 24 * 2 ^ 253 = 2 ^ 23 * 2 ^ 254 := rfl
  unfold infinity
  rw [hlimit]
  constructor
  · intro h
    obtain hk | ⟨rfl, rfl⟩ : 254 ≤ k ∨ m = 2 ^ 24 ∧ k = 253 := by omega
    · rw [hlimit']
      exact Nat.mul_le_mul (hnormal (by omega)) (Nat.pow_le_pow_right (by decide) hk)
    · exact Nat.le_refl _
  · intro h
    by_contra hlt
    obtain hk | ⟨rfl, hm⟩ : k ≤ 252 ∨ k = 253 ∧ m < 2 ^ 24 := by omega
    · have hle : m * 2 ^ k ≤ 2 ^ 24 * 2 ^ 252 := Nat.mul_le_mul hm (Nat.pow_le_pow_right (by decide) hk)
      exact absurd (Nat.le_trans h hle) (by decide)
    · exact absurd h (Nat.not_le.2 (Nat.mul_lt_mul_of_pos_right hm (Nat.two_pow_pos 253)))

/-- The pattern nearest to a quotient denotes what the quotient is rounded to, or an infinity if that is
`2 ^ 128` or more. -/
theorem decode_nearest (s : Bool) (num den : Nat) : decode (nearest s num den) =
    if rounded num den < 2 ^ 128 * one then .finite s (rounded num den) else .infinite s := by
  have hle := significand_le num den
  have hnormal := @le_significand num den
  have hlimit := infinity_le_iff hle hnormal
  unfold nearest
  split
  case isTrue hsmall =>
    have hfinite := Nat.not_le.1 fun h => absurd (hlimit.1 h) (Nat.not_le.2 hsmall)
    dsimp only
    rw [Nat.min_eq_left (Nat.le_of_lt hfinite)]
    exact decode_pack_significand hle hnormal hfinite
  case isFalse hlarge =>
    dsimp only
    rw [Nat.min_eq_right (hlimit.2 (Nat.not_lt.1 hlarge))]
    exact decode_infinity

/-- What a finite pattern denotes has at most twenty-four significant bits. -/
theorem significant_of_decode {bits : BitVec 32} (h : decode bits = .finite s n) : Significant n := by
  unfold decode at h
  dsimp only at h
  have hfraction := (bits.extractLsb' 0 23).isLt
  split at h
  · split at h <;> cases h
  · split at h
    · cases h
      exact significant_of_le (by omega)
    · cases h
      exact (significant_of_le (by omega)).mul_two_pow _

/-! ## Operations whose exact result is a number -/

/-- An exact result of at most twenty-four significant bits is not changed by rounding. -/
theorem decode_nearest_of_significant (hden : 0 < den) (h : Significant n) :
    decode (nearest s (den * n) den) = if n < 2 ^ 128 * one then .finite s n else .infinite s := by
  rw [decode_nearest, rounded_of_significant hden h]

/-! ## The nearest number -/

theorem log2_mul_two_pow (hn : n ≠ 0) (k : Nat) : (n * 2 ^ k).log2 = n.log2 + k := by
  have hpow := Nat.two_pow_pos k
  rw [Nat.log2_eq_iff (Nat.mul_ne_zero hn (Nat.ne_of_gt hpow))]
  constructor
  · rw [Nat.pow_add]
    exact Nat.mul_le_mul_right _ (Nat.log2_self_le hn)
  · rw [Nat.add_right_comm, Nat.pow_add]
    exact Nat.mul_lt_mul_of_pos_right Nat.lt_log2_self hpow

theorem rounded_small (h : n ≤ 2 ^ 24) : rounded n 1 = n :=
  rounded_one (significant_of_le h)

/-- A number of more than twenty-four bits has some behind the first twenty-four. -/
theorem log2_eq_add_excess (h : 2 ^ 24 ≤ n) : n.log2 = 23 + excess n 1 ∧ excess n 1 ≠ 0 := by
  have hlog : 24 ≤ n.log2 := (Nat.le_log2 (by omega)).2 h
  rw [excess_one]
  omega

/-- Rounding looks at the first bits only, wherever they stand. -/
theorem rounded_mul_two_pow (n k : Nat) : rounded (n * 2 ^ k) 1 = rounded n 1 * 2 ^ k := by
  obtain hsmall | hlarge := Nat.lt_or_ge n (2 ^ 24)
  · have hsig := significant_of_le (Nat.le_of_lt hsmall)
    rw [rounded_one hsig, rounded_one (hsig.mul_two_pow k)]
  · have hexcess : excess (n * 2 ^ k) 1 = excess n 1 + k := by
      have hlog := (log2_eq_add_excess hlarge).1
      rw [excess_one, log2_mul_two_pow (by omega)]
      omega
    unfold rounded
    rw [hexcess, Nat.one_mul, Nat.one_mul, Nat.pow_add, roundDiv_mul_mul _ _ (Nat.two_pow_pos k),
      Nat.mul_assoc]

theorem rounded_mul_one (n : Nat) : rounded (n * one) 1 = rounded n 1 * one :=
  rounded_mul_two_pow n 149

/-- Rounding does not pass a power of two. -/
theorem rounded_le_two_pow (n : Nat) : rounded n 1 ≤ 2 ^ (n.log2 + 1) := by
  obtain hsmall | hlarge := Nat.lt_or_ge n (2 ^ 24)
  · rw [rounded_small (Nat.le_of_lt hsmall)]
    exact Nat.le_of_lt Nat.lt_log2_self
  · rw [(log2_eq_add_excess hlarge).1, Nat.add_right_comm, Nat.pow_add]
    exact Nat.mul_le_mul_right _ (significand_le n 1)

theorem two_pow_le_rounded (hn : n ≠ 0) : 2 ^ n.log2 ≤ rounded n 1 := by
  obtain hsmall | hlarge := Nat.lt_or_ge n (2 ^ 24)
  · rw [rounded_small (Nat.le_of_lt hsmall)]
    exact Nat.log2_self_le hn
  · obtain ⟨hlog, hexcess⟩ := log2_eq_add_excess hlarge
    rw [hlog, Nat.pow_add]
    exact Nat.mul_le_mul_right _ (le_significand hexcess)

theorem rounded_mono (h : m ≤ n) : rounded m 1 ≤ rounded n 1 := by
  obtain rfl | hm := Nat.eq_zero_or_pos m
  · rw [rounded_small (Nat.zero_le _)]
    exact Nat.zero_le _
  · have hne : n ≠ 0 := by omega
    have hlog : m.log2 ≤ n.log2 := (Nat.le_log2 hne).2 (Nat.le_trans (Nat.log2_self_le (by omega)) h)
    obtain hlt | heq := Nat.lt_or_eq_of_le hlog
    · -- a power of two lies between them
      exact Nat.le_trans (rounded_le_two_pow m)
        (Nat.le_trans (Nat.pow_le_pow_right (by decide) hlt) (two_pow_le_rounded hne))
    · unfold rounded
      rw [excess_one, excess_one, heq]
      exact Nat.mul_le_mul_right _ (roundDiv_mono _ h)

/-- How far two numbers are apart. -/
def distance (m n : Nat) : Nat :=
  (m - n) + (n - m)

/-- No multiple of a step is nearer than the one that the quotient is rounded to. -/
theorem distance_roundDiv {step : Nat} (hstep : 0 < step) (n j : Nat) :
    distance n (roundDiv n step * step) ≤ distance n (j * step) ∧
      (distance n (j * step) = distance n (roundDiv n step * step) → j ≠ roundDiv n step →
        2 ∣ roundDiv n step) := by
  obtain ⟨hup, hdown, heven⟩ := roundDiv_near n hstep
  unfold distance
  rw [Nat.dvd_iff_mod_eq_zero]
  obtain hlt | rfl | hgt := Nat.lt_trichotomy j (roundDiv n step)
  · have hle : j * step + step ≤ roundDiv n step * step := by
      rw [← Nat.succ_mul]
      exact Nat.mul_le_mul_right _ hlt
    omega
  · exact ⟨Nat.le_refl _, fun _ hne => absurd rfl hne⟩
  · have hle : roundDiv n step * step + step ≤ j * step := by
      rw [← Nat.succ_mul]
      exact Nat.mul_le_mul_right _ hgt
    omega

/-- A significant number that is no multiple of the last digit that is kept is a number of fewer digits. -/
theorem Significant.multiple_or_lt (h : Significant m) (k : Nat) : 2 ^ k ∣ m ∨ 2 * m < 2 ^ (24 + k) := by
  obtain ⟨d, j, hd, rfl⟩ := h
  obtain hle | hlt := Nat.lt_or_ge j k |>.symm
  · exact .inl (Nat.dvd_trans (Nat.pow_dvd_pow 2 hle) (Nat.dvd_mul_left _ _))
  · right
    calc 2 * (d * 2 ^ j)
      _ = d * 2 ^ (j + 1) := by rw [Nat.pow_succ]; ring
      _ ≤ d * 2 ^ k := Nat.mul_le_mul_left _ (Nat.pow_le_pow_right (by decide) hlt)
      _ < 2 ^ 24 * 2 ^ k := Nat.mul_lt_mul_of_pos_right hd (Nat.two_pow_pos k)
      _ = 2 ^ (24 + k) := (Nat.pow_add 2 24 k).symm

/-- No number of at most twenty-four significant bits is nearer to an integer than the one that it is
rounded to; if another is as near, the last digit that is kept is even. -/
theorem distance_rounded (n : Nat) (hm : Significant m) :
    distance n (rounded n 1) ≤ distance n m ∧
      (distance n m = distance n (rounded n 1) → m ≠ rounded n 1 → 2 * 2 ^ excess n 1 ∣ rounded n 1) := by
  obtain hsmall | hlarge := Nat.lt_or_ge n (2 ^ 24)
  · rw [rounded_small (Nat.le_of_lt hsmall)]
    unfold distance
    omega
  · obtain ⟨hlog, -⟩ := log2_eq_add_excess hlarge
    have hmultiple := distance_roundDiv (Nat.two_pow_pos (excess n 1)) n
    unfold rounded
    rw [Nat.one_mul]
    obtain ⟨j, rfl⟩ | hlt := hm.multiple_or_lt (excess n 1)
    · obtain ⟨hle, htie⟩ := hmultiple j
      rw [Nat.mul_comm _ j]
      refine ⟨hle, fun heq hne => Nat.mul_dvd_mul_right (htie heq ?_) _⟩
      rintro rfl
      exact hne rfl
    · -- the leading power of two of `n` is a multiple too, and nearer
      have hhead : 2 ^ 23 * 2 ^ excess n 1 ≤ n := by
        rw [← Nat.pow_add, ← hlog]
        exact Nat.log2_self_le (by omega)
      have hbelow : m < 2 ^ 23 * 2 ^ excess n 1 := by
        rw [Nat.pow_add] at hlt
        omega
      obtain ⟨hle, -⟩ := hmultiple (2 ^ 23)
      unfold distance at hle ⊢
      omega

end NeuralEngine.Binary32
