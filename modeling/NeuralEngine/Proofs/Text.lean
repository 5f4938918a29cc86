import NeuralEngine.Text

/-!
# Trimmed texts and written numbers

Trimming takes away the blanks around a text and nothing else (`trim_pad`). A number may be written with a plus
sign and with leading zeros. It is read back from every way to write it (`readNat?_text`), and nothing else is
read as a number (`readNat?_eq_some_iff`).
-/

namespace NeuralEngine.Text

/-! ## Blanks -/

/-- All characters are blank. -/
def Blank (cs : List Char) : Prop :=
  ∀ c ∈ cs, isBlank c = true

instance (cs : List Char) : Decidable (Blank cs) :=
  decidable_of_iff (cs.all isBlank = true) List.all_eq_true

section Trim

variable {start cs stop : List Char}

theorem trimStart_append (h : Blank start) (cs : List Char) : trimStart (start ++ cs) = trimStart cs :=
  List.dropWhile_append_of_pos h

theorem trimEnd_append (cs : List Char) (h : Blank stop) : trimEnd (cs ++ stop) = trimEnd cs := by
  have hreverse : ∀ c ∈ stop.reverse, isBlank c = true := fun c hc => h c (List.mem_reverse.1 hc)
  unfold trimEnd
  rw [List.reverse_append, List.dropWhile_append_of_pos hreverse]

theorem trimStart_of_blank (h : Blank cs) : trimStart cs = [] := by
  have hall := trimStart_append h []
  rwa [List.append_nil] at hall

theorem trim_append (cs : List Char) (h : Blank stop) : trim (cs ++ stop) = trim cs := by
  have hsplit : trimStart (cs ++ stop) = if (trimStart cs).isEmpty then trimStart stop else trimStart cs ++ stop :=
    List.dropWhile_append
  unfold trim
  rw [hsplit]
  split
  · next hempty => rw [trimStart_of_blank h, List.isEmpty_iff.1 hempty]
  · exact trimEnd_append _ h

/-- Blanks around a text do not count. -/
theorem trim_pad (hstart : Blank start) (cs : List Char) (hstop : Blank stop) : trim (start ++ cs ++ stop) = trim cs := by
  rw [trim_append _ hstop]
  unfold trim
  rw [trimStart_append hstart]

theorem trim_of_blank (h : Blank cs) : trim cs = [] := by
  unfold trim
  rw [trimStart_of_blank h]
  rfl

/-- A text that neither starts nor ends with a blank is what trimming leaves of it. -/
theorem trim_eq_self (hhead : ∀ c, cs.head? = some c → isBlank c = false)
    (hlast : ∀ c, cs.getLast? = some c → isBlank c = false) : trim cs = cs := by
  have hkeep : ∀ xs : List Char, (∀ c, xs.head? = some c → isBlank c = false) → xs.dropWhile isBlank = xs := by
    intro xs h
    cases xs with
    | nil => rfl
    | cons c xs => exact List.dropWhile_cons_of_neg (by rw [h c rfl]; exact Bool.false_ne_true)
  unfold trim trimStart trimEnd
  rw [hkeep cs hhead, hkeep cs.reverse (by rwa [List.head?_reverse]), List.reverse_reverse]

end Trim

theorem toNat_of_isDigit {c : Char} (h : c.isDigit = true) : 48 ≤ c.toNat ∧ c.toNat ≤ 57 := by
  simp only [Char.isDigit, Bool.and_eq_true, decide_eq_true_eq, ge_iff_le, UInt32.le_iff_toNat_le] at h
  exact h

theorem isBlank_of_isDigit {c : Char} (h : c.isDigit = true) : isBlank c = false := by
  have hrange := toNat_of_isDigit h
  refine Bool.eq_false_iff.2 fun hblank => ?_
  obtain ⟨r, hr, hlo, hhi⟩ := isBlank_iff.1 hblank
  have hapart : ∀ r ∈ blankRanges, r.2 < 48 ∨ 57 < r.1 := by decide
  have hbeside := hapart r hr
  omega

/-! ## Numbers -/

/-- A digit is what its value is written as. -/
theorem toDigits_of_isDigit {c : Char} (h : c.isDigit = true) : Nat.toDigits 10 (c.toNat - 48) = [c] := by
  have hrange := toNat_of_isDigit h
  have hchar : Nat.digitChar (c.toNat - 48) = c := by
    apply Char.toNat_inj.1
    rw [Nat.toNat_digitChar_of_lt_ten (by omega)]
    omega
  rw [Nat.toDigits_of_lt_base (by omega), hchar]

/-- Digits behind those of a number other than zero make the digits of a number. -/
theorem exists_toDigits_append {ds : List Char} (digits : ∀ c ∈ ds, c.isDigit = true) {m : Nat} (pos : 0 < m) :
    ∃ k, Nat.toDigits 10 m ++ ds = Nat.toDigits 10 k := by
  induction ds generalizing m with
  | nil => exact ⟨m, List.append_nil _⟩
  | cons c ds ih =>
    have hc : c.isDigit = true := digits c List.mem_cons_self
    have hrange := toNat_of_isDigit hc
    have hdigit : Nat.toDigits 10 m ++ [c] = Nat.toDigits 10 (10 * m + (c.toNat - 48)) := by
      rw [← toDigits_of_isDigit hc]
      exact Nat.toDigits_append_toDigits (by decide) pos (by omega)
    obtain ⟨k, hk⟩ := ih (fun d hd => digits d (List.mem_cons_of_mem c hd)) (m := 10 * m + (c.toNat - 48)) (by omega)
    refine ⟨k, ?_⟩
    rw [← hk, ← hdigit, List.append_assoc, List.singleton_append]

/-- A number as it may be written: with a plus sign or without, with any number of leading zeros. -/
structure Numeral where
  plus : Bool := false
  zeros : Nat := 0
  value : Nat

namespace Numeral

/-- The digits of the number. -/
def digits (n : Numeral) : List Char :=
  List.replicate n.zeros '0' ++ Nat.toDigits 10 n.value

/-- The number as it is written. -/
def text (n : Numeral) : List Char :=
  if n.plus then '+' :: n.digits else n.digits

theorem isDigit_of_mem_digits {n : Numeral} {c : Char} (h : c ∈ n.digits) : c.isDigit = true := by
  obtain hzero | hdigit := List.mem_append.1 h
  · rw [List.eq_of_mem_replicate hzero]
    rfl
  · exact Nat.isDigit_of_mem_toDigits (by decide) (by decide) hdigit

theorem digits_ne_nil (n : Numeral) : n.digits ≠ [] :=
  List.append_ne_nil_of_right_ne_nil _ Nat.toDigits_ne_nil

theorem mem_text (n : Numeral) {c : Char} (h : c ∈ n.text) : c = '+' ∨ c.isDigit = true := by
  unfold text at h
  split at h
  · exact (List.mem_cons.1 h).imp_right isDigit_of_mem_digits
  · exact .inr (isDigit_of_mem_digits h)

/-- Leading zeros do not count. -/
theorem ofDigits_digits (n : Numeral) : ofDigits n.digits = n.value := by
  have hzeros : ofDigits (List.replicate n.zeros '0') = 0 := by
    unfold ofDigits
    induction n.zeros with
    | zero => rfl
    | succ k ih => exact ih
  have hdigits : (Nat.toDigits 10 n.value).foldl (fun m d => 10 * m + (d.toNat - '0'.toNat)) 0 = n.value :=
    Nat.ofDigitChars_toDigits (by decide) (by decide)
  unfold digits ofDigits at *
  rw [List.foldl_append, hzeros, hdigits]

theorem readDigits?_digits (n : Numeral) : readDigits? n.digits = some n.value := by
  unfold readDigits?
  rw [if_pos ⟨n.digits_ne_nil, List.all_eq_true.2 fun c hc => isDigit_of_mem_digits hc⟩, n.ofDigits_digits]

/-- A number is read back however it is written. -/
theorem readNat?_text (n : Numeral) : readNat? n.text = some n.value := by
  unfold text
  split
  · exact n.readDigits?_digits
  · rw [← n.readDigits?_digits]
    unfold readNat?
    split
    · next cs hplus =>
      have hdigit := isDigit_of_mem_digits (n := n) (hplus ▸ List.mem_cons_self)
      exact absurd hdigit (by decide)
    · rfl

/-- All digits, at least one of them, are those of a number with leading zeros. -/
theorem exists_digits {ds : List Char} (some_digit : ds ≠ []) (digits : ∀ c ∈ ds, c.isDigit = true) :
    ∃ n : Numeral, n.digits = ds := by
  induction ds with
  | nil => exact absurd rfl some_digit
  | cons c ds ih =>
    have hc : c.isDigit = true := digits c List.mem_cons_self
    have hds : ∀ d ∈ ds, d.isDigit = true := fun d hd => digits d (List.mem_cons_of_mem c hd)
    by_cases hzero : c = '0'
    · subst hzero
      by_cases hnil : ds = []
      · subst hnil
        exact ⟨{ value := 0 }, rfl⟩
      · obtain ⟨n, rfl⟩ := ih hnil hds
        exact ⟨{ n with zeros := n.zeros + 1 }, rfl⟩
    · have hrange := toNat_of_isDigit hc
      have hpos : c.toNat ≠ 48 := fun h => hzero (Char.toNat_inj.1 h)
      obtain ⟨k, hk⟩ := exists_toDigits_append hds (m := c.toNat - 48) (by omega)
      rw [toDigits_of_isDigit hc] at hk
      exact ⟨{ value := k }, hk.symm⟩

theorem exists_of_readDigits? {ds : List Char} {v : Nat} (h : readDigits? ds = some v) :
    ∃ n : Numeral, n.digits = ds ∧ n.value = v := by
  have hds : ds ≠ [] ∧ ds.all Char.isDigit = true := by
    refine Classical.byContradiction fun hnot => ?_
    unfold readDigits? at h
    rw [if_neg hnot] at h
    cases h
  obtain ⟨n, rfl⟩ := exists_digits hds.1 (List.all_eq_true.1 hds.2)
  exact ⟨n, rfl, Option.some.inj (n.readDigits?_digits.symm.trans h)⟩

/-- There is no blank in a written number. -/
theorem isBlank_of_mem_text (n : Numeral) {c : Char} (h : c ∈ n.text) : isBlank c = false := by
  obtain rfl | hdigit := n.mem_text h
  · decide
  · exact isBlank_of_isDigit hdigit

theorem trim_text (n : Numeral) : trim n.text = n.text :=
  trim_eq_self (fun _ hc => n.isBlank_of_mem_text (List.mem_of_mem_head? hc))
    fun _ hc => n.isBlank_of_mem_text (List.mem_of_mem_getLast? hc)

end Numeral

/-- What is read as a number is a written number. -/
theorem readNat?_eq_some_iff {cs : List Char} {v : Nat} :
    readNat? cs = some v ↔ ∃ n : Numeral, n.text = cs ∧ n.value = v := by
  constructor
  · intro h
    unfold readNat? at h
    split at h
    · next ds =>
      obtain ⟨n, rfl, hv⟩ := Numeral.exists_of_readDigits? h
      exact ⟨{ n with plus := true }, rfl, hv⟩
    · obtain ⟨n, rfl, hv⟩ := Numeral.exists_of_readDigits? h
      exact ⟨{ n with plus := false }, rfl, hv⟩
  · rintro ⟨n, rfl, rfl⟩
    exact n.readNat?_text

end NeuralEngine.Text
