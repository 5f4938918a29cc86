import NeuralEngine.Params.File
import NeuralEngine.Proofs.Text

/-!
# Lines of a parameter file

A line that is not blank says something if it is a key and a value in parentheses (`IsPair`) and the value
writes a number that the key can hold. A line that does not is flawed, in one of three ways (`Flawed`), and
these are just the lines at which reading ends (`readLine_eq_error_iff`). Every other line leaves the
parameters as they are except for the value that it assigns (`readLine_of_sound`).
-/

namespace NeuralEngine

theorem ParamKey.ofName?_eq_some_iff {name : List Char} {key : ParamKey} :
    ofName? name = some key ↔ name = key.name.toList := by
  constructor
  · intro h
    have hname := List.find?_some h
    exact (beq_iff_eq.1 hname).symm
  · rintro rfl
    exact ofName?_name key

/-- The keys of the widths and of the decimal point. -/
def ParamKey.narrow : List ParamKey :=
  [asidWidth, tidWidth, nnidWidth, feedbackWidth, elementWidth, decimalPointOffset, decimalPointWidth]

theorem ParamKey.bits_eq (key : ParamKey) : key.bits = if key ∈ narrow then 32 else 64 := by
  cases key <;> decide

namespace ParamFile

open Text

variable {cs inner line name value : List Char} {key : ParamKey} {n v : Nat} {p q : EngineParams} {e : ParamError}
  {ws : List ParamWarning}

/-! ## Pairs -/

theorem unwrap?_eq_some_iff : unwrap? cs = some inner ↔ cs = '(' :: inner ++ [')'] := by
  constructor
  · intro h
    unfold unwrap? at h
    split at h
    · next cs =>
      split at h
      · next hlast =>
        obtain ⟨ys, rfl⟩ := List.getLast?_eq_some_iff.1 hlast
        rw [List.dropLast_concat] at h
        obtain rfl := Option.some.inj h
        rfl
      · cases h
    · cases h
  · rintro rfl
    show (if (inner ++ [')']).getLast? = some ')' then some (inner ++ [')']).dropLast else none) = some inner
    rw [List.getLast?_concat, if_pos rfl, List.dropLast_concat]

theorem bne_comma (h : ',' ∉ cs) : ∀ c ∈ cs, (c != ',') = true := by
  intro c hc
  rw [bne_iff_ne]
  rintro rfl
  exact h hc

theorem splitComma?_append (h : ',' ∉ name) (value : List Char) :
    splitComma? (name ++ ',' :: value) = some (name, value) := by
  unfold splitComma?
  rw [List.dropWhile_append_of_pos (bne_comma h), List.takeWhile_append_of_pos (bne_comma h)]
  simp

theorem splitComma?_of_not_mem (h : ',' ∉ cs) : splitComma? cs = none := by
  have hrest : (cs ++ []).dropWhile (· != ',') = [] := List.dropWhile_append_of_pos (bne_comma h)
  rw [List.append_nil] at hrest
  unfold splitComma?
  rw [hrest]

theorem splitComma?_eq_some_iff : splitComma? cs = some (name, value) ↔ cs = name ++ ',' :: value ∧ ',' ∉ name := by
  constructor
  · intro h
    by_cases hmem : ',' ∈ cs
    · obtain ⟨name', value', rfl, hname⟩ := List.eq_append_cons_of_mem hmem
      rw [splitComma?_append hname] at h
      obtain ⟨rfl, rfl⟩ := Prod.mk.inj (Option.some.inj h)
      exact ⟨rfl, hname⟩
    · rw [splitComma?_of_not_mem hmem] at h
      cases h
  · rintro ⟨rfl, hname⟩
    exact splitComma?_append hname value

theorem splitComma?_eq_none_iff : splitComma? cs = none ↔ ',' ∉ cs := by
  refine ⟨fun h hmem => ?_, splitComma?_of_not_mem⟩
  obtain ⟨name, value, rfl, hname⟩ := List.eq_append_cons_of_mem hmem
  rw [splitComma?_append hname] at h
  cases h

theorem pair?_eq_some_iff :
    pair? cs = some (name, value) ↔ cs = '(' :: (name ++ ',' :: value) ++ [')'] ∧ ',' ∉ name := by
  unfold pair?
  rw [Option.bind_eq_some_iff]
  constructor
  · rintro ⟨inner, hinner, hsplit⟩
    obtain ⟨rfl, hname⟩ := splitComma?_eq_some_iff.1 hsplit
    exact ⟨unwrap?_eq_some_iff.1 hinner, hname⟩
  · rintro ⟨hcs, hname⟩
    exact ⟨_, unwrap?_eq_some_iff.2 hcs, splitComma?_append hname value⟩

theorem pair?_eq_none_iff : pair? cs = none ↔ ∀ inner, cs = '(' :: inner ++ [')'] → ',' ∉ inner := by
  unfold pair?
  rw [Option.bind_eq_none_iff]
  constructor
  · intro h inner hcs
    exact splitComma?_eq_none_iff.1 (h inner (unwrap?_eq_some_iff.2 hcs))
  · intro h inner hinner
    exact splitComma?_of_not_mem (h inner (unwrap?_eq_some_iff.1 hinner))

/-! ## What a line says -/

/-- Without the blanks around it, the line is a name and a value in parentheses. The value begins behind the
first comma. -/
structure IsPair (line name value : List Char) : Prop where
  trimmed : trim line = '(' :: (name ++ ',' :: value) ++ [')']
  first : ',' ∉ name

theorem isPair_iff : IsPair line name value ↔ pair? (trim line) = some (name, value) := by
  rw [pair?_eq_some_iff]
  exact ⟨fun h => ⟨h.trimmed, h.first⟩, fun h => ⟨h.1, h.2⟩⟩

/-- Without the blanks around it, the text writes the number: in decimal digits, with any number of leading zeros
and with or without a plus sign. -/
def Writes (cs : List Char) (v : Nat) : Prop :=
  ∃ n : Numeral, n.text = trim cs ∧ n.value = v

theorem Writes.unique {w : Nat} (hv : Writes cs v) (hw : Writes cs w) : v = w := by
  have hread := readNat?_eq_some_iff.2 hv
  rw [readNat?_eq_some_iff.2 hw] at hread
  exact (Option.some.inj hread).symm

theorem value?_eq_some_iff : value? cs = some v ↔ Writes cs v ∧ v < 2 ^ 64 := by
  unfold value?
  rw [Option.filter_eq_some_iff, readNat?_eq_some_iff, decide_eq_true_iff]
  rfl

theorem value?_eq_none_iff : value? cs = none ↔ ∀ v < 2 ^ 64, ¬ Writes cs v := by
  rw [Option.eq_none_iff_forall_ne_some]
  constructor
  · intro h v hlt hwrites
    exact h v (value?_eq_some_iff.2 ⟨hwrites, hlt⟩)
  · intro h v hv
    obtain ⟨hwrites, hlt⟩ := value?_eq_some_iff.1 hv
    exact h v hlt hwrites

/-- The line gives the number to the key. -/
def Assigns (line : List Char) (key : ParamKey) (v : Nat) : Prop :=
  ∃ name value, IsPair line name value ∧ trim name = key.name.toList ∧ Writes value v

theorem IsPair.nonblank (h : IsPair line name value) : trim line ≠ [] := by
  rw [h.trimmed]
  exact List.cons_ne_nil _ _

/-- A pair assigns what it writes to the key that it names. -/
theorem IsPair.assigns_iff (h : IsPair line name value) :
    Assigns line key v ↔ trim name = key.name.toList ∧ Writes value v := by
  constructor
  · rintro ⟨name', value', h', hname, hwrites⟩
    have hpair := isPair_iff.1 h
    rw [isPair_iff.1 h'] at hpair
    obtain ⟨rfl, rfl⟩ := Prod.mk.inj (Option.some.inj hpair)
    exact ⟨hname, hwrites⟩
  · rintro ⟨hname, hwrites⟩
    exact ⟨name, value, h, hname, hwrites⟩

/-- What is wrong with line `n`: it is not blank and no pair, its value is no 64-bit number, or its value is no
32-bit number and its key a narrow one. -/
inductive Flawed (n : Nat) (line : List Char) : ParamError → Prop where
  | malformed (nonblank : trim line ≠ []) (noPair : ∀ inner, trim line = '(' :: inner ++ [')'] → ',' ∉ inner) :
      Flawed n line (.malformedLine n)
  | noNumber {name value : List Char} (pair : IsPair line name value)
      (noNumber : ∀ v < 2 ^ 64, ¬ Writes value v) : Flawed n line (.badValue n)
  | tooLarge {key : ParamKey} {v : Nat} (assigns : Assigns line key v) (narrow : key ∈ ParamKey.narrow)
      (large : 2 ^ 32 ≤ v) : Flawed n line (.badValue n)

/-! ## Reading a line -/

theorem readLine_of_blank (blank : trim line = []) : readLine p n line = .ok (p, []) := by
  simp only [readLine, if_pos blank]

theorem readLine_of_noPair (nonblank : trim line ≠ []) (noPair : pair? (trim line) = none) :
    readLine p n line = .error (.malformedLine n) := by
  simp only [readLine, if_neg nonblank, noPair]

theorem readLine_of_noNumber (pair : IsPair line name value) (noNumber : value? value = none) :
    readLine p n line = .error (.badValue n) := by
  simp only [readLine, if_neg pair.nonblank, isPair_iff.1 pair, noNumber]

theorem readLine_of_unknown (pair : IsPair line name value) (number : value? value = some v)
    (unknown : ParamKey.ofName? (trim name) = none) :
    readLine p n line = .ok (p, [.unknownKey (trim name) n]) := by
  simp only [readLine, if_neg pair.nonblank, isPair_iff.1 pair, number, unknown]

theorem readLine_of_known (pair : IsPair line name value) (number : value? value = some v)
    (known : ParamKey.ofName? (trim name) = some key) :
    readLine p n line = if v < 2 ^ key.bits then .ok (p.set key v, []) else .error (.badValue n) := by
  simp only [readLine, if_neg pair.nonblank, isPair_iff.1 pair, number, known]

/-- The value of a key after a line: the one that the line assigns, else the one before it. -/
structure After (line : List Char) (key : ParamKey) (old new : Nat) : Prop where
  assigned : ∀ v, Assigns line key v → new = v
  kept : (∀ v, ¬ Assigns line key v) → new = old

theorem Assigns.unique {w : Nat} (hv : Assigns line key v) (hw : Assigns line key w) : v = w := by
  obtain ⟨name, value, pair, -, hwrites⟩ := hv
  exact hwrites.unique (pair.assigns_iff.1 hw).2

theorem after_of_not_assigns (h : ∀ v, ¬ Assigns line key v) (old : Nat) : After line key old old :=
  ⟨fun v hv => absurd hv (h v), fun _ => rfl⟩

/-- A line that assigns a value changes that of its key and no other one. -/
theorem after_set {k : ParamKey} (assigns : Assigns line k v) (p : EngineParams) (key : ParamKey) :
    After line key (p.get key) ((p.set k v).get key) := by
  by_cases hkey : key = k
  · subst hkey
    rw [EngineParams.get_set]
    exact ⟨fun w hw => assigns.unique hw, fun hnone => absurd assigns (hnone v)⟩
  · rw [EngineParams.get_set_ne p v hkey]
    refine after_of_not_assigns (fun w hw => hkey ?_) _
    obtain ⟨name, value, pair, hname, -⟩ := assigns
    have hk := ParamKey.ofName?_eq_some_iff.2 hname
    rw [ParamKey.ofName?_eq_some_iff.2 (pair.assigns_iff.1 hw).1] at hk
    exact Option.some.inj hk

/-- A line is flawed, and then reading ends with the flaw, or it leaves the parameters with what it assigns. -/
theorem readLine_cases (p : EngineParams) (n : Nat) (line : List Char) :
    (∃ e, Flawed n line e ∧ readLine p n line = .error e) ∨
      ∃ q ws, readLine p n line = .ok (q, ws) ∧ ∀ key, After line key (p.get key) (q.get key) := by
  by_cases blank : trim line = []
  · refine .inr ⟨p, [], readLine_of_blank blank, fun key => after_of_not_assigns (fun v h => ?_) _⟩
    obtain ⟨name, value, pair, -⟩ := h
    exact pair.nonblank blank
  cases hpair : pair? (trim line) with
  | none => exact .inl ⟨_, .malformed blank (pair?_eq_none_iff.1 hpair), readLine_of_noPair blank hpair⟩
  | some parts =>
    obtain ⟨name, value⟩ := parts
    have pair : IsPair line name value := isPair_iff.2 hpair
    cases hnumber : value? value with
    | none => exact .inl ⟨_, .noNumber pair (value?_eq_none_iff.1 hnumber), readLine_of_noNumber pair hnumber⟩
    | some v =>
      obtain ⟨writes, lt⟩ := value?_eq_some_iff.1 hnumber
      cases hname : ParamKey.ofName? (trim name) with
      | none =>
        refine .inr ⟨p, _, readLine_of_unknown pair hnumber hname, fun key => after_of_not_assigns (fun w h => ?_) _⟩
        rw [ParamKey.ofName?_eq_some_iff.2 (pair.assigns_iff.1 h).1] at hname
        cases hname
      | some k =>
        have assigns : Assigns line k v := pair.assigns_iff.2 ⟨ParamKey.ofName?_eq_some_iff.1 hname, writes⟩
        have hread := readLine_of_known (p := p) (n := n) pair hnumber hname
        by_cases fits : v < 2 ^ k.bits
        · rw [if_pos fits] at hread
          exact .inr ⟨_, _, hread, after_set assigns p⟩
        · rw [if_neg fits] at hread
          rw [k.bits_eq] at fits
          by_cases narrow : k ∈ ParamKey.narrow
          · rw [if_pos narrow] at fits
            exact .inl ⟨_, .tooLarge assigns narrow (Nat.le_of_not_lt fits), hread⟩
          · rw [if_neg narrow] at fits
            exact absurd lt fits

/-- Reading ends at the flawed lines and nowhere else. -/
theorem readLine_eq_error_iff : readLine p n line = .error e ↔ Flawed n line e := by
  constructor
  · intro h
    rcases readLine_cases p n line with ⟨d, flawed, hread⟩ | ⟨q, ws, hread, -⟩
    · obtain rfl : d = e := Except.error.inj (hread.symm.trans h)
      exact flawed
    · rw [hread] at h
      cases h
  · intro h
    cases h with
    | malformed nonblank noPair => exact readLine_of_noPair nonblank (pair?_eq_none_iff.2 noPair)
    | noNumber pair noNumber => exact readLine_of_noNumber pair (value?_eq_none_iff.2 noNumber)
    | @tooLarge key v assigns narrow large =>
      obtain ⟨name, value, pair, hname, writes⟩ := assigns
      cases hnumber : value? value with
      | none => exact readLine_of_noNumber pair hnumber
      | some w =>
        obtain rfl : v = w := writes.unique (value?_eq_some_iff.1 hnumber).1
        rw [readLine_of_known pair hnumber (ParamKey.ofName?_eq_some_iff.2 hname), key.bits_eq, if_pos narrow]
        exact if_neg (Nat.not_lt_of_le large)

/-- A line without a flaw is read, and its effect is what it assigns. -/
theorem readLine_of_sound (p : EngineParams) (sound : ∀ e, ¬ Flawed n line e) :
    ∃ q ws, readLine p n line = .ok (q, ws) ∧ ∀ key, After line key (p.get key) (q.get key) := by
  rcases readLine_cases p n line with ⟨e, flawed, -⟩ | hread
  · exact absurd flawed (sound e)
  · exact hread

end ParamFile

end NeuralEngine
