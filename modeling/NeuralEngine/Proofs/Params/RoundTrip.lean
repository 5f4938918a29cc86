import NeuralEngine.Proofs.Capability
import NeuralEngine.Proofs.Params.Line

/-!
# Writing and reading a parameter file

A parameter file may be written in many ways: with blanks around a line, a key and a value, with blank lines, with
lines for keys that are not known and with lines that later ones replace. `FileLine` is a line as it may be written.
Reading it does what it says (`readLine_text`), so reading a text does what its lines say one after the other
(`readLines_text`), and what counts for a key is its last line (`get_foldl_apply`).
-/

namespace NeuralEngine

namespace ParamFile

open Text

/-! ## Lines -/

/-- Blanks within a line. -/
structure Pad where
  chars : List Char
  blank : Blank chars
  within : '\n' ∉ chars

namespace Pad

/-- No blanks. -/
def none : Pad where
  chars := []
  blank := fun _ h => absurd h List.not_mem_nil
  within := List.not_mem_nil

theorem comma (pad : Pad) : ',' ∉ pad.chars := fun h => absurd (pad.blank ',' h) (by decide)

end Pad

/-- A key and a number that the key can hold, and the blanks around them. A key that is not known can hold any
64-bit number. -/
structure Assignment where
  key : List Char
  key_trim : trim key = key
  key_comma : ',' ∉ key
  key_within : '\n' ∉ key
  value : Numeral
  legal : value.value < 2 ^ 64 ∧ ∀ k, ParamKey.ofName? key = some k → value.value < 2 ^ k.bits
  lineStart : Pad := .none
  lineEnd : Pad := .none
  keyStart : Pad := .none
  keyEnd : Pad := .none
  valueStart : Pad := .none
  valueEnd : Pad := .none

namespace Assignment

variable (a : Assignment)

/-- The key with the blanks around it. -/
def keyText : List Char :=
  a.keyStart.chars ++ a.key ++ a.keyEnd.chars

/-- The number with the blanks around it. -/
def valueText : List Char :=
  a.valueStart.chars ++ a.value.text ++ a.valueEnd.chars

/-- What is left of the line without the blanks around it. -/
def core : List Char :=
  '(' :: (a.keyText ++ ',' :: a.valueText) ++ [')']

theorem trim_keyText : trim a.keyText = a.key :=
  (trim_pad a.keyStart.blank a.key a.keyEnd.blank).trans a.key_trim

theorem value?_valueText : value? a.valueText = some a.value.value := by
  have htrim : trim a.valueText = a.value.text :=
    (trim_pad a.valueStart.blank a.value.text a.valueEnd.blank).trans a.value.trim_text
  exact value?_eq_some_iff.2 ⟨⟨a.value, htrim.symm, rfl⟩, a.legal.1⟩

theorem comma_keyText : ',' ∉ a.keyText := by
  unfold keyText
  simp [a.keyStart.comma, a.keyEnd.comma, a.key_comma]

theorem trim_core : trim a.core = a.core := by
  refine trim_eq_self (fun c hc => ?_) fun c hc => ?_
  · obtain rfl : '(' = c := Option.some.inj hc
    decide
  · unfold core at hc
    rw [List.getLast?_concat] at hc
    obtain rfl : ')' = c := Option.some.inj hc
    decide

/-- The line is cut at the comma between the key and the value. -/
theorem pair?_core : pair? a.core = some (a.keyText, a.valueText) :=
  pair?_eq_some_iff.2 ⟨rfl, a.comma_keyText⟩

/-- The line for a key without anything that could be left out. -/
def plain (key : ParamKey) (value : Nat) (legal : value < 2 ^ key.bits) : Assignment where
  key := key.name.toList
  key_trim := by cases key <;> decide
  key_comma := by cases key <;> decide
  key_within := by cases key <;> decide
  value := { value := value }
  legal := by
    have hbits : key.bits ≤ 64 := by cases key <;> decide
    refine ⟨Nat.lt_of_lt_of_le legal (Nat.pow_le_pow_right (by decide) hbits), fun k hk => ?_⟩
    rw [ParamKey.ofName?_name] at hk
    exact Option.some.inj hk ▸ legal

end Assignment

/-- A line as it may be written. -/
inductive FileLine where
  | blank (pad : Pad)
  | assign (a : Assignment)

namespace FileLine

/-- The line as it is written. -/
def text : FileLine → List Char
  | blank pad => pad.chars
  | assign a => a.lineStart.chars ++ a.core ++ a.lineEnd.chars

/-- The value that the line gives to a key. -/
def assigned? (key : ParamKey) : FileLine → Option Nat
  | blank _ => none
  | assign a => if ParamKey.ofName? a.key = some key then some a.value.value else none

/-- The key of the line, if it is not known. -/
def unknown? : FileLine → Option (List Char)
  | blank _ => none
  | assign a => if ParamKey.ofName? a.key = none then some a.key else none

/-- The parameters after the line. -/
def apply (p : EngineParams) : FileLine → EngineParams
  | blank _ => p
  | assign a => match ParamKey.ofName? a.key with
    | none => p
    | some key => p.set key a.value.value

theorem newline_not_mem_text (line : FileLine) : '\n' ∉ line.text := by
  cases line with
  | blank pad => exact pad.within
  | assign a =>
    have hvalue : '\n' ∉ a.value.text := fun h => by
      have hblank := a.value.isBlank_of_mem_text h
      exact absurd hblank (by decide)
    simp [text, Assignment.core, Assignment.keyText, Assignment.valueText, a.lineStart.within, a.lineEnd.within,
      a.keyStart.within, a.keyEnd.within, a.valueStart.within, a.valueEnd.within, a.key_within, hvalue]

/-- A line is read as what it says, with a report about a key that is not known. -/
theorem readLine_text (line : FileLine) (p : EngineParams) (n : Nat) :
    readLine p n line.text = .ok (line.apply p, (line.unknown?.map fun key => .unknownKey key n).toList) := by
  cases line with
  | blank pad => exact readLine_of_blank (trim_of_blank pad.blank)
  | assign a =>
    have pair : IsPair (text (assign a)) a.keyText a.valueText := by
      rw [isPair_iff, ← a.pair?_core]
      exact congrArg pair? ((trim_pad a.lineStart.blank _ a.lineEnd.blank).trans a.trim_core)
    cases hkey : ParamKey.ofName? a.key with
    | none =>
      rw [readLine_of_unknown pair a.value?_valueText (by rw [a.trim_keyText, hkey])]
      simp [apply, unknown?, hkey, a.trim_keyText]
    | some key =>
      rw [readLine_of_known pair a.value?_valueText (by rw [a.trim_keyText, hkey])]
      simp [apply, unknown?, hkey, a.legal.2 key hkey]

/-- A line changes the parameter of its key and no other one. -/
theorem get_apply (line : FileLine) (p : EngineParams) (key : ParamKey) :
    (line.apply p).get key = (line.assigned? key).getD (p.get key) := by
  cases line with
  | blank pad => rfl
  | assign a =>
    cases hkey : ParamKey.ofName? a.key with
    | none => simp [apply, assigned?, hkey]
    | some k =>
      by_cases h : k = key
      · simp [apply, assigned?, hkey, h]
      · simp [apply, assigned?, hkey, h, EngineParams.get_set_ne p a.value.value (Ne.symm h)]

end FileLine

/-! ## Texts -/

/-- The text of which these are the lines. -/
def fileText (items : List FileLine) : String :=
  String.ofList (List.intercalate ['\n'] (items.map FileLine.text))

/-- The reports about keys that are not known, from line `n` on. -/
def unknownKeys (n : Nat) (items : List FileLine) : List ParamWarning :=
  (items.zipIdx n).filterMap fun item => item.1.unknown?.map fun key => .unknownKey key item.2

theorem lines_of_not_mem {cs : List Char} (h : '\n' ∉ cs) : lines cs = [cs] := by
  induction cs with
  | nil => rfl
  | cons c cs ih =>
    rw [List.mem_cons, not_or] at h
    have hrest : lines cs = [cs] := ih h.2
    show (if c = '\n' then [] :: lines cs else (lines cs).modifyHead (c :: ·)) = _
    rw [if_neg (Ne.symm h.1), hrest]
    rfl

theorem lines_append {cs : List Char} (h : '\n' ∉ cs) (rest : List Char) :
    lines (cs ++ '\n' :: rest) = cs :: lines rest := by
  induction cs with
  | nil => rfl
  | cons c cs ih =>
    rw [List.mem_cons, not_or] at h
    show (if c = '\n' then [] :: lines (cs ++ '\n' :: rest) else (lines (cs ++ '\n' :: rest)).modifyHead (c :: ·)) = _
    rw [if_neg (Ne.symm h.1), ih h.2]
    rfl

/-- A text has the lines that it was put together from. -/
theorem lines_intercalate {ls : List (List Char)} (some_line : ls ≠ []) (within : ∀ l ∈ ls, '\n' ∉ l) :
    lines (List.intercalate ['\n'] ls) = ls := by
  induction ls with
  | nil => exact absurd rfl some_line
  | cons l ls ih =>
    cases ls with
    | nil =>
      rw [List.intercalate_singleton]
      exact lines_of_not_mem (within l List.mem_cons_self)
    | cons l' ls =>
      rw [List.intercalate_cons_cons, List.append_assoc]
      refine (lines_append (within l List.mem_cons_self) _).trans ?_
      exact congrArg (l :: ·) (ih (List.cons_ne_nil _ _) fun m hm => within m (List.mem_cons_of_mem l hm))

/-- The lines of a text are read one after the other, and the check comes last. -/
theorem readLines_text (items : List FileLine) (p : EngineParams) (n : Nat) :
    readLines p n (items.map FileLine.text) =
      let q := items.foldl (fun q line => line.apply q) p
      (q.validate.1.map fun _ => q, unknownKeys n items ++ q.validate.2) := by
  induction items generalizing p n with
  | nil => rfl
  | cons line items ih =>
    rw [List.map_cons, readLines, line.readLine_text]
    simp only [ih, List.foldl_cons, unknownKeys, List.zipIdx_cons, List.filterMap_cons]
    cases line.unknown? <;> rfl

/-- What counts for a key is the last line for it. -/
theorem get_foldl_apply (items : List FileLine) (p : EngineParams) (key : ParamKey) :
    (items.foldl (fun q line => line.apply q) p).get key =
      (items.filterMap (·.assigned? key)).getLast?.getD (p.get key) := by
  induction items generalizing p with
  | nil => rfl
  | cons line items ih =>
    rw [List.foldl_cons, ih, line.get_apply, List.filterMap_cons]
    cases line.assigned? key with
    | none => rfl
    | some value =>
      rw [List.getLast?_cons]
      rfl

/-- A text is read to the parameters that its last lines give, if these pass the check. -/
theorem parse_fileText {p : EngineParams} (valid : p.validate.1 = .ok ()) {items : List FileLine}
    (last : ∀ key, (items.filterMap (·.assigned? key)).getLast? = some (p.get key)) :
    EngineParams.parse (fileText items) = (.ok p, unknownKeys 1 items) := by
  have hitems : items.map FileLine.text ≠ [] := by
    rintro hnil
    have hkey := last .numPes
    rw [List.map_eq_nil_iff.1 hnil] at hkey
    cases hkey
  have hlines : lines (fileText items).toList = items.map FileLine.text := by
    unfold fileText
    rw [String.toList_ofList]
    refine lines_intercalate hitems fun l hl => ?_
    obtain ⟨line, -, rfl⟩ := List.mem_map.1 hl
    exact line.newline_not_mem_text
  have hread : items.foldl (fun q line => line.apply q) {} = p := by
    refine EngineParams.ext_get fun key => ?_
    rw [get_foldl_apply, last]
    rfl
  have hcheck : p.validate = (.ok (), []) := by
    unfold EngineParams.validate
    rw [EngineParams.validate_eq_ok_iff.1 valid]
  unfold EngineParams.parse
  rw [hlines, readLines_text]
  simp only [hread, hcheck, Except.map, List.append_nil]

/-- A line for each key, in the order of the keys. -/
def plainLines (p : EngineParams) (fits : ∀ key, p.get key < 2 ^ key.bits) : List FileLine :=
  ParamKey.all.map fun key => .assign (.plain key (p.get key) (fits key))

theorem assigned?_plain (key k : ParamKey) (value : Nat) (legal : value < 2 ^ k.bits) :
    (FileLine.assign (.plain k value legal)).assigned? key = if k = key then some value else none := by
  show (if ParamKey.ofName? k.name.toList = some key then some value else none) = _
  rw [ParamKey.ofName?_name]
  simp

theorem filterMap_plainLines (p : EngineParams) (fits : ∀ key, p.get key < 2 ^ key.bits) (key : ParamKey) :
    (plainLines p fits).filterMap (·.assigned? key) = [p.get key] := by
  unfold plainLines
  rw [List.filterMap_map]
  have hline : (fun line : FileLine => line.assigned? key) ∘
      (fun k => FileLine.assign (.plain k (p.get k) (fits k))) = fun k => if k = key then some (p.get k) else none :=
    funext fun k => assigned?_plain key k (p.get k) (fits k)
  rw [hline]
  cases key <;> rfl

theorem unknown?_of_mem_plainLines {p : EngineParams} {fits : ∀ key, p.get key < 2 ^ key.bits} {line : FileLine}
    (h : line ∈ plainLines p fits) : line.unknown? = none := by
  obtain ⟨key, -, rfl⟩ := List.mem_map.1 h
  show (if ParamKey.ofName? key.name.toList = none then some key.name.toList else none) = none
  rw [ParamKey.ofName?_name]
  exact if_neg (Option.some_ne_none key)

/-- Parameters that pass the check are read back from whatever text they are written to: a line for each key in any
order, and any text with other lines in it, as long as the last line for each key is that of the parameters. Each
line for a key that is not known is reported, and nothing else is. -/
theorem written_parameters_are_read_back (p : EngineParams) (fits : ∀ key, p.get key < 2 ^ key.bits)
    (valid : p.validate.1 = .ok ()) :
    (∀ items : List FileLine, items.Perm (plainLines p fits) → EngineParams.parse (fileText items) = (.ok p, [])) ∧
      ∀ items : List FileLine, (∀ key, (items.filterMap (·.assigned? key)).getLast? = some (p.get key)) →
        EngineParams.parse (fileText items) = (.ok p, unknownKeys 1 items) := by
  refine ⟨fun items perm => ?_, fun items last => parse_fileText valid last⟩
  have hlast : ∀ key, (items.filterMap (·.assigned? key)).getLast? = some (p.get key) := by
    intro key
    have hvalues := perm.filterMap (·.assigned? key)
    rw [filterMap_plainLines] at hvalues
    rw [List.perm_singleton.1 hvalues]
    rfl
  have hknown : unknownKeys 1 items = [] := by
    refine List.filterMap_eq_nil_iff.2 fun item hitem => ?_
    rw [unknown?_of_mem_plainLines (perm.subset (List.fst_mem_of_mem_zipIdx hitem))]
    rfl
  rw [parse_fileText valid hlast, hknown]

/-- Parameters that differ from the defaults. -/
def wide : EngineParams := { elementsPerBlock := 8, tidWidth := 12 }

/-- A blank, a tab and a carriage return. -/
def blanks : Pad where
  chars := [' ', '\t', '\r']
  blank := by decide
  within := by simp

/-- Lines before those of the parameters: a blank one, one for a key that is not known, and one that is replaced,
which is beyond the capability word. -/
def preamble : List FileLine :=
  [.blank blanks,
    .assign
      { key := "FROBNICATE (OLD)".toList
        key_trim := by decide
        key_comma := by decide
        key_within := by decide
        value := { value := 3 }
        legal := ⟨by decide, fun _ hk => nomatch hk⟩
        valueEnd := blanks },
    .assign
      { Assignment.plain .elementsPerBlock 70000 (by decide) with
        value := { plus := true, zeros := 2, value := 70000 }
        lineEnd := blanks
        keyStart := blanks }]

/-- The lines may come in reverse order, and after others. -/
theorem wide_is_read_back :
    (∀ key, wide.get key < 2 ^ key.bits) ∧ wide.validate.1 = .ok () ∧
      (∀ fits, EngineParams.parse (fileText (plainLines wide fits).reverse) = (.ok wide, [])) ∧
      ∀ fits, EngineParams.parse (fileText (preamble ++ plainLines wide fits)) =
        (.ok wide, [.unknownKey "FROBNICATE (OLD)".toList 2]) := by
  have hfits : ∀ key, wide.get key < 2 ^ key.bits := by
    intro key
    cases key <;> decide
  obtain ⟨hperm, hlast⟩ := written_parameters_are_read_back wide hfits rfl
  refine ⟨hfits, rfl, fun fits => hperm _ (List.reverse_perm _), fun fits => ?_⟩
  rw [hlast (preamble ++ plainLines wide fits) fun key => by cases key <;> rfl]
  rfl

end ParamFile

end NeuralEngine
