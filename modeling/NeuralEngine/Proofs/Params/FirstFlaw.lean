import NeuralEngine.Proofs.Capability
import NeuralEngine.Proofs.Params.Line

/-!
# The first flaw of a parameter file

Reading a parameter file ends at its first flawed line: the error names that line, and nothing behind it
counts (`readLines_of_flaw`). A file without a flawed line is read to the end. What counts for a key then is
the last line that assigns a value to it (`FinalValue`), and only the check of the capability word can still
refuse the file.
-/

namespace NeuralEngine

/-- The line that an error is about. -/
def ParamError.line? : ParamError → Option Nat
  | malformedLine n => some n
  | badValue n => some n
  | outOfRange _ => none

namespace ParamFile

variable {text : String} {before after ls : List (List Char)} {line : List Char} {key : ParamKey} {n : Nat}
  {p : EngineParams} {e : ParamError}

/-! ## The first flaw and the last value -/

/-- Nothing is wrong with the line. -/
def Sound (line : List Char) : Prop :=
  ∀ n e, ¬ Flawed n line e

/-- Line `n`, counted from 1, is the first one that is flawed, and the error tells its flaw. -/
def FirstFlaw (ls : List (List Char)) (n : Nat) (e : ParamError) : Prop :=
  ∃ before line after, ls = before ++ line :: after ∧ n = before.length + 1 ∧ Flawed n line e ∧
    ∀ l ∈ before, Sound l

/-- What counts for a key after some lines: the value of the last line that assigns one to it, or the one that
it had before if no line does. -/
def FinalValue (ls : List (List Char)) (key : ParamKey) (old new : Nat) : Prop :=
  (∃ before line after, ls = before ++ line :: after ∧ Assigns line key new ∧
    ∀ l ∈ after, ∀ v, ¬ Assigns l key v) ∨
  (∀ l ∈ ls, ∀ v, ¬ Assigns l key v) ∧ new = old

/-- What is wrong with a line does not depend on its number. -/
theorem Flawed.renumber (h : Flawed n line e) (m : Nat) : ∃ d, Flawed m line d := by
  cases h with
  | malformed nonblank noPair => exact ⟨_, .malformed nonblank noPair⟩
  | noNumber pair noNumber => exact ⟨_, .noNumber pair noNumber⟩
  | tooLarge assigns narrow large => exact ⟨_, .tooLarge assigns narrow large⟩

theorem Flawed.line?_eq (h : Flawed n line e) : e.line? = some n := by
  cases h with
  | malformed => rfl
  | noNumber => rfl
  | tooLarge => rfl

theorem FirstFlaw.line?_eq (h : FirstFlaw ls n e) : e.line? = some n := by
  obtain ⟨before, line, after, -, -, flawed, -⟩ := h
  exact flawed.line?_eq

theorem FirstFlaw.head (h : Flawed n line e) (ls : List (List Char)) : ∃ d, FirstFlaw (line :: ls) 1 d := by
  obtain ⟨d, hd⟩ := h.renumber 1
  exact ⟨d, [], line, ls, rfl, rfl, hd, fun _ hl => absurd hl List.not_mem_nil⟩

theorem FirstFlaw.cons (h : FirstFlaw ls n e) (sound : Sound line) : ∃ d, FirstFlaw (line :: ls) (n + 1) d := by
  obtain ⟨before, l, after, rfl, rfl, flawed, hbefore⟩ := h
  obtain ⟨d, hd⟩ := flawed.renumber (before.length + 1 + 1)
  exact ⟨d, line :: before, l, after, rfl, rfl, hd, List.forall_mem_cons.2 ⟨sound, hbefore⟩⟩

theorem sound_or_firstFlaw (ls : List (List Char)) : (∀ l ∈ ls, Sound l) ∨ ∃ n e, FirstFlaw ls n e := by
  induction ls with
  | nil => exact .inl fun _ hl => absurd hl List.not_mem_nil
  | cons l ls ih =>
    by_cases flawed : ∃ n e, Flawed n l e
    · obtain ⟨n, e, h⟩ := flawed
      exact .inr ⟨1, FirstFlaw.head h ls⟩
    · have sound : Sound l := fun n e h => flawed ⟨n, e, h⟩
      rcases ih with hall | ⟨n, e, first⟩
      · exact .inl (List.forall_mem_cons.2 ⟨sound, hall⟩)
      · exact .inr ⟨n + 1, first.cons sound⟩

theorem FinalValue.cons {old mid new : Nat} (rest : FinalValue ls key mid new) (first : After line key old mid) :
    FinalValue (line :: ls) key old new := by
  rcases rest with ⟨before, l, after, rfl, assigns, last⟩ | ⟨none, rfl⟩
  · exact .inl ⟨line :: before, l, after, rfl, assigns, last⟩
  · by_cases h : ∃ v, Assigns line key v
    · obtain ⟨v, hv⟩ := h
      rw [first.assigned v hv]
      exact .inl ⟨[], line, ls, rfl, hv, none⟩
    · have hnone : ∀ v, ¬ Assigns line key v := fun v hv => h ⟨v, hv⟩
      exact .inr ⟨List.forall_mem_cons.2 ⟨hnone, none⟩, first.kept hnone⟩

/-! ## Reading the lines -/

/-- Reading ends at a flawed line behind sound ones. The lines behind it change neither the error nor the
reports. -/
theorem readLines_of_flaw (sound : ∀ l ∈ before, Sound l) (flawed : Flawed (n + before.length) line e) :
    ∃ ws, ∀ after, readLines p n (before ++ line :: after) = (.error e, ws) := by
  induction before generalizing p n with
  | nil =>
    have hflawed : Flawed n line e := flawed
    refine ⟨[], fun after => ?_⟩
    rw [List.nil_append, readLines, readLine_eq_error_iff.2 hflawed]
  | cons l before ih =>
    obtain ⟨q, ws, hread, -⟩ := readLine_of_sound p (sound l List.mem_cons_self n)
    have hflawed : Flawed (n + 1 + before.length) line e := by
      rwa [Nat.add_assoc, Nat.add_comm 1]
    obtain ⟨ws', hrest⟩ := ih (p := q) (fun l' hl' => sound l' (List.mem_cons_of_mem l hl')) hflawed
    refine ⟨ws ++ ws', fun after => ?_⟩
    rw [List.cons_append, readLines, hread]
    simp only [hrest]

/-- Sound lines are read to the end, and the check comes last. -/
theorem readLines_of_sound (p : EngineParams) (n : Nat) (sound : ∀ l ∈ ls, Sound l) :
    ∃ q : EngineParams, (∀ key, FinalValue ls key (p.get key) (q.get key)) ∧
      (readLines p n ls).1 = q.validate.1.map fun _ => q := by
  induction ls generalizing p n with
  | nil => exact ⟨p, fun key => .inr ⟨fun _ h => absurd h List.not_mem_nil, rfl⟩, rfl⟩
  | cons l ls ih =>
    obtain ⟨q, ws, hread, hafter⟩ := readLine_of_sound p (sound l List.mem_cons_self n)
    obtain ⟨r, hfinal, hrest⟩ := ih q (n + 1) fun l' hl' => sound l' (List.mem_cons_of_mem l hl')
    refine ⟨r, fun key => (hfinal key).cons (hafter key), ?_⟩
    rw [readLines, hread]
    exact hrest

/-! ## Reading a text -/

/-- Reading a text ends at its first flawed line, with the error that tells the flaw. Any text that is the same up
to this line is read alike. -/
theorem parse_of_firstFlaw (first : FirstFlaw (lines text.toList) n e) :
    ∃ ws, ∀ other : String, (lines other.toList).take n = (lines text.toList).take n →
      EngineParams.parse other = (.error e, ws) := by
  obtain ⟨before, line, after, hlines, rfl, flawed, sound⟩ := first
  rw [Nat.add_comm] at flawed
  obtain ⟨ws, hread⟩ := readLines_of_flaw (p := {}) sound flawed
  refine ⟨ws, fun other same => ?_⟩
  have hhead : (lines text.toList).take (before.length + 1) = before ++ [line] := by
    rw [hlines, List.append_cons]
    exact List.take_left' (by rw [List.length_append, List.length_singleton])
  have hother : lines other.toList = before ++ line :: (lines other.toList).drop (before.length + 1) := by
    rw [List.append_cons, ← hhead, ← same, List.take_append_drop]
  unfold EngineParams.parse
  rw [hother]
  exact hread _

theorem parse_of_sound (sound : ∀ l ∈ lines text.toList, Sound l) :
    ∃ p : EngineParams, (∀ key, FinalValue (lines text.toList) key (({} : EngineParams).get key) (p.get key)) ∧
      (EngineParams.parse text).1 = p.validate.1.map fun _ => p :=
  readLines_of_sound {} 1 sound

/-- A text is refused for a line just if this is its first flawed one. -/
theorem parse_eq_error_iff (about : e.line? = some n) :
    (EngineParams.parse text).1 = .error e ↔ FirstFlaw (lines text.toList) n e := by
  constructor
  · intro hread
    rcases sound_or_firstFlaw (lines text.toList) with sound | ⟨m, d, first⟩
    · obtain ⟨p, -, hparse⟩ := parse_of_sound sound
      rw [hparse, EngineParams.checked_eq_error_iff] at hread
      obtain ⟨key, rfl, -⟩ := hread
      cases about
    · obtain ⟨ws, hparse⟩ := parse_of_firstFlaw first
      rw [hparse text rfl] at hread
      obtain rfl : d = e := Except.error.inj hread
      obtain rfl : m = n := Option.some.inj (first.line?_eq.symm.trans about)
      exact first
  · intro first
    obtain ⟨ws, hparse⟩ := parse_of_firstFlaw first
    rw [hparse text rfl]

/-- Reading a parameter file ends at its first flawed line, whether the flaw is in its form or in its value. The
error has the number of the line, and neither it nor the reports depend on what follows the line. A file without a
flawed line is refused just if the values that count in the end do not fit the capability word, for the first
field that is exceeded. -/
theorem parse_points_at_first_flaw (text : String) :
    (∀ n, (EngineParams.parse text).1 = .error (.malformedLine n) ↔
      FirstFlaw (lines text.toList) n (.malformedLine n)) ∧
    (∀ n, (EngineParams.parse text).1 = .error (.badValue n) ↔ FirstFlaw (lines text.toList) n (.badValue n)) ∧
    (∀ n e, FirstFlaw (lines text.toList) n e → ∀ other : String,
      (lines other.toList).take n = (lines text.toList).take n →
        EngineParams.parse other = EngineParams.parse text) ∧
    ((∀ line ∈ lines text.toList, Sound line) → ∃ p : EngineParams,
      (∀ key, FinalValue (lines text.toList) key (({} : EngineParams).get key) (p.get key)) ∧
      (∀ key, (EngineParams.parse text).1 = .error (.outOfRange key) ↔
        p.FirstBeyond [(.elementsPerBlock, 255), (.numPes, 65535), (.cacheEntries, 65535), (.tableEntries, 65535)]
          key) ∧
      ∀ q, (EngineParams.parse text).1 = .ok q ↔
        q = p ∧ p.elementsPerBlock ≤ 255 ∧ p.numPes ≤ 65535 ∧ p.cacheEntries ≤ 65535 ∧ p.tableEntries ≤ 65535) := by
  refine ⟨fun n => parse_eq_error_iff rfl, fun n => parse_eq_error_iff rfl, ?_, ?_⟩
  · intro n e first other same
    obtain ⟨ws, hparse⟩ := parse_of_firstFlaw first
    rw [hparse other same, hparse text rfl]
  · intro sound
    obtain ⟨p, hfinal, hparse⟩ := parse_of_sound sound
    refine ⟨p, hfinal, fun key => ?_, fun q => ?_⟩
    · rw [hparse, EngineParams.checked_eq_error_iff]
      constructor
      · rintro ⟨k, hk, first⟩
        obtain rfl : key = k := ParamError.outOfRange.inj hk
        exact first
      · intro first
        exact ⟨key, rfl, first⟩
    · rw [hparse, EngineParams.checked_eq_ok_iff]
      simp [EngineParams.capabilityLimits, EngineParams.get]

/-- Blank lines count, and a value may have a sign but no more than 32 bits where its key is narrow. -/
example : EngineParams.parse "(NUM_PES,4)\n\n(TID_WIDTH, +4294967296)\nNUM_PES" = (.error (.badValue 3), []) := by
  rfl

end ParamFile

end NeuralEngine
