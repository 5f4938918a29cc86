import Mathlib.Data.List.Nodup
import NeuralEngine.Simulator.Entry

/-!
# Finding entries in the transaction table

The rows of the table hold each identifier at most once (`tids` without repetition). The lemmas here
say which entry is found under an identifier after each change of the rows, and that no identifier is
repeated by it. A change of every entry that leaves the identifiers alone is covered at once, by a
relation between the rows before and after it.
-/

namespace NeuralEngine.Simulator.Rows

variable {rows rows' : List Row} {e e' : Entry} {x tid : Tid}

/-- The identifiers of the entries, from the lowest row on. -/
def tids (rows : List Row) : List Tid :=
  (entries rows).map (·.tid)

@[simp] theorem tids_nil : tids [] = [] :=
  rfl

@[simp] theorem tids_none_cons (rows : List Row) : tids (none :: rows) = tids rows :=
  rfl

@[simp] theorem tids_some_cons (e : Entry) (rows : List Row) : tids (some e :: rows) = e.tid :: tids rows :=
  rfl

@[simp] theorem find?_nil (x : Tid) : find? x [] = none :=
  rfl

@[simp] theorem find?_none_cons (x : Tid) (rows : List Row) : find? x (none :: rows) = find? x rows :=
  rfl

theorem find?_some_cons (x : Tid) (e : Entry) (rows : List Row) :
    find? x (some e :: rows) = if e.tid = x then some e else find? x rows := by
  show (e :: entries rows).find? (·.tid == x) = _
  rw [List.find?_cons]
  by_cases h : e.tid = x
  · simp [h]
  · rw [if_neg h, beq_eq_false_iff_ne.2 h]
    rfl

theorem find?_eq_none_iff : find? x rows = none ↔ x ∉ tids rows := by
  unfold find? tids
  rw [List.find?_eq_none, List.mem_map]
  simp

theorem mem_tids_iff : x ∈ tids rows ↔ ∃ e, find? x rows = some e := by
  rw [← not_iff_not, ← find?_eq_none_iff, Option.eq_none_iff_forall_ne_some]
  simp

/-! ## Changes of every entry -/

section Rel

variable {R : Entry → Entry → Prop}

theorem tids_rel (tid_eq : ∀ e e', R e e' → e.tid = e'.tid)
    (h : List.Forall₂ (Option.Rel R) rows rows') : tids rows' = tids rows := by
  induction h with
  | nil => rfl
  | cons head _ ih =>
    cases head with
    | none => exact ih
    | some he => rw [tids_some_cons, tids_some_cons, ih, tid_eq _ _ he]

theorem find?_rel (tid_eq : ∀ e e', R e e' → e.tid = e'.tid)
    (h : List.Forall₂ (Option.Rel R) rows rows') (x : Tid) :
    Option.Rel R (find? x rows) (find? x rows') := by
  induction h with
  | nil => exact .none
  | cons head _ ih =>
    cases head with
    | none => exact ih
    | some he =>
      rw [find?_some_cons, find?_some_cons, tid_eq _ _ he]
      split
      · exact .some he
      · exact ih

/-- The intake takes the oldest element of one entry and leaves the others as they are. -/
theorem drain_rel (same : ∀ e, R e e)
    (taken : ∀ e value queue, e.queue = value :: queue →
      R e { e with queue := queue, taken := value :: e.taken }) (rows : List Row) :
    List.Forall₂ (Option.Rel R) rows (drain rows) := by
  have hrefl : ∀ row : Row, Option.Rel R row row := by
    intro row
    cases row with
    | none => exact .none
    | some e => exact .some (same e)
  induction rows with
  | nil => exact .nil
  | cons row rows ih =>
    cases row with
    | none => exact .cons .none ih
    | some e =>
      unfold drain
      split
      · exact .cons (.some (same e)) ih
      · next hq => exact .cons (.some (taken e _ _ hq)) (List.forall₂_same.2 fun row _ => hrefl row)

theorem advance_rel {latency : Nat} (advances : ∀ e, R e (e.advance latency)) (rows : List Row) :
    List.Forall₂ (Option.Rel R) rows (advance latency rows) := by
  induction rows with
  | nil => exact .nil
  | cons row rows ih =>
    refine .cons ?_ ih
    cases row with
    | none => exact .none
    | some e => exact .some (advances e)

end Rel

/-! ## A new entry -/

theorem find?_place (fresh : find? e.tid rows = none) (x : Tid) :
    find? x (place e rows) = if e.tid = x then some e else find? x rows := by
  induction rows with
  | nil => exact find?_some_cons x e []
  | cons row rows ih =>
    cases row with
    | none =>
      show find? x (some e :: rows) = _
      rw [find?_some_cons, find?_none_cons]
    | some f =>
      rw [find?_some_cons] at fresh
      have hne : f.tid ≠ e.tid := fun h => by
        rw [if_pos h] at fresh
        cases fresh
      rw [if_neg hne] at fresh
      show find? x (some f :: place e rows) = _
      rw [find?_some_cons, find?_some_cons, ih fresh]
      split
      · next hf => rw [if_neg fun he => hne (hf.trans he.symm)]
      · rfl

theorem tids_place_perm (e : Entry) (rows : List Row) :
    (tids (place e rows)).Perm (e.tid :: tids rows) := by
  induction rows with
  | nil => exact .refl _
  | cons row rows ih =>
    cases row with
    | none => exact .refl _
    | some f => exact (ih.cons f.tid).trans (.swap e.tid f.tid (tids rows))

theorem nodup_place (nodup : (tids rows).Nodup) (fresh : find? e.tid rows = none) :
    (tids (place e rows)).Nodup := by
  rw [(tids_place_perm e rows).nodup_iff, List.nodup_cons]
  exact ⟨find?_eq_none_iff.1 fresh, nodup⟩

/-! ## A change of one entry -/

section Update

variable {f : Entry → Option Entry}

theorem update_some_cons (tid : Tid) (f : Entry → Option Entry) (e : Entry) (rows : List Row) :
    update tid f (some e :: rows) = (if e.tid = tid then f e else some e) :: update tid f rows :=
  rfl

theorem find?_update_ne (keeps : ∀ e e', f e = some e' → e'.tid = e.tid) (h : x ≠ tid) :
    find? x (update tid f rows) = find? x rows := by
  induction rows with
  | nil => rfl
  | cons row rows ih =>
    cases row with
    | none => exact ih
    | some e =>
      rw [update_some_cons]
      split
      · next he =>
        have hex : e.tid ≠ x := fun hx => h (hx.symm.trans he)
        rw [find?_some_cons, if_neg hex]
        cases hf : f e with
        | none => exact ih
        | some e' =>
          rw [find?_some_cons, if_neg (by rw [keeps e e' hf]; exact hex), ih]
      · rw [find?_some_cons, find?_some_cons, ih]

theorem tids_update_sublist (keeps : ∀ e e', f e = some e' → e'.tid = e.tid) (tid : Tid)
    (rows : List Row) : (tids (update tid f rows)).Sublist (tids rows) := by
  induction rows with
  | nil => exact .slnil
  | cons row rows ih =>
    cases row with
    | none => exact ih
    | some e =>
      rw [update_some_cons]
      split
      · cases hf : f e with
        | none => exact ih.cons _
        | some e' =>
          rw [tids_some_cons, tids_some_cons, keeps e e' hf]
          exact ih.cons_cons _
      · exact ih.cons_cons _

theorem find?_update_self (nodup : (tids rows).Nodup)
    (keeps : ∀ e e', f e = some e' → e'.tid = e.tid) :
    find? tid (update tid f rows) = (find? tid rows).bind f := by
  induction rows with
  | nil => rfl
  | cons row rows ih =>
    cases row with
    | none => exact ih nodup
    | some e =>
      rw [tids_some_cons, List.nodup_cons] at nodup
      rw [update_some_cons, find?_some_cons]
      split
      · next he =>
        subst he
        cases hf : f e with
        | none =>
          -- the other rows lack the identifier, so they still do
          rw [find?_none_cons, Option.bind_some, hf, find?_eq_none_iff]
          exact fun hmem => nodup.1 ((tids_update_sublist keeps _ _).subset hmem)
        | some e' => rw [find?_some_cons, if_pos (keeps e e' hf), Option.bind_some, hf]
      · next he => rw [find?_some_cons, if_neg he, ih nodup.2]

end Update

/-! ## Single rows -/

section Row

variable {i j : Nat}

/-- What is held in a row; a row that is not listed is free. -/
def row (i : Nat) (rows : List Row) : Row :=
  rows[i]?.join

@[simp] theorem row_nil (i : Nat) : row i [] = none :=
  rfl

@[simp] theorem row_cons_zero (r : Row) (rows : List Row) : row 0 (r :: rows) = r :=
  rfl

@[simp] theorem row_cons_succ (i : Nat) (r : Row) (rows : List Row) : row (i + 1) (r :: rows) = row i rows :=
  rfl

theorem mem_entries_iff : e ∈ entries rows ↔ ∃ i, row i rows = some e := by
  unfold entries row
  simp only [List.mem_filterMap, id_eq, exists_eq_right, Option.join_eq_some_iff]
  exact List.mem_iff_getElem?

/-- No two rows hold one identifier. -/
theorem row_unique (nodup : (tids rows).Nodup) (hi : row i rows = some e) (hj : row j rows = some e')
    (same : e.tid = e'.tid) : i = j := by
  have held : ∀ {r : Row} {rest : List Row} {f f' : Entry} {k : Nat}, (tids (r :: rest)).Nodup → r = some f →
      row k rest = some f' → f.tid ≠ f'.tid := by
    rintro _ rest f f' k nodup rfl hk htid
    rw [tids_some_cons, List.nodup_cons] at nodup
    exact nodup.1 (htid ▸ List.mem_map_of_mem (mem_entries_iff.2 ⟨k, hk⟩))
  induction rows generalizing i j with
  | nil => cases hi
  | cons r rest ih =>
    cases i with
    | zero =>
      cases j with
      | zero => rfl
      | succ j => exact absurd same (held nodup hi hj)
    | succ i =>
      cases j with
      | zero => exact absurd same.symm (held nodup hj hi)
      | succ j =>
        have htail : (tids rest).Nodup := by
          cases r with
          | none => exact nodup
          | some f => exact (List.nodup_cons.1 nodup).2
        exact congrArg (· + 1) (ih htail hi hj)

theorem row_update (tid : Tid) (f : Entry → Option Entry) (i : Nat) (rows : List Row) :
    row i (update tid f rows) = (row i rows).bind fun e => if e.tid = tid then f e else some e := by
  unfold row update
  rw [List.getElem?_map]
  cases rows[i]? <;> rfl

/-- The lowest free row takes the new entry. -/
theorem exists_row_place (e : Entry) (rows : List Row) :
    ∃ i, i ≤ (entries rows).length ∧ row i rows = none ∧ row i (place e rows) = some e ∧
      ∀ j, j ≠ i → row j (place e rows) = row j rows := by
  induction rows with
  | nil =>
    refine ⟨0, Nat.le_refl 0, rfl, rfl, fun j hj => ?_⟩
    obtain ⟨j, rfl⟩ := Nat.exists_eq_succ_of_ne_zero hj
    rfl
  | cons r rest ih =>
    cases r with
    | none =>
      refine ⟨0, Nat.zero_le _, rfl, rfl, fun j hj => ?_⟩
      obtain ⟨j, rfl⟩ := Nat.exists_eq_succ_of_ne_zero hj
      rfl
    | some f =>
      obtain ⟨i, hle, hfree, hplaced, hothers⟩ := ih
      refine ⟨i + 1, Nat.succ_le_succ hle, hfree, hplaced, fun j hj => ?_⟩
      cases j with
      | zero => rfl
      | succ j => exact hothers j fun h => hj (congrArg (· + 1) h)

end Row

end NeuralEngine.Simulator.Rows
