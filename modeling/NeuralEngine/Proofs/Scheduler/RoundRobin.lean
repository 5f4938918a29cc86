import Mathlib.Logic.ExistsUnique
import NeuralEngine.Proofs.Scheduler.Turn

/-!
# Slots take turns

Each turn of a run picks the next slot that has something to present and lets the slot behind it come first
the next time (`pick`). `lap j` counts the slots from the one behind slot `j` on, so that `j` ends the lap.
As long as `j` has something to present, a pick finds the first such slot of what is left of the lap
(`pick_of_isActionable`), and the cursor moves on within the lap until `j` is picked (`lap_cursorAt_le`): no
call passes by a slot that is ready, neither `j` nor another.
-/

namespace NeuralEngine

namespace Run

/-! ## A pick -/

/-- The next slot in turn, and the cursor behind it. -/
def pick {ι : Type} {n : Nat} (slots : Vector (Slot ι) n) (cursor : Nat) : Option (Fin n) × Nat :=
  match next? slots cursor with
  | some i => (some i, (i + 1) % n)
  | none => (none, cursor)

/-- A turn of a run is the turn of the slot that is picked, or a bare step. -/
theorem takeTurn_eq_pick {σ : Type} {n m : Nat} [Channel σ] (run : Run σ n m) :
    takeTurn run =
      (pick run.slots run.cursor).1.elim
        (do
          ask Client.idle
          modify (tally fun r => { r with idleSteps := r.idleSteps + 1 })
          return none)
        present { run with cursor := (pick run.slots run.cursor).2 } := by
  simp only [takeTurn, Inversion.get_bind, pick]
  cases next? run.slots run.cursor with
  | none => rfl
  | some i => rfl

/-! ## Laps -/

section Lap

variable {n : Nat} {i j : Fin n}

/-- The position of `x` among the slots from the one behind `j` on. -/
def lap (j : Fin n) (x : Nat) : Nat :=
  (x + (n - 1 - j)) % n

theorem lap_lt (j : Fin n) (x : Nat) : lap j x < n :=
  Nat.mod_lt _ j.pos

theorem lap_mod (j : Fin n) (x : Nat) : lap j (x % n) = lap j x :=
  Nat.mod_add_mod x n (n - 1 - j)

theorem lap_add (j : Fin n) (x k : Nat) : lap j (x + k) = (lap j x + k) % n := by
  unfold lap
  rw [Nat.mod_add_mod, Nat.add_right_comm]

theorem lap_of_le (h : i ≤ j) : lap j i = i + (n - 1 - j) :=
  Nat.mod_eq_of_lt (by omega)

theorem lap_of_lt (h : j < i) : lap j i = i - j - 1 := by
  have hsum : i.val + (n - 1 - j) = n + (i - j - 1) := by omega
  unfold lap
  rw [hsum, Nat.add_mod_left]
  exact Nat.mod_eq_of_lt (by omega)

/-- Slot `j` ends its lap. -/
theorem lap_self (j : Fin n) : lap j j = n - 1 := by
  rw [lap_of_le (Fin.le_refl j)]
  omega

/-- No two slots share a position. -/
theorem lap_injective {i' : Fin n} (h : lap j i = lap j i') : i = i' := by
  rcases Nat.lt_or_ge j i with hi | hi <;> rcases Nat.lt_or_ge j i' with hi' | hi'
  · rw [lap_of_lt hi, lap_of_lt hi'] at h
    omega
  · rw [lap_of_lt hi, lap_of_le hi'] at h
    omega
  · rw [lap_of_le hi, lap_of_lt hi'] at h
    omega
  · rw [lap_of_le hi, lap_of_le hi'] at h
    omega

theorem lap_lt_of_ne (h : i ≠ j) : lap j i < n - 1 := by
  have hlt := lap_lt j i
  have hne : lap j i ≠ n - 1 := fun heq => h (lap_injective (heq.trans (lap_self j).symm))
  omega

/-- The slot behind `i` comes after it in the lap, unless `i` ends it. -/
theorem lap_behind (h : i ≠ j) : lap j ((i + 1) % n) = lap j i + 1 := by
  have hlt := lap_lt_of_ne h
  rw [lap_mod, lap_add]
  exact Nat.mod_eq_of_lt (by omega)

/-- The lap starts behind `j`. -/
theorem lap_behind_self (j : Fin n) : lap j ((j + 1) % n) = 0 := by
  have hpos := j.pos
  rw [lap_mod, lap_add, lap_self, Nat.sub_add_cancel hpos, Nat.mod_self]

/-- How far a slot in what is left of the lap is from the cursor. -/
theorem add_lap_sub_mod {cursor : Nat} (h : lap j cursor ≤ lap j i) :
    (cursor + (lap j i - lap j cursor)) % n = i := by
  have hpos := j.pos
  have hlap : lap j ((cursor + (lap j i - lap j cursor)) % n) = lap j i := by
    rw [lap_mod, lap_add, Nat.add_sub_cancel' h]
    exact Nat.mod_eq_of_lt (lap_lt j i)
  exact congrArg Fin.val (lap_injective (i := ⟨_, Nat.mod_lt _ hpos⟩) hlap)

/-- How far slot `j` is from the cursor, in a cyclic order. -/
theorem sub_emod_eq (j : Fin n) (cursor : Nat) : ((j : Int) - cursor) % n = n - 1 - lap j cursor := by
  have hlt := lap_lt j cursor
  obtain ⟨laps, hlaps⟩ : ∃ laps, n * laps + lap j cursor = cursor + (n - 1 - j) := ⟨_, Nat.div_add_mod _ n⟩
  have hsub : (j : Int) - cursor = (n - 1 - lap j cursor) + n * -laps := by
    rw [Int.mul_neg, ← Int.natCast_mul]
    omega
  rw [hsub, Int.add_mul_emod_self_left]
  exact Int.emod_eq_of_lt (by omega) (by omega)

end Lap

/-! ## What is picked -/

section Pick

variable {ι : Type} {n : Nat} {slots : Vector (Slot ι) n} {cursor : Nat} {j : Fin n}

/-- Between the cursor and the slot whose turn it is, no slot has anything to present. -/
theorem next?_distance {i : Fin n} (h : next? slots cursor = some i) :
    ∃ d < n, (cursor + d) % n = i ∧
      ∀ e < d, ∀ x : Fin n, (cursor + e) % n = x → slots[x].state.isActionable = false := by
  obtain ⟨-, d, hd, hturn, hbefore⟩ := List.find?_eq_some_iff_getElem.1 h
  simp only [turns, List.length_map, List.length_finRange, List.getElem_map, List.getElem_finRange] at hd hturn hbefore
  refine ⟨d, hd, congrArg Fin.val hturn, fun e he x hx => ?_⟩
  have hpassed := hbefore e he
  have hfin : (⟨(cursor + e) % n, Nat.mod_lt _ x.pos⟩ : Fin n) = x := Fin.ext hx
  rw [← hfin]
  simpa using hpassed

/-- The slot is the first one with something to present in what is left of the lap that ends with `j`. -/
structure FirstOfLap (j : Fin n) (slots : Vector (Slot ι) n) (cursor : Nat) (i : Fin n) : Prop where
  actionable : slots[i].state.isActionable = true
  le : lap j cursor ≤ lap j i
  least : ∀ x : Fin n, slots[x].state.isActionable = true → lap j cursor ≤ lap j x → lap j i ≤ lap j x

/-- As long as `j` has something to present, a pick does not go beyond the lap that ends with `j`. -/
theorem pick_of_isActionable (cursor : Nat) (ready : slots[j].state.isActionable = true) :
    ∃ i : Fin n, pick slots cursor = (some i, (i + 1) % n) ∧ FirstOfLap j slots cursor i := by
  cases hnext : next? slots cursor with
  | none =>
    have hnot := isActionable_of_next?_none hnext j
    rw [hnot] at ready
    cases ready
  | some i =>
    refine ⟨i, by simp only [pick, hnext], ?_⟩
    obtain ⟨d, hd, hi, hpassed⟩ := next?_distance hnext
    have hnear : ∀ x : Fin n, slots[x].state.isActionable = true → lap j cursor ≤ lap j x →
        d ≤ lap j x - lap j cursor := by
      intro x hx hle
      refine Nat.le_of_not_lt fun hlt => ?_
      have hnot := hpassed _ hlt x (add_lap_sub_mod hle)
      rw [hnot] at hx
      cases hx
    have hcursor := lap_lt j cursor
    have hself := lap_self j
    have hj := hnear j ready (by omega)
    have hlap : lap j i = lap j cursor + d := by
      rw [← hi, lap_mod, lap_add]
      exact Nat.mod_eq_of_lt (by omega)
    refine ⟨next?_isActionable hnext, by omega, fun x hx hle => ?_⟩
    have hx' := hnear x hx hle
    omega

end Pick

/-! ## Successive picks -/

section Picks

variable {ι : Type} {n : Nat}

/-- The cursor before call `k` of a sequence of picks, where `pools k` are the slots as call `k` finds them. -/
def cursorAt (pools : Nat → Vector (Slot ι) n) (cursor : Nat) : Nat → Nat
  | 0 => cursor
  | k + 1 => (pick (pools k) (cursorAt pools cursor k)).2

/-- The slot that call `k` picks. -/
def picked (pools : Nat → Vector (Slot ι) n) (cursor k : Nat) : Option (Fin n) :=
  (pick (pools k) (cursorAt pools cursor k)).1

/-- Call `k` finds slot `i` with something to present. -/
def ReadyAt (pools : Nat → Vector (Slot ι) n) (i : Fin n) (k : Nat) : Prop :=
  (pools k)[i].state.isActionable = true

variable {pools : Nat → Vector (Slot ι) n} {cursor : Nat} {i j : Fin n} {k a b : Nat}

/-- What a call does that finds `j` with something to present. -/
theorem picked_of_readyAt (cursor : Nat) (ready : ReadyAt pools j k) :
    ∃ i : Fin n, picked pools cursor k = some i ∧ cursorAt pools cursor (k + 1) = (i + 1) % n ∧
      FirstOfLap j (pools k) (cursorAt pools cursor k) i := by
  obtain ⟨i, hpick, hfirst⟩ := pick_of_isActionable (cursorAt pools cursor k) ready
  exact ⟨i, congrArg Prod.fst hpick, congrArg Prod.snd hpick, hfirst⟩

/-- A call that picks another slot than `j` moves the cursor behind that slot, within the lap. -/
theorem lap_cursorAt_succ (ready : ReadyAt pools j k) (hi : picked pools cursor k = some i) (ne : i ≠ j) :
    lap j (cursorAt pools cursor (k + 1)) = lap j i + 1 ∧
      FirstOfLap j (pools k) (cursorAt pools cursor k) i := by
  obtain ⟨x, hx, hcursor, hfirst⟩ := picked_of_readyAt cursor ready
  obtain rfl : x = i := Option.some.inj (hx.symm.trans hi)
  rw [hcursor]
  exact ⟨lap_behind ne, hfirst⟩

/-- Until `j` is picked, each call moves the cursor on within the lap. -/
theorem lap_cursorAt_le (le : a ≤ b) (ready : ∀ k, a ≤ k → k < b → ReadyAt pools j k)
    (ne : ∀ k, a ≤ k → k < b → picked pools cursor k ≠ some j) :
    lap j (cursorAt pools cursor a) + (b - a) ≤ lap j (cursorAt pools cursor b) := by
  induction le with
  | refl => omega
  | @step b le ih =>
    have hprev := ih (fun k ha hb => ready k ha (by omega)) fun k ha hb => ne k ha (by omega)
    obtain ⟨i, hi, -, -⟩ := picked_of_readyAt cursor (ready b le (by omega))
    have hne : i ≠ j := by
      rintro rfl
      exact ne b le (by omega) hi
    obtain ⟨hlap, hfirst⟩ := lap_cursorAt_succ (ready b le (by omega)) hi hne
    have hle := hfirst.le
    show lap j (cursorAt pools cursor a) + (b + 1 - a) ≤ lap j (cursorAt pools cursor (b + 1))
    omega

/-- A slot that is ready all along is not passed by: where the cursor gets beyond it before `j` is picked, it was
picked. -/
theorem exists_picked (le : a ≤ b) (ready : ∀ k, a ≤ k → k < b → ReadyAt pools j k ∧ ReadyAt pools i k)
    (ne : ∀ k, a ≤ k → k < b → picked pools cursor k ≠ some j)
    (ahead : lap j (cursorAt pools cursor a) ≤ lap j i) (beyond : lap j i < lap j (cursorAt pools cursor b)) :
    ∃ k, a ≤ k ∧ k < b ∧ picked pools cursor k = some i := by
  induction le with
  | refl => omega
  | @step b le ih =>
    rcases Nat.lt_or_ge (lap j i) (lap j (cursorAt pools cursor b)) with hlt | hge
    · obtain ⟨k, ha, hb, hk⟩ :=
        ih (fun k ha hb => ready k ha (by omega)) (fun k ha hb => ne k ha (by omega)) hlt
      exact ⟨k, ha, by omega, hk⟩
    · -- call `b` takes the cursor from before the slot to behind it
      obtain ⟨hj, hi⟩ := ready b le (by omega)
      obtain ⟨x, hx, -, -⟩ := picked_of_readyAt cursor hj
      have hne : x ≠ j := by
        rintro rfl
        exact ne b le (by omega) hx
      obtain ⟨hlap, hfirst⟩ := lap_cursorAt_succ hj hx hne
      have hleast := hfirst.least i hi hge
      have hbeyond : lap j i < lap j (cursorAt pools cursor (b + 1)) := beyond
      obtain rfl : x = i := lap_injective (j := j) (by omega)
      exact ⟨b, le, by omega, hx⟩

/-- Slot `j` is picked before the lap is over. -/
theorem exists_picked_within (cursor : Nat) (ready : ∀ k ≤ n - 1 - lap j cursor, ReadyAt pools j k) :
    ∃ k ≤ n - 1 - lap j cursor, picked pools cursor k = some j := by
  refine Classical.byContradiction fun hnone => ?_
  have hover : lap j (cursorAt pools cursor 0) + (n - lap j cursor - 0) ≤
      lap j (cursorAt pools cursor (n - lap j cursor)) :=
    lap_cursorAt_le (Nat.zero_le _) (fun k _ hk => ready k (by omega))
      fun k _ hk hj => hnone ⟨k, by omega, hj⟩
  have hlt := lap_lt j (cursorAt pools cursor (n - lap j cursor))
  have hcursor := lap_lt j cursor
  have hzero : lap j (cursorAt pools cursor 0) = lap j cursor := rfl
  omega

/-- Between two picks of `j` another slot that is ready all along is picked, and not twice. -/
theorem existsUnique_picked {k₁ k₂ : Nat} (lt : k₁ < k₂) (first : picked pools cursor k₁ = some j)
    (second : picked pools cursor k₂ = some j)
    (between : ∀ k, k₁ < k → k < k₂ → picked pools cursor k ≠ some j)
    (ready : ∀ k, k₁ ≤ k → k ≤ k₂ → ReadyAt pools j k) (ne : i ≠ j)
    (ready' : ∀ k, k₁ < k → k ≤ k₂ → ReadyAt pools i k) :
    ∃! k, (k₁ < k ∧ k < k₂) ∧ picked pools cursor k = some i := by
  have hstart : lap j (cursorAt pools cursor (k₁ + 1)) = 0 := by
    obtain ⟨x, hx, hcursor, -⟩ := picked_of_readyAt cursor (ready k₁ (Nat.le_refl _) (by omega))
    obtain rfl : x = j := Option.some.inj (hx.symm.trans first)
    rw [hcursor, lap_behind_self]
  have hend : lap j i < lap j (cursorAt pools cursor k₂) := by
    obtain ⟨x, hx, -, hfirst⟩ := picked_of_readyAt cursor (ready k₂ (by omega) (Nat.le_refl _))
    obtain rfl : x = j := Option.some.inj (hx.symm.trans second)
    have hlt := lap_lt_of_ne ne
    have hself := lap_self x
    refine Nat.lt_of_not_le fun hle => ?_
    have hleast := hfirst.least i (ready' k₂ lt (Nat.le_refl _)) hle
    omega
  obtain ⟨k, hk₁, hk₂, hk⟩ : ∃ k, k₁ + 1 ≤ k ∧ k < k₂ ∧ picked pools cursor k = some i :=
    exists_picked lt (fun k h₁ h₂ => ⟨ready k (by omega) (by omega), ready' k h₁ (by omega)⟩) between
      (by rw [hstart]; exact Nat.zero_le _) hend
  -- a pick moves the cursor behind the slot, and the cursor does not come back within the lap
  have hlater : ∀ k k', k₁ < k → k < k' → k' < k₂ → picked pools cursor k = some i →
      picked pools cursor k' ≠ some i := by
    intro k k' h₁ hlt h₂ hk hk'
    obtain ⟨hlap, -⟩ := lap_cursorAt_succ (ready k (by omega) (by omega)) hk ne
    obtain ⟨-, hfirst⟩ := lap_cursorAt_succ (ready k' (by omega) (by omega)) hk' ne
    have hon : lap j (cursorAt pools cursor (k + 1)) + (k' - (k + 1)) ≤ lap j (cursorAt pools cursor k') :=
      lap_cursorAt_le hlt (fun x _ _ => ready x (by omega) (by omega))
        fun x _ _ => between x (by omega) (by omega)
    have hle := hfirst.le
    omega
  refine ⟨k, ⟨⟨hk₁, hk₂⟩, hk⟩, fun k' ⟨⟨hk₁', hk₂'⟩, hk'⟩ => ?_⟩
  rcases Nat.lt_trichotomy k k' with hlt | rfl | hlt
  · exact absurd hk' (hlater k k' hk₁ hlt hk₂' hk)
  · rfl
  · exact absurd hk (hlater k' k hk₁' hlt hk₂ hk')

/-- No slot that is ready is passed by for more than one round, whatever becomes of the other slots between the
calls. A call that finds slot `j` with something to present picks a slot that has something to present. Of calls
that all do so, the one `(j - cursor) mod n` calls after the first is the last that may be needed until `j` is
picked, and between two successive picks of `j` every other slot that is ready all along is picked exactly once. -/
theorem ready_slot_not_bypassed {ι : Type} {n : Nat} (pools : Nat → Vector (Slot ι) n) (cursor : Nat) (j : Fin n) :
    (∀ k, ReadyAt pools j k → ∃ i, picked pools cursor k = some i ∧ ReadyAt pools i k) ∧
    ((∀ k : Nat, (k : Int) ≤ ((j : Int) - cursor) % n → ReadyAt pools j k) →
      ∃ k : Nat, (k : Int) ≤ ((j : Int) - cursor) % n ∧ picked pools cursor k = some j) ∧
    ((j : Int) - cursor) % n + 1 ≤ n ∧
    ∀ k₁ k₂, k₁ < k₂ → picked pools cursor k₁ = some j → picked pools cursor k₂ = some j →
      (∀ k, k₁ < k → k < k₂ → picked pools cursor k ≠ some j) →
      (∀ k, k₁ ≤ k → k ≤ k₂ → ReadyAt pools j k) →
        ∀ i ≠ j, (∀ k, k₁ < k → k ≤ k₂ → ReadyAt pools i k) →
          ∃! k, (k₁ < k ∧ k < k₂) ∧ picked pools cursor k = some i := by
  have hlt := lap_lt j cursor
  rw [sub_emod_eq]
  refine ⟨fun k ready => ?_, fun ready => ?_, by omega, ?_⟩
  · obtain ⟨i, hi, -, hfirst⟩ := picked_of_readyAt cursor ready
    exact ⟨i, hi, hfirst.actionable⟩
  · obtain ⟨k, hk, hj⟩ := exists_picked_within cursor fun k hk => ready k (by omega)
    exact ⟨k, by omega, hj⟩
  · intro k₁ k₂ lt first second between ready i ne ready'
    exact existsUnique_picked lt first second between ready ne ready'

/-- Two of three slots with something to present have their turn one after the other. -/
example : (List.range 4).map (picked (fun _ => #v[Slot.holding 0, Slot.empty, Slot.holding (1 : Fin 2)]) 1) =
    [some 2, some 0, some 2, some 0] := by
  decide

end Picks

end Run

end NeuralEngine
