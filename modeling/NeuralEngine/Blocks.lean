/-!
# Cutting lists into blocks

`blocks size count xs` cuts the first `count` blocks of `size` elements off a list; the last ones
are shorter or empty where the list ends. Counting the blocks with `/` gives the whole blocks of a
list, counting them with `blockCount`, which rounds up, gives all of it.
-/

namespace NeuralEngine

/-- The least multiple of `unit` that is not below `size`. -/
def roundUp (size unit : Nat) : Nat :=
  if size % unit = 0 then size else size + (unit - size % unit)

/-- Rounding up to a multiple of a unit, if the unit has a multiple to offer. -/
def roundUp? (size unit : Nat) : Option Nat :=
  if unit = 0 then none else some (roundUp size unit)

/-- The number of blocks of `unit` elements that hold `size` elements. -/
def blockCount (size unit : Nat) : Nat :=
  roundUp size unit / unit

/-- The first `count` blocks of `size` elements. -/
def blocks {α : Type} (size : Nat) : Nat → List α → List (List α)
  | 0, _ => []
  | count + 1, xs => xs.take size :: blocks size count (xs.drop size)

/-- All elements in blocks of `size`, the last of which may be shorter. -/
def allBlocks {α : Type} (size : Nat) (xs : List α) : List (List α) :=
  blocks size (blockCount xs.length size) xs

/-- The whole blocks of `size` elements; what is left at the end is dropped. -/
def wholeBlocks {α : Type} (size : Nat) (xs : List α) : List (List α) :=
  blocks size (xs.length / size) xs

@[simp] theorem length_blocks {α : Type} (size count : Nat) (xs : List α) :
    (blocks size count xs).length = count := by
  induction count generalizing xs with
  | zero => rfl
  | succ n ih => simp [blocks, ih]

theorem le_roundUp (size unit : Nat) : size ≤ roundUp size unit := by
  unfold roundUp
  split <;> omega

/-- Enough blocks are counted to hold everything. -/
theorem le_blockCount_mul (size : Nat) {unit : Nat} (h : 0 < unit) :
    size ≤ blockCount size unit * unit := by
  have hm := Nat.div_add_mod size unit
  have hlt := Nat.mod_lt size h
  unfold blockCount roundUp
  split
  · next h0 => exact Nat.le_of_eq (Nat.div_mul_cancel (Nat.dvd_of_mod_eq_zero h0)).symm
  · have he : size + (unit - size % unit) = unit * (size / unit + 1) := by
      rw [Nat.mul_add, Nat.mul_one]
      omega
    rw [he, Nat.mul_div_cancel_left _ h, Nat.mul_comm, ← he]
    omega

/-- Counting the blocks is dividing and rounding up. -/
theorem blockCount_eq (size : Nat) {unit : Nat} (h : 0 < unit) :
    blockCount size unit = (size + (unit - 1)) / unit := by
  have hm := Nat.div_add_mod' size unit
  have hlt := Nat.mod_lt size h
  unfold blockCount roundUp
  split
  · refine Eq.symm ((Nat.div_eq_iff h).2 ?_)
    omega
  · have hup : size + (unit - size % unit) = unit * (size / unit + 1) := by
      rw [Nat.mul_add, Nat.mul_one, Nat.mul_comm]
      omega
    rw [hup, Nat.mul_div_cancel_left _ h]
    refine Eq.symm ((Nat.div_eq_iff h).2 ?_)
    rw [Nat.add_mul, Nat.one_mul]
    omega

/-- The first blocks together are the first elements. -/
theorem flatten_blocks {α : Type} (size count : Nat) (xs : List α) :
    (blocks size count xs).flatten = xs.take (count * size) := by
  induction count generalizing xs with
  | zero => simp [blocks]
  | succ n ih =>
    simp only [blocks, List.flatten_cons, ih]
    rw [Nat.add_mul, Nat.one_mul, Nat.add_comm, List.take_add]

/-- Nothing is lost in cutting a list into all of its blocks. -/
theorem flatten_allBlocks {α : Type} {size : Nat} (h : 0 < size) (xs : List α) :
    (allBlocks size xs).flatten = xs := by
  rw [allBlocks, flatten_blocks, List.take_of_length_le (le_blockCount_mul _ h)]

end NeuralEngine
