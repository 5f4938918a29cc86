import Mathlib.Data.Nat.Digits.Defs
import NeuralEngine.Table.Config
import NeuralEngine.Table.Words

/-!
# Bytes of a configuration as words

The words of a byte string are those of the string that is padded with zeros to whole words, each the number
that has its bytes as digits, the lowest first (`wordsOfBytes_eq`). A configuration gives back the words it was
made of, and what the engine needs to know of it, its size and its block size, is read off the byte string.
-/

namespace NeuralEngine

/-- The byte string with as many zeros behind it as make it whole words. -/
def padded (bytes : List Byte) : List Byte :=
  bytes ++ List.replicate (roundUp bytes.length wordBytes - bytes.length) 0

/-- The number that has the given bytes as digits, the lowest first. -/
def littleEndian (bytes : List Byte) : Nat :=
  Nat.ofDigits 256 (bytes.map BitVec.toNat)

/-- The words of a byte string of whole words. -/
def littleEndianWords (bytes : List Byte) : List Word :=
  (wholeBlocks wordBytes bytes).map fun block => BitVec.ofNat 64 (littleEndian block)

/-! ## One word -/

theorem littleEndian_cons (b : Byte) (bs : List Byte) :
    littleEndian (b :: bs) = b.toNat + 256 * littleEndian bs := by
  unfold littleEndian
  rw [List.map_cons, Nat.ofDigits_cons]

theorem littleEndian_lt (bytes : List Byte) : littleEndian bytes < 256 ^ bytes.length := by
  unfold littleEndian
  rw [← List.length_map BitVec.toNat]
  apply Nat.ofDigits_lt_base_pow_length (by decide)
  intro digit hdigit
  obtain ⟨b, -, rfl⟩ := List.mem_map.1 hdigit
  exact b.isLt

/-- Zeros behind the bytes do not count. -/
theorem littleEndian_append_zeros (bytes : List Byte) (count : Nat) :
    littleEndian (bytes ++ List.replicate count 0) = littleEndian bytes := by
  unfold littleEndian
  rw [List.map_append, List.map_replicate]
  exact Nat.ofDigits_append_replicate_zero _

/-- Putting a byte below a number that has room for it. -/
theorem toNat_shiftLeft_or (w : Word) (b : Byte) (h : w.toNat < 2 ^ 56) :
    (w <<< 8 ||| b.zeroExtend 64).toNat = b.toNat + 256 * w.toNat := by
  have hb : b.toNat < 2 ^ 8 := b.isLt
  have hshift : w.toNat <<< 8 % 2 ^ 64 = w.toNat <<< 8 := by
    rw [Nat.shiftLeft_eq]
    omega
  have hlow : (b.zeroExtend 64).toNat = b.toNat := by
    rw [BitVec.zeroExtend, BitVec.toNat_setWidth]
    omega
  rw [BitVec.toNat_or, BitVec.toNat_shiftLeft, hshift, hlow, ← Nat.shiftLeft_add_eq_or_of_lt hb, Nat.shiftLeft_eq]
  omega

theorem toNat_wordOfBytes {bytes : List Byte} (h : bytes.length ≤ wordBytes) :
    (wordOfBytes bytes).toNat = littleEndian bytes := by
  induction bytes with
  | nil => rfl
  | cons b bs ih =>
    have hlen : bs.length ≤ 7 := Nat.le_of_succ_le_succ h
    have hvalue : (wordOfBytes bs).toNat = littleEndian bs := ih (Nat.le_trans hlen (by decide))
    have hlt : (wordOfBytes bs).toNat < 2 ^ 56 := by
      rw [hvalue]
      exact Nat.lt_of_lt_of_le (littleEndian_lt bs) (Nat.pow_le_pow_right (by decide) hlen)
    rw [littleEndian_cons, ← hvalue]
    exact toNat_shiftLeft_or _ b hlt

theorem wordOfBytes_eq {bytes : List Byte} (h : bytes.length ≤ wordBytes) :
    wordOfBytes bytes = BitVec.ofNat 64 (littleEndian bytes) := by
  rw [← toNat_wordOfBytes h, BitVec.ofNat_toNat, BitVec.setWidth_eq]

/-! ## All words -/

/-- Block by block, the bytes have the words of the padded bytes. -/
theorem map_wordOfBytes_blocks (count zeros : Nat) (bytes : List Byte) :
    (blocks wordBytes count bytes).map wordOfBytes =
      (blocks wordBytes count (bytes ++ List.replicate zeros 0)).map fun block =>
        BitVec.ofNat 64 (littleEndian block) := by
  induction count generalizing bytes zeros with
  | zero => rfl
  | succ count ih =>
    have hword : wordOfBytes (bytes.take wordBytes) =
        BitVec.ofNat 64 (littleEndian ((bytes ++ List.replicate zeros 0).take wordBytes)) := by
      rw [List.take_append, List.take_replicate, littleEndian_append_zeros]
      exact wordOfBytes_eq (List.length_take_le _ _)
    have hrest := ih (zeros - (wordBytes - bytes.length)) (bytes.drop wordBytes)
    rw [← List.drop_replicate, ← List.drop_append] at hrest
    simp only [blocks, List.map_cons]
    rw [hword, hrest]

theorem length_padded (bytes : List Byte) : (padded bytes).length = roundUp bytes.length wordBytes := by
  have hle := le_roundUp bytes.length wordBytes
  unfold padded
  rw [List.length_append, List.length_replicate]
  omega

/-- The words of a byte string are the little-endian words of the padded one. -/
theorem wordsOfBytes_eq (bytes : List Byte) : wordsOfBytes bytes = littleEndianWords (padded bytes) := by
  unfold wordsOfBytes allBlocks littleEndianWords wholeBlocks
  rw [length_padded]
  exact map_wordOfBytes_blocks (blockCount bytes.length wordBytes) _ bytes

theorem wordsForBytes_eq (bytes : Nat) : wordsForBytes bytes = (bytes + 7) / 8 :=
  blockCount_eq bytes (by decide)

/-- A byte string with a byte in it has a first word, made of its first eight bytes. -/
theorem exists_wordsOfBytes_cons (first : Byte) (others : List Byte) :
    ∃ rest, wordsOfBytes (first :: others) = wordOfBytes (first :: others.take 7) :: rest := by
  obtain ⟨count, hcount⟩ : ∃ count, blockCount (first :: others).length wordBytes = count + 1 := by
    have h := wordsForBytes_eq (first :: others).length
    unfold wordsForBytes at h
    rw [List.length_cons] at h ⊢
    exact ⟨(others.length + 1 + 7) / 8 - 1, by omega⟩
  refine ⟨(blocks wordBytes count (others.drop 7)).map wordOfBytes, ?_⟩
  unfold wordsOfBytes allBlocks
  rw [hcount]
  rfl

/-! ## Configurations -/

/-- A block has its words first and zeros for those it lacks. -/
theorem Block.toList_ofWords (words : List Word) :
    (Block.ofWords words).toList = words.take blockWords ++ List.replicate (blockWords - words.length) 0 := by
  apply List.ext_getElem?
  intro i
  unfold Block.ofWords
  rw [Vector.toList_ofFn, List.getElem?_append, List.getElem?_take, List.length_take, List.getElem?_replicate,
    List.getElem?_ofFn]
  grind

/-- Enough blocks hold the words, in order, and zeros behind them. -/
theorem flatMap_blocks (count : Nat) {words : List Word} (h : words.length ≤ count * blockWords) :
    ((blocks blockWords count words).map Block.ofWords).flatMap Vector.toList =
      words ++ List.replicate (count * blockWords - words.length) 0 := by
  induction count generalizing words with
  | zero =>
    rw [Nat.zero_mul, Nat.le_zero, List.length_eq_zero_iff] at h
    rw [h]
    rfl
  | succ count ih =>
    rw [Nat.add_mul, Nat.one_mul] at h ⊢
    have hless : (words.drop blockWords).length ≤ count * blockWords := by
      rw [List.length_drop]
      omega
    simp only [blocks, List.map_cons, List.flatMap_cons]
    rw [Block.toList_ofWords, List.take_take, Nat.min_self, ih hless, List.length_take, List.length_drop]
    obtain hmore | hmore := Nat.le_total words.length blockWords
    · -- the words end in this block
      have hzeros : blockWords - min blockWords words.length + (count * blockWords - (words.length - blockWords)) =
          count * blockWords + blockWords - words.length := by omega
      rw [List.take_of_length_le hmore, List.drop_of_length_le hmore, List.nil_append, List.append_assoc,
        List.replicate_append_replicate, hzeros]
    · have hfull : blockWords - min blockWords words.length = 0 := by omega
      have hzeros : count * blockWords - (words.length - blockWords) =
          count * blockWords + blockWords - words.length := by omega
      rw [hfull, hzeros, List.replicate_zero, List.append_nil, ← List.append_assoc, List.take_append_drop]

theorem elementsPerBlock_mem (header : Word) : elementsPerBlock header ∈ [4, 8, 16, 32] := by
  have hbits := (header.extractLsb' 4 2).isLt
  unfold elementsPerBlock
  generalize (header.extractLsb' 4 2).toNat = bits at hbits ⊢
  obtain rfl | rfl | rfl | rfl : bits = 0 ∨ bits = 1 ∨ bits = 2 ∨ bits = 3 := by omega
  all_goals decide

namespace NetworkConfig

/-- A configuration gives back the words it was made of. -/
theorem words_ofWords (words : List Word) : (ofWords words).words = words := by
  have hflat := flatMap_blocks _ (le_blockCount_mul words.length (by decide : 0 < blockWords))
  exact (congrArg (List.take words.length) hflat).trans List.take_left

theorem size_ofWords (words : List Word) : (ofWords words).size = words.length :=
  rfl

/-- The block size is in bits 4 and 5 of the first byte. -/
theorem elementsPerBlock_ofBytes (first : Byte) (others : List Byte) :
    (ofWords (wordsOfBytes (first :: others))).elementsPerBlock = 2 ^ ((first.extractLsb' 4 2).toNat + 2) := by
  obtain ⟨rest, hwords⟩ := exists_wordsOfBytes_cons first others
  have hheader : (wordOfBytes (first :: others.take 7)).extractLsb' 4 2 = first.extractLsb' 4 2 := by
    have hlen : (first :: others.take 7).length ≤ wordBytes := Nat.succ_le_succ (List.length_take_le _ _)
    apply BitVec.eq_of_toNat_eq
    rw [BitVec.extractLsb'_toNat, BitVec.extractLsb'_toNat, toNat_wordOfBytes hlen, littleEndian_cons,
      Nat.shiftRight_eq_div_pow, Nat.shiftRight_eq_div_pow]
    omega
  unfold elementsPerBlock
  rw [words_ofWords, hwords, ← hheader]
  rfl

end NetworkConfig

end NeuralEngine
