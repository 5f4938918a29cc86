import NeuralEngine.Proofs.Table.AppendOnly

/-!
# The blocks of a configuration

The engine fetches whole blocks, so a buffer has to end with one. `ConfigBuffer.ofWords` allocates as many blocks as
its words need and no more, and the run of words that the blocks make up is the words with zeros behind
them (`flat_ofWords`); the words in use are therefore within the allocation. The configurations of a table store
what their attachments supplied (`configurations_stored_exactly`).
-/

namespace NeuralEngine

namespace ConfigBuffer

/-- The words of the blocks in one run, as they lie in memory. -/
def flat (b : ConfigBuffer) : List Word :=
  b.blocks.flatMap Vector.toList

theorem length_blocks_ofWords (words : List Word) :
    (ofWords words).blocks.length = blockCount words.length blockWords := by
  unfold ofWords allBlocks
  rw [List.length_map, length_blocks]

/-- The blocks hold the words and zeros behind them. -/
theorem flat_ofWords (words : List Word) : (ofWords words).flat =
    words ++ List.replicate (blockWords * (ofWords words).blocks.length - words.length) 0 := by
  rw [length_blocks_ofWords, Nat.mul_comm]
  exact flatMap_blocks _ (le_blockCount_mul words.length (by decide))

theorem le_length_blocks (words : List Word) : words.length ≤ blockWords * (ofWords words).blocks.length := by
  rw [length_blocks_ofWords, Nat.mul_comm]
  exact le_blockCount_mul words.length (by decide)

theorem length_flat_ofWords (words : List Word) :
    (ofWords words).flat.length = blockWords * (ofWords words).blocks.length := by
  rw [flat_ofWords, List.length_append, List.length_replicate]
  exact Nat.add_sub_cancel' (le_length_blocks words)

theorem take_flat_ofWords (words : List Word) : (ofWords words).flat.take words.length = words := by
  rw [flat_ofWords, List.take_left]

/-- Behind the words in use every word is zero. -/
theorem getElem?_flat_ofWords {words : List Word} {i : Nat} (hfrom : words.length ≤ i)
    (hto : i < blockWords * (ofWords words).blocks.length) : (ofWords words).flat[i]? = some 0 := by
  rw [flat_ofWords, List.getElem?_append_right hfrom, List.getElem?_replicate, if_pos]
  exact Nat.sub_lt_sub_right hfrom hto

end ConfigBuffer

namespace ConfigTable

open Supply

/-- The configurations of a row are what was supplied by the attachments that were taken into it. -/
theorem content_of_configs {spaces perSpace : Nat} {calls : List (Asid × Supply)} {asid : Asid} {number : Nat}
    {config : NetworkConfig} (h : (((empty spaces perSpace).attachAll calls).configs asid)[number]? = some config) :
    ∃ supply, (taken asid calls (empty spaces perSpace))[number]? = some supply ∧ supply.content = .ok config := by
  have hall := congrArg (·[number]?) (configs_attachAll spaces perSpace calls asid)
  simp only [List.getElem?_map, h, Option.map_some] at hall
  exact Option.map_eq_some_iff.1 hall.symm

/-- How words are stored. A buffer allocates as many whole blocks as its words need and no more; in the run of words
that the blocks make up, the words in use come first and only zeros come behind them. In every table that attachments
build, the configuration of a number has the size and the words of the attachment of that number; its block size is
one of four powers of two, told by bits 4 and 5 of its first word alone. A placeholder has no words and no block
size. -/
theorem configurations_stored_exactly :
    (∀ words : List Word,
      let b := ConfigBuffer.ofWords words
      b.length = words.length ∧ b.blocks.length = (words.length + 15) / 16 ∧
      b.length ≤ 16 * b.blocks.length ∧ (∀ n, b.length ≤ 16 * n → b.blocks.length ≤ n) ∧
      b.flat.length = 16 * b.blocks.length ∧ b.flat.take b.length = words ∧ b.words = words ∧
      ∀ i, b.length ≤ i → i < 16 * b.blocks.length → b.flat[i]? = some 0) ∧
    ∀ (spaces perSpace : Nat) (calls : List (Asid × Supply)) (asid : Asid) (number : Nat) (config : NetworkConfig),
      (((empty spaces perSpace).attachAll calls).configs asid)[number]? = some config →
      ∃ supply words, (taken asid calls (empty spaces perSpace))[number]? = some supply ∧
        StoredAs supply config words := by
  refine ⟨fun words => ?_, fun spaces perSpace calls asid number config h => ?_⟩
  · intro b
    have hblocks : b.blocks.length = (words.length + 15) / 16 :=
      (ConfigBuffer.length_blocks_ofWords words).trans (blockCount_eq words.length (by decide))
    exact ⟨rfl, hblocks, ConfigBuffer.le_length_blocks words, fun n (hn : words.length ≤ 16 * n) => by omega,
      ConfigBuffer.length_flat_ofWords words, ConfigBuffer.take_flat_ofWords words, NetworkConfig.words_ofWords words,
      fun i => ConfigBuffer.getElem?_flat_ofWords⟩
  · obtain ⟨supply, htaken, hcontent⟩ := content_of_configs h
    obtain ⟨words, hstored⟩ := storedAs_of_content hcontent
    exact ⟨supply, words, htaken, hstored⟩

/-- Behind a placeholder and an attachment that is refused, seventeen words are stored in two blocks. -/
theorem seventeen_words_in_two_blocks :
    let words : List Word := List.replicate 17 0x30
    let b := ConfigBuffer.ofWords words
    let calls : List (Asid × Supply) := [(0, .placeholder), (0, .words []), (0, .words words)]
    (b.length ≤ 16 * 2 ∧ b.blocks.length ≤ 2) ∧ (b.length ≤ 17 ∧ 17 < 16 * b.blocks.length ∧ b.flat[17]? = some 0) ∧
      (((empty 1 2).attachAll calls).configs 0)[1]? = some (.ofWords words) ∧
      ∃ supply stored, (taken 0 calls (empty 1 2))[1]? = some supply ∧ StoredAs supply (.ofWords words) stored := by
  intro words b calls
  obtain ⟨hbuffers, htables⟩ := configurations_stored_exactly
  obtain ⟨hlength, hblocks, -, hleast, -, -, -, hzeros⟩ := hbuffers words
  have hcount : words.length = 17 := List.length_replicate
  have hwords : b.length = 17 := hlength.trans hcount
  have htwo : b.blocks.length = 2 := by rw [hblocks, hcount]
  have hlast : 17 < 16 * b.blocks.length := by omega
  have hconfig : (((empty 1 2).attachAll calls).configs 0)[1]? = some (.ofWords words) := rfl
  exact ⟨⟨by omega, hleast 2 (by omega)⟩, ⟨by omega, hlast, hzeros 17 (by omega) hlast⟩, hconfig,
    htables 1 2 calls 0 1 _ hconfig⟩

/-- A placeholder is attached and numbered as every configuration is, but has no block size of four or more. -/
theorem placeholder_without_block_size :
    ¬ ∀ (spaces perSpace : Nat) (calls : List (Asid × Supply)) (asid : Asid) (number : Nat) (config : NetworkConfig),
      (((empty spaces perSpace).attachAll calls).configs asid)[number]? = some config →
      4 ≤ config.elementsPerBlock ∧ config.elementsPerBlock ≤ 32 := by
  intro hall
  have hplaceholder : (((empty 1 1).attachAll [(0, .placeholder)]).configs 0)[0]? = some .placeholder := rfl
  have hsize := hall 1 1 _ 0 0 _ hplaceholder
  exact absurd hsize (by decide)

end ConfigTable

end NeuralEngine
