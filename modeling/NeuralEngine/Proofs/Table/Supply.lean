import NeuralEngine.Proofs.Table.Blob
import NeuralEngine.Proofs.Table.Encoding

/-!
# What an attachment supplies

A configuration comes from words in memory, from a source or from a file, or it is a placeholder. The table has no
say in what is supplied: `Supply.content` is the configuration, or why there is none, and `Supply.words?` the words
themselves. The configuration stores just these words (`storedAs_of_content`).
-/

namespace NeuralEngine

/-- Where the configuration of an attachment comes from. -/
inductive Supply where
  | placeholder
  | words (words : List Word)
  /-- A source whose interruptions are failures. -/
  | source (source : ByteSource)
  /-- A source whose interrupted calls are made again. -/
  | reader (source : ByteSource)
  | file (file : StoredFile)
deriving DecidableEq, Repr

namespace Supply

/-- The configuration in a blob, which has to have arrived and to hold something. -/
def ofBlob : Option (List Byte) → Except TableError NetworkConfig
  | none => .error .sourceUnreadable
  | some [] => .error .emptyConfiguration
  | some bytes => .ok (.ofWords (wordsOfBytes bytes))

/-- The configuration that is supplied, or why there is none. -/
def content : Supply → Except TableError NetworkConfig
  | placeholder => .ok .placeholder
  | words [] => .error .emptyConfiguration
  | words ws => .ok (.ofWords ws)
  | source s => ofBlob (s.blob? false)
  | reader s => ofBlob (s.blob? true)
  | file .absent => .error .sourceUnreadable
  | file .directory => .error .sourceUnreadable
  | file (.regular data) => ofBlob (some data)

/-- What is wrong with a supply has nothing to do with the row. -/
theorem content_error {supply : Supply} {e : TableError} (h : supply.content = .error e) :
    e = .sourceUnreadable ∨ e = .emptyConfiguration := by
  have ofBlob_error : ∀ blob, ofBlob blob = .error e → e = .sourceUnreadable ∨ e = .emptyConfiguration
    | none, h => .inl (by cases h; rfl)
    | some [], h => .inr (by cases h; rfl)
  match supply with
  | words [] => exact .inr (by cases h; rfl)
  | source s => exact ofBlob_error _ h
  | reader s => exact ofBlob_error _ h
  | file .absent => exact .inl (by cases h; rfl)
  | file .directory => exact .inl (by cases h; rfl)
  | file (.regular data) => exact ofBlob_error _ h

/-! ## Stored words -/

/-- The words that are supplied, those of a blob padded to whole words; none if they cannot be read. -/
def words? : Supply → Option (List Word)
  | placeholder => some []
  | words ws => some ws
  | source s => (s.blob? false).map (littleEndianWords ∘ padded)
  | reader s => (s.blob? true).map (littleEndianWords ∘ padded)
  | file (.regular data) => some (littleEndianWords (padded data))
  | file _ => none

/-- The configuration stores the words as they were supplied, and takes its block size from the first of them;
a placeholder stores nothing. -/
structure StoredAs (supply : Supply) (config : NetworkConfig) (stored : List Word) : Prop where
  supplied : supply.words? = some stored
  words : config.words = stored
  size : config.size = stored.length
  placeholder : config.isPlaceholder = true → supply = .placeholder ∧ stored = [] ∧ config.elementsPerBlock = 0
  header : config.isPlaceholder = false → ∃ first rest, stored = first :: rest ∧
    config.elementsPerBlock = 2 ^ ((first.extractLsb' 4 2).toNat + 2) ∧ config.elementsPerBlock ∈ [4, 8, 16, 32]

theorem storedAs_placeholder : StoredAs .placeholder .placeholder [] where
  supplied := rfl
  words := rfl
  size := rfl
  placeholder _ := ⟨rfl, rfl, rfl⟩
  header h := nomatch h

theorem storedAs_ofWords {supply : Supply} {header : Word} {rest : List Word}
    (h : supply.words? = some (header :: rest)) : StoredAs supply (.ofWords (header :: rest)) (header :: rest) where
  supplied := h
  words := NetworkConfig.words_ofWords _
  size := rfl
  placeholder h := nomatch h
  header _ := by
    have hsize : (NetworkConfig.ofWords (header :: rest)).elementsPerBlock = elementsPerBlock header := by
      unfold NetworkConfig.elementsPerBlock
      rw [NetworkConfig.words_ofWords]
    exact ⟨header, rest, rfl, hsize, hsize ▸ elementsPerBlock_mem header⟩

/-- A blob with something in it has a first word. -/
theorem storedAs_ofBlob {supply : Supply} {blob : Option (List Byte)} {config : NetworkConfig}
    (hwords : supply.words? = blob.map (littleEndianWords ∘ padded)) (h : ofBlob blob = .ok config) :
    ∃ words, StoredAs supply config words := by
  obtain _ | bytes := blob
  · cases h
  · obtain _ | ⟨first, others⟩ := bytes
    · cases h
    · cases h
      obtain ⟨rest, hheader⟩ := exists_wordsOfBytes_cons first others
      rw [Option.map_some, Function.comp_apply, ← wordsOfBytes_eq, hheader] at hwords
      rw [hheader]
      exact ⟨_, storedAs_ofWords hwords⟩

/-- What an attachment puts into a table stores what was supplied. -/
theorem storedAs_of_content {supply : Supply} {config : NetworkConfig} (h : supply.content = .ok config) :
    ∃ words, StoredAs supply config words := by
  cases supply with
  | placeholder =>
    cases h
    exact ⟨[], storedAs_placeholder⟩
  | words ws =>
    obtain _ | ⟨header, rest⟩ := ws
    · cases h
    · cases h
      exact ⟨_, storedAs_ofWords rfl⟩
  | source s => exact storedAs_ofBlob rfl h
  | reader s => exact storedAs_ofBlob rfl h
  | file f =>
    cases f with
    | absent => cases h
    | directory => cases h
    | regular data => exact @storedAs_ofBlob _ (some data) _ rfl h

end Supply

end NeuralEngine
