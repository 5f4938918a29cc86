import NeuralEngine.Proofs.Table.AppendOnly
import NeuralEngine.Proofs.Table.Encoding

/-!
# The delivery of a configuration

A source delivers the bytes of a configuration in pieces that fit neither words nor blocks. What is attached
depends on the bytes alone: it is the configuration that the words of the padded bytes make
(`attach_independent_of_delivery`). A failure before the end leaves the table as it was, wherever it
comes; an interruption is one unless the calls are made again, and then it does not show at all.
-/

namespace NeuralEngine

namespace ByteSource

variable {retrying : Bool} {pieces : List (List Byte)}

/-! ## Pieces -/

/-- Pieces are put together, whatever comes behind them. -/
theorem blob?_pieces (nonempty : ∀ piece ∈ pieces, piece ≠ []) (rest : ByteSource) :
    blob? retrying (pieces.map .bytes ++ rest) = (blob? retrying rest).map (pieces.flatten ++ ·) := by
  induction pieces with
  | nil => simp
  | cons piece pieces ih =>
    obtain ⟨b, bs, rfl⟩ := List.exists_cons_of_ne_nil (nonempty piece List.mem_cons_self)
    have hrest := ih fun p hp => nonempty p (List.mem_cons_of_mem _ hp)
    simp only [List.map_cons, List.cons_append, blob?, hrest, Option.map_map, List.flatten_cons]
    congr 1
    funext data
    simp

theorem unread_pieces (nonempty : ∀ piece ∈ pieces, piece ≠ []) (rest : ByteSource) :
    unread retrying (pieces.map .bytes ++ rest) = unread retrying rest := by
  induction pieces with
  | nil => rfl
  | cons piece pieces ih =>
    have hrest := ih fun p hp => nonempty p (List.mem_cons_of_mem _ hp)
    exact (unread_bytes (nonempty piece List.mem_cons_self)).trans hrest

/-- A source without its interruptions. -/
def uninterrupted (source : ByteSource) : ByteSource :=
  source.filter (· ≠ .interrupted)

/-- To a reader that makes interrupted calls again, the interruptions do not show. -/
theorem blob?_uninterrupted (source : ByteSource) : blob? false source.uninterrupted = blob? true source := by
  unfold uninterrupted
  induction source with
  | nil => rfl
  | cons event rest ih =>
    match event with
    | .interrupted => simpa [blob?] using ih
    | .failed => rfl
    | .bytes [] => rfl
    | .bytes (b :: bs) =>
      simp only [blob?, ← ih]
      rfl

end ByteSource

namespace ConfigTable

open Supply

variable {t : ConfigTable} {asid : Asid} {row : AddressSpace} {source : ByteSource}

/-- What is left of a source after an attachment to a row that has room. -/
theorem attachSource_leaves (space : t.space? asid = some row) (room : row.isFull = false) :
    (t.attachSource asid source).2 = source.unread false := by
  rw [← ByteSource.readAll_leaves_unread (ByteSource.calls_read (by decide : 0 < chunkBytes)) source]
  unfold attachSource attachFrom
  rw [writable_of_room space room]
  rcases ByteSource.readAll (ByteSource.read chunkBytes) source with ⟨fault | bytes, rest⟩
  · rfl
  · cases bytes <;> rfl

theorem content_source (source : ByteSource) : (Supply.source source).content = ofBlob (source.blob? false) :=
  rfl

theorem content_reader (source : ByteSource) : (Supply.reader source).content = ofBlob (source.blob? true) :=
  rfl

/-- A blob supplies what its words supply. -/
theorem content_words (bytes : List Byte) :
    (Supply.words (littleEndianWords (padded bytes))).content = ofBlob (some bytes) := by
  rw [← wordsOfBytes_eq]
  cases bytes with
  | nil => rfl
  | cons first others =>
    obtain ⟨rest, h⟩ := exists_wordsOfBytes_cons first others
    calc (Supply.words (wordsOfBytes (first :: others))).content
      _ = .ok (.ofWords (wordsOfBytes (first :: others))) := by
        rw [h]
        rfl
      _ = ofBlob (some (first :: others)) := rfl

/-- A blob that arrives is attached as its words are. -/
theorem attachSource_of_blob {bytes : List Byte} (arrives : source.blob? false = some bytes) :
    (t.attachSource asid source).1 = t.attachWords asid (littleEndianWords (padded bytes)) := by
  change t.attach asid (.source source) = t.attach asid (.words _)
  rw [attach_eq, attach_eq, content_words, content_source, arrives]

/-- Where a call fails before the end of the blob, nothing is attached. -/
theorem attachSource_of_cut (space : t.space? asid = some row) (room : row.isFull = false)
    (cut : source.blob? false = none) : (t.attachSource asid source).1 = (.error .sourceUnreadable, t) := by
  change t.attach asid (.source source) = _
  rw [attach_error_iff]
  refine ⟨.inr ⟨⟨row, writable_of_room space room⟩, ?_⟩, rfl⟩
  rw [content_source, cut]
  rfl

/-- Whatever pieces the bytes of a configuration come in, attaching them to a row with room is attaching the words
of the padded bytes: as many words as hold the bytes, with a block size that the first byte tells. A piece may also
be longer than what one call asks for. What a source has behind its end is left there. A call that fails before the
end makes the attachment fail, and so does an interrupted one; where interrupted calls are made again, interruptions
change nothing. -/
theorem attach_independent_of_delivery (space : t.space? asid = some row) (room : row.isFull = false)
    {pieces : List (List Byte)} (nonempty : ∀ piece ∈ pieces, piece ≠ []) (later : ByteSource) :
    let blob := pieces.flatten
    let source := pieces.map .bytes ++ .bytes [] :: later
    t.attachSource asid source = (t.attachWords asid (littleEndianWords (padded blob)), later) ∧
      (blob = [] → (t.attachSource asid source).1 = (.error .emptyConfiguration, t)) ∧
      (∀ first others, blob = first :: others → ∃ config : NetworkConfig,
        config.size = (blob.length + 7) / 8 ∧
          config.elementsPerBlock = 2 ^ ((first.extractLsb' 4 2).toNat + 2) ∧
          (t.attachSource asid source).1 =
            (.ok (BitVec.ofNat 32 row.validCount), t.modifySpace asid (AddressSpace.append config))) ∧
      (∀ fault ∈ [ReadEvent.failed, .interrupted],
        let cut := pieces.map .bytes ++ fault :: later
        t.attachSource asid cut = ((.error .sourceUnreadable, t), later)) ∧
      ∀ source : ByteSource, (t.attachReader asid source).1 = (t.attachSource asid source.uninterrupted).1 := by
  intro blob source
  have hwritable := writable_of_room space room
  have hblob : source.blob? false = some blob := by
    rw [ByteSource.blob?_pieces nonempty]
    simp [ByteSource.blob?, blob]
  have hunread : source.unread false = later := ByteSource.unread_pieces nonempty _
  have hattach : t.attachSource asid source = (t.attachWords asid (littleEndianWords (padded blob)), later) :=
    Prod.ext (attachSource_of_blob hblob) ((attachSource_leaves space room).trans hunread)
  have hcontent : t.attachWords asid (littleEndianWords (padded blob)) = t.attachContent asid (ofBlob (some blob)) := by
    change t.attach asid (.words _) = _
    rw [attach_eq, content_words]
  refine ⟨hattach, fun hempty => ?empty, fun first others hfirst => ?filled, fun fault hfault => ?cut,
    fun s => ?reader⟩
  case empty =>
    rw [hattach, hcontent, hempty]
    simp only [attachContent, hwritable, ofBlob]
  case filled =>
    refine ⟨.ofWords (wordsOfBytes blob), ?_, ?_, ?_⟩
    · rw [NetworkConfig.size_ofWords, length_wordsOfBytes, wordsForBytes_eq]
    · rw [hfirst, NetworkConfig.elementsPerBlock_ofBytes]
    · rw [hattach, hcontent, hfirst]
      simp only [attachContent, hwritable, ofBlob, appendTo]
  case cut =>
    intro cut
    have hnone : cut.blob? false = none ∧ cut.unread false = later := by
      rw [ByteSource.blob?_pieces nonempty, ByteSource.unread_pieces nonempty]
      obtain rfl | rfl : fault = .failed ∨ fault = .interrupted := by simpa using hfault
      · exact ⟨rfl, rfl⟩
      · exact ⟨rfl, rfl⟩
    exact Prod.ext (attachSource_of_cut space room hnone.1) ((attachSource_leaves space room).trans hnone.2)
  case reader =>
    change t.attach asid (.reader s) = t.attach asid (.source _)
    rw [attach_eq, attach_eq, content_reader, content_source, ByteSource.blob?_uninterrupted]

/-- Three bytes in two pieces are one word; with an interruption before the end they are none. -/
theorem pieces_attached_as_word :
    let t := empty 1 1
    let pieces : List (List Byte) := [[0x21, 1], [2]]
    t.space? 0 = some { capacity := 1 } ∧ [] ∉ pieces ∧
      t.attachSource 0 [.bytes [0x21, 1], .bytes [2], .bytes [], .bytes [9]] =
        (t.attachWords 0 [0x20121], [.bytes [9]]) ∧
      (∃ config : NetworkConfig, config.size = 1 ∧ config.elementsPerBlock = 16 ∧
        t.attachWords 0 [0x20121] = (.ok 0, t.modifySpace 0 (AddressSpace.append config))) ∧
      t.attachSource 0 [.bytes [0x21, 1], .bytes [2], .interrupted, .bytes [9]] =
        ((.error .sourceUnreadable, t), [.bytes [9]]) := by
  intro t pieces
  have hspace : t.space? 0 = some { capacity := 1 } := rfl
  have hnonempty : ∀ piece ∈ pieces, piece ≠ [] := by decide
  have hwords : littleEndianWords (padded pieces.flatten) = [0x20121] := by decide +kernel
  obtain ⟨hattach, -, hfilled, hcut, -⟩ :=
    attach_independent_of_delivery hspace rfl hnonempty [ReadEvent.bytes [9]]
  obtain ⟨config, hsize, hblocks, hconfig⟩ := hfilled 0x21 [1, 2] rfl
  rw [hwords] at hattach
  rw [hattach] at hconfig
  have hone : (pieces.flatten.length + 7) / 8 = 1 := by decide
  have hsixteen : 2 ^ (((0x21 : Byte).extractLsb' 4 2).toNat + 2) = 16 := by decide
  exact ⟨hspace, by decide, hattach, ⟨config, hsize.trans hone, hblocks.trans hsixteen, hconfig⟩,
    hcut .interrupted (by decide)⟩

end ConfigTable

end NeuralEngine
