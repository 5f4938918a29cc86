import Mathlib.Data.List.Forall2
import NeuralEngine.Proofs.Table.Supply

/-!
# The configuration table only grows

An attachment first checks the row it is to go to and then looks for the configuration, so that every
kind of attachment is the check, the content of its supply and one append (`attach_eq`). A call that fails
gets no further than the append (`attach_error_iff`). A sequence of attachments is followed by `attachAll`,
and `taken` lists the supplies that found their way into a row. By induction along the sequence a row is
what it was, with the contents of `taken` behind it.
-/

namespace NeuralEngine

namespace ConfigTable

open Supply

/-- The attachment to an address space from any supply. -/
def attach (asid : Asid) : Supply → ConfigTable → Except TableError Nnid × ConfigTable
  | .placeholder, t => t.attachPlaceholder asid
  | .words ws, t => t.attachWords asid ws
  | .source s, t => (t.attachSource asid s).1
  | .reader s, t => (t.attachReader asid s).1
  | .file f, t => t.attachFile asid f

/-- What an attachment comes to once it is known what is supplied. -/
def attachContent (asid : Asid) (content : Except TableError NetworkConfig) (t : ConfigTable) :
    Except TableError Nnid × ConfigTable :=
  match t.writable asid, content with
  | .error e, _ => (.error e, t)
  | .ok _, .error e => (.error e, t)
  | .ok row, .ok config => t.appendTo asid row config

variable {asid a : Asid} {supply : Supply} {t : ConfigTable}

/-! ## One attachment -/

/-- Reading from a source is no more than asking for its blob. -/
theorem attachFrom_eq {retrying : Bool}
    {reader : ByteSource → Except ReadFault (List Byte) × ByteSource}
    (hcalls : ∀ source, ByteSource.Calls retrying reader source) (source : ByteSource) :
    (t.attachFrom reader asid source).1 = t.attachContent asid (ofBlob (source.blob? retrying)) := by
  have hblob := ByteSource.readAll_eq_blob hcalls source
  unfold attachFrom attachContent
  cases t.writable asid with
  | error e => rfl
  | ok space =>
    rw [← hblob]
    rcases ByteSource.readAll reader source with ⟨fault | bytes, rest⟩
    · rfl
    · cases bytes <;> rfl

/-- Every attachment checks the row, then asks for the content, then appends it. -/
theorem attach_eq (asid : Asid) (supply : Supply) (t : ConfigTable) :
    t.attach asid supply = t.attachContent asid supply.content := by
  match supply with
  | .placeholder =>
    simp only [attach, attachPlaceholder, attachContent, content]
    cases t.writable asid <;> rfl
  | .words ws =>
    simp only [attach, attachWords, attachContent]
    cases t.writable asid <;> cases ws <;> rfl
  | .source s => exact attachFrom_eq (ByteSource.calls_read (by decide)) s
  | .reader s => exact attachFrom_eq (ByteSource.calls_readRetrying (by decide)) s
  | .file f =>
    have hopen : ∀ s, f.open? = some s → t.attach asid (.file f) = t.attachContent asid (ofBlob (s.blob? true)) := by
      intro s hs
      have hreads := ByteSource.calls_readRetrying (by decide : 0 < chunkBytes)
      rw [← attachFrom_eq hreads s]
      simp only [attach, attachFile, hs, attachReader, attachFrom]
      cases t.writable asid <;> rfl
    cases f with
    | absent =>
      simp only [attach, attachFile, attachContent]
      cases t.writable asid <;> rfl
    | directory => exact hopen _ rfl
    | regular data =>
      rw [hopen _ rfl]
      cases data with
      | nil => rfl
      | cons b bs => simp [ByteSource.blob?, content]

/-! ## Rows -/

/-- A row has the capacity of the table, and holds no more than that. -/
def Within (t : ConfigTable) : Prop :=
  ∀ asid row, t.space? asid = some row → row.capacity = t.configsPerSpace ∧ row.validCount ≤ t.configsPerSpace

theorem writable_error_range : t.writable asid = .error .addressSpaceOutOfRange ↔ t.space? asid = none := by
  unfold writable
  cases t.space? asid with
  | none => simp
  | some row => by_cases hfull : row.isFull <;> simp [hfull]

theorem writable_error_capacity :
    t.writable asid = .error .capacityExceeded ↔ ∃ row, t.space? asid = some row ∧ row.isFull = true := by
  unfold writable
  cases t.space? asid with
  | none => simp
  | some row => cases row.isFull <;> simp

theorem writable_ok {row : AddressSpace} (h : t.writable asid = .ok row) :
    t.space? asid = some row ∧ row.isFull = false := by
  unfold writable at h
  split at h
  · cases h
  · next hrow =>
    split at h
    · cases h
    · next hfull =>
      cases h
      exact ⟨hrow, by simpa using hfull⟩

theorem writable_of_room {row : AddressSpace} (space : t.space? asid = some row) (room : row.isFull = false) :
    t.writable asid = .ok row := by
  unfold writable
  rw [space]
  simp [room]

theorem space?_modifySpace (f : AddressSpace → AddressSpace) :
    (t.modifySpace a f).space? asid = (t.space? asid).map fun row => if a = asid then f row else row := by
  simp only [space?, modifySpace, List.getElem?_modify, BitVec.toNat_inj]
  cases t.spaces[asid.toNat]? <;> simp

/-- A call succeeds if the row has room and the supply a configuration, which is put behind the
others of the row. -/
theorem attach_ok_iff {nnid : Nnid} {t' : ConfigTable} :
    t.attach asid supply = (.ok nnid, t') ↔
      ∃ row config, t.writable asid = .ok row ∧ supply.content = .ok config ∧
        nnid = BitVec.ofNat 32 row.validCount ∧ t' = t.modifySpace asid (AddressSpace.append config) := by
  rw [attach_eq]
  unfold attachContent
  cases t.writable asid with
  | error e => simp
  | ok row => cases supply.content <;> simp [appendTo, eq_comm]

/-- A call that fails leaves the table as it was. A row that refuses a call does so before the supply is
looked at. -/
theorem attach_error_iff {e : TableError} {t' : ConfigTable} :
    t.attach asid supply = (.error e, t') ↔
      (t.writable asid = .error e ∨ (∃ row, t.writable asid = .ok row) ∧ supply.content = .error e) ∧ t' = t := by
  rw [attach_eq]
  unfold attachContent
  cases t.writable asid with
  | error e => simp [eq_comm]
  | ok row => cases supply.content <;> simp [appendTo, eq_comm]

/-- The error of a call is the row's exactly if the row refuses it. -/
theorem attach_error_row {e : TableError} (he : e = .addressSpaceOutOfRange ∨ e = .capacityExceeded) :
    (t.attach asid supply).1 = .error e ↔ t.writable asid = .error e := by
  have hcontent : supply.content ≠ .error e := by
    intro h
    obtain rfl | rfl := he <;> simpa using content_error h
  rw [attach_eq]
  unfold attachContent
  cases t.writable asid with
  | error e' => simp
  | ok row =>
    cases h : supply.content with
    | error e' => simpa [h] using hcontent
    | ok config => simp [appendTo]

/-! ## Sequences of attachments -/

/-- The table after a call, whether it succeeds or fails. -/
def after (asid : Asid) (supply : Supply) (t : ConfigTable) : ConfigTable :=
  (t.attach asid supply).2

/-- The table after a sequence of calls. -/
def attachAll : List (Asid × Supply) → ConfigTable → ConfigTable
  | [], t => t
  | (asid, supply) :: calls, t => attachAll calls (t.after asid supply)

/-- The supplies of the calls on an address space that succeed, in call order. -/
def taken (asid : Asid) : List (Asid × Supply) → ConfigTable → List Supply
  | [], _ => []
  | (a, supply) :: calls, t =>
    (if a = asid ∧ (t.attach a supply).1.isOk then [supply] else []) ++ taken asid calls (t.after a supply)

/-- One call adds to the row what `taken` says of it. -/
theorem space?_after : ∃ configs, configs.map .ok = (taken asid [(a, supply)] t).map content ∧
    (t.after a supply).space? asid =
      (t.space? asid).map fun row => { row with configs := row.configs ++ configs } := by
  unfold after taken
  obtain ⟨result, t', h⟩ : ∃ result t', t.attach a supply = (result, t') := ⟨_, _, rfl⟩
  rw [h]
  cases result with
  | error e =>
    obtain ⟨-, rfl⟩ := attach_error_iff.1 h
    exact ⟨[], by simp [Except.isOk, Except.toBool, taken], by simp⟩
  | ok nnid =>
    obtain ⟨row, config, -, hconfig, -, rfl⟩ := attach_ok_iff.1 h
    by_cases ha : a = asid
    · refine ⟨[config], by simp [Except.isOk, Except.toBool, taken, ha, hconfig], ?_⟩
      simp [space?_modifySpace, ha, AddressSpace.append]
    · exact ⟨[], by simp [Except.isOk, Except.toBool, taken, ha], by simp [space?_modifySpace, ha]⟩

theorem taken_cons (calls : List (Asid × Supply)) :
    taken asid ((a, supply) :: calls) t = taken asid [(a, supply)] t ++ taken asid calls (t.after a supply) := by
  simp [taken]

/-- A sequence of calls adds to a row the contents of the supplies that were taken. -/
theorem space?_attachAll (calls : List (Asid × Supply)) (t : ConfigTable) :
    ∃ configs, configs.map .ok = (taken asid calls t).map content ∧
      (t.attachAll calls).space? asid =
        (t.space? asid).map fun row => { row with configs := row.configs ++ configs } := by
  induction calls generalizing t with
  | nil => exact ⟨[], rfl, by simp [attachAll]⟩
  | cons call calls ih =>
    obtain ⟨a, supply⟩ := call
    obtain ⟨first, hfirst, hrow⟩ := @space?_after asid a supply t
    obtain ⟨rest, hrest, hrows⟩ := ih (t.after a supply)
    refine ⟨first ++ rest, ?_, ?_⟩
    · rw [taken_cons, List.map_append, List.map_append, hfirst, hrest]
    · simp only [attachAll, hrows, hrow, Option.map_map, Function.comp_def, List.append_assoc]

theorem within_empty (spaces perSpace : Nat) : (empty spaces perSpace).Within := by
  intro asid row hrow
  obtain ⟨-, rfl⟩ : asid.toNat < spaces ∧ row = { capacity := perSpace } := by
    simpa [space?, empty, List.getElem?_replicate, eq_comm] using hrow
  exact ⟨rfl, Nat.zero_le _⟩

/-- A call leaves the table alone, or appends to a row that has room. -/
theorem after_cases (a : Asid) (supply : Supply) (t : ConfigTable) :
    t.after a supply = t ∨ ∃ row config, t.writable a = .ok row ∧
      t.after a supply = t.modifySpace a (AddressSpace.append config) := by
  unfold after
  obtain ⟨result, t', h⟩ : ∃ result t', t.attach a supply = (result, t') := ⟨_, _, rfl⟩
  rw [h]
  cases result with
  | error e => exact .inl (attach_error_iff.1 h).2
  | ok nnid =>
    obtain ⟨row, config, hroom, -, -, heq⟩ := attach_ok_iff.1 h
    exact .inr ⟨row, config, hroom, heq⟩

theorem configsPerSpace_after : (t.after a supply).configsPerSpace = t.configsPerSpace := by
  obtain h | ⟨_, _, -, h⟩ := after_cases a supply t <;> rw [h]
  rfl

/-- A call never puts more into a row than the row has room for. -/
theorem within_after (h : t.Within) : (t.after a supply).Within := by
  intro asid row hrow
  rw [configsPerSpace_after]
  obtain hsame | ⟨old, config, hroom, hnext⟩ := after_cases a supply t
  · exact h asid row (hsame ▸ hrow)
  · obtain ⟨hold, hfull⟩ := writable_ok hroom
    rw [hnext, space?_modifySpace] at hrow
    by_cases ha : a = asid
    · subst ha
      obtain ⟨hcapacity, hle⟩ := h a old hold
      have hne : old.validCount ≠ old.capacity := by simpa [AddressSpace.isFull] using hfull
      obtain rfl : old.append config = row := by simpa [hold] using hrow
      refine ⟨hcapacity, ?_⟩
      simp only [AddressSpace.append, AddressSpace.validCount, List.length_append,
        List.length_singleton] at hle hne ⊢
      omega
    · simp only [ha, if_false, Option.map_id'] at hrow
      exact h asid row hrow

theorem within_attachAll (calls : List (Asid × Supply)) (h : t.Within) :
    (t.attachAll calls).Within ∧ (t.attachAll calls).configsPerSpace = t.configsPerSpace := by
  induction calls generalizing t with
  | nil => exact ⟨h, rfl⟩
  | cons call calls ih =>
    obtain ⟨hwithin, hsize⟩ := ih (@within_after call.1 call.2 t h)
    exact ⟨hwithin, hsize.trans configsPerSpace_after⟩

/-- Once a configuration has its number, it keeps it. -/
theorem config?_attachAll {nnid : Nnid} {config : NetworkConfig} (calls : List (Asid × Supply))
    (h : t.config? asid nnid = some config) : (t.attachAll calls).config? asid nnid = some config := by
  obtain ⟨added, -, hrow⟩ := @space?_attachAll asid calls t
  obtain ⟨row, hspace, hconfig⟩ := Option.bind_eq_some_iff.1 h
  simp only [config?, hrow, hspace, Option.map_some, Option.bind_some, AddressSpace.config?] at hconfig ⊢
  exact List.getElem?_append_left (List.getElem?_eq_some_iff.1 hconfig).1 ▸ hconfig

/-- The configurations of an address space in the order of their numbers; none if there is no such
space. -/
def configs (asid : Asid) (t : ConfigTable) : List NetworkConfig :=
  ((t.space? asid).map AddressSpace.configs).getD []

theorem validCount_eq : t.validCount asid = (t.configs asid).length := by
  unfold validCount configs
  cases t.space? asid <;> rfl

theorem space?_attachAll_eq_none (spaces perSpace : Nat) (calls : List (Asid × Supply)) :
    ((empty spaces perSpace).attachAll calls).space? asid = none ↔ spaces ≤ asid.toNat := by
  obtain ⟨added, -, hrow⟩ := @space?_attachAll asid calls (empty spaces perSpace)
  rw [hrow, Option.map_eq_none_iff]
  simp [space?, empty]

/-- Nothing is put into a row that does not exist. -/
theorem taken_eq_nil (calls : List (Asid × Supply)) (h : t.space? asid = none) : taken asid calls t = [] := by
  induction calls generalizing t with
  | nil => rfl
  | cons call calls ih =>
    obtain ⟨a, supply⟩ := call
    obtain ⟨_, -, hrow⟩ := @space?_after asid a supply t
    have hrest := ih (hrow.trans (by rw [h]; rfl))
    have hrefused : a = asid → (t.attach a supply).1.isOk = false := by
      rintro rfl
      rw [attach_error_iff.2 ⟨.inl (writable_error_range.2 h), rfl⟩]
      rfl
    rw [taken, hrest, List.append_nil, if_neg fun hok => ?_]
    rw [hrefused hok.1] at hok
    exact Bool.false_ne_true hok.2

/-- The configurations of a row are the contents of the supplies that were taken into it. -/
theorem configs_attachAll (spaces perSpace : Nat) (calls : List (Asid × Supply)) (asid : Asid) :
    (((empty spaces perSpace).attachAll calls).configs asid).map .ok =
      (taken asid calls (empty spaces perSpace)).map content := by
  obtain ⟨added, hadded, hrow⟩ := @space?_attachAll asid calls (empty spaces perSpace)
  by_cases hspace : asid.toNat < spaces
  · rw [← hadded, configs, hrow]
    simp [space?, empty, hspace]
  · have hnone : (empty spaces perSpace).space? asid = none := by
      simpa [space?, empty] using hspace
    rw [taken_eq_nil calls hnone, configs, hrow, hnone]
    rfl

section

variable (spaces perSpace : Nat) (calls : List (Asid × Supply)) (asid : Asid)

theorem validCount_attachAll : ((empty spaces perSpace).attachAll calls).validCount asid =
    (taken asid calls (empty spaces perSpace)).length := by
  have hrow := congrArg List.length (configs_attachAll spaces perSpace calls asid)
  rwa [List.length_map, List.length_map, ← validCount_eq] at hrow

/-- A row that exists has the capacity it was made with and holds what was taken into it. -/
theorem row_attachAll {row : AddressSpace} (h : ((empty spaces perSpace).attachAll calls).space? asid = some row) :
    row.capacity = perSpace ∧ row.validCount = (taken asid calls (empty spaces perSpace)).length ∧
      row.validCount ≤ perSpace := by
  obtain ⟨hwithin, hsize⟩ := within_attachAll calls (within_empty spaces perSpace)
  obtain ⟨hcapacity, hle⟩ := hwithin asid row h
  have hcount := validCount_attachAll spaces perSpace calls asid
  rw [validCount, h] at hcount
  exact ⟨hcapacity.trans hsize, hcount, Nat.le_trans hle (Nat.le_of_eq hsize)⟩

theorem length_taken_le : (taken asid calls (empty spaces perSpace)).length ≤ perSpace := by
  cases hspace : ((empty spaces perSpace).attachAll calls).space? asid with
  | none =>
    have hcount := validCount_attachAll spaces perSpace calls asid
    rw [validCount, hspace] at hcount
    exact hcount ▸ Nat.zero_le _
  | some row =>
    obtain ⟨-, hcount, hle⟩ := row_attachAll spaces perSpace calls asid hspace
    exact hcount ▸ hle

theorem writable_range_iff : ((empty spaces perSpace).attachAll calls).writable asid =
    .error .addressSpaceOutOfRange ↔ spaces ≤ asid.toNat :=
  writable_error_range.trans (space?_attachAll_eq_none spaces perSpace calls)

theorem writable_capacity_iff : ((empty spaces perSpace).attachAll calls).writable asid =
    .error .capacityExceeded ↔
      asid.toNat < spaces ∧ (taken asid calls (empty spaces perSpace)).length = perSpace := by
  have hnone := @space?_attachAll_eq_none asid spaces perSpace calls
  rw [writable_error_capacity]
  constructor
  · rintro ⟨row, hspace, hfull⟩
    obtain ⟨hcapacity, hcount, -⟩ := row_attachAll spaces perSpace calls asid hspace
    rw [hspace] at hnone
    rw [AddressSpace.isFull, hcapacity, hcount, beq_iff_eq] at hfull
    exact ⟨by simpa using hnone, hfull⟩
  · rintro ⟨hlt, hcount⟩
    cases hspace : ((empty spaces perSpace).attachAll calls).space? asid with
    | none => exact absurd (hnone.1 hspace) (Nat.not_le.2 hlt)
    | some row =>
      obtain ⟨hcapacity, hvalid, -⟩ := row_attachAll spaces perSpace calls asid hspace
      exact ⟨row, rfl, by rw [AddressSpace.isFull, hcapacity, hvalid, hcount, beq_self_eq_true]⟩

end

/-- The configurations of a row store the words of the supplies that were taken into it. -/
theorem stored_attachAll (spaces perSpace : Nat) (calls : List (Asid × Supply)) (asid : Asid) :
    List.Forall₂ (fun supply config => ∃ words, StoredAs supply config words)
      (taken asid calls (empty spaces perSpace)) (((empty spaces perSpace).attachAll calls).configs asid) := by
  have hcontent := configs_attachAll spaces perSpace calls asid
  rw [← List.forall₂_eq_eq_eq, List.forall₂_map_left_iff, List.forall₂_map_right_iff] at hcontent
  exact hcontent.flip.imp fun supply config h => storedAs_of_content h.symm

/-- What becomes of a table that starts out empty, whatever attachments are tried on it: a row holds
the configurations of the successful ones in call order, each with the words that were supplied and
numbered by those before it, never more than it has room for; what has a number keeps it, and no other
row is touched. A call that fails leaves the table as it was, and where the row is to blame, which is
checked first, nothing has been read from a source and no file has been opened. -/
theorem attachments_append_only {spaces perSpace : Nat} (hnumbers : perSpace ≤ 2 ^ 32)
    (calls : List (Asid × Supply)) (asid : Asid) :
    let t := (empty spaces perSpace).attachAll calls
    let earlier := taken asid calls (empty spaces perSpace)
    List.Forall₂ (fun supply config => ∃ words, StoredAs supply config words) earlier (t.configs asid) ∧
    t.validCount asid = earlier.length ∧ t.validCount asid ≤ perSpace ∧
    (∀ supply nnid t', t.attach asid supply = (.ok nnid, t') →
      nnid.toNat = earlier.length ∧
      (∃ config words, t'.configs asid = t.configs asid ++ [config] ∧ t'.config? asid nnid = some config ∧
        StoredAs supply config words) ∧
      ∀ a, a ≠ asid → t'.space? a = t.space? a) ∧
    (∀ nnid config later, t.config? asid nnid = some config →
      (t.attachAll later).config? asid nnid = some config) ∧
    (∀ supply e t', t.attach asid supply = (.error e, t') → t' = t) ∧
    (∀ supply, (t.attach asid supply).1 = .error .addressSpaceOutOfRange ↔ spaces ≤ asid.toNat) ∧
    (∀ supply, (t.attach asid supply).1 = .error .capacityExceeded ↔
      asid.toNat < spaces ∧ earlier.length = perSpace) ∧
    (spaces ≤ asid.toNat ∨ earlier.length = perSpace →
      (∀ source, (t.attachSource asid source).2 = source ∧ (t.attachReader asid source).2 = source) ∧
      ∀ file file', t.attachFile asid file = t.attachFile asid file') := by
  intro t earlier
  have hcount : t.validCount asid = earlier.length := validCount_attachAll spaces perSpace calls asid
  have hrange : t.writable asid = .error .addressSpaceOutOfRange ↔ spaces ≤ asid.toNat :=
    writable_range_iff spaces perSpace calls asid
  have hfull : t.writable asid = .error .capacityExceeded ↔ asid.toNat < spaces ∧ earlier.length = perSpace :=
    writable_capacity_iff spaces perSpace calls asid
  have hle : earlier.length ≤ perSpace := length_taken_le spaces perSpace calls asid
  refine ⟨stored_attachAll spaces perSpace calls asid, hcount, hcount ▸ hle, ?_, ?_, ?_, ?_, ?_, ?_⟩
  case refine_1 =>
    intro supply nnid t' hattach
    obtain ⟨row, config, hroom, hcontent, rfl, rfl⟩ := attach_ok_iff.1 hattach
    obtain ⟨hspace, hnot⟩ := writable_ok hroom
    obtain ⟨hcapacity, hvalid, -⟩ := row_attachAll spaces perSpace calls asid hspace
    have hlt : row.validCount < perSpace := by
      rw [AddressSpace.isFull, hcapacity, beq_eq_false_iff_ne] at hnot
      exact Nat.lt_of_le_of_ne (hvalid ▸ hle) hnot
    have hnumber : (BitVec.ofNat 32 row.validCount).toNat = row.validCount := by
      rw [BitVec.toNat_ofNat, Nat.mod_eq_of_lt (Nat.lt_of_lt_of_le hlt hnumbers)]
    have hgrown : (t.modifySpace asid (AddressSpace.append config)).space? asid = some (row.append config) := by
      rw [space?_modifySpace, hspace, Option.map_some, if_pos rfl]
    have hlast : (row.append config).config? (BitVec.ofNat 32 row.validCount) = some config := by
      unfold AddressSpace.config?
      rw [hnumber]
      exact List.getElem?_concat_length
    obtain ⟨words, hstored⟩ := storedAs_of_content hcontent
    refine ⟨hnumber.trans hvalid, ⟨config, words, ?_, ?_, hstored⟩, fun a ha => ?_⟩
    · simp only [configs, hgrown, hspace, AddressSpace.append, Option.map_some, Option.getD_some]
    · simp only [config?, hgrown, Option.bind_some, hlast]
    · simp [space?_modifySpace, Ne.symm ha]
  case refine_2 => exact fun nnid config later h => config?_attachAll later h
  case refine_3 => exact fun supply e t' hattach => (attach_error_iff.1 hattach).2
  case refine_4 => exact fun supply => (attach_error_row (.inl rfl)).trans hrange
  case refine_5 => exact fun supply => (attach_error_row (.inr rfl)).trans hfull
  case refine_6 =>
    intro hrefused
    obtain ⟨e, he⟩ : ∃ e, t.writable asid = .error e := by
      by_cases hspace : spaces ≤ asid.toNat
      · exact ⟨_, hrange.2 hspace⟩
      · exact ⟨_, hfull.2 ⟨Nat.not_le.1 hspace, hrefused.resolve_left hspace⟩⟩
    refine ⟨fun source => ⟨?_, ?_⟩, fun file file' => ?_⟩
    · simp only [attachSource, attachFrom, he]
    · simp only [attachReader, attachFrom, he]
    · simp only [attachFile, he]

/-- Three of six attachments are refused, one of them only when a part of its source has been read. -/
theorem mixed_attachments_append_only :
    let calls : List (Asid × Supply) := [(1, .words [7]), (0, .words []), (1, .source [.bytes [5], .failed]),
      (1, .reader [.bytes [5], .interrupted, .bytes [1]]), (2, .placeholder), (0, .file (.regular [9]))]
    2 ≤ 2 ^ 32 ∧ taken 1 calls (empty 2 2) = [.words [7], .reader [.bytes [5], .interrupted, .bytes [1]]] ∧
      (((empty 2 2).attachAll calls).configs 1).map (·.words) = [[7], [0x105]] ∧
      (((empty 2 2).attachAll calls).attach 1 (.words [3])).1 = .error .capacityExceeded := by
  intro calls
  have htaken : taken 1 calls (empty 2 2) = [.words [7], .reader [.bytes [5], .interrupted, .bytes [1]]] := by
    decide +kernel
  obtain ⟨hrow, -, -, -, -, -, -, hfull, -⟩ := @attachments_append_only 2 2 (by decide) calls 1
  refine ⟨by decide, htaken, ?_, (hfull _).2 ⟨by decide, by rw [htaken]; rfl⟩⟩
  rw [htaken] at hrow
  obtain ⟨first, rest, ⟨_, hfirst⟩, hrest, hconfigs⟩ := List.forall₂_cons_left_iff.1 hrow
  obtain ⟨second, _, ⟨_, hsecond⟩, hnil, rfl⟩ := List.forall₂_cons_left_iff.1 hrest
  obtain rfl := List.forall₂_nil_left_iff.1 hnil
  have hseven := Option.some.inj hfirst.supplied
  have hbytes := Option.some.inj hsecond.supplied
  rw [hconfigs, List.map_cons, List.map_singleton, hfirst.words, hsecond.words, ← hseven, ← hbytes]
  decide +kernel

end ConfigTable

end NeuralEngine
