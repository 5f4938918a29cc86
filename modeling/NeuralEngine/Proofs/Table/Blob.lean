import NeuralEngine.Table.Basic

/-!
# What a byte source delivers

A source answers in pieces of its own choice, a reader asks for pieces of a bounded size, and
neither shows in the blob: `ByteSource.blob?` says what a source delivers without either, and
reading to the end through a reader of any size yields just that. The answers that are left then
are `unread`.
-/

namespace NeuralEngine.ByteSource

/-- The bytes that the source delivers before an answer without bytes; none if a call fails before
that. An interruption is a failure unless the call is made again. -/
def blob? (retrying : Bool) : ByteSource → Option (List Byte)
  | [] => some []
  | .bytes [] :: _ => some []
  | .bytes data :: rest => (blob? retrying rest).map (data ++ ·)
  | .interrupted :: rest => if retrying then blob? retrying rest else none
  | .failed :: _ => none

/-- The answers behind the one that ends the blob or cuts it short. -/
def unread (retrying : Bool) : ByteSource → ByteSource
  | [] => []
  | .bytes [] :: rest => rest
  | .bytes _ :: rest => unread retrying rest
  | .interrupted :: rest => if retrying then unread retrying rest else rest
  | .failed :: rest => rest

/-- An answer can be given in two pieces. -/
theorem blob?_split {retrying : Bool} {front back : List Byte} {rest : ByteSource} (hback : back ≠ []) :
    blob? retrying (.bytes (front ++ back) :: rest) =
      (blob? retrying (.bytes back :: rest)).map (front ++ ·) := by
  obtain ⟨b, bs, rfl⟩ := List.exists_cons_of_ne_nil hback
  cases front with
  | nil => simp
  | cons f fs => simp [blob?, Function.comp_def]

theorem unread_bytes {retrying : Bool} {data : List Byte} {rest : ByteSource} (h : data ≠ []) :
    unread retrying (.bytes data :: rest) = unread retrying rest := by
  obtain ⟨b, bs, rfl⟩ := List.exists_cons_of_ne_nil h
  rfl

/-- What the first call on a source yields, and what the later ones have left to deliver. -/
structure Fetches (retrying : Bool) (source : ByteSource) (data : List Byte) (rest : ByteSource) : Prop where
  ended : data = [] → blob? retrying source = some [] ∧ unread retrying source = rest
  blob : data ≠ [] → blob? retrying source = (blob? retrying rest).map (data ++ ·)
  unread : data ≠ [] → unread retrying source = unread retrying rest
  left : data ≠ [] → callsLeft rest < callsLeft source

/-- A call on an answer with bytes takes some of them, so that fewer are left. -/
theorem fetches_bytes {retrying : Bool} {limit : Nat} (hlimit : 0 < limit) (data : List Byte)
    (rest : ByteSource) :
    ∃ front left, read limit (.bytes data :: rest) = (.ok front, left) ∧
      Fetches retrying (.bytes data :: rest) front left := by
  simp only [read]
  split
  case isTrue =>
    refine ⟨data, rest, rfl, ?_, ?_, unread_bytes, ?_⟩
    · rintro rfl
      exact ⟨rfl, rfl⟩
    · intro hdata
      obtain ⟨b, bs, rfl⟩ := List.exists_cons_of_ne_nil hdata
      rfl
    · intro _
      simp only [callsLeft, bytesLeft, List.length_cons]
      omega
  case isFalse hlong =>
    have hback : data.drop limit ≠ [] := fun hnil => hlong (List.drop_eq_nil_iff.1 hnil)
    refine ⟨data.take limit, .bytes (data.drop limit) :: rest, rfl, ?_, ?_, ?_, ?_⟩
    · intro hnil
      have := congrArg List.length hnil
      simp only [List.length_take, List.length_nil] at this
      omega
    · intro _
      have hsplit := @blob?_split retrying (data.take limit) _ rest hback
      rwa [List.take_append_drop] at hsplit
    · intro _
      have hdata : data ≠ [] := by
        rintro rfl
        exact hback List.drop_nil
      rw [unread_bytes hdata, unread_bytes hback]
    · intro _
      simp only [callsLeft, bytesLeft, List.length_cons, List.length_drop]
      omega

/-- What one call yields: a fault, if the blob is cut short there, or the next bytes of it. -/
def Calls (retrying : Bool) (reader : ByteSource → Except ReadFault (List Byte) × ByteSource)
    (source : ByteSource) : Prop :=
  (∃ fault rest, reader source = (.error fault, rest) ∧ blob? retrying source = none ∧
      unread retrying source = rest) ∨
    ∃ data rest, reader source = (.ok data, rest) ∧ Fetches retrying source data rest

theorem calls_read {limit : Nat} (hlimit : 0 < limit) (source : ByteSource) :
    Calls false (read limit) source := by
  match source with
  | [] =>
    exact .inr ⟨[], [], rfl, fun _ => ⟨rfl, rfl⟩, fun h => absurd rfl h, fun _ => rfl, fun h => absurd rfl h⟩
  | .interrupted :: rest => exact .inl ⟨_, rest, rfl, rfl, rfl⟩
  | .failed :: rest => exact .inl ⟨_, rest, rfl, rfl, rfl⟩
  | .bytes data :: rest => exact .inr (fetches_bytes hlimit data rest)

theorem calls_readRetrying {limit : Nat} (hlimit : 0 < limit) (source : ByteSource) :
    Calls true (readRetrying limit) source := by
  induction source with
  | nil =>
    exact .inr ⟨[], [], rfl, fun _ => ⟨rfl, rfl⟩, fun h => absurd rfl h, fun _ => rfl, fun h => absurd rfl h⟩
  | cons event rest ih =>
    cases event with
    | failed => exact .inl ⟨_, rest, rfl, rfl, rfl⟩
    | bytes data => exact .inr (fetches_bytes hlimit data rest)
    | interrupted =>
      -- the call that is made again starts behind the interruption
      have hblob : blob? true (.interrupted :: rest) = blob? true rest := rfl
      have hunread : ByteSource.unread true (.interrupted :: rest) = ByteSource.unread true rest := rfl
      have hleft : callsLeft rest < callsLeft (.interrupted :: rest) := by
        simp [callsLeft, bytesLeft]
      obtain ⟨fault, left, hcall, hnone, hrest⟩ | ⟨data, left, hcall, hfetch⟩ := ih
      · exact .inl ⟨fault, left, hcall, hblob.trans hnone, hunread.trans hrest⟩
      · exact .inr ⟨data, left, hcall, fun h => (hfetch.ended h).imp hblob.trans hunread.trans,
          fun h => hblob.trans (hfetch.blob h), fun h => hunread.trans (hfetch.unread h),
          fun h => Nat.lt_trans (hfetch.left h) hleft⟩

/-- Enough calls of a reader yield the blob and leave what is behind it. -/
theorem readWithin_eq_blob {retrying : Bool}
    {reader : ByteSource → Except ReadFault (List Byte) × ByteSource}
    (hcalls : ∀ source, Calls retrying reader source) {calls : Nat} {source : ByteSource}
    (henough : callsLeft source < calls) :
    (readWithin reader calls source).1.toOption = blob? retrying source ∧
      (readWithin reader calls source).2 = unread retrying source := by
  induction calls generalizing source with
  | zero => omega
  | succ calls ih =>
    obtain ⟨fault, rest, hcall, hnone, hrest⟩ | ⟨data, rest, hcall, hfetch⟩ := hcalls source
    · rw [hnone, hrest, readWithin, hcall]
      exact ⟨rfl, rfl⟩
    · cases data with
      | nil =>
        rw [(hfetch.ended rfl).1, (hfetch.ended rfl).2, readWithin, hcall]
        exact ⟨rfl, rfl⟩
      | cons b bs =>
        have hmore : callsLeft rest < calls := by
          have := hfetch.left (by simp)
          omega
        obtain ⟨hdata, hrest⟩ := ih hmore
        rw [hfetch.blob (by simp), hfetch.unread (by simp), ← hdata, ← hrest]
        simp only [readWithin, hcall, and_true]
        cases (readWithin reader calls rest).1 <;> rfl

theorem readAll_eq_blob {retrying : Bool}
    {reader : ByteSource → Except ReadFault (List Byte) × ByteSource}
    (hcalls : ∀ source, Calls retrying reader source) (source : ByteSource) :
    (readAll reader source).1.toOption = blob? retrying source :=
  (readWithin_eq_blob hcalls (Nat.lt_succ_self _)).1

theorem readAll_leaves_unread {retrying : Bool}
    {reader : ByteSource → Except ReadFault (List Byte) × ByteSource}
    (hcalls : ∀ source, Calls retrying reader source) (source : ByteSource) :
    (readAll reader source).2 = unread retrying source :=
  (readWithin_eq_blob hcalls (Nat.lt_succ_self _)).2

end NeuralEngine.ByteSource
