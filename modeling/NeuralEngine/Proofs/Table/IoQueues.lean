import NeuralEngine.Proofs.Table.AppendOnly

/-!
# The transfer queues of a table

Each address space has a queue in either direction, and calls on them come between attachments and
status writes in any order. What a transfer call can do to a table is said once (`afterTransfer_eq`): it
changes the transfer state of one address space, and there no more than the call allows. The words that
were popped and those that are held are the words that were accepted (`held_afterCall` for one call), so a
queue is first in, first out, however the calls on it are mixed with others; and a push is only
accepted while there is room.
-/

namespace NeuralEngine

/-- The directions of a transfer, each with a queue of its own. -/
inductive Lane where
  | input
  | output
deriving DecidableEq, Repr

namespace IoRegion

/-- The queue of a lane. -/
def queue (lane : Lane) (r : IoRegion) : IoQueue :=
  match lane with
  | .input => r.input
  | .output => r.output

/-- Replaces the queue of a lane. -/
def setQueue (lane : Lane) (queue : IoQueue) (r : IoRegion) : IoRegion :=
  match lane with
  | .input => { r with input := queue }
  | .output => { r with output := queue }

theorem queue_setQueue (lane l : Lane) (q : IoQueue) (r : IoRegion) :
    (r.setQueue lane q).queue l = if lane = l then q else r.queue l := by
  cases lane <;> cases l <;> rfl

theorem status_setQueue (lane : Lane) (q : IoQueue) (r : IoRegion) : (r.setQueue lane q).status = r.status := by
  cases lane <;> rfl

end IoRegion

/-- A call on the transfer state of an address space. -/
inductive TransferCall where
  | setStatus (status : Word)
  | push (lane : Lane) (word : Word)
  | pop (lane : Lane)
deriving DecidableEq, Repr

namespace TransferCall

/-- The lane that a call is on; a status write is on none. -/
def lane? : TransferCall → Option Lane
  | setStatus _ => none
  | push lane _ => some lane
  | pop lane => some lane

/-- What a call may do to the transfer state of its address space: a status write keeps the queues, a call
on a lane keeps the status word and the other lane. -/
structure Allows (call : TransferCall) (change : IoRegion → IoRegion) : Prop where
  queue : ∀ r lane, call.lane? ≠ some lane → (change r).queue lane = r.queue lane
  status : ∀ r, call.lane? ≠ none → (change r).status = r.status

theorem allows_id (call : TransferCall) : call.Allows id :=
  ⟨fun _ _ _ => rfl, fun _ _ => rfl⟩

theorem allows_setStatus (status : Word) : (setStatus status).Allows fun r => { r with status := status } where
  queue r lane _ := by cases lane <;> rfl
  status r h := absurd rfl h

theorem allows_setQueue {call : TransferCall} {lane : Lane} (h : call.lane? = some lane) (q : IoQueue) :
    call.Allows (IoRegion.setQueue lane q) where
  queue r l hl := by
    rw [IoRegion.queue_setQueue, if_neg]
    rintro rfl
    exact hl h
  status r _ := IoRegion.status_setQueue lane q r

end TransferCall

/-- A call that may change a table. -/
inductive TableCall where
  | attach (supply : Supply)
  | transfer (call : TransferCall)
deriving DecidableEq, Repr

namespace ConfigTable

variable {asid a b : Asid} {lane l : Lane} {word : Word} {q : IoQueue} {t : ConfigTable}

/-! ## Calls -/

def status? (asid : Asid) (t : ConfigTable) : Option Word :=
  (t.space? asid).map (·.io.status)

def queue? (asid : Asid) (lane : Lane) (t : ConfigTable) : Option IoQueue :=
  (t.space? asid).map (·.io.queue lane)

def setQueue (asid : Asid) (lane : Lane) (queue : IoQueue) (t : ConfigTable) : ConfigTable :=
  match lane with
  | .input => t.setInput asid queue
  | .output => t.setOutput asid queue

/-- Pushes a word; there is no answer if there is no such address space. -/
def push (asid : Asid) (lane : Lane) (word : Word) (t : ConfigTable) : Option (Except Word Unit) × ConfigTable :=
  match t.queue? asid lane with
  | none => (none, t)
  | some queue =>
    match queue.push word with
    | .error rejected => (some (.error rejected), t)
    | .ok queue => (some (.ok ()), t.setQueue asid lane queue)

/-- Pops a word; there is no answer if there is no such address space. -/
def pop (asid : Asid) (lane : Lane) (t : ConfigTable) : Option (Option Word) × ConfigTable :=
  match t.queue? asid lane with
  | none => (none, t)
  | some queue => (some queue.pop.1, t.setQueue asid lane queue.pop.2)

/-- The table after a transfer call. -/
def afterTransfer (asid : Asid) : TransferCall → ConfigTable → ConfigTable
  | .setStatus status, t => t.setStatus asid status
  | .push lane word, t => (t.push asid lane word).2
  | .pop lane, t => (t.pop asid lane).2

/-- The table after a call. -/
def afterCall (asid : Asid) : TableCall → ConfigTable → ConfigTable
  | .attach supply, t => t.after asid supply
  | .transfer call, t => t.afterTransfer asid call

/-- The table after a sequence of calls. -/
def run : List (Asid × TableCall) → ConfigTable → ConfigTable
  | [], t => t
  | (asid, call) :: calls, t => run calls (t.afterCall asid call)

/-! ## What a transfer call changes -/

/-- A change of one row does not show where nobody looks at it. -/
theorem map_modifySpace {α : Type} {view : AddressSpace → α} {change : AddressSpace → AddressSpace}
    (unseen : ∀ s, view (change s) = view s) (a b : Asid) (t : ConfigTable) :
    ((t.modifySpace a change).space? b).map view = (t.space? b).map view := by
  rw [space?_modifySpace, Option.map_map]
  congr 1
  funext s
  by_cases hspace : a = b <;> simp [hspace, unseen]

theorem setQueue_eq (a : Asid) (lane : Lane) (q : IoQueue) (t : ConfigTable) :
    t.setQueue a lane q = t.modifySpace a fun s => { s with io := s.io.setQueue lane q } := by
  cases lane <;> rfl

theorem queue?_setQueue : (t.setQueue a lane q).queue? a lane = (t.queue? a lane).map fun _ => q := by
  unfold queue?
  rw [setQueue_eq, space?_modifySpace, Option.map_map, Option.map_map]
  congr 1
  funext s
  simp [IoRegion.queue_setQueue]

theorem push_of_none (h : t.queue? asid lane = none) : t.push asid lane word = (none, t) := by
  unfold push
  rw [h]

theorem push_of_full (h : t.queue? asid lane = some q) (full : q.words.length = 16) :
    t.push asid lane word = (some (.error word), t) := by
  have hpush : q.push word = .error word := if_pos (beq_iff_eq.2 full)
  unfold push
  simp only [h, hpush]

theorem push_of_room (h : t.queue? asid lane = some q) (room : q.words.length ≠ 16) :
    t.push asid lane word = (some (.ok ()), t.setQueue asid lane ⟨q.words ++ [word]⟩) := by
  have hpush : q.push word = .ok ⟨q.words ++ [word]⟩ := if_neg fun hfull => room (beq_iff_eq.1 hfull)
  unfold push
  simp only [h, hpush]

/-- A push is rejected, and changes nothing, just when the queue is full. -/
theorem push_rejected_iff (h : t.queue? asid lane = some q) :
    t.push asid lane word = (some (.error word), t) ↔ q.words.length = 16 := by
  refine ⟨fun hrejected => Decidable.byContradiction fun hroom => ?_, push_of_full h⟩
  rw [push_of_room h hroom] at hrejected
  cases hrejected

theorem pop_of_none (h : t.queue? asid lane = none) : t.pop asid lane = (none, t) := by
  unfold pop
  rw [h]

theorem pop_of_some (h : t.queue? asid lane = some q) :
    t.pop asid lane = (some q.words.head?, t.setQueue asid lane ⟨q.words.tail⟩) := by
  unfold pop
  rw [h]
  rfl

/-- A transfer call changes nothing but the transfer state of one address space. -/
theorem afterTransfer_eq (a : Asid) (call : TransferCall) (t : ConfigTable) : ∃ change, call.Allows change ∧
    t.afterTransfer a call = t.modifySpace a fun s => { s with io := change s.io } := by
  have hsame : t = t.modifySpace a fun s => { s with io := id s.io } := by
    unfold modifySpace
    rw [show (fun s : AddressSpace => { s with io := id s.io }) = id from rfl, List.modify_id]
  cases call with
  | setStatus status => exact ⟨_, TransferCall.allows_setStatus status, rfl⟩
  | push lane word =>
    simp only [afterTransfer]
    cases h : t.queue? a lane with
    | none =>
      rw [push_of_none h]
      exact ⟨id, TransferCall.allows_id _, hsame⟩
    | some q =>
      by_cases hfull : q.words.length = 16
      · rw [push_of_full h hfull]
        exact ⟨id, TransferCall.allows_id _, hsame⟩
      · rw [push_of_room h hfull]
        exact ⟨_, TransferCall.allows_setQueue rfl _, setQueue_eq a lane _ t⟩
  | pop lane =>
    simp only [afterTransfer]
    cases h : t.queue? a lane with
    | none =>
      rw [pop_of_none h]
      exact ⟨id, TransferCall.allows_id _, hsame⟩
    | some q =>
      rw [pop_of_some h]
      exact ⟨_, TransferCall.allows_setQueue rfl _, setQueue_eq a lane _ t⟩

section Frame

variable (t) (a b) (call : TransferCall)

/-- Attachments leave the transfer state alone. -/
theorem io_after (supply : Supply) :
    ((t.after a supply).space? b).map AddressSpace.io = (t.space? b).map AddressSpace.io := by
  obtain ⟨configs, -, hrow⟩ := @space?_after b a supply t
  rw [hrow, Option.map_map]
  rfl

/-- Transfers leave the configurations alone. -/
theorem configs_afterTransfer :
    ((t.afterTransfer a call).space? b).map AddressSpace.configs = (t.space? b).map AddressSpace.configs := by
  obtain ⟨change, -, h⟩ := afterTransfer_eq a call t
  rw [h, map_modifySpace]
  exact fun _ => rfl

/-- A transfer touches one address space. -/
theorem space?_afterTransfer (other : a ≠ b) : (t.afterTransfer a call).space? b = t.space? b := by
  obtain ⟨change, -, h⟩ := afterTransfer_eq a call t
  simp [h, space?_modifySpace, other]

/-- A transfer touches no queue but the one that it is on. -/
theorem queue?_afterTransfer (lane : Lane) (other : a = b → call.lane? ≠ some lane) :
    (t.afterTransfer a call).queue? b lane = t.queue? b lane := by
  obtain ⟨change, hchange, h⟩ := afterTransfer_eq a call t
  unfold queue?
  by_cases hspace : a = b
  · rw [h]
    exact map_modifySpace (fun s => hchange.queue s.io lane (other hspace)) a b t
  · rw [space?_afterTransfer a b t call hspace]

/-- Only a status write touches a status word. -/
theorem status?_afterTransfer (onLane : call.lane? ≠ none) :
    (t.afterTransfer a call).status? b = t.status? b := by
  obtain ⟨change, hchange, h⟩ := afterTransfer_eq a call t
  unfold status?
  rw [h]
  exact map_modifySpace (fun s => hchange.status s.io onLane) a b t

end Frame

/-! ## Histories -/

/-- The words that a queue holds, the oldest first; none if there is no such address space. -/
def held (asid : Asid) (lane : Lane) (t : ConfigTable) : List Word :=
  ((t.queue? asid lane).map IoQueue.words).getD []

/-- The word that a call puts into a queue: that of a push on it which is not rejected. -/
def pushedBy (asid : Asid) (lane : Lane) (a : Asid) : TableCall → ConfigTable → List Word
  | .transfer (.push l word), t =>
    if a = asid ∧ l = lane ∧ (t.push a l word).1.any Except.isOk then [word] else []
  | _, _ => []

/-- The word that a call takes out of a queue: the answer to a pop on it. -/
def poppedBy (asid : Asid) (lane : Lane) (a : Asid) : TableCall → ConfigTable → List Word
  | .transfer (.pop l), t => if a = asid ∧ l = lane then (t.pop a l).1.join.toList else []
  | _, _ => []

/-- The words whose push on a queue is accepted, in call order. -/
def pushed (asid : Asid) (lane : Lane) : List (Asid × TableCall) → ConfigTable → List Word
  | [], _ => []
  | (a, call) :: calls, t => pushedBy asid lane a call t ++ pushed asid lane calls (t.afterCall a call)

/-- The words that are popped from a queue, in call order. -/
def popped (asid : Asid) (lane : Lane) : List (Asid × TableCall) → ConfigTable → List Word
  | [], _ => []
  | (a, call) :: calls, t => poppedBy asid lane a call t ++ popped asid lane calls (t.afterCall a call)

theorem held_congr {t' : ConfigTable} (h : t'.queue? asid lane = t.queue? asid lane) :
    t'.held asid lane = t.held asid lane := by
  unfold held
  rw [h]

theorem held_of_some (h : t.queue? asid lane = some q) : t.held asid lane = q.words := by
  unfold held
  rw [h]
  rfl

theorem held_setQueue (h : t.queue? asid lane = some q) (new : IoQueue) :
    (t.setQueue asid lane new).held asid lane = new.words := by
  refine held_of_some ?_
  rw [queue?_setQueue, h]
  rfl

/-- A push adds its word to those that are held, unless it is rejected. -/
theorem held_push (asid : Asid) (lane : Lane) (word : Word) (t : ConfigTable) :
    (t.push asid lane word).2.held asid lane =
      t.held asid lane ++ if (t.push asid lane word).1.any Except.isOk then [word] else [] := by
  cases h : t.queue? asid lane with
  | none => simp [push_of_none h]
  | some q =>
    by_cases hfull : q.words.length = 16
    · simp [push_of_full h hfull, Except.isOk, Except.toBool]
    · rw [push_of_room h hfull, held_setQueue h, held_of_some h]
      rfl

/-- A pop takes the oldest word from those that are held. -/
theorem held_pop (asid : Asid) (lane : Lane) (t : ConfigTable) :
    (t.pop asid lane).1.join.toList ++ (t.pop asid lane).2.held asid lane = t.held asid lane := by
  cases h : t.queue? asid lane with
  | none => simp [pop_of_none h]
  | some q =>
    rw [pop_of_some h, held_setQueue h, held_of_some h]
    cases q.words <;> rfl

/-- A call that is not on a queue puts no word into it and takes none out. -/
theorem moved_eq_nil (t : ConfigTable) {call : TransferCall} (other : a = asid → call.lane? ≠ some lane) :
    pushedBy asid lane a (.transfer call) t = [] ∧ poppedBy asid lane a (.transfer call) t = [] := by
  cases call with
  | setStatus status => exact ⟨rfl, rfl⟩
  | push l word =>
    have hne : ¬ (a = asid ∧ l = lane) := fun ⟨hspace, hlane⟩ => other hspace (congrArg some hlane)
    exact ⟨if_neg fun h => hne ⟨h.1, h.2.1⟩, rfl⟩
  | pop l =>
    have hne : ¬ (a = asid ∧ l = lane) := fun ⟨hspace, hlane⟩ => other hspace (congrArg some hlane)
    exact ⟨rfl, if_neg hne⟩

/-- One call leaves a queue with what it held and what the call puts behind it, less what the call takes from
its front. -/
theorem held_afterCall (asid : Asid) (lane : Lane) (a : Asid) (call : TableCall) (t : ConfigTable) :
    poppedBy asid lane a call t ++ (t.afterCall a call).held asid lane =
      t.held asid lane ++ pushedBy asid lane a call t := by
  cases call with
  | attach supply =>
    have hio := congrArg (Option.map (IoRegion.queue lane)) (io_after a asid t supply)
    rw [Option.map_map, Option.map_map] at hio
    exact (held_congr hio).trans (List.append_nil _).symm
  | transfer call =>
    by_cases hon : a = asid ∧ call.lane? = some lane
    · obtain ⟨rfl, hlane⟩ := hon
      cases call with
      | setStatus status => cases hlane
      | push l word =>
        cases hlane
        simpa [pushedBy, poppedBy, afterCall, afterTransfer] using held_push a lane word t
      | pop l =>
        cases hlane
        simpa [pushedBy, poppedBy, afterCall, afterTransfer] using held_pop a lane t
    · have hother : a = asid → call.lane? ≠ some lane := fun hspace hlane => hon ⟨hspace, hlane⟩
      obtain ⟨hpushed, hpopped⟩ := moved_eq_nil t hother
      rw [hpushed, hpopped, List.append_nil, List.nil_append]
      exact held_congr (queue?_afterTransfer a asid t call lane hother)

/-- The words popped in a sequence of calls and those held after it are those held before it and those pushed. -/
theorem popped_append_held (asid : Asid) (lane : Lane) (calls : List (Asid × TableCall)) (t : ConfigTable) :
    popped asid lane calls t ++ (t.run calls).held asid lane = t.held asid lane ++ pushed asid lane calls t := by
  induction calls generalizing t with
  | nil => exact (List.append_nil _).symm
  | cons call calls ih =>
    obtain ⟨a, call⟩ := call
    simp only [popped, pushed, run]
    rw [List.append_assoc, ih, ← List.append_assoc, held_afterCall, List.append_assoc]

/-- A word is put into a queue only if there is room for it. -/
theorem length_pushedBy (a : Asid) (call : TableCall) (h : (t.held asid lane).length ≤ 16) :
    (t.held asid lane).length + (pushedBy asid lane a call t).length ≤ 16 := by
  cases call with
  | attach supply => exact h
  | transfer call =>
    cases call with
    | setStatus status => exact h
    | pop l => exact h
    | push l word =>
      simp only [pushedBy]
      split
      case isFalse => exact h
      case isTrue hok =>
        obtain ⟨rfl, rfl, haccepted⟩ := hok
        cases hqueue : t.queue? a l with
        | none => simp [push_of_none hqueue] at haccepted
        | some q =>
          by_cases hfull : q.words.length = 16
          · simp [push_of_full hqueue hfull, Except.isOk, Except.toBool] at haccepted
          · rw [held_of_some hqueue] at h ⊢
            rw [List.length_singleton]
            omega

theorem length_held_run (calls : List (Asid × TableCall)) (h : (t.held asid lane).length ≤ 16) :
    ((t.run calls).held asid lane).length ≤ 16 := by
  induction calls generalizing t with
  | nil => exact h
  | cons call calls ih =>
    obtain ⟨a, call⟩ := call
    refine ih ?_
    have hmoved := congrArg List.length (held_afterCall asid lane a call t)
    have hroom := length_pushedBy a call h
    rw [List.length_append, List.length_append] at hmoved
    omega

theorem space?_empty (spaces perSpace : Nat) (asid : Asid) :
    (empty spaces perSpace).space? asid = if asid.toNat < spaces then some { capacity := perSpace } else none := by
  simp [space?, empty, List.getElem?_replicate]

theorem held_empty (spaces perSpace : Nat) (asid : Asid) (lane : Lane) :
    (empty spaces perSpace).held asid lane = [] := by
  unfold held queue?
  rw [space?_empty]
  split
  · cases lane <;> rfl
  · rfl

/-- No call makes or removes an address space. -/
theorem isSome_space?_run (calls : List (Asid × TableCall)) (t : ConfigTable) :
    ((t.run calls).space? asid).isSome = (t.space? asid).isSome := by
  induction calls generalizing t with
  | nil => rfl
  | cons call calls ih =>
    obtain ⟨a, call⟩ := call
    refine (ih _).trans ?_
    cases call with
    | attach supply => simpa [afterCall] using congrArg Option.isSome (io_after a asid t supply)
    | transfer call => simpa [afterCall] using congrArg Option.isSome (configs_afterTransfer a asid t call)

/-- The address spaces of a table have both queues, whatever calls were made on it. -/
theorem queue?_run_empty (spaces perSpace : Nat) (calls : List (Asid × TableCall)) (asid : Asid) (lane : Lane) :
    (((empty spaces perSpace).run calls).queue? asid lane).isSome = decide (asid.toNat < spaces) := by
  unfold queue?
  rw [Option.isSome_map, isSome_space?_run, space?_empty]
  split <;> simp [*]

/-- The transfer queues of a table that starts out empty, whatever attachments, status writes, pushes and pops are
made on it in whatever order. The words popped from a queue, and behind them those it holds, are those whose push was
accepted, in order; it holds sixteen at most, rejects a push just when it holds so many, and has nothing to pop just
when it holds none. In every table, an attachment leaves the transfer state alone, and a transfer leaves alone the
configurations, the other address spaces, the other queue and, unless it is a status write, the status word. -/
theorem queues_first_in_first_out :
    (∀ (spaces perSpace : Nat) (calls : List (Asid × TableCall)) (asid : Asid) (lane : Lane),
      let start := empty spaces perSpace
      let t := start.run calls
      popped asid lane calls start ++ t.held asid lane = pushed asid lane calls start ∧
      (t.held asid lane).length ≤ 16 ∧
      (asid.toNat < spaces →
        (∀ word, t.push asid lane word = (some (.error word), t) ↔ (t.held asid lane).length = 16) ∧
        (∀ word, (t.held asid lane).length ≠ 16 → ∃ t', t.push asid lane word = (some (.ok ()), t') ∧
          t'.held asid lane = t.held asid lane ++ [word]) ∧
        ((t.pop asid lane).1 = some none ↔ t.held asid lane = []) ∧
        ∀ word rest, t.held asid lane = word :: rest → ∃ t', t.pop asid lane = (some (some word), t') ∧
          t'.held asid lane = rest) ∧
      (spaces ≤ asid.toNat → t.pop asid lane = (none, t) ∧ ∀ word, t.push asid lane word = (none, t))) ∧
    (∀ (t : ConfigTable) (a b : Asid) (supply : Supply),
      ((t.after a supply).space? b).map AddressSpace.io = (t.space? b).map AddressSpace.io) ∧
    ∀ (t : ConfigTable) (a b : Asid) (call : TransferCall),
      ((t.afterTransfer a call).space? b).map AddressSpace.configs = (t.space? b).map AddressSpace.configs ∧
      (a ≠ b → (t.afterTransfer a call).space? b = t.space? b) ∧
      (∀ lane, call.lane? ≠ some lane → (t.afterTransfer a call).queue? b lane = t.queue? b lane) ∧
      (call.lane? ≠ none → (t.afterTransfer a call).status? b = t.status? b) := by
  refine ⟨fun spaces perSpace calls asid lane => ?history, fun t a b supply => io_after a b t supply,
    fun t a b call => ⟨configs_afterTransfer a b t call, space?_afterTransfer a b t call,
      fun lane hlane => queue?_afterTransfer a b t call lane fun _ => hlane, status?_afterTransfer a b t call⟩⟩
  case history =>
    intro start t
    have hstart : start.held asid lane = [] := held_empty spaces perSpace asid lane
    have hqueue := queue?_run_empty spaces perSpace calls asid lane
    refine ⟨?_, length_held_run calls (by simp [hstart]), fun hspace => ?_, fun hspace => ?_⟩
    · rw [popped_append_held, hstart, List.nil_append]
    · obtain ⟨q, hq⟩ := Option.isSome_iff_exists.1 (hqueue.trans (decide_eq_true hspace))
      rw [held_of_some hq]
      refine ⟨fun word => push_rejected_iff hq, fun word hroom => ?_, ?_, fun word rest hwords => ?_⟩
      · exact ⟨_, push_of_room hq hroom, held_setQueue hq _⟩
      · rw [pop_of_some hq, Option.some.injEq, List.head?_eq_none_iff]
      · refine ⟨_, (pop_of_some hq).trans ?_, held_setQueue hq ⟨rest⟩⟩
        rw [hwords]
        rfl
    · have hnone : t.queue? asid lane = none := by
        rw [← Option.not_isSome_iff_eq_none, hqueue]
        simpa using hspace
      exact ⟨pop_of_none hnone, fun word => push_of_none hnone⟩

/-- Calls on both queues with an attachment and a status write between them, and a queue that is full. -/
theorem mixed_calls_first_in_first_out :
    let calls : List (Asid × TableCall) := [(1, .attach (.words [7])), (0, .transfer (.push .input 5)),
      (0, .transfer (.push .output 6)), (0, .transfer (.setStatus 3)), (0, .transfer (.push .input 8)),
      (0, .transfer (.pop .input))]
    let t := (empty 2 1).run calls
    let full := (empty 2 1).run (List.replicate 16 (0, .transfer (.push .input 5)))
    popped 0 .input calls (empty 2 1) ++ t.held 0 .input = pushed 0 .input calls (empty 2 1) ∧
      (popped 0 .input calls (empty 2 1) = [5] ∧ t.held 0 .input = [8]) ∧
      (∃ t', t.push 0 .input 9 = (some (.ok ()), t') ∧ t'.held 0 .input = [8, 9]) ∧
      (∃ t', t.pop 0 .input = (some (some 8), t') ∧ t'.held 0 .input = []) ∧ t.pop 2 .input = (none, t) ∧
      full.push 0 .input 9 = (some (.error 9), full) ∧
      (t.afterTransfer 0 (.pop .input)).space? 1 = t.space? 1 ∧
      (t.afterTransfer 0 (.pop .input)).queue? 0 .output = t.queue? 0 .output ∧
      (t.afterTransfer 0 (.pop .input)).status? 0 = t.status? 0 := by
  intro calls t full
  obtain ⟨hhistory, -, hframe⟩ := queues_first_in_first_out
  obtain ⟨hfifo, -, hspace, -⟩ := hhistory 2 1 calls 0 .input
  obtain ⟨-, hpush, -, hpop⟩ := hspace (by decide)
  obtain ⟨-, -, hfull, -⟩ := hhistory 2 1 (List.replicate 16 (0, .transfer (.push .input 5))) 0 .input
  obtain ⟨-, -, -, houtside⟩ := hhistory 2 1 calls 2 .input
  obtain ⟨-, hother, -, -⟩ := hframe t 0 1 (.pop .input)
  have hheld : t.held 0 .input = [8] := by decide +kernel
  obtain ⟨-, -, hlane, hstatus⟩ := hframe t 0 0 (.pop .input)
  refine ⟨hfifo, ⟨by decide +kernel, hheld⟩, ?_, hpop 8 [] hheld, (houtside (by decide)).1,
    ((hfull (by decide)).1 9).2 (by decide +kernel), hother (by decide), hlane .output (by decide), hstatus (by decide)⟩
  obtain ⟨t', hanswer, hlonger⟩ := hpush 9 (by decide +kernel)
  exact ⟨t', hanswer, hlonger.trans (congrArg (· ++ [9]) hheld)⟩

end ConfigTable

end NeuralEngine
