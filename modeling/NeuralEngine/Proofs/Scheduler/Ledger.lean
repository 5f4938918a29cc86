import Mathlib.Algebra.BigOperators.Fin
import NeuralEngine.Proofs.Scheduler.Pool

/-!
# The ledger of a run

A response reaches the scheduler as the answer to an open or a read that is not a bare status, or by
a poll. `arrivals` lists the responses of a history that did, `opened` the transactions whose opens
were presented. The ledger of a run enters each response that is routed, with the transaction that it
is used for; `Credit` says what a transaction owes to its entries, and `Ledger` that the entries are
the arrivals but for the inbox, and that identifiers go to the opens in their order. Every step of a
run keeps the ledger.
-/

namespace NeuralEngine

/-! ## Arrivals and opens -/

namespace Event

variable {m : Nat}

/-- The response that reaches the scheduler by an event. An answer of code `notDone` is no data, whatever
its kind. -/
def arrival? : Event m → Option Response
  | issued _ request answer =>
    match request.op? with
    | some .newRequest => if answer.kind? = some .status then none else some answer
    | some .readData =>
      if answer.kind? = some .data ∧ answer.exitCode ≠ .notDone then some answer else none
    | _ => none
  | polled answer => answer
  | stepped | asked .. | routed _ => none

/-- The transaction that is opened by an event. -/
def opening? : Event m → Option (Fin m)
  | issued t request _ => if request.op? = some .newRequest then some t else none
  | _ => none

end Event

namespace Run

variable {σ : Type} {n m : Nat}

/-- The responses that reached the scheduler, in order. -/
def arrivals (history : List (Event m)) : List Response :=
  history.filterMap Event.arrival?

/-- The transactions whose opens were presented, in order. -/
def opened (history : List (Event m)) : List (Fin m) :=
  history.filterMap Event.opening?

@[simp] theorem arrivals_append (history events : List (Event m)) :
    arrivals (history ++ events) = arrivals history ++ arrivals events :=
  List.filterMap_append

@[simp] theorem opened_append (history events : List (Event m)) :
    opened (history ++ events) = opened history ++ opened events :=
  List.filterMap_append

@[simp] theorem arrivals_singleton (event : Event m) : arrivals [event] = event.arrival?.toList := by
  unfold arrivals
  cases h : event.arrival? <;> simp [h]

@[simp] theorem opened_singleton (event : Event m) : opened [event] = event.opening?.toList := by
  unfold opened
  cases h : event.opening? <;> simp [h]

theorem opened_writeData (t : Fin m) (tid : Tid) (value : Element) (last : Bool) (answer : Response) :
    opened [.issued t (.writeData tid value last) answer] = [] := by
  cases last <;> rfl

theorem Turn.arrival_eq [Channel σ] {run run' : Run σ n m} {event : Event m} {prompt : Option Response}
    (h : Turn run event prompt run') : event.arrival? = prompt := by
  cases h with
  | idle => rfl
  | opened => simp [Event.arrival?, Transaction.opening]
  | registered => simp [Event.arrival?]
  | @accepted _ _ _ _ _ _ last => cases last <;> simp [Event.arrival?]
  | @busy _ _ _ _ _ _ last => cases last <;> simp [Event.arrival?]
  | read _ _ _ ok kind =>
    obtain kind | kind := kind <;> simp [Event.arrival?, kind, ok]
  | notDone _ _ _ code => simp [Event.arrival?, code]

theorem HasTurn.not_newWrite {run : Run σ n m} {i : Fin n} {t : Fin m} {state : SlotState}
    (turn : run.HasTurn i t state) (h : state ≠ .newWrite) : run.slots[i].state ≠ .newWrite :=
  turn.state ▸ h

/-! ## Entries -/

section Entries

variable (t : Fin m) (tid : Tid) (uses : List (Response × Fin m)) (r : Response)

/-- The responses that were used for a transaction. -/
def share : List Response :=
  (uses.filter fun use => use.2 = t).map Prod.fst

/-- The transactions that were given an identifier. -/
def assigned : List (Fin m) :=
  (uses.filter fun use => use.1.kind? = some .tid).map Prod.snd

/-- The data words. -/
def dataUsed : List Response :=
  (uses.map Prod.fst).filter fun r => r.kind? = some .data

/-- The data words that carry an identifier. -/
def tagged : List Response :=
  (dataUsed uses).filter fun r => r.tid = tid

theorem share_concat (u : Fin m) :
    share t (uses ++ [(r, u)]) = share t uses ++ if u = t then [r] else [] := by
  by_cases h : u = t <;> simp [share, h]

theorem assigned_concat (u : Fin m) :
    assigned (uses ++ [(r, u)]) = assigned uses ++ if r.kind? = some .tid then [u] else [] := by
  by_cases h : r.kind? = some .tid <;> simp [assigned, h]

theorem tagged_concat (u : Fin m) :
    tagged tid (uses ++ [(r, u)]) =
      tagged tid uses ++ if r.kind? = some .data ∧ r.tid = tid then [r] else [] := by
  by_cases hk : r.kind? = some .data <;> by_cases ht : r.tid = tid <;> simp [tagged, dataUsed, hk, ht]

/-- Every data word was used for one of the transactions. -/
theorem length_dataUsed :
    (dataUsed uses).length = ∑ t : Fin m, ((share t uses).filter fun r => r.kind? = some .data).length := by
  induction uses with
  | nil => simp [dataUsed, share]
  | cons use uses ih =>
    obtain ⟨r, u⟩ := use
    have hshare : ∀ t : Fin m,
        ((share t ((r, u) :: uses)).filter fun r => r.kind? = some .data).length =
          (if u = t then if r.kind? = some .data then 1 else 0 else 0) +
            ((share t uses).filter fun r => r.kind? = some .data).length := by
      intro t
      by_cases hu : u = t <;> by_cases hk : r.kind? = some .data <;>
        simp [share, hu, hk, Nat.add_comm]
    simp only [hshare, Finset.sum_add_distrib, Finset.sum_ite_eq, Finset.mem_univ, if_true, ← ih]
    by_cases hk : r.kind? = some .data <;> simp [dataUsed, hk, Nat.add_comm]

end Entries

/-- What a transaction owes to the entries of the ledger: nothing if it was given no identifier, and
otherwise the identifier of the first response that was used for it and, as outputs, the data words that
came with this identifier after that, as many as it has room for. -/
inductive Credit (uses : List (Response × Fin m)) (t : Fin m) (x : Transaction) : Prop where
  | unassigned (share_eq : share t uses = []) (tid_eq : x.tid = none) (outputs_eq : x.outputs = #[])
  | assigned (first : Response) (before after : List (Response × Fin m))
      (uses_eq : uses = before ++ (first, t) :: after) (kind : first.kind? = some .tid)
      (tid_eq : x.tid = some first.tid)
      (share_eq : share t uses = first :: (tagged first.tid after).take x.outputCount)
      (outputs_eq : x.outputs.toList = ((tagged first.tid after).take x.outputCount).map Response.element)

namespace Credit

variable {uses : List (Response × Fin m)} {t u : Fin m} {x : Transaction} {r : Response}

/-- The identifier of another transaction changes nothing. -/
theorem assign_ne (h : Credit uses t x) (kind : r.kind? = some .tid) (hne : u ≠ t) :
    Credit (uses ++ [(r, u)]) t x := by
  have hshare : share t (uses ++ [(r, u)]) = share t uses := by simp [share_concat, hne]
  cases h with
  | unassigned share_eq tid_eq outputs_eq => exact .unassigned (hshare.trans share_eq) tid_eq outputs_eq
  | assigned first before after uses_eq first_kind tid_eq share_eq outputs_eq =>
    have htagged : tagged first.tid (after ++ [(r, u)]) = tagged first.tid after := by
      simp [tagged_concat, kind]
    refine .assigned first before (after ++ [(r, u)]) ?_ first_kind tid_eq ?_ ?_
    · rw [uses_eq, List.append_assoc, List.cons_append]
    · rw [hshare, share_eq, htagged]
    · rw [outputs_eq, htagged]

theorem assign (h : Credit uses t x) (kind : r.kind? = some .tid) (fresh : x.tid = none) :
    Credit (uses ++ [(r, t)]) t { x with tid := some r.tid } := by
  cases h with
  | assigned _ _ _ _ _ tid_eq =>
    rw [fresh] at tid_eq
    cases tid_eq
  | unassigned share_eq _ outputs_eq =>
    refine .assigned r uses [] rfl kind rfl ?_ ?_
    · simp [share_concat, share_eq, tagged, dataUsed]
    · simp [outputs_eq, tagged, dataUsed]

/-- A data word for another transaction changes nothing: it carries another identifier, or this
transaction has no room left. -/
theorem give_ne (h : Credit uses t x) (hne : u ≠ t)
    (apart : x.tid ≠ some r.tid ∨ x.outputs.size = x.outputCount) : Credit (uses ++ [(r, u)]) t x := by
  have hshare : share t (uses ++ [(r, u)]) = share t uses := by simp [share_concat, hne]
  cases h with
  | unassigned share_eq tid_eq outputs_eq => exact .unassigned (hshare.trans share_eq) tid_eq outputs_eq
  | assigned first before after uses_eq first_kind tid_eq share_eq outputs_eq =>
    have htake : (tagged first.tid (after ++ [(r, u)])).take x.outputCount =
        (tagged first.tid after).take x.outputCount := by
      rw [tagged_concat]
      obtain hother | hfull := apart
      · rw [if_neg, List.append_nil]
        rintro ⟨-, htid⟩
        exact hother (htid ▸ tid_eq)
      · have hsize : x.outputCount ≤ (tagged first.tid after).length := by
          have hlength := congrArg List.length outputs_eq
          simp only [Array.length_toList, List.length_map, List.length_take] at hlength
          omega
        rw [List.take_append_of_le_length hsize]
    refine .assigned first before (after ++ [(r, u)]) ?_ first_kind tid_eq ?_ ?_
    · rw [uses_eq, List.append_assoc, List.cons_append]
    · rw [hshare, share_eq, htake]
    · rw [outputs_eq, htake]

theorem give (h : Credit uses t x) (kind : r.kind? = some .data) (named : x.tid = some r.tid)
    (room : x.outputs.size < x.outputCount) :
    Credit (uses ++ [(r, t)]) t (x.addOutput r.element) := by
  cases h with
  | unassigned _ tid_eq =>
    rw [tid_eq] at named
    cases named
  | assigned first before after uses_eq first_kind tid_eq share_eq outputs_eq =>
    have htid : r.tid = first.tid := Option.some.inj (named.symm.trans tid_eq)
    have htagged : tagged first.tid (after ++ [(r, t)]) = tagged first.tid after ++ [r] := by
      simp [tagged_concat, kind, htid]
    have hlength := congrArg List.length outputs_eq
    simp only [Array.length_toList, List.length_map, List.length_take] at hlength
    have hold : (tagged first.tid after).take x.outputCount = tagged first.tid after :=
      List.take_of_length_le (by omega)
    have hnew : (tagged first.tid after ++ [r]).take x.outputCount = tagged first.tid after ++ [r] :=
      List.take_of_length_le (by rw [List.length_append, List.length_singleton]; omega)
    rw [hold] at share_eq outputs_eq
    refine .assigned first before (after ++ [(r, t)]) ?_ first_kind tid_eq ?_ ?_
    · rw [uses_eq, List.append_assoc, List.cons_append]
    · change _ = first :: (tagged first.tid (after ++ [(r, t)])).take x.outputCount
      rw [share_concat, if_pos rfl, share_eq, htagged, hnew, List.cons_append]
    · change (x.outputs.push r.element).toList =
        ((tagged first.tid (after ++ [(r, t)])).take x.outputCount).map Response.element
      rw [htagged, hnew, Array.toList_push, outputs_eq, List.map_append, List.map_singleton]

/-- The data words that were used for a transaction are its outputs. -/
theorem length_dataUsed_share (h : Credit uses t x) :
    ((share t uses).filter fun r => r.kind? = some .data).length = x.outputs.size := by
  cases h with
  | unassigned share_eq _ outputs_eq => simp [share_eq, outputs_eq]
  | assigned first before after _ kind _ share_eq outputs_eq =>
    have hall : ∀ r ∈ (tagged first.tid after).take x.outputCount, decide (r.kind? = some .data) = true := by
      intro r hr
      have hmem := List.mem_of_mem_take hr
      simp only [tagged, dataUsed, List.mem_filter] at hmem
      exact hmem.1.2
    have hlength := congrArg List.length outputs_eq
    rw [Array.length_toList, List.length_map] at hlength
    rw [share_eq, List.filter_cons_of_neg (by simp [kind]), List.filter_eq_self.2 hall, hlength]

end Credit

/-! ## The invariant -/

/-- The entries are the arrivals but for the inbox; identifiers went to the opens in their order, and the
slots in line hold the rest of them; every transaction is owed what `Credit` says. -/
structure Ledger (history : List (Event m)) (inbox : List Response) (uses : List (Response × Fin m))
    (run : Run σ n m) : Prop where
  arrived : arrivals history = uses.map Prod.fst ++ inbox
  paired : (opened history).map some =
    (assigned uses).map some ++ run.awaitingTid.map fun i => run.slots[i].transaction
  opened_nodup : (opened history).Nodup
  mem_opened : ∀ t : Fin m, t ∈ opened history ↔
    t < run.nextPending ∧ ∀ i : Fin n, run.slots[i].transaction = some t → run.slots[i].state ≠ .newWrite
  credit : ∀ t : Fin m, Credit uses t run.transactions[t]

namespace Ledger

variable {work : Vector Transaction m} {history events : List (Event m)} {inbox : List Response}
  {uses : List (Response × Fin m)} {run run' : Run σ n m}

/-- Events that open nothing add to the inbox alone. -/
theorem record (h : Ledger history inbox uses run) (events : List (Event m)) (opens : opened events = []) :
    Ledger (history ++ events) (inbox ++ arrivals events) uses run where
  arrived := by rw [arrivals_append, h.arrived, List.append_assoc]
  paired := by rw [opened_append, opens, List.append_nil, h.paired]
  opened_nodup := by rw [opened_append, opens, List.append_nil]; exact h.opened_nodup
  mem_opened t := by rw [opened_append, opens, List.append_nil, h.mem_opened]
  credit := h.credit

/-- Identifiers go to the opens in their order. -/
theorem in_order (h : Ledger history inbox uses run) : assigned uses <+: opened history := by
  have hprefix : (assigned uses).map some <+: (opened history).map some := ⟨_, h.paired.symm⟩
  simpa [List.filterMap_map] using hprefix.filterMap id

/-- Slots may change as long as they hold the same transactions and present the same opens. -/
theorem congr (h : Ledger history inbox uses run)
    (transaction : ∀ i : Fin n, run'.slots[i].transaction = run.slots[i].transaction)
    (opening : ∀ i : Fin n, run'.slots[i].state = .newWrite ↔ run.slots[i].state = .newWrite)
    (transactions : run'.transactions = run.transactions)
    (nextPending : run'.nextPending = run.nextPending)
    (awaiting : run'.awaitingTid = run.awaitingTid) : Ledger history inbox uses run' where
  arrived := h.arrived
  paired := by
    rw [h.paired, awaiting]
    simp only [transaction]
  opened_nodup := h.opened_nodup
  mem_opened t := by
    rw [h.mem_opened, nextPending]
    simp only [transaction, opening, ne_eq]
  credit t := by rw [transactions]; exact h.credit t

/-- What the ledger does not look at may change. -/
theorem of_eq (h : Ledger history inbox uses run) (slots : run'.slots = run.slots)
    (transactions : run'.transactions = run.transactions)
    (nextPending : run'.nextPending = run.nextPending)
    (awaiting : run'.awaitingTid = run.awaitingTid) : Ledger history inbox uses run' :=
  h.congr (fun i => by rw [slots]) (fun i => by rw [slots]) transactions nextPending awaiting

/-- One slot may change if it holds the same transaction and presents no open before or after. -/
theorem modifySlot (h : Ledger history inbox uses run) {i : Fin n}
    {f : Slot (Fin m) → Slot (Fin m)}
    (transaction : (f run.slots[i]).transaction = run.slots[i].transaction)
    (old : run.slots[i].state ≠ .newWrite) (new : (f run.slots[i]).state ≠ .newWrite) :
    Ledger history inbox uses (run.modifySlot i f) := by
  refine h.congr (apply_getElem_set Slot.transaction transaction) (fun j => ?_) rfl rfl rfl
  rw [slots_modifySlot]
  split
  · next hij => exact iff_of_false new (hij ▸ old)
  · exact Iff.rfl

theorem start {client : Client σ} (ready : ∀ t : Fin m, work[t].Ready) :
    Ledger [] [] [] (Run.start client work : Run σ n m) where
  arrived := rfl
  paired := rfl
  opened_nodup := List.nodup_nil
  mem_opened t := by simp [opened, Run.start]
  credit t := .unassigned rfl (ready t).tid_eq (ready t).outputs_eq

/-! ### Refills and turns -/

theorem hand (h : Ledger history [] uses run) (pool : Pool work run) {i : Fin n} {t : Fin m}
    (hi : run.slots[i].state = .unused) (ht : t = run.nextPending) :
    Ledger history [] uses (run.hand i t) where
  arrived := h.arrived
  paired := by
    rw [h.paired]
    congr 1
    refine List.map_congr_left fun j hj => ?_
    rw [slots_hand, if_neg]
    rintro rfl
    rw [pool.mem_awaiting, hi] at hj
    cases hj
  opened_nodup := h.opened_nodup
  mem_opened u := by
    have hempty : run.slots[i].transaction = none := (pool.stage i).transaction_eq_none_iff.2 hi
    change u ∈ opened history ↔ u.val < t + 1 ∧ _
    rw [h.mem_opened]
    constructor
    · rintro ⟨hlt, hstate⟩
      refine ⟨by omega, fun j hj => ?_⟩
      rw [slots_hand] at hj ⊢
      split at hj
      · cases hj
        omega
      · next hij =>
        rw [if_neg hij]
        exact hstate j hj
    · rintro ⟨hlt, hstate⟩
      have hne : u ≠ t := by
        rintro rfl
        refine hstate i ?_ ?_ <;> rw [slots_hand, if_pos rfl] <;> rfl
      have hval := Fin.val_ne_of_ne hne
      refine ⟨by omega, fun j hj => ?_⟩
      have hij : i ≠ j := by
        rintro rfl
        rw [hempty] at hj
        cases hj
      have hold := hstate j
      rw [slots_hand, if_neg hij] at hold
      exact hold hj
  credit := h.credit

theorem refill (h : Ledger history [] uses run) (ready : ∀ t : Fin m, work[t].Ready)
    (pool : Pool work run) : Ledger history [] uses run.refill :=
  pool.refill_of_hand ready h fun h pool => h.hand pool

/-- An open is presented: its transaction stands last in line. -/
theorem awaitTid (h : Ledger history inbox uses run) (pool : Pool work run) {i : Fin n} {t : Fin m}
    (state : run.slots[i].state = .newWrite) (holds : run.slots[i].transaction = some t)
    (opens : opened events = [t]) :
    Ledger (history ++ events) (inbox ++ arrivals events) uses (run.awaitTid i) := by
  have htrans : ∀ j : Fin n, (run.awaitTid i).slots[j].transaction = run.slots[j].transaction :=
    apply_getElem_set Slot.transaction rfl
  have hstate : ∀ j : Fin n, (run.awaitTid i).slots[j].state =
      if i = j then .newWriteWait else run.slots[j].state := by
    intro j
    change (run.modifySlot i (·.transition .newWriteWait)).slots[j].state = _
    rw [slots_modifySlot]
    split <;> rfl
  have hnot : t ∉ opened history := by
    rw [h.mem_opened]
    exact fun hmem => hmem.2 i holds state
  constructor
  case arrived => rw [arrivals_append, h.arrived, List.append_assoc]
  case paired =>
    change _ = _ ++ (run.awaitingTid ++ [i]).map fun j => (run.awaitTid i).slots[j].transaction
    simp only [htrans]
    rw [opened_append, opens, List.map_append, h.paired, List.map_append, List.append_assoc,
      List.map_singleton, List.map_singleton, holds]
  case opened_nodup =>
    rw [opened_append, opens, List.nodup_append]
    refine ⟨h.opened_nodup, by simp, fun a ha b hb => ?_⟩
    rw [List.mem_singleton.1 hb]
    rintro rfl
    exact hnot ha
  case mem_opened =>
    intro u
    change _ ↔ u < run.nextPending ∧ _
    rw [opened_append, opens, List.mem_append, List.mem_singleton, h.mem_opened]
    constructor
    · rintro (⟨hlt, hold⟩ | rfl)
      · refine ⟨hlt, fun j hj => ?_⟩
        rw [hstate]
        split
        · exact SlotState.noConfusion
        · exact hold j (htrans j ▸ hj)
      · refine ⟨pool.held_lt holds, fun j hj => ?_⟩
        rw [hstate, if_pos (pool.held_inj holds (htrans j ▸ hj))]
        exact SlotState.noConfusion
    · rintro ⟨hlt, hnew⟩
      by_cases hu : u = t
      · exact .inr hu
      · refine .inl ⟨hlt, fun j hj => ?_⟩
        have hne := hnew j (by rw [htrans]; exact hj)
        rw [hstate, if_neg] at hne
        · exact hne
        · rintro rfl
          rw [holds] at hj
          exact hu (Option.some.inj hj).symm
  case credit => exact h.credit

/-- The turn of a slot that presents no open. -/
theorem passTurn (h : Ledger history inbox uses run) (opens : opened events = []) (i : Fin n)
    (c : Client σ) : Ledger (history ++ events) (inbox ++ arrivals events) uses (run.passTurn i c) :=
  (h.record events opens).of_eq rfl rfl rfl rfl

theorem turn [Channel σ] (h : Ledger history [] uses run) (pool : Pool work run) {event : Event m}
    {prompt : Option Response} (turn : Turn run event prompt run') :
    Ledger (history ++ [event]) prompt.toList uses run' := by
  rw [← turn.arrival_eq, ← arrivals_singleton]
  cases turn with
  | idle => exact (h.record _ rfl).of_eq rfl rfl rfl rfl
  | opened turn => exact (h.awaitTid pool turn.state turn.holds rfl).of_eq rfl rfl rfl rfl
  | registered turn =>
    have hstate := turn.not_newWrite (by decide)
    exact (h.passTurn rfl _ _).modifySlot rfl hstate hstate
  | @accepted _ _ _ _ _ _ last turn =>
    have hstate := turn.not_newWrite (by decide)
    refine (h.passTurn (opened_writeData ..) _ _).modifySlot rfl hstate ?_
    cases last
    · exact hstate
    · exact SlotState.noConfusion
  | busy => exact (h.record _ (opened_writeData ..)).of_eq rfl rfl rfl rfl
  | read turn =>
    have hstate := turn.not_newWrite (by decide)
    refine (h.passTurn rfl _ _).modifySlot rfl hstate ?_
    change (if _ then SlotState.readWait else _) ≠ SlotState.newWrite
    split
    · exact SlotState.noConfusion
    · exact hstate
  | notDone => exact (h.record _ rfl).of_eq rfl rfl rfl rfl

/-! ### Routing -/

/-- The routing of a response that leaves the line as it is. -/
theorem arrived_concat {response : Response} (h : Ledger history (response :: inbox) uses run) (t : Fin m) :
    arrivals history = (uses ++ [(response, t)]).map Prod.fst ++ inbox := by
  rw [h.arrived, List.map_append, List.append_assoc]
  rfl

theorem assign {response : Response} (h : Ledger history (response :: inbox) uses run)
    (ready : ∀ t : Fin m, work[t].Ready) (pool : Pool work run) {i : Fin n} {t : Fin m}
    {rest : List (Fin n)} (kind : response.kind? = some .tid) (awaiting : run.awaitingTid = i :: rest)
    (state : run.slots[i].state = .newWriteWait) (holds : run.slots[i].transaction = some t) :
    Ledger history inbox (uses ++ [(response, t)]) (run.assign i t response.tid rest) := by
  have htrans : ∀ j : Fin n,
      (run.assign i t response.tid rest).slots[j].transaction = run.slots[j].transaction :=
    apply_getElem_set Slot.transaction rfl
  have hstate : ∀ j : Fin n, (run.assign i t response.tid rest).slots[j].state = .newWrite ↔
      run.slots[j].state = .newWrite := by
    intro j
    rw [slots_assign]
    split
    · next hij =>
      rw [← hij, state]
      simp
    · exact Iff.rfl
  constructor
  case arrived => exact h.arrived_concat t
  case paired =>
    change _ = _ ++ rest.map fun j => (run.assign i t response.tid rest).slots[j].transaction
    simp only [htrans]
    rw [h.paired, awaiting, List.map_cons, holds, assigned_concat, if_pos kind, List.map_append,
      List.append_assoc]
    rfl
  case opened_nodup => exact h.opened_nodup
  case mem_opened =>
    intro u
    change _ ↔ u < run.nextPending ∧ _
    simp only [h.mem_opened, htrans, hstate, ne_eq]
  case credit =>
    intro u
    rw [transactions_assign]
    split
    · next htu =>
      subst htu
      have hnew : run.transactions[t].tid = none := by
        rw [pool.unnamed holds ((pool.stage i).tid_eq_none_iff.2 (.inr (.inr state)))]
        exact (ready t).tid_eq
      exact (h.credit t).assign kind hnew
    · next hne => exact (h.credit u).assign_ne kind hne

/-- Another transaction has another identifier than a data word for `t`, unless it is complete. -/
theorem apart (pool : Pool work run) (ready : ∀ t : Fin m, work[t].Ready) {tid : Tid} {i : Fin n}
    {t u : Fin m} (route : run.routes.lookup tid = some i) (holds : run.slots[i].transaction = some t)
    (hne : t ≠ u) : run.transactions[u].tid ≠ some tid ∨
      run.transactions[u].outputs.size = run.transactions[u].outputCount := by
  rw [Transaction.outputCount_of_reset (pool.same u)]
  by_cases hu : u < run.nextPending
  · by_cases hleft : ∀ j : Fin n, run.slots[j].transaction ≠ some u
    · exact .inr (pool.finished u hu hleft)
    · left
      intro htid
      obtain ⟨j, hj⟩ := not_forall.1 hleft
      have hj := not_not.1 hj
      cases hx : run.slots[j].tid with
      | none =>
        rw [pool.unnamed hj hx, (ready u).tid_eq] at htid
        cases htid
      | some x =>
        rw [pool.named hj hx] at htid
        cases htid
        have hij : i = j := Option.some.inj (route.symm.trans ((pool.lookup_iff tid j).2 hx))
        subst hij
        exact hne (Option.some.inj (holds.symm.trans hj))
  · left
    rw [pool.pending u (Nat.le_of_not_lt hu), (ready u).tid_eq]
    exact nofun

theorem addOutput {response : Response} (h : Ledger history (response :: inbox) uses run)
    (ready : ∀ t : Fin m, work[t].Ready) (pool : Pool work run) {i : Fin n} {t : Fin m}
    (kind : response.kind? = some .data) (route : run.routes.lookup response.tid = some i)
    (holds : run.slots[i].transaction = some t) :
    Ledger history inbox (uses ++ [(response, t)])
      (run.modifyTransaction t (·.addOutput response.element)) where
  arrived := h.arrived_concat t
  paired := by
    rw [h.paired, assigned_concat, if_neg (by simp [kind]), List.append_nil]
    rfl
  opened_nodup := h.opened_nodup
  mem_opened := h.mem_opened
  credit u := by
    rw [transactions_modifyTransaction]
    split
    · next htu =>
      subst htu
      have hroom := pool.unfinished holds
      rw [← Transaction.outputCount_of_reset (pool.same t)] at hroom
      exact (h.credit t).give kind (pool.named holds ((pool.lookup_iff _ i).1 route)) hroom
    · next hne => exact (h.credit u).give_ne hne (apart pool ready route holds hne)

theorem finish (h : Ledger history inbox uses run) {i : Fin n}
    (state : run.slots[i].state ≠ .newWrite) (waits : i ∉ run.awaitingTid) (tid : Tid) :
    Ledger history inbox uses (run.finish i tid) where
  arrived := h.arrived
  paired := by
    rw [h.paired]
    congr 1
    refine List.map_congr_left fun j hj => ?_
    rw [slots_finish, if_neg]
    rintro rfl
    exact waits hj
  opened_nodup := h.opened_nodup
  mem_opened u := by
    rw [h.mem_opened]
    change u < run.nextPending ∧ _ ↔ u < run.nextPending ∧ _
    refine and_congr_right fun _ => forall_congr' fun j => ?_
    rw [slots_finish]
    split
    · next hij =>
      subst hij
      exact iff_of_true (fun _ => state) (by simp [Slot.empty])
    · exact Iff.rfl
  credit := h.credit

theorem delivered {response : Response} (h : Ledger history (response :: inbox) uses run)
    (ready : ∀ t : Fin m, work[t].Ready) (pool : Pool work run) (d : Delivered run response run') :
    ∃ t, Ledger history inbox (uses ++ [(response, t)]) run' := by
  cases d with
  | assigned kind awaiting state _ holds => exact ⟨_, h.assign ready pool kind awaiting state holds⟩
  | given kind route _ holds => exact ⟨_, h.addOutput ready pool kind route holds⟩
  | @finished i _ kind route state holds =>
    have hnew : run.slots[i].state ≠ .newWrite := by
      intro hs
      rw [hs] at state
      simp at state
    have hwaits : i ∉ run.awaitingTid := fun hi =>
      (pool.tid_of_reading state).2 ((pool.mem_awaiting i).1 hi)
    exact ⟨_, (h.addOutput ready pool kind route holds).finish hnew hwaits _⟩

variable [Channel σ]

/-- Every step of a run keeps the ledger: a response that is routed is entered. -/
theorem step (h : Ledger history inbox uses run) (ready : ∀ t : Fin m, work[t].Ready)
    (pool : Pool work run) {inbox' : List Response} (s : Step inbox run events inbox' run') :
    ∃ uses', Ledger (history ++ events) inbox' uses' run' := by
  cases s with
  | refill =>
    rw [List.append_nil]
    exact ⟨uses, h.refill ready pool⟩
  | turn turn => exact ⟨uses, (h.turn pool turn).of_eq rfl rfl rfl rfl⟩
  | @poll _ _ answer =>
    have hpolled := h.record [.polled answer] rfl
    rw [arrivals_singleton] at hpolled
    exact ⟨uses, hpolled.of_eq rfl rfl rfl rfl⟩
  | @ask _ _ i t tid done c state =>
    have hasked : Ledger (history ++ [.asked t tid done]) inbox uses { run with client := c } := by
      have hquiet := h.record [.asked t tid done] rfl
      rw [arrivals_singleton] at hquiet
      simp only [Event.arrival?, Option.toList_none, List.append_nil] at hquiet
      exact hquiet.of_eq rfl rfl rfl rfl
    refine ⟨uses, ?_⟩
    cases done with
    | false => exact hasked
    | true =>
      refine hasked.modifySlot rfl ?_ SlotState.noConfusion
      change run.slots[i].state ≠ _
      rw [state]
      exact SlotState.noConfusion
  | @route response _ _ _ delivered =>
    obtain ⟨t, ht⟩ := h.delivered ready pool delivered
    have hrouted := ht.record [.routed response] rfl
    rw [arrivals_singleton] at hrouted
    simp only [Event.arrival?, Option.toList_none, List.append_nil] at hrouted
    exact ⟨_, hrouted⟩

/-- Wherever a run comes to, it has a ledger. -/
theorem of_reach (ready : ∀ t : Fin m, work[t].Ready) {client : Client σ}
    (h : Reach (Run.start client work) history inbox run) : ∃ uses, Ledger history inbox uses run := by
  refine And.right (h.invariant
    (P := fun history inbox run => Pool work run ∧ ∃ uses, Ledger history inbox uses run)
    ⟨.start ready, [], start ready⟩ ?_)
  rintro history events inbox inbox' run run' ⟨hpool, uses, hledger⟩ hstep
  exact ⟨hpool.step ready hstep, hledger.step ready hpool hstep⟩

end Ledger

end Run

end NeuralEngine
