import Mathlib.Logic.Function.Basic
import NeuralEngine.Proofs.Scheduler.Routing
import NeuralEngine.Proofs.Simulator.Orderly

/-!
# The transactions of a run among those of the simulator

What a run knows of its own transactions over a simulator that may hold others, with data words of theirs on
their way. `Tenancy` takes the identifier that the simulator gave to the transaction of each slot, which the
run learns only when the identifier arrives. With these names the two sides match: the line of the run and the
identifiers on their way are in the same order, the simulator serves the transaction of each named slot as far
as the slot has come, and the outputs of a transaction are continued by its data words on their way. Refills
and routed responses preserve this.
-/

namespace NeuralEngine

open Simulator

/-- The slots are in the same place of the life of one transaction, as far as the engine can tell. -/
structure Slot.Matches {ι : Type} (s s' : Slot ι) : Prop where
  transaction : s'.transaction = s.transaction
  tid : s'.tid = s.tid
  holdsEntry : s'.state.holdsEntry = s.state.holdsEntry
  cursor : s'.cursor = s.cursor
  readsIssued : s'.readsIssued = s.readsIssued

theorem Slot.Matches.refl {ι : Type} (s : Slot ι) : s.Matches s :=
  ⟨rfl, rfl, rfl, rfl, rfl⟩

/-- The data words of a transaction, in order. -/
def words (tid : Tid) (rs : List Response) : List Element :=
  (along (some tid) rs).map (·.element)

theorem words_cons {r : Response} (kind : r.kind? = some .data) (rs : List Response) :
    words r.tid (r :: rs) = r.element :: words r.tid rs := by
  unfold words
  rw [along_cons _ (Response.lane_data kind), List.map_cons]

theorem words_cons_ne {r : Response} {x : Tid} (kind : r.kind? = some .data) (h : x ≠ r.tid)
    (rs : List Response) : words x (r :: rs) = words x rs := by
  unfold words
  rw [along_cons_ne]
  rw [Response.lane_data kind]
  exact fun heq => h (Option.some.inj heq).symm

/-- A name after the name of one slot has changed. -/
theorem update_eq_some {n : Nat} {name : Fin n → Option Tid} {i j : Fin n} {new : Option Tid} {x : Tid}
    (h : Function.update name i new j = some x) : i = j ∧ new = some x ∨ i ≠ j ∧ name j = some x := by
  by_cases hij : i = j
  · rw [← hij, Function.update_self] at h
    exact .inl ⟨hij, h⟩
  · rw [Function.update_of_ne (Ne.symm hij)] at h
    exact .inr ⟨hij, h⟩

/-! ## The simulator in a run -/

theorem Event.Play.evolves {m : Nat} {events : List (Event m)} {s s' : Simulator}
    (h : Event.Play events s s') : Evolves s s' := by
  induction events generalizing s with
  | nil =>
    obtain rfl := h
    exact .refl s
  | cons event events ih =>
    obtain ⟨u, hpasses, hplay⟩ := h
    refine Evolves.trans ?_ (ih hplay)
    cases event with
    | issued t request answer => exact .issue hpasses
    | stepped =>
      obtain rfl : s.tick = u := hpasses
      exact .tick s
    | polled answer => exact .poll hpasses
    | asked t tid done =>
      obtain rfl : s = u := congrArg Prod.snd hpasses
      exact .refl s
    | routed response =>
      obtain rfl : s = u := hpasses
      exact .refl s

namespace Run

variable {n m : Nat}

/-- A clock that is in time after a step was so before it. -/
theorem Step.inTime {inbox inbox' : List Response} {run run' : Run Simulator n m} {events : List (Event m)}
    (h : Step inbox run events inbox' run') (inTime : run'.client.channel.InTime) :
    run.client.channel.InTime :=
  h.play.evolves.inTime inTime

theorem FailedTurn.inTime {run run' : Run Simulator n m} {event : Event m} {e : SchedulerError}
    (h : FailedTurn run event e run') (inTime : run'.client.channel.InTime) : run.client.channel.InTime :=
  (Event.play_singleton.2 h.passes).evolves.inTime inTime

/-- The responses on their way: those in the inbox, then those that the engine holds back. -/
def flight (inbox : List Response) (run : Run Simulator n m) : List Response :=
  inbox ++ run.client.channel.undelivered

@[simp] theorem flight_cons (r : Response) (inbox : List Response) (run : Run Simulator n m) :
    flight (r :: inbox) run = r :: flight inbox run :=
  rfl

theorem matches_modifySlot (run : Run Simulator n m) {i : Fin n} {f : Slot (Fin m) → Slot (Fin m)}
    (h : run.slots[i].Matches (f run.slots[i])) (j : Fin n) :
    run.slots[j].Matches (run.modifySlot i f).slots[j] := by
  rw [slots_modifySlot]
  split
  · next hij =>
    rw [← hij]
    exact h
  · exact .refl _

/-- The transactions of the run are as they were, as far as the run and the engine can tell: the engine went on
by itself, and what is on its way is in the order it was in. -/
structure Undisturbed (inbox : List Response) (run : Run Simulator n m) (inbox' : List Response)
    (run' : Run Simulator n m) : Prop where
  alike : Alike run.client.channel run'.client.channel
  ordered : run'.client.channel.Ordered
  nodup : run'.client.channel.tids.Nodup
  kept : ∀ x, Kept run.client.channel run'.client.channel x
  lanes : ∀ lane, along lane (flight inbox' run') = along lane (flight inbox run)
  slots : ∀ i : Fin n, run.slots[i].Matches run'.slots[i]
  transactions : run'.transactions = run.transactions
  nextPending : run'.nextPending = run.nextPending
  awaiting : run'.awaitingTid = run.awaitingTid

/-- The engine has the transactions of the run among its own. It gave identifier `name i` to the transaction
of slot `i`. -/
structure Tenancy (engine : Simulator) (work : Vector Transaction m) (name : Fin n → Option Tid)
    (inbox : List Response) (run : Run Simulator n m) : Prop where
  alike : Alike engine run.client.channel
  ordered : run.client.channel.Ordered
  nodup : run.client.channel.tids.Nodup
  name_inj : ∀ {i j : Fin n} {x : Tid}, name i = some x → name j = some x → i = j
  named_iff : ∀ i, (∃ x, name i = some x) ↔ run.slots[i].state.holdsEntry = true
  told : ∀ {i : Fin n} {x : Tid}, run.slots[i].tid = some x → name i = some x
  /-- The slots in the line and the identifiers on their way are in the same order. -/
  line : run.awaitingTid.map name = (along none (flight inbox run)).map fun r => some r.tid
  serves : ∀ {i : Fin n} {t : Fin m} {x : Tid}, run.slots[i].transaction = some t → name i = some x →
    run.client.channel.Serves work[t] x run.slots[i].cursor run.slots[i].readsIssued
  /-- The outputs and the data words on their way are those that were read. -/
  outputs : ∀ {i : Fin n} {t : Fin m} {x : Tid}, run.slots[i].transaction = some t → name i = some x →
    run.transactions[t].outputs.toList ++ words x (flight inbox run) =
      work[t].expected.take run.slots[i].readsIssued
  collected : ∀ t : Fin m, t.val < run.nextPending → (∀ i : Fin n, run.slots[i].transaction ≠ some t) →
    run.transactions[t].outputs.toList = work[t].expected

namespace Tenancy

variable {engine : Simulator} {work : Vector Transaction m} {name : Fin n → Option Tid}
  {inbox inbox' : List Response} {run run' : Run Simulator n m} {r : Response} {i : Fin n} {t : Fin m}
  {x : Tid}

/-- A slot that occupies no row of the engine has no name. -/
theorem name_ne (h : Tenancy engine work name inbox run) (hi : run.slots[i].state.holdsEntry = false)
    (x : Tid) : name i ≠ some x := by
  intro hx
  have hholds := (h.named_iff i).1 ⟨x, hx⟩
  rw [hi] at hholds
  cases hholds

/-- A slot to which the engine gave an identifier holds a transaction. -/
theorem holds (h : Tenancy engine work name inbox run) (pool : Pool work run) (hx : name i = some x) :
    ∃ t, run.slots[i].transaction = some t := by
  apply (pool.stage i).transaction_isSome
  intro hs
  exact h.name_ne (by rw [hs]; rfl) x hx

theorem start {client : Client Simulator} (orderly : client.channel.Orderly)
    (owed : client.channel.owed = []) :
    Tenancy client.channel work (fun _ => none) [] (Run.start client work : Run Simulator n m) := by
  have hslot : ∀ i : Fin n, (Run.start client work : Run Simulator n m).slots[i] = Slot.empty := fun i => by
    simp [Run.start]
  constructor
  case alike => exact .refl _
  case ordered => exact orderly.ordered
  case nodup => exact orderly.nodup
  case name_inj =>
    intro i j x hi
    cases hi
  case named_iff =>
    intro i
    rw [hslot]
    simp [Slot.empty, SlotState.holdsEntry]
  case told =>
    intro i x hx
    rw [hslot] at hx
    cases hx
  case line =>
    have hnone : along none client.channel.undelivered = [] := List.map_eq_nil_iff.1 owed
    show [] = (along none client.channel.undelivered).map _
    rw [hnone]
    rfl
  case serves =>
    intro i t x _ hx
    cases hx
  case outputs =>
    intro i t x _ hx
    cases hx
  case collected =>
    intro t ht
    exact absurd ht (Nat.not_lt_zero _)

theorem keep (h : Tenancy engine work name inbox run) (u : Undisturbed inbox run inbox' run') :
    Tenancy engine work name inbox' run' := by
  constructor
  case alike => exact h.alike.trans u.alike
  case ordered => exact u.ordered
  case nodup => exact u.nodup
  case name_inj => exact h.name_inj
  case named_iff =>
    intro i
    rw [(u.slots i).holdsEntry]
    exact h.named_iff i
  case told =>
    intro i x hx
    rw [(u.slots i).tid] at hx
    exact h.told hx
  case line => rw [u.awaiting, u.lanes, h.line]
  case serves =>
    intro i t x ht hx
    rw [(u.slots i).transaction] at ht
    rw [(u.slots i).cursor, (u.slots i).readsIssued]
    exact (u.kept x).serves (h.serves ht hx)
  case outputs =>
    intro i t x ht hx
    rw [(u.slots i).transaction] at ht
    rw [(u.slots i).readsIssued, u.transactions, words, u.lanes]
    exact h.outputs ht hx
  case collected =>
    intro t ht hn
    rw [u.nextPending] at ht
    rw [u.transactions]
    exact h.collected t ht fun i hi => hn i (by rw [(u.slots i).transaction]; exact hi)

/-- The slot of transaction `t` may go on together with the engine's entry for it. -/
theorem act (h : Tenancy engine work name inbox run) (holds : run.slots[i].transaction = some t)
    (named : run.slots[i].tid = some x) (f : Slot (Fin m) → Slot (Fin m))
    (slots : run'.slots = (run.modifySlot i f).slots)
    (transaction : (f run.slots[i]).transaction = run.slots[i].transaction)
    (tid : (f run.slots[i]).tid = run.slots[i].tid)
    (holdsEntry : (f run.slots[i]).state.holdsEntry = run.slots[i].state.holdsEntry)
    (transactions : run'.transactions = run.transactions)
    (nextPending : run'.nextPending = run.nextPending) (awaiting : run'.awaitingTid = run.awaitingTid)
    (alike : Alike run.client.channel run'.client.channel) (ordered : run'.client.channel.Ordered)
    (nodup : run'.client.channel.tids.Nodup)
    (others : ∀ y, y ≠ x → Kept run.client.channel run'.client.channel y)
    (lanes : ∀ lane, lane ≠ some x →
      along lane (flight inbox' run') = along lane (flight inbox run))
    (serves : run'.client.channel.Serves work[t] x (f run.slots[i]).cursor (f run.slots[i]).readsIssued)
    (outputs : run.transactions[t].outputs.toList ++ words x (flight inbox' run') =
      work[t].expected.take (f run.slots[i]).readsIssued) :
    Tenancy engine work name inbox' run' := by
  have hslot : ∀ j : Fin n, run'.slots[j] = if i = j then f run.slots[i] else run.slots[j] := by
    intro j
    rw [slots]
    exact slots_modifySlot ..
  have hmatches : ∀ {β : Type} (g : Slot (Fin m) → β), g (f run.slots[i]) = g run.slots[i] →
      ∀ j : Fin n, g run'.slots[j] = g run.slots[j] := by
    intro β g hg j
    rw [slots]
    exact apply_getElem_set g hg j
  have htrans : ∀ j : Fin n, run'.slots[j].transaction = run.slots[j].transaction :=
    hmatches Slot.transaction transaction
  have htid : ∀ j : Fin n, run'.slots[j].tid = run.slots[j].tid := hmatches Slot.tid tid
  have hentry : ∀ j : Fin n, run'.slots[j].state.holdsEntry = run.slots[j].state.holdsEntry :=
    hmatches (fun s => s.state.holdsEntry) holdsEntry
  have hx : name i = some x := h.told named
  -- another slot has another identifier
  have hother : ∀ {j : Fin n} {y : Tid}, i ≠ j → name j = some y → y ≠ x := by
    rintro j y hij hy rfl
    exact hij (h.name_inj hx hy)
  constructor
  case alike => exact h.alike.trans alike
  case ordered => exact ordered
  case nodup => exact nodup
  case name_inj => exact h.name_inj
  case named_iff =>
    intro j
    rw [hentry]
    exact h.named_iff j
  case told =>
    intro j y hy
    rw [htid] at hy
    exact h.told hy
  case line => rw [awaiting, lanes none (by simp), h.line]
  case serves =>
    intro j u y hu hy
    rw [htrans] at hu
    rw [hslot]
    split
    · next hij =>
      subst hij
      rw [holds] at hu
      rw [hx] at hy
      cases hu
      cases hy
      exact serves
    · next hij => exact (others y (hother hij hy)).serves (h.serves hu hy)
  case outputs =>
    intro j u y hu hy
    rw [htrans] at hu
    rw [hslot, transactions]
    split
    · next hij =>
      subst hij
      rw [holds] at hu
      rw [hx] at hy
      cases hu
      cases hy
      exact outputs
    · next hij =>
      have hlane : some y ≠ some x := fun heq => hother hij hy (Option.some.inj heq)
      rw [words, lanes _ hlane]
      exact h.outputs hu hy
  case collected =>
    intro u hu hn
    rw [nextPending] at hu
    rw [transactions]
    exact h.collected u hu fun j hj => hn j (by rw [htrans]; exact hj)

/-! ## Refills -/

theorem hand (h : Tenancy engine work name inbox run) (pool : Pool work run)
    (hi : run.slots[i].state = .unused) (ht : t = run.nextPending) :
    Tenancy engine work name inbox (run.hand i t) := by
  have hempty : run.slots[i] = Slot.empty := (pool.stage i).of_unused hi
  have hnone : ∀ x, name i ≠ some x := h.name_ne (by rw [hi]; rfl)
  have hstays : ∀ {j : Fin n} {x : Tid}, name j = some x → (run.hand i t).slots[j] = run.slots[j] := by
    intro j x hx
    rw [slots_hand, if_neg]
    rintro rfl
    exact hnone x hx
  constructor
  case alike => exact h.alike
  case ordered => exact h.ordered
  case nodup => exact h.nodup
  case name_inj => exact h.name_inj
  case named_iff =>
    intro j
    rw [slots_hand]
    split
    · next hij =>
      subst hij
      exact iff_of_false (fun ⟨x, hx⟩ => hnone x hx) Bool.false_ne_true
    · exact h.named_iff j
  case told =>
    intro j x hx
    rw [slots_hand] at hx
    split at hx
    · cases hx
    · exact h.told hx
  case line => exact h.line
  case serves =>
    intro j u x hu hx
    rw [hstays hx] at hu ⊢
    exact h.serves hu hx
  case outputs =>
    intro j u x hu hx
    rw [hstays hx] at hu ⊢
    exact h.outputs hu hx
  case collected =>
    intro u hu hn
    obtain ⟨hlt, hleft⟩ := left_of_hand (by rw [hempty]; rfl) ht hu hn
    exact h.collected u hlt hleft

theorem refill (ready : ∀ t : Fin m, work[t].Ready) (h : Tenancy engine work name inbox run)
    (pool : Pool work run) : Tenancy engine work name inbox run.refill :=
  pool.refill_of_hand ready h fun h pool => h.hand pool

/-! ## Identifiers -/

/-- The slot that has stood in line for longest is given the first identifier on its way. -/
theorem head_line (h : Tenancy engine work name (r :: inbox) run) (kind : r.kind? = some .tid) :
    ∃ i rest, run.awaitingTid = i :: rest ∧ name i = some r.tid ∧
      rest.map name = (along none (flight inbox run)).map fun r => some r.tid := by
  have hline := h.line
  rw [flight_cons, along_cons _ (Response.lane_tid kind), List.map_cons] at hline
  cases hw : run.awaitingTid with
  | nil =>
    rw [hw] at hline
    cases hline
  | cons i rest =>
    rw [hw, List.map_cons, List.cons.injEq] at hline
    exact ⟨i, rest, rfl, hline.1, hline.2⟩

theorem assign (h : Tenancy engine work name (r :: inbox) run) {rest : List (Fin n)}
    (kind : r.kind? = some .tid) (awaiting : run.awaitingTid = i :: rest) :
    Tenancy engine work name inbox (run.assign i t r.tid rest) := by
  obtain ⟨i', rest', hwait, hname, hline⟩ := h.head_line kind
  rw [awaiting] at hwait
  cases hwait
  have hslot : ∀ j : Fin n, (run.assign i t r.tid rest).slots[j] =
      if i = j then { run.slots[i] with tid := some r.tid, state := .write } else run.slots[j] := fun j =>
    slots_assign ..
  have htrans : ∀ j : Fin n,
      (run.assign i t r.tid rest).slots[j].transaction = run.slots[j].transaction :=
    apply_getElem_set Slot.transaction rfl
  have houtputs : ∀ u : Fin m,
      (run.assign i t r.tid rest).transactions[u].outputs = run.transactions[u].outputs :=
    apply_getElem_set Transaction.outputs rfl
  have hcursor : ∀ j : Fin n, (run.assign i t r.tid rest).slots[j].cursor = run.slots[j].cursor :=
    apply_getElem_set Slot.cursor rfl
  have hreads : ∀ j : Fin n,
      (run.assign i t r.tid rest).slots[j].readsIssued = run.slots[j].readsIssued :=
    apply_getElem_set Slot.readsIssued rfl
  constructor
  case alike => exact h.alike
  case ordered => exact h.ordered
  case nodup => exact h.nodup
  case name_inj => exact h.name_inj
  case named_iff =>
    intro j
    rw [hslot]
    split
    · next hij =>
      subst hij
      exact iff_of_true ⟨_, hname⟩ rfl
    · exact h.named_iff j
  case told =>
    intro j x hx
    rw [hslot] at hx
    split at hx
    · next hij =>
      subst hij
      cases hx
      exact hname
    · exact h.told hx
  case line => exact hline
  case serves =>
    intro j u x hu hx
    rw [htrans] at hu
    rw [hcursor, hreads]
    exact h.serves hu hx
  case outputs =>
    intro j u x hu hx
    rw [htrans] at hu
    rw [hreads, houtputs, ← h.outputs hu hx]
    have hlane : r.lane ≠ some x := by
      rw [Response.lane_tid kind]
      simp
    have hwords : words x (flight (r :: inbox) run) = words x (flight inbox run) :=
      congrArg (List.map _) (along_cons_ne _ hlane)
    rw [hwords]
    rfl
  case collected =>
    intro u hu hn
    rw [houtputs]
    exact h.collected u hu fun j hj => hn j (by rw [htrans]; exact hj)

/-! ## Data words -/

theorem give (h : Tenancy engine work name (r :: inbox) run) (pool : Pool work run)
    (kind : r.kind? = some .data) (named : run.slots[i].tid = some r.tid)
    (holds : run.slots[i].transaction = some t) :
    Tenancy engine work name inbox (run.modifyTransaction t (·.addOutput r.element)) := by
  have hname : name i = some r.tid := h.told named
  constructor
  case alike => exact h.alike
  case ordered => exact h.ordered
  case nodup => exact h.nodup
  case name_inj => exact h.name_inj
  case named_iff => exact h.named_iff
  case told => exact h.told
  case line =>
    have hline := h.line
    have hlane : r.lane ≠ none := by
      rw [Response.lane_data kind]
      simp
    rw [flight_cons, along_cons_ne _ hlane] at hline
    exact hline
  case serves => exact h.serves
  case outputs =>
    intro j u x hu hx
    have hall := h.outputs hu hx
    rw [flight_cons] at hall
    rw [transactions_modifyTransaction]
    split
    · next htu =>
      subst htu
      obtain rfl : i = j := pool.held_inj holds hu
      rw [hname] at hx
      cases hx
      rw [words_cons kind] at hall
      rw [Transaction.outputs_addOutput, Array.toList_push, List.append_assoc]
      exact hall
    · next htu =>
      have hxr : x ≠ r.tid := by
        rintro rfl
        obtain rfl : i = j := h.name_inj hname hx
        exact htu (Option.some.inj (holds.symm.trans hu))
      rw [words_cons_ne kind hxr] at hall
      exact hall
  case collected =>
    intro u hu hn
    have hne : t ≠ u := by
      rintro rfl
      exact hn i holds
    rw [transactions_modifyTransaction, if_neg hne]
    exact h.collected u hu hn

/-- When a transaction is complete, every output was read and none is on its way. -/
theorem drained (h : Tenancy engine work name inbox run)
    (holds : run.slots[i].transaction = some t) (hx : name i = some x)
    (complete : run.transactions[t].outputs.size = work[t].outputCount) :
    words x (flight inbox run) = [] ∧ run.client.channel.find? x = none ∧
      run.transactions[t].outputs.toList = work[t].expected := by
  have hall := h.outputs holds hx
  have hlen := congrArg List.length hall
  rw [List.length_append, Array.length_toList, complete, List.length_take, Transaction.length_expected] at hlen
  have hwords : words x (flight inbox run) = [] := List.eq_nil_of_length_eq_zero (by omega)
  have hreads : ¬ run.slots[i].readsIssued < work[t].outputCount := by omega
  refine ⟨hwords, ?_, ?_⟩
  · have hserves := h.serves holds hx
    unfold Simulator.Serves at hserves
    rwa [if_neg hreads] at hserves
  · rw [hwords, List.append_nil, List.take_of_length_le] at hall
    · exact hall
    · rw [Transaction.length_expected]
      omega

/-- The slot of a complete transaction is freed, and its name with it. -/
theorem finish (h : Tenancy engine work name inbox run)
    (holds : run.slots[i].transaction = some t) (named : run.slots[i].tid = some x)
    (waiting : i ∉ run.awaitingTid)
    (complete : run.transactions[t].outputs.size = work[t].outputCount) :
    Tenancy engine work (Function.update name i none) inbox (run.finish i x) := by
  have hname : name i = some x := h.told named
  obtain ⟨-, -, hall⟩ := h.drained holds hname complete
  have hkeep : ∀ {j : Fin n} {y : Tid}, Function.update name i none j = some y → i ≠ j ∧ name j = some y :=
    fun hy => (update_eq_some hy).resolve_left fun hnone => nomatch hnone.2
  constructor
  case alike => exact h.alike
  case ordered => exact h.ordered
  case nodup => exact h.nodup
  case name_inj => exact fun hj hk => h.name_inj (hkeep hj).2 (hkeep hk).2
  case named_iff =>
    intro j
    rw [slots_finish]
    split
    · next hij =>
      subst hij
      rw [Function.update_self]
      exact iff_of_false (fun ⟨y, hy⟩ => nomatch hy) Bool.false_ne_true
    · next hij =>
      rw [Function.update_of_ne (Ne.symm hij)]
      exact h.named_iff j
  case told =>
    intro j y hy
    rw [slots_finish] at hy
    split at hy
    · cases hy
    · next hij =>
      rw [Function.update_of_ne (Ne.symm hij)]
      exact h.told hy
  case line =>
    have hsame : run.awaitingTid.map (Function.update name i none) = run.awaitingTid.map name := by
      apply List.map_congr_left
      intro j hj
      rw [Function.update_of_ne]
      rintro rfl
      exact waiting hj
    exact hsame.trans h.line
  case serves =>
    intro j u y hu hy
    obtain ⟨hij, hy⟩ := hkeep hy
    rw [slots_finish, if_neg hij] at hu ⊢
    exact h.serves hu hy
  case outputs =>
    intro j u y hu hy
    obtain ⟨hij, hy⟩ := hkeep hy
    rw [slots_finish, if_neg hij] at hu ⊢
    exact h.outputs hu hy
  case collected =>
    intro u hu hn
    by_cases htu : t = u
    · subst htu
      exact hall
    · exact h.collected u hu (left_of_finish _ holds htu hn)

/-- A response that is routed leaves the run and the engine matched, with a name less if it completes its
transaction. -/
theorem delivered (h : Tenancy engine work name (r :: inbox) run) (pool : Pool work run)
    (d : Delivered run r run') :
    ∃ name', (∀ i x, name' i = some x → name i = some x) ∧ Tenancy engine work name' inbox run' := by
  cases d with
  | assigned kind awaiting => exact ⟨name, fun _ _ => id, h.assign kind awaiting⟩
  | given kind route _ holds =>
    exact ⟨name, fun _ _ => id, h.give pool kind ((pool.lookup_iff _ _).1 route) holds⟩
  | @finished i t kind route state holds complete =>
    have hnamed := (pool.lookup_iff _ _).1 route
    refine ⟨Function.update name i none, fun j y hy => ?_, ?_⟩
    · exact ((update_eq_some hy).resolve_left fun hnone => nomatch hnone.2).2
    · apply (h.give pool kind hnamed holds).finish holds hnamed
      · show i ∉ run.awaitingTid
        rw [pool.mem_awaiting]
        exact (pool.tid_of_reading state).2
      · rw [transactions_modifyTransaction, if_pos rfl]
        rw [Transaction.isComplete_iff] at complete
        exact complete.trans (Transaction.outputCount_of_reset (pool.same t))

/-! ## Identifiers that are taken -/

/-- Until the inbox is filled, an identifier in use is taken: the entry is there, or a data word is on its
way. -/
theorem taken (h : Tenancy engine work name [] run) (pool : Pool work run) (hx : name i = some x) :
    run.client.channel.isTaken x = true := by
  obtain ⟨t, ht⟩ := h.holds pool hx
  have hserves := h.serves ht hx
  unfold isTaken
  rw [Bool.or_eq_true]
  by_cases hreads : run.slots[i].readsIssued < work[t].outputCount
  · obtain ⟨e, he, -⟩ := hserves.entry hreads
    exact .inl (by rw [he]; rfl)
  · -- every output was read and some are missing, so they are on their way
    have hlen := congrArg List.length (h.outputs ht hx)
    have hmissing := pool.unfinished ht
    rw [List.length_append, Array.length_toList, List.length_take, Transaction.length_expected] at hlen
    obtain ⟨r, hr⟩ : ∃ r, r ∈ along (some x) (flight [] run) := by
      apply List.exists_mem_of_length_pos
      have hwords : (words x (flight [] run)).length = (along (some x) (flight [] run)).length :=
        List.length_map _
      omega
    obtain ⟨hmem, hlane⟩ := mem_along.1 hr
    obtain ⟨d, hd, rfl⟩ := List.mem_map.1 hmem
    refine .inr (List.any_eq_true.2 ⟨d, hd, ?_⟩)
    rw [Response.tid_of_lane hlane]
    exact beq_self_eq_true x

/-- An identifier that nothing is about is no slot's. -/
theorem fresh (h : Tenancy engine work name [] run) (pool : Pool work run)
    (free : run.client.channel.find? x = none)
    (unsent : ∀ d ∈ run.client.channel.deferred, d.response.tid ≠ x) (j : Fin n) : name j ≠ some x := by
  intro hj
  have htaken := h.taken pool hj
  unfold isTaken at htaken
  rw [free, Bool.or_eq_true, List.any_eq_true] at htaken
  obtain hsome | ⟨d, hd, hdx⟩ := htaken
  · cases hsome
  · exact unsent d hd (eq_of_beq hdx)

end Tenancy

end Run

end NeuralEngine
