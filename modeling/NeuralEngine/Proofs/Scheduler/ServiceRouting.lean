import Mathlib.Data.List.Perm.Subperm
import NeuralEngine.Proofs.Scheduler.Service

/-!
# What a run over the simulator routes

Every response on its way is awaited by the time it comes to be routed: an identifier goes to the slot
that has stood in line for longest, which the simulator gave it to, and a data word finds its slot
reading. While the inbox is empty, the identifiers that are taken are those of the slots that have one.
-/

namespace NeuralEngine

open Simulator

/-- The slot of a transaction that has an identifier was not read from before its stream was fed. -/
theorem Slot.Stage.reading_of_reads {m : Nat} {work : Vector Transaction m} {s : Slot (Fin m)}
    (h : Slot.Stage work s) {tid : Tid} (named : s.tid = some tid) (reads : 0 < s.readsIssued) :
    s.state = .read ∨ s.state = .readWait := by
  obtain hs | hs | hs | hs := h.tid_isSome_iff.1 ⟨tid, named⟩
  · obtain ⟨_, _, _, _, rfl, -⟩ := h.of_write hs
    exact absurd reads (Nat.lt_irrefl 0)
  · obtain ⟨_, _, rfl⟩ := h.of_executing hs
    exact absurd reads (Nat.lt_irrefl 0)
  · exact .inl hs
  · exact .inr hs

/-- Fewer identifiers than slots are named when some slot is not. -/
theorem length_lt_of_named {n : Nat} {name : Fin n → Option Tid} {xs : List Tid} (nodup : xs.Nodup)
    (named : ∀ x ∈ xs, ∃ i, name i = some x) {i : Fin n} (free : name i = none) : xs.length < n := by
  have hsub : xs ⊆ (List.finRange n).filterMap name := by
    intro x hx
    obtain ⟨j, hj⟩ := named x hx
    exact List.mem_filterMap.2 ⟨j, List.mem_finRange j, hj⟩
  calc xs.length
    _ ≤ ((List.finRange n).filterMap name).length := (nodup.subperm hsub).length_le
    _ < (List.finRange n).length :=
      List.length_filterMap_lt_length_iff_exists.2 ⟨i, List.mem_finRange i, free⟩
    _ = n := List.length_finRange

namespace Run.Service

variable {n m : Nat} {engine : Simulator} {work : Vector Transaction m} {history : List (Event m)}
  {name : Fin n → Option Tid} {inbox : List Response} {run run' : Run Simulator n m} {r : Response}
  {i : Fin n} {t : Fin m} {x : Tid}

theorem assign (h : Service engine work history name (r :: inbox) run) {rest : List (Fin n)}
    (kind : r.kind? = some .tid) (awaiting : run.awaitingTid = i :: rest)
    (holds : run.slots[i].transaction = some t) {events : List (Event m)} :
    Service engine work (history ++ events) name inbox (run.assign i t r.tid rest) := by
  obtain ⟨i', rest', hwait, hname, -⟩ := h.tenancy.head_line kind
  rw [awaiting] at hwait
  cases hwait
  have htrans : ∀ j : Fin n,
      (run.assign i t r.tid rest).slots[j].transaction = run.slots[j].transaction :=
    apply_getElem_set Slot.transaction rfl
  apply of_tenancy (h.tenancy.assign kind awaiting)
  case known => exact h.known
  case allocated =>
    intro j u x hu hx
    rw [htrans] at hu
    exact (h.allocated hu hx).append events
  case kinds =>
    intro r' hr'
    obtain hkind | ⟨hkind, j, hj⟩ := h.kinds r' (List.mem_cons_of_mem r hr')
    · exact .inl hkind
    · refine .inr ⟨hkind, j, ?_⟩
      rw [slots_assign]
      split
      · next hij =>
        subst hij
        rw [h.told hj] at hname
        exact hname.symm
      · exact hj
  case identified =>
    intro u hu hn
    obtain ⟨-, x, hx, halloc⟩ := h.done u hu fun j hj => hn j (by rw [htrans]; exact hj)
    refine ⟨x, ?_, halloc.append events⟩
    have hne : t ≠ u := by
      rintro rfl
      exact hn i (by rw [htrans]; exact holds)
    rw [transactions_assign, if_neg hne]
    exact hx

theorem give (h : Service engine work history name (r :: inbox) run) (pool : Pool work run)
    (kind : r.kind? = some .data) (named : run.slots[i].tid = some r.tid)
    (holds : run.slots[i].transaction = some t) {events : List (Event m)} :
    Service engine work (history ++ events) name inbox
      (run.modifyTransaction t (·.addOutput r.element)) := by
  apply of_tenancy (h.tenancy.give pool kind named holds)
  case known => exact h.known
  case allocated => exact fun hu hx => (h.allocated hu hx).append events
  case kinds => exact fun r' hr' => h.kinds r' (List.mem_cons_of_mem r hr')
  case identified =>
    intro u hu hn
    have hne : t ≠ u := by
      rintro rfl
      exact hn i holds
    rw [transactions_modifyTransaction, if_neg hne]
    obtain ⟨-, x, hx, halloc⟩ := h.done u hu hn
    exact ⟨x, hx, halloc.append events⟩

/-- The slot of a complete transaction is freed, and its name with it. -/
theorem finish (h : Service engine work history name inbox run)
    (holds : run.slots[i].transaction = some t) (named : run.slots[i].tid = some x)
    (waiting : i ∉ run.awaitingTid) (tid_eq : run.transactions[t].tid = some x)
    (complete : run.transactions[t].outputs.size = work[t].outputCount) :
    Service engine work history (Function.update name i none) inbox (run.finish i x) := by
  have hname : name i = some x := h.told named
  obtain ⟨hwords, hgone, -⟩ := h.tenancy.drained holds hname complete
  apply of_tenancy (h.tenancy.finish holds named waiting complete)
  case known =>
    intro y hy
    obtain ⟨j, hj⟩ := h.known y hy
    refine ⟨j, ?_⟩
    rw [Function.update_of_ne, hj]
    rintro rfl
    rw [hname] at hj
    cases hj
    exact Rows.find?_eq_none_iff.1 hgone hy
  case allocated =>
    intro j u y hu hy
    obtain ⟨-, hnone⟩ | ⟨hij, hy⟩ := update_eq_some hy
    · cases hnone
    · rw [slots_finish, if_neg hij] at hu
      exact h.allocated hu hy
  case kinds =>
    intro r hr
    obtain hkind | ⟨hkind, j, hj⟩ := h.kinds r hr
    · exact .inl hkind
    · refine .inr ⟨hkind, j, ?_⟩
      rw [slots_finish, if_neg]
      · exact hj
      · rintro rfl
        -- no data word of the freed slot is on its way
        rw [named] at hj
        have hmem : r.element ∈ words x (flight inbox run) :=
          List.mem_map_of_mem (mem_along.2 ⟨hr, by rw [Response.lane_data hkind, hj]⟩)
        rw [hwords] at hmem
        exact absurd hmem List.not_mem_nil
  case identified =>
    intro u hu hn
    by_cases htu : t = u
    · subst htu
      exact ⟨x, tid_eq, h.allocated holds hname⟩
    · exact (h.done u hu (left_of_finish _ holds htu hn)).2

/-! ## Every response -/

/-- A response that is routed leaves the run and the engine as they fit together, with a name less if it
completes its transaction. -/
theorem delivered (h : Service engine work history name (r :: inbox) run) (pool : Pool work run)
    (d : Delivered run r run') :
    ∃ name', (∀ i x, name' i = some x → name i = some x) ∧
      Service engine work (history ++ [.routed r]) name' inbox run' := by
  cases d with
  | assigned kind awaiting _ _ holds => exact ⟨name, fun _ _ => id, h.assign kind awaiting holds⟩
  | given kind route _ holds =>
    exact ⟨name, fun _ _ => id, h.give pool kind ((pool.lookup_iff _ _).1 route) holds⟩
  | @finished i t kind route state holds complete =>
    have hnamed := (pool.lookup_iff _ _).1 route
    have hgiven : Service engine work (history ++ [.routed r]) name inbox
        (run.modifyTransaction t (·.addOutput r.element)) := h.give pool kind hnamed holds
    refine ⟨Function.update name i none, fun j y hy => ?_, hgiven.finish holds hnamed ?_ ?_ ?_⟩
    · exact ((update_eq_some hy).resolve_left fun hnone => nomatch hnone.2).2
    · show i ∉ run.awaitingTid
      rw [pool.mem_awaiting]
      exact (pool.tid_of_reading state).2
    · rw [transactions_modifyTransaction, if_pos rfl, Transaction.tid_addOutput]
      exact pool.named holds hnamed
    · rw [transactions_modifyTransaction, if_pos rfl]
      rw [Transaction.isComplete_iff] at complete
      exact complete.trans (Transaction.outputCount_of_reset (pool.same t))

/-- Every response finds a slot that waits for it. -/
theorem awaited (h : Service engine work history name (r :: inbox) run) (pool : Pool work run) :
    run.Awaited r := by
  obtain hkind | ⟨hkind, i, hi⟩ := h.kinds r List.mem_cons_self
  · obtain ⟨i, rest, hw, hname, -⟩ := h.tenancy.head_line hkind
    refine .inl ⟨hkind, by simp [hw], ?_⟩
    cases hl : run.routes.lookup r.tid with
    | none => rfl
    | some j =>
      have hj := (pool.lookup_iff _ _).1 hl
      obtain rfl : i = j := h.name_inj hname (h.told hj)
      have hstate : run.slots[i].state = .newWriteWait := by
        rw [← pool.mem_awaiting, hw]
        exact List.mem_cons_self
      rw [(pool.stage i).tid_eq_none_iff.2 (.inr (.inr hstate))] at hj
      cases hj
  · obtain ⟨t, ht⟩ := h.tenancy.holds pool (h.told hi)
    have hall := h.outputs ht (h.told hi)
    have hlen := congrArg List.length hall
    rw [flight_cons, words_cons hkind, List.length_append, List.length_cons, List.length_take] at hlen
    exact .inr ⟨hkind, i, (pool.lookup_iff _ _).2 hi, (pool.stage i).reading_of_reads hi (by omega)⟩

/-! ## Taken identifiers -/

theorem named_of_taken (h : Service engine work history name [] run)
    (taken : run.client.channel.isTaken x = true) : ∃ i, name i = some x := by
  unfold isTaken at taken
  rw [Bool.or_eq_true, Option.isSome_iff_exists, List.any_eq_true] at taken
  obtain ⟨e, he⟩ | ⟨d, hd, hx⟩ := taken
  · exact h.known x (Rows.mem_tids_iff.2 ⟨e, he⟩)
  · obtain rfl : d.response.tid = x := eq_of_beq hx
    have hmem : d.response ∈ flight [] run := List.mem_map_of_mem hd
    obtain hkind | ⟨-, i, hi⟩ := h.kinds _ hmem
    · have hline : some d.response.tid ∈ run.awaitingTid.map name := by
        rw [h.line]
        exact List.mem_map.2 ⟨_, mem_along.2 ⟨hmem, Response.lane_tid hkind⟩, rfl⟩
      obtain ⟨i, -, hi⟩ := List.mem_map.1 hline
      exact ⟨i, hi⟩
    · exact ⟨i, h.told hi⟩

end Run.Service

end NeuralEngine
