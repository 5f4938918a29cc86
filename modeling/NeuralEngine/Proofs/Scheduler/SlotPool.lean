import Mathlib.Data.List.Nodup
import NeuralEngine.Channel.Replay
import NeuralEngine.Proofs.Scheduler.Routing
import NeuralEngine.Proofs.Scheduler.Transcript

/-!
# Slots, line, map and transactions at every point of a run

The invariant of the slots, as a run shows it: read off the state alone, without the transactions as
they were before. It holds at every point that the run of a checked batch visits, whatever its channel
answers. So a turn never finds its slot without what the slot's state calls for, the engine holds as
many transactions as it has room for at most, and only a response that repeats an identifier in use, or
data for a transaction that does not read, can find a slot in the wrong state.
-/

namespace NeuralEngine

/-- The transaction of a slot in this state has an identifier. -/
def SlotState.isNamed : SlotState → Bool
  | write | executing | read | readWait => true
  | _ => false

namespace Run

variable {σ : Type} {n m : Nat}

/-- What holds of the slots of a run. -/
structure SlotInvariant (run : Run σ n m) : Prop where
  unused : ∀ i : Fin n, run.slots[i].state = .unused → run.slots[i] = Slot.empty
  held : ∀ i : Fin n, run.slots[i].state ≠ .unused →
    ∃ t : Fin m, run.slots[i].transaction = some t ∧ t < run.nextPending
  held_inj : ∀ (i j : Fin n) (t : Fin m),
    run.slots[i].transaction = some t → run.slots[j].transaction = some t → i = j
  unnamed : ∀ i : Fin n, run.slots[i].state = .newWrite ∨ run.slots[i].state = .newWriteWait →
    run.slots[i].tid = none
  named : ∀ i : Fin n, run.slots[i].state.isNamed = true → ∃ tid, run.slots[i].tid = some tid
  awaiting_nodup : run.awaitingTid.Nodup
  mem_awaiting : ∀ i : Fin n, i ∈ run.awaitingTid ↔ run.slots[i].state = .newWriteWait
  /-- The map has one entry for each identifier and one for each slot that has one. -/
  routes_nodup : (run.routes.map Prod.fst).Nodup ∧ (run.routes.map Prod.snd).Nodup
  mem_routes : ∀ (tid : Tid) (i : Fin n), (tid, i) ∈ run.routes ↔
    run.slots[i].state.isNamed = true ∧ run.slots[i].tid = some tid
  write : ∀ (i : Fin n) (t : Fin m), run.slots[i].transaction = some t →
    run.slots[i].state = .write →
      run.slots[i].registersWritten ≤ run.transactions[t].registers.length ∧
        run.slots[i].cursor < run.transactions[t].stream.size
  read : ∀ (i : Fin n) (t : Fin m), run.slots[i].transaction = some t →
    run.slots[i].state = .read → run.slots[i].readsIssued < run.transactions[t].outputCount
  unfinished : ∀ (i : Fin n) (t : Fin m), run.slots[i].transaction = some t →
    run.transactions[t].outputs.size < run.transactions[t].outputCount
  complete : ∀ t : Fin m, t.val < run.nextPending →
    (∀ i : Fin n, run.slots[i].transaction ≠ some t) → run.transactions[t].isComplete = true

theorem active_le (run : Run σ n m) : run.active ≤ n :=
  Vector.countP_le_size

theorem active_eq (run : Run σ n m) :
    run.active = (List.finRange n).countP fun i => run.slots[i].state.holdsEntry := by
  have hslots : run.slots.toList = (List.finRange n).map fun i => run.slots[i] := by
    refine List.ext_getElem (by simp) fun k hk hk' => ?_
    simp
  rw [active, ← Vector.countP_toList, hslots, List.countP_map]
  rfl

namespace Pool

variable {work : Vector Transaction m} {run run' : Run σ n m}

theorem tid_of_named (h : Pool work run) {i : Fin n} (hi : run.slots[i].state.isNamed = true) :
    ∃ tid, run.slots[i].tid = some tid := by
  rw [(h.stage i).tid_isSome_iff]
  cases hs : run.slots[i].state <;> simp_all [SlotState.isNamed]

theorem named_of_tid (h : Pool work run) {i : Fin n} {tid : Tid} (hi : run.slots[i].tid = some tid) :
    run.slots[i].state.isNamed = true := by
  obtain hs | hs | hs | hs := (h.stage i).tid_isSome_iff.1 ⟨tid, hi⟩ <;> rw [hs] <;> rfl

theorem mem_routes_iff (h : Pool work run) (tid : Tid) (i : Fin n) :
    (tid, i) ∈ run.routes ↔ run.slots[i].tid = some tid := by
  rw [← h.lookup_iff]
  exact mem_iff_lookup h.routes_nodup tid i

theorem routes_slots_nodup (h : Pool work run) : (run.routes.map Prod.snd).Nodup := by
  rw [List.nodup_map_iff_inj_on h.routes_nodup.of_map]
  rintro ⟨x, i⟩ hx ⟨y, j⟩ hy rfl
  rw [h.mem_routes_iff] at hx hy
  rw [hx] at hy
  rw [Option.some.inj hy]

/-- A pool that fits together has the invariant. -/
theorem slotInvariant (h : Pool work run) : run.SlotInvariant where
  unused i hi := (h.stage i).of_unused hi
  held i hi := by
    obtain ⟨t, ht⟩ := (h.stage i).transaction_isSome hi
    exact ⟨t, ht, h.held_lt ht⟩
  held_inj i j t := h.held_inj
  unnamed i hi := (h.stage i).tid_eq_none_iff.2 (.inr hi)
  named i := h.tid_of_named
  awaiting_nodup := h.awaiting_nodup
  mem_awaiting := h.mem_awaiting
  routes_nodup := ⟨h.routes_nodup, h.routes_slots_nodup⟩
  mem_routes tid i := by
    rw [h.mem_routes_iff]
    exact ⟨fun hi => ⟨h.named_of_tid hi, hi⟩, And.right⟩
  write i t ht hi := by
    obtain ⟨u, tid, written, cursor, hs, hr, hc, -⟩ := (h.stage i).of_write hi
    rw [hs] at ht ⊢
    cases ht
    rw [Transaction.registers_of_reset (h.same t), Transaction.stream_of_reset (h.same t)]
    exact ⟨hr, hc⟩
  read i t ht hi := by
    obtain ⟨u, tid, reads, hs, hr⟩ := (h.stage i).of_read hi
    rw [hs] at ht ⊢
    cases ht
    rw [Transaction.outputCount_of_reset (h.same t)]
    exact hr
  unfinished i t ht := by
    rw [Transaction.outputCount_of_reset (h.same t)]
    exact h.unfinished ht
  complete t ht hn := by
    rw [Transaction.isComplete_iff, Transaction.outputCount_of_reset (h.same t)]
    exact h.finished t ht hn

end Pool

variable [DrainingChannel σ] {work : Vector Transaction m} {client : Client σ} {inbox : List Response}
  {run : Run σ n m}

/-- A cycle fails with an error of the client, if it fails before anything is routed. -/
theorem Visits.gather_error (ready : ∀ t : Fin m, work[t].Ready)
    (h : Visits (Run.start client work : Run σ n m) [] run) {e : SchedulerError} {run' : Run σ n m}
    (hg : gather run = .error e run') : ∃ c, e = .client c := by
  obtain ⟨event, turn⟩ | ⟨i, hi, hstuck⟩ := takeTurn_error (takeTurn_of_gather_error hg)
  · cases turn with
    | refused => exact ⟨_, rfl⟩
    | unexpected => exact ⟨_, rfl⟩
  · exact absurd hstuck ((h.pool ready).not_stuck ready hi)

/-- What a run leaves when its budget is used up. -/
def abandoned? (budget : Nat) (run : Run σ n m) : Option (Run σ n m) :=
  match cycles budget run with
  | .error .cycleBudgetExceeded left => some left
  | _ => none

theorem cycles_of_abandoned {budget : Nat} {run left : Run σ n m} (h : run.abandoned? budget = some left) :
    cycles budget run = .error .cycleBudgetExceeded left := by
  unfold abandoned? at h
  split at h
  · next hcycles =>
    cases h
    exact hcycles
  · cases h

/-- A run visits the state in which it is abandoned. -/
theorem Visits.of_abandoned (ready : ∀ t : Fin m, work[t].Ready) {budget : Nat} {run : Run σ n m}
    (h : (Run.start client work).abandoned? budget = some run) : Visits (Run.start client work) [] run := by
  obtain ⟨history, hended⟩ := ended_of_cycles_error ready .start .start (cycles_of_abandoned h)
  cases hended with
  | outOfBudget _ visits => exact visits.refill
  | failed _ _ turn => cases turn
  | unroutable _ visits route =>
    obtain hnone | hwrong := (visits.pool ready).route_error route
    · cases hnone
    · cases hwrong

/-- When no slot holds a transaction after a refill, every transaction is complete. -/
theorem Visits.complete_of_idle (ready : ∀ t : Fin m, work[t].Ready)
    (h : Visits (Run.start client work : Run σ n m) [] run) (room : 0 < m → 0 < n)
    (idle : run.refill.isBusy = false) (t : Fin m) : run.refill.transactions[t].isComplete = true := by
  have hpool := h.refill.pool ready
  obtain ⟨hlt, hleft⟩ := hpool.left_of_idle room idle t
  exact hpool.slotInvariant.complete t hlt hleft

end Run

namespace Scheduler

variable {σ : Type} [DrainingChannel σ]

section Transcript

variable {s : Scheduler σ} {batch : Array Transaction} {history : List (Event batch.size)}
  {outcome : Outcome} {client : Client σ}

/-- Nothing but a misrouted response makes a run inconsistent. -/
theorem Transcript.misrouted (h : s.Transcript batch history outcome client)
    (valid : s.validate batch = .ok ()) (result : outcome.result = .error .slotStateInconsistent) :
    ∃ response inbox run, Run.Visits (s.launch batch) (response :: inbox) run ∧
      run.Misrouted response := by
  have ready := ready_of_validate valid
  cases h with
  | invalid invalid =>
    rw [valid] at invalid
    cases invalid
  | noCapacity => cases result
  | ran _ _ ended =>
    cases ended with
    | completed => cases result
    | outOfBudget => cases result
    | failed _ _ turn => cases turn <;> cases result
    | unroutable _ visits route =>
      cases result
      exact ⟨_, _, _, visits, ((visits.pool ready).route_inconsistent_iff _).1 route⟩

/-- A run that succeeds leaves every transaction complete. -/
theorem Transcript.complete (h : s.Transcript batch history outcome client) {report : RunReport}
    (result : outcome.result = .ok report) : ∀ x ∈ outcome.transactions, x.isComplete = true := by
  cases h with
  | invalid => cases result
  | noCapacity => cases result
  | ran valid room ended =>
    intro x hx
    cases ended with
    | completed _ visits idle =>
      obtain ⟨t, ht, rfl⟩ := Array.mem_iff_getElem.1 hx
      exact visits.complete_of_idle (ready_of_validate valid)
        (fun hpos => Nat.lt_min.2 ⟨hpos, room hpos⟩) idle ⟨t, by simpa using ht⟩
    | outOfBudget => cases result
    | failed => cases result
    | unroutable => cases result

end Transcript

/-- At every point of the run of a checked batch the slots are in order; no turn finds its slot
wanting; a misrouted response, and nothing else, is an inconsistency; and a run that succeeds leaves
every transaction complete. -/
theorem slots_in_order (s : Scheduler σ) (batch : Array Transaction) (valid : s.validate batch = .ok ()) :
    (∀ inbox run, Run.Visits (s.launch batch) inbox run →
      run.SlotInvariant ∧ run.active ≤ s.capacity ∧
        (∀ response, run.route response = .error .slotStateInconsistent ↔ run.Misrouted response) ∧
        (inbox = [] → ∀ e run', Run.gather run = .error e run' → ∃ c, e = .client c)) ∧
      ((s.run batch).1.result = .error .slotStateInconsistent →
        ∃ response inbox run, Run.Visits (s.launch batch) (response :: inbox) run ∧
          run.Misrouted response) ∧
      ∀ report, (s.run batch).1.result = .ok report →
        ∀ x ∈ (s.run batch).1.transactions, x.isComplete = true := by
  have ready := ready_of_validate valid
  refine ⟨fun inbox run h => ⟨?_, ?_, ?_, ?_⟩, ?_, ?_⟩
  · exact (h.pool ready).slotInvariant
  · exact Nat.le_trans run.active_le (Nat.min_le_right _ _)
  · exact (h.pool ready).route_inconsistent_iff
  · rintro rfl e run' hg
    exact h.gather_error ready hg
  · obtain ⟨history, htranscript⟩ := s.exists_transcript batch
    exact htranscript.misrouted valid
  · obtain ⟨history, htranscript⟩ := s.exists_transcript batch
    exact fun report => htranscript.complete

/-- A scheduler over a channel that gives the first transaction an identifier at once and answers everything
after that with a bare `ok`. -/
def acknowledged : Scheduler Replay where
  client := { channel := { responses := [{ kind := 1, tid := 5 }], fallback := .status .ok } }
  table := { spaces := [{ capacity := 1, configs := [.ofWords [0, 1]] }], configsPerSpace := 1 }
  asid := 0

/-- Two transactions. -/
def acknowledgedPair : Array Transaction :=
  #[.feedforward 0 [1, 2] 1, .feedforward 0 [3] 1]

/-- After two cycles the first slot has an identifier and the second one awaits its own. -/
theorem acknowledged_slots_in_order :
    acknowledged.validate acknowledgedPair = .ok () ∧
      ∃ run, Run.Visits (acknowledged.launch acknowledgedPair) [] run ∧
        run.routes.map (fun route => (route.1, route.2.val)) = [(5, 0)] ∧ run.awaitingTid.map (·.val) = [1] ∧
        run.SlotInvariant ∧ run.active ≤ acknowledged.capacity := by
  have hvalid : acknowledged.validate acknowledgedPair = .ok () := rfl
  have hleft : ((acknowledged.launch acknowledgedPair).abandoned? 2).map
      (fun run => (run.routes.map fun route => (route.1, route.2.val), run.awaitingTid.map (·.val))) =
        some ([(5, 0)], [1]) := by
    decide +kernel
  obtain ⟨run, hrun, hview⟩ := Option.map_eq_some_iff.1 hleft
  obtain ⟨hroutes, hawaiting⟩ := Prod.mk.inj hview
  have hvisits := Run.Visits.of_abandoned (ready_of_validate hvalid) hrun
  obtain ⟨hinvariant, hactive, -⟩ := (slots_in_order acknowledged acknowledgedPair hvalid).1 [] run hvisits
  exact ⟨hvalid, run, hvisits, hroutes, hawaiting, hinvariant, hactive⟩

end Scheduler

end NeuralEngine
