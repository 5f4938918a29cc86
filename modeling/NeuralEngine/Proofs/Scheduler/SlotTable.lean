import Mathlib.Logic.ExistsUnique
import NeuralEngine.Proofs.Scheduler.ExpectedOutputs
import NeuralEngine.Proofs.Scheduler.Mirror
import NeuralEngine.Proofs.Scheduler.SlotPool

/-!
# The slots of a run and the table of its engine

A run keeps slots and the simulator that it drives keeps a transaction table, each by itself: a slot is freed
when the last output of its transaction arrives, a row when that output is read. `Mirrors` says how the two agree
after every cycle, as long as the clock is in time. So the simulator holds at most as many transactions as there are
active slots, there is a row for every open, and the two sides count the same peak of identifiers on their way.
-/

namespace NeuralEngine

open Simulator

/-- The entry is the one of transaction `x`, as far as slot `s` has brought it. -/
structure Simulator.Entry.Mirrors {ι : Type} (e : Entry) (s : Slot ι) (x : Transaction) : Prop where
  nnid_eq : e.nnid = x.nnid
  mode_eq : e.mode = x.mode
  trainOutputs_eq : e.trainOutputs = x.trainOutputs
  tid_eq : ∀ tid, s.tid = some tid → e.tid = tid
  elements : e.consumed ++ e.queue = x.stream.toList.take s.cursor
  /-- A register holds the last value that was written to it. -/
  registers : ∀ register, e.registers.get register = (x.registers.take s.registersWritten).reverse.lookup register

theorem Slot.Stage.reads_le {m : Nat} {work : Vector Transaction m} {s : Slot (Fin m)} (h : Slot.Stage work s)
    {t : Fin m} (holds : s.transaction = some t) : s.readsIssued ≤ work[t].outputCount := by
  cases h with
  | unused => cases holds
  | newWrite => exact Nat.zero_le _
  | newWriteWait => exact Nat.zero_le _
  | write => exact Nat.zero_le _
  | executing => exact Nat.zero_le _
  | read _ _ reads lt =>
    cases holds
    exact Nat.le_of_lt lt
  | readWait =>
    cases holds
    exact Nat.le_refl _

namespace Run

variable {n m : Nat} {engine : Simulator} {work : Vector Transaction m} {history : List (Event m)}
  {name : Fin n → Option Tid} {inbox : List Response} {run run' : Run Simulator n m} {i : Fin n} {t : Fin m}
  {x : Tid}

/-- The slots of the run and the transactions of the engine agree. The engine gave identifier `name i` to the
transaction of slot `i`. -/
structure Mirrors (engine : Simulator) (work : Vector Transaction m) (history : List (Event m))
    (name : Fin n → Option Tid) (run : Run Simulator n m) : Prop where
  /-- The slots that occupy a row are those with a name, -/
  named_iff : ∀ i, (∃ x, name i = some x) ↔ run.slots[i].state.holdsEntry = true
  /-- which the engine gave to the open of the slot's transaction -/
  given : ∀ (i : Fin n) (x : Tid), name i = some x →
    ∃ t, run.slots[i].transaction = some t ∧ Allocated engine work history t x
  /-- and to no other slot. -/
  name_inj : ∀ (i j : Fin n) (x : Tid), name i = some x → name j = some x → i = j
  /-- Every transaction of the engine belongs to one slot. -/
  home : ∀ e ∈ run.client.channel.entries, ∃! i, name i = some e.tid
  entry : ∀ e ∈ run.client.channel.entries, ∀ (i : Fin n) (t : Fin m), name i = some e.tid →
    run.slots[i].transaction = some t → e.Mirrors run.slots[i] run.transactions[t]
  /-- The line has the slots of the identifiers that are held back, in their order. -/
  awaiting : run.awaitingTid.map name = run.client.channel.owed.map some
  /-- The outputs that a slot has asked for have arrived or are held back. -/
  reads : ∀ (i : Fin n) (t : Fin m) (x : Tid), name i = some x → run.slots[i].transaction = some t →
    run.slots[i].readsIssued = run.transactions[t].outputs.size +
      (run.client.channel.undelivered.filter fun r => r.kind? = some .data ∧ r.tid = x).length

/-- The data words of a transaction that are held back. -/
theorem Service.length_words (h : Service engine work history name [] run) (x : Tid) :
    (words x (flight [] run)).length =
      (run.client.channel.undelivered.filter fun r => r.kind? = some .data ∧ r.tid = x).length := by
  unfold words along
  rw [List.length_map]
  refine congrArg List.length (List.filter_congr fun r hr => ?_)
  obtain hkind | ⟨hkind, -⟩ := h.kinds r hr
  · simp [Response.lane_tid hkind, hkind]
  · simp [Response.lane_data hkind, hkind, Bool.beq_eq_decide_eq]

namespace Mirrored

/-- The entry that the engine holds under the name of a slot. -/
theorem entry (h : Mirrored engine work history name inbox run) (pool : Pool work run) {e : Entry}
    (he : e ∈ run.client.channel.entries) (hx : name i = some e.tid) (ht : run.slots[i].transaction = some t) :
    e.Mirrors run.slots[i] run.transactions[t] := by
  have hfind := find?_of_mem_entries h.service.nodup he
  have hserves := h.service.serves ht hx
  have hlabelled := h.labelled ht hx e hfind
  unfold Simulator.Serves at hserves
  split at hserves
  · obtain ⟨e', hfind', hentry⟩ := hserves
    obtain rfl : e = e' := Option.some.inj (hfind.symm.trans hfind')
    rw [← pool.same t] at hentry hlabelled
    refine ⟨hlabelled.nnid_eq, hentry.mode_eq, hentry.trainOutputs_eq, fun y hy => ?_, hentry.elements,
      hlabelled.registers_eq⟩
    exact Option.some.inj (hx.symm.trans (h.service.told hy))
  · rw [hfind] at hserves
    cases hserves

/-- After every cycle the slots and the table agree. -/
theorem mirrors (h : Mirrored engine work history name [] run) (pool : Pool work run) :
    run.Mirrors engine work history name where
  named_iff := h.service.named_iff
  given i x hx := by
    obtain ⟨t, ht⟩ := h.service.tenancy.holds pool hx
    exact ⟨t, ht, h.service.allocated ht hx⟩
  name_inj i j x := h.service.name_inj
  home e he := by
    obtain ⟨i, hi⟩ := h.service.known e.tid (List.mem_map_of_mem he)
    exact ⟨i, hi, fun j hj => h.service.name_inj hj hi⟩
  entry e he i t hx ht := h.entry pool he hx ht
  awaiting := by
    rw [h.service.line, owed, List.map_map]
    rfl
  reads i t x hx ht := by
    have hlength := congrArg List.length (h.service.outputs ht hx)
    rw [List.length_append, Array.length_toList, List.length_take, Transaction.length_expected,
      Nat.min_eq_left ((pool.stage i).reads_le ht), h.service.length_words] at hlength
    exact hlength.symm

/-! ## Room -/

/-- The engine holds no more transactions than there are slots that occupy a row. -/
theorem resident_le_active (h : Mirrored engine work history name inbox run) :
    run.client.channel.resident ≤ run.active := by
  have hsub : run.client.channel.tids ⊆ (List.finRange n).filterMap name := by
    intro x hx
    obtain ⟨i, hi⟩ := h.service.known x hx
    exact List.mem_filterMap.2 ⟨i, List.mem_finRange i, hi⟩
  have hholds : ∀ i : Fin n, (name i).isSome = true → run.slots[i].state.holdsEntry = true := fun i hi =>
    (h.service.named_iff i).1 (Option.isSome_iff_exists.1 hi)
  calc run.client.channel.resident
    _ = run.client.channel.tids.length := resident_eq _
    _ ≤ ((List.finRange n).filterMap name).length := (h.service.nodup.subperm hsub).length_le
    _ = (List.finRange n).countP fun i => (name i).isSome := List.length_filterMap_eq_countP
    _ ≤ (List.finRange n).countP fun i => run.slots[i].state.holdsEntry :=
      List.countP_mono_left fun i _ hi => hholds i hi
    _ = run.active := run.active_eq.symm

/-- There is a row for the transaction of a slot that is about to open it. -/
theorem room (h : Mirrored engine work history name inbox run) (hi : run.slots[i].state = .newWrite) :
    run.client.channel.resident < n := by
  rw [resident_eq]
  apply length_lt_of_named h.service.nodup h.service.known
  rw [Option.eq_none_iff_forall_ne_some]
  exact h.service.tenancy.name_ne (by rw [hi]; rfl)

/-- No turn fails because a request is a bad one: an open finds a free row, and the simulator tolerates the other
requests. -/
theorem ne_badRequest (h : Mirrored engine work history name [] run) (pool : Pool work run)
    (ready : ∀ t : Fin m, work[t].Ready) (rows : n ≤ engine.capacity) {event : Event m} {e : SchedulerError}
    (failed : FailedTurn run event e run') : e ≠ .client (.engine .badRequest) := by
  cases failed with
  | @refused i t c request answer presents asks fatal =>
    by_cases hopens : request.op? = some .newRequest
    · obtain ⟨turn, rfl⟩ := presents.turn_of_open hopens
      have hcapacity : run.client.channel.capacity = engine.capacity :=
        congrArg EngineParams.tableEntries h.service.alike.params
      have hroom : run.client.channel.resident < run.client.channel.capacity :=
        hcapacity ▸ Nat.lt_of_lt_of_le (h.room turn.state) rows
      simpa using exitCode_opening_ne hroom asks
    · rw [h.service.tenancy.tolerated pool ready h.addressed presents asks hopens] at fatal
      cases fatal
  | unexpected => simp

end Mirrored

end Run

/-! ## The run of a batch -/

namespace Scheduler

section Fresh

variable {s : Scheduler Simulator} {batch : Array Transaction} {history : List (Event batch.size)}
  (valid : s.validate batch = .ok ()) (declares : ∀ x ∈ batch, s.client.channel.Declares x)
  (entries : s.client.channel.entries = []) (deferred : s.client.channel.deferred = [])
  (peak : s.client.channel.statistics.peakDeferredTids = 0)

include valid declares entries deferred peak

/-- Wherever the run of a checked batch comes to in time on a simulator that was not used before, the two are
matched. -/
theorem mirrored_of_reach {inbox : List Response} {run : Run Simulator (min batch.size s.capacity) batch.size}
    (reach : Run.Reach (s.launch batch) history inbox run) (inTime : run.client.channel.InTime) :
    Run.Pool (work batch) run ∧ ∃ name, Run.Mirrored s.client.channel (work batch) history name inbox run := by
  have ready := ready_of_validate valid
  have hdeclares : ∀ t : Fin batch.size, s.client.channel.Declares (work batch)[t] := by
    intro t
    rw [getElem_work]
    exact declares batch[t] (Array.getElem_mem t.isLt)
  exact ⟨Run.Pool.of_reach ready reach,
    Run.Mirrored.of_reach ready hdeclares ((tids_eq_nil_iff _).2 entries) deferred peak reach inTime⟩

variable {outcome : Outcome} {client : Client Simulator}

theorem Transcript.ne_badRequest (h : s.Transcript batch history outcome client)
    (inTime : client.channel.InTime) : outcome.result ≠ .error (.client (.engine .badRequest)) := by
  cases h with
  | invalid invalid =>
    rw [valid] at invalid
    cases invalid
  | noCapacity => simp
  | ran _ _ ended =>
    cases ended with
    | completed => exact nofun
    | outOfBudget => simp [Except.map]
    | failed reach _ turn =>
      obtain ⟨hpool, name, hmirrored⟩ :=
        mirrored_of_reach valid declares entries deferred peak reach.refill (turn.inTime inTime)
      have hrows : min batch.size s.capacity ≤ s.client.channel.capacity :=
        s.capacity_eq ▸ Nat.min_le_right _ _
      have hne := hmirrored.ne_badRequest hpool (ready_of_validate valid) hrows turn
      simpa [Except.map] using hne
    | unroutable reach _ route =>
      obtain ⟨hpool, name, hmirrored⟩ := mirrored_of_reach valid declares entries deferred peak reach inTime
      obtain ⟨next, hnext⟩ := (hpool.route_ok_iff _).2 (hmirrored.service.awaited hpool)
      rw [hnext] at route
      cases route

theorem Transcript.peak_eq (h : s.Transcript batch history outcome client) (inTime : client.channel.InTime)
    {delay : Nat} (delayed : s.client.channel.options.tidDelay = some delay) {report : RunReport}
    (ok : outcome.result = .ok report) :
    report.peakAwaitingTid = client.channel.statistics.peakDeferredTids := by
  cases h with
  | invalid => cases ok
  | noCapacity => cases ok
  | ran _ _ ended =>
    cases ended with
    | completed reach _ idle =>
      obtain ⟨-, name, hmirrored⟩ := mirrored_of_reach valid declares entries deferred peak reach.refill inTime
      cases ok
      exact hmirrored.peak delay delayed
    | outOfBudget => cases ok
    | failed => cases ok
    | unroutable => cases ok

end Fresh

/-- After every cycle of the run of a checked batch on a simulator that was not used before, as long as its clock is
in time, the slots and the transaction table agree; the simulator holds at most as many transactions as there are
active slots, and has a row for every open; no request is refused as a bad one; and if identifiers are deferred, the
two sides count the same peak of them. -/
theorem slots_mirror_table (s : Scheduler Simulator) (batch : Array Transaction) (valid : s.validate batch = .ok ())
    (declares : ∀ x ∈ batch, s.client.channel.Declares x) (entries : s.client.channel.entries = [])
    (deferred : s.client.channel.deferred = []) (peak : s.client.channel.statistics.peakDeferredTids = 0) :
    (∀ run, Run.Visits (s.launch batch) [] run → run.client.channel.InTime →
      (∃ history name, Run.Reach (s.launch batch) history [] run ∧
        run.Mirrors s.client.channel (work batch) history name) ∧
      run.client.channel.resident ≤ run.active ∧ run.active ≤ min batch.size s.client.channel.capacity ∧
      (∀ i t, run.HasTurn i t .newWrite → run.client.channel.resident < run.client.channel.capacity ∧
        (run.client.channel.issue run.transactions[t].opening).1.exitCode ≠ .badRequest) ∧
      ∀ delay, s.client.channel.options.tidDelay = some delay →
        run.report.peakAwaitingTid = run.client.channel.statistics.peakDeferredTids) ∧
      ((s.run batch).2.client.channel.InTime →
        (s.run batch).1.result ≠ .error (.client (.engine .badRequest))) ∧
      ∀ delay report, (s.run batch).2.client.channel.InTime → s.client.channel.options.tidDelay = some delay →
        (s.run batch).1.result = .ok report →
          report.peakAwaitingTid = (s.run batch).2.client.channel.statistics.peakDeferredTids := by
  obtain ⟨history, transcript⟩ := s.exists_transcript batch
  refine ⟨fun run visits inTime => ?_, transcript.ne_badRequest valid declares entries deferred peak,
    fun delay report inTime delayed ok => transcript.peak_eq valid declares entries deferred peak inTime delayed ok⟩
  obtain ⟨history, reach⟩ := visits.reach (ready_of_validate valid)
  obtain ⟨hpool, name, hmirrored⟩ := mirrored_of_reach valid declares entries deferred peak reach inTime
  have hcapacity : run.client.channel.capacity = s.client.channel.capacity :=
    congrArg EngineParams.tableEntries hmirrored.service.alike.params
  have hactive : run.active ≤ min batch.size s.client.channel.capacity := by
    rw [← s.capacity_eq]
    exact run.active_le
  refine ⟨⟨history, name, reach, hmirrored.mirrors hpool⟩, hmirrored.resident_le_active, hactive,
    fun i t turn => ?_, hmirrored.peak⟩
  have hroom : run.client.channel.resident < run.client.channel.capacity := by
    rw [hcapacity, ← s.capacity_eq]
    exact Nat.lt_of_lt_of_le (hmirrored.room turn.state) (Nat.min_le_right _ _)
  exact ⟨hroom, exitCode_opening_ne hroom rfl⟩

/-- After four cycles the first slot has its identifier and the second one awaits its own; in the run as a whole the
identifiers of both rows are on their way at once. -/
theorem deferring_slots_mirror_table :
    deferring.validate sums = .ok () ∧
      (∃ run, Run.Visits (deferring.launch sums) [] run ∧
        run.routes.map (fun route => (route.1, route.2.val)) = [(0, 0)] ∧ run.awaitingTid.map (·.val) = [1] ∧
        (∃ history name, run.Mirrors deferring.client.channel (work sums) history name) ∧
        run.client.channel.resident ≤ run.active) ∧
      ∃ report, (deferring.run sums).1.result = .ok report ∧ report.peakAwaitingTid = 2 ∧
        (deferring.run sums).2.client.channel.statistics.peakDeferredTids = 2 := by
  have hvalid : deferring.validate sums = .ok () := rfl
  have hdeclares : ∀ x ∈ sums, deferring.client.channel.Declares x := by
    intro x hx asid space config hspace hconfig
    simp only [sums, List.mem_toArray, List.mem_cons, List.not_mem_nil, or_false] at hx
    cases hspace
    obtain rfl | rfl | rfl := hx <;> cases hconfig <;> rfl
  obtain ⟨hvisits, -, hpeak⟩ := slots_mirror_table deferring sums hvalid hdeclares rfl rfl rfl
  have hcount : (deferring.run sums).2.client.channel.statistics.peakDeferredTids = 2 := by decide +kernel
  obtain ⟨report, hreport⟩ : ∃ report, (deferring.run sums).1.result = .ok report := by
    apply Inversion.except_ok_of_map (f := RunReport.completed) (b := 3)
    decide +kernel
  refine ⟨hvalid, ?_, report, hreport, (hpeak 3 report inTime_deferring rfl hreport).trans hcount, hcount⟩
  have hleft : ((deferring.launch sums).abandoned? 4).map (fun run =>
      ((run.routes.map fun route => (route.1, route.2.val), run.awaitingTid.map (·.val)), run.client.channel.cycle)) =
        some (([(0, 0)], [1]), 4) := by
    decide +kernel
  obtain ⟨run, hrun, hview⟩ := Option.map_eq_some_iff.1 hleft
  obtain ⟨hline, hcycle⟩ := Prod.mk.inj hview
  obtain ⟨hroutes, hawaiting⟩ := Prod.mk.inj hline
  have hready := ready_of_validate hvalid
  have hpoint := Run.Visits.of_abandoned hready hrun
  obtain ⟨history, hreach⟩ := hpoint.reach hready
  have hinTime : run.client.channel.InTime := by
    apply hreach.play.evolves.inTime_of_le 4
    case reaches =>
      rw [hcycle]
      decide
    case le => exact delay_deferring_le
  obtain ⟨⟨history, name, -, hmirrors⟩, hresident, -⟩ := hvisits run hpoint hinTime
  exact ⟨run, hpoint, hroutes, hawaiting, ⟨history, name, hmirrors⟩, hresident⟩

/-- A table of two networks with one output each. -/
def twoNetworks : ConfigTable where
  spaces := [{ capacity := 2, configs := [.ofWords [0, 1], .ofWords [0, 1]] }]
  configsPerSpace := 2

/-- A scheduler of two cycles over a simulator of two rows whose identifiers come due at the very end of what its clock
can count. -/
def brimming : Scheduler Simulator where
  client := {
    channel := { withCapacity 2 with
      options := { tidDelay := some (2 ^ 64 - 2) }
      table := some twoNetworks
      asid := some 0 } }
  table := twoNetworks
  asid := 0
  cycleBudget := 2

/-- A transaction on each network. -/
def onePerNetwork : Array Transaction :=
  #[.feedforward 0 [1] 1, .feedforward 1 [2] 1]

/-- The cycle at which the second identifier comes due starts over at zero. So it is handed out at once, and goes to the
slot of the first transaction, which waits for another one. -/
theorem overflowing_identifier_goes_to_first_slot :
    brimming.validate onePerNetwork = .ok () ∧ brimming.client.channel.entries = [] ∧
      brimming.client.channel.deferred = [] ∧
      ((brimming.run onePerNetwork).2.client.channel.entries.map fun e => (e.nnid, e.tid)) = [(0, 0), (1, 1)] ∧
      ((brimming.run onePerNetwork).1.transactions.map fun x => (x.nnid, x.tid)) = #[(0, some 1), (1, none)] ∧
      (brimming.run onePerNetwork).2.client.channel.owed = [0] := by
  refine ⟨rfl, rfl, rfl, ?_, ?_, ?_⟩ <;> decide +kernel

end Scheduler

end NeuralEngine
