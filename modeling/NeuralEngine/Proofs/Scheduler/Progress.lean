import Mathlib.Data.Prod.Lex
import NeuralEngine.Proofs.Scheduler.TenancyTurn
import NeuralEngine.Proofs.Scheduler.Trace
import NeuralEngine.Proofs.Scheduler.Workload
import NeuralEngine.Proofs.Simulator.Wait

/-!
# Progress of a run over the simulator

No part of a run gets on in every cycle: a write may be refused, a slot may wait for an answer that is held
back, and the intake serves one transaction at a time. `rank` takes the parts together, the transactions
that no slot has held first, then the workload of the slots, then what the simulator has before it on its
own. At the beginning of a cycle nothing is due and no slot waits for a transaction that has finished
(`Settled`), so the turn of the cycle lowers the rank (`Tenancy.rank_lt`); nothing else in the cycle raises it.
-/

namespace NeuralEngine.Run

open Simulator Inversion

variable {n m : Nat} {work : Vector Transaction m} {run run' : Run Simulator n m} {i : Fin n} {t : Fin m}
  {x : Tid} {inbox : List Response}

/-! ## The rank -/

/-- What a run has before it. -/
def rank (run : Run Simulator n m) : ℕ ×ₗ ℕ ×ₗ ℕ :=
  toLex (m - run.nextPending, toLex (run.workload, run.client.channel.wait))

theorem rank_lt_of_nextPending (lt : run.nextPending < run'.nextPending) (le : run'.nextPending ≤ m) :
    run'.rank < run.rank := by
  refine Prod.Lex.toLex_lt_toLex.2 (.inl ?_)
  show m - run'.nextPending < m - run.nextPending
  omega

theorem rank_lt_of_workload (nextPending : run'.nextPending = run.nextPending)
    (lt : run'.workload < run.workload) : run'.rank < run.rank :=
  Prod.Lex.toLex_lt_toLex.2
    (.inr ⟨congrArg (m - ·) nextPending, Prod.Lex.toLex_lt_toLex.2 (.inl lt)⟩)

theorem rank_lt_of_wait (nextPending : run'.nextPending = run.nextPending)
    (workload : run'.workload = run.workload) (lt : run'.client.channel.wait < run.client.channel.wait) :
    run'.rank < run.rank :=
  Prod.Lex.toLex_lt_toLex.2
    (.inr ⟨congrArg (m - ·) nextPending, Prod.Lex.toLex_lt_toLex.2 (.inr ⟨workload, lt⟩)⟩)

theorem rank_le (nextPending : run'.nextPending = run.nextPending) (workload : run'.workload ≤ run.workload)
    (wait : run'.client.channel.wait ≤ run.client.channel.wait) : run'.rank ≤ run.rank := by
  obtain hlt | heq := Nat.lt_or_eq_of_le workload
  · exact (rank_lt_of_workload nextPending hlt).le
  · refine Prod.Lex.toLex_le_toLex.2 (.inr ⟨congrArg (m - ·) nextPending, ?_⟩)
    exact Prod.Lex.toLex_le_toLex.2 (.inr ⟨heq, wait⟩)

/-- A refill leaves the run as it is or hands out a transaction. -/
theorem rank_refill_le (run : Run Simulator n m) : run.refill.rank ≤ run.rank := by
  refine refill_of_hand (P := fun r => r.rank ≤ run.rank) (le_refl _) fun {r i t} hr _ ht => ?_
  refine (rank_lt_of_nextPending ?_ t.isLt).le.trans hr
  show r.nextPending < t + 1
  omega

/-! ## Runs that are settled -/

/-- If slot `i` executes, its transaction has not finished. -/
def AtWork (i : Fin n) (run : Run Simulator n m) : Prop :=
  run.slots[i].state = .executing → ∀ x, run.slots[i].tid = some x → run.client.channel.isDone x = false

theorem AtWork.of_eq (h : run.AtWork i) (slot : run'.slots[i] = run.slots[i])
    (channel : run'.client.channel = run.client.channel) : run'.AtWork i := by
  unfold AtWork
  rw [slot, channel]
  exact h

theorem AtWork.of_ne (state : run.slots[i].state ≠ .executing) : run.AtWork i :=
  fun hs => absurd hs state

/-- Nothing is due, and no slot waits for a transaction that has finished. -/
structure Settled (run : Run Simulator n m) : Prop where
  late : ∀ d ∈ run.client.channel.deferred, run.client.channel.cycle < d.due
  atWork : ∀ i : Fin n, run.AtWork i

theorem Settled.start {client : Client Simulator} (deferred : client.channel.deferred = []) :
    (Run.start client work : Run Simulator n m).Settled where
  late d hd := by
    change d ∈ client.channel.deferred at hd
    rw [deferred] at hd
    exact absurd hd List.not_mem_nil
  atWork i := .of_ne (by simp [Run.start, Slot.empty])

theorem Settled.refill (h : run.Settled) : run.refill.Settled := by
  refine refill_of_hand (P := Settled) h fun {r i t} hr _ _ => ⟨hr.late, fun j => ?_⟩
  by_cases hij : i = j
  · refine .of_ne ?_
    rw [slots_hand, if_pos hij]
    simp [Slot.holding]
  · exact (hr.atWork j).of_eq (by rw [slots_hand, if_neg hij]) rfl

/-- No response that is routed makes a slot execute. -/
theorem Settled.delivered (h : run.Settled) {response : Response} (d : Delivered run response run') :
    run'.Settled := by
  refine ⟨by rw [d.client_eq]; exact h.late, fun j => ?_⟩
  cases d with
  | @assigned i t rest =>
    by_cases hij : i = j
    · refine .of_ne ?_
      rw [slots_assign, if_pos hij]
      exact SlotState.noConfusion
    · exact (h.atWork j).of_eq (by rw [slots_assign, if_neg hij]) rfl
  | given => exact (h.atWork j).of_eq rfl rfl
  | @finished i t =>
    by_cases hij : i = j
    · refine .of_ne ?_
      rw [slots_finish, if_pos hij]
      exact SlotState.noConfusion
    · refine (h.atWork j).of_eq ?_ rfl
      rw [slots_finish, if_neg hij]
      rfl

/-! ## Turns -/

theorem exists_of_isBusy (busy : run.isBusy = true) : ∃ i : Fin n, run.slots[i].state ≠ .unused := by
  obtain ⟨k, hk, hs⟩ := Vector.any_eq_true.1 busy
  exact ⟨⟨k, hk⟩, by simpa using hs⟩

namespace Tenancy

variable {engine : Simulator} {name : Fin n → Option Tid}

/-- The entry of a slot that was fed has the last element, until the last output is read. -/
theorem entry_of_fed (h : Tenancy engine work name inbox run) {state : SlotState} {reads : Nat}
    (fed : run.slots[i] = Slot.fed work[t] t x state reads) (lt : reads < work[t].outputCount) :
    ∃ e, run.client.channel.find? x = some e ∧ e.lastSeen = true := by
  have hserves := h.serves (i := i) (t := t) (by rw [fed]; rfl) (h.told (x := x) (by rw [fed]; rfl))
  rw [fed] at hserves
  obtain ⟨e, he, hserves⟩ := hserves.entry lt
  exact ⟨e, he, hserves.lastSeen_eq.trans (beq_self_eq_true _)⟩

/-- What a slot waits for is held back, or comes from an entry at work: the simulator stirs. -/
theorem stirs (h : Tenancy engine work name [] run) (pool : Pool work run)
    (ready : ∀ t : Fin m, work[t].Ready) (settled : run.Settled) (used : run.slots[i].state ≠ .unused)
    (waits : run.slots[i].state.isActionable = false) : run.client.channel.Stirs := by
  have hlate : ∀ r ∈ flight [] run, run.client.channel.Stirs := by
    intro r hr
    obtain ⟨d, hd, -⟩ := List.mem_map.1 hr
    exact .inr (.inr ⟨d, hd, settled.late d hd⟩)
  cases hs : run.slots[i].state with
  | unused => exact absurd hs used
  | newWriteWait =>
    -- for each slot in the line an identifier is on its way
    have hline : name i ∈ run.awaitingTid.map name := List.mem_map_of_mem ((pool.mem_awaiting i).2 hs)
    rw [h.line] at hline
    obtain ⟨r, hr, -⟩ := List.mem_map.1 hline
    exact hlate r (mem_along.1 hr).1
  | executing =>
    obtain ⟨t, x, hfed⟩ := (pool.stage i).of_executing hs
    obtain ⟨e, he, hlast⟩ := h.entry_of_fed hfed (ready t).outputs_pos
    refine .inr (.inl ⟨e, mem_entries_of_find? he, fun hdone => ?_, hlast⟩)
    have hwork := settled.atWork i hs x (by rw [hfed]; rfl)
    rw [isDone_eq_true_iff.2 ⟨e, he, hdone⟩] at hwork
    cases hwork
  | readWait =>
    -- every output was asked for and some have not arrived, so they are on their way
    obtain ⟨t, x, hfed⟩ := (pool.stage i).of_readWait hs
    have holds : run.slots[i].transaction = some t := by rw [hfed]; rfl
    have hall := congrArg List.length (h.outputs holds (h.told (x := x) (by rw [hfed]; rfl)))
    have hleft := pool.unfinished holds
    rw [hfed] at hall
    change _ = (work[t].expected.take work[t].outputCount).length at hall
    rw [List.length_append, List.length_take, Transaction.length_expected, Nat.min_self, Array.length_toList] at hall
    obtain ⟨value, hvalue⟩ := List.exists_mem_of_length_pos (l := words x (flight [] run)) (by omega)
    obtain ⟨r, hr, -⟩ := List.mem_map.1 hvalue
    exact hlate r (mem_along.1 hr).1
  | newWrite | write | read =>
    rw [hs] at waits
    cases waits

/-- The turn of a cycle that begins settled lowers the rank: its request is taken, or the simulator that
puts it off has something before it. -/
theorem rank_lt (h : Tenancy engine work name [] run) (pool : Pool work run)
    (ready : ∀ t : Fin m, work[t].Ready) (settled : run.Settled) (busy : run.isBusy = true)
    (depth : 1 ≤ engine.options.queueDepth) {event : Event m} {prompt : Option Response}
    (turn : Turn run event prompt run') : run'.rank < run.rank := by
  cases turn with
  | @idle c none step =>
    obtain ⟨i, hi⟩ := exists_of_isBusy busy
    have hstirs := h.stirs pool ready settled hi (isActionable_of_next?_none none i)
    refine rank_lt_of_wait rfl rfl ?_
    show c.channel.wait < _
    rw [← step]
    exact wait_tick_lt hstirs
  | @opened i t c answer turn =>
    have hlt : (run.awaitTid i).workload < run.workload := workload_awaitTid turn
    exact rank_lt_of_workload rfl hlt
  | @registered i t c answer tid register value turn _ entry =>
    have hlt : (run.countRegister i).workload < run.workload := workload_countRegister turn entry
    exact rank_lt_of_workload rfl hlt
  | @accepted i t c answer tid value last turn _ _ entry =>
    have hlt : (run.countElement i last).workload < run.workload := workload_countElement turn last entry
    exact rank_lt_of_workload rfl hlt
  | busy _ _ _ _ _ asks code =>
    rw [← h.alike.options] at depth
    exact rank_lt_of_wait rfl rfl (wait_lt_of_busy depth asks code)
  | @read i t c answer tid turn =>
    obtain ⟨x, reads, hfed, hlt⟩ := pool.reading turn
    have hlt : (run.countRead i t).workload < run.workload :=
      workload_countRead turn (by rw [hfed]; exact hlt)
    exact rank_lt_of_workload rfl hlt
  | @notDone i t c answer tid turn tid_eq asks code =>
    obtain ⟨x, reads, hfed, hlt⟩ := pool.reading turn
    rw [Transaction.outputCount_of_reset (pool.same t)] at hlt
    obtain ⟨e, he, hlast⟩ := h.entry_of_fed hfed hlt
    obtain rfl : x = tid := by
      rw [hfed] at tid_eq
      exact Option.some.inj tid_eq
    exact rank_lt_of_wait rfl rfl (wait_lt_of_notDone asks code he hlast)

end Tenancy

end NeuralEngine.Run
