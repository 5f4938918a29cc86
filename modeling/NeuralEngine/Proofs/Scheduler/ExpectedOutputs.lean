import NeuralEngine.Proofs.Capability
import NeuralEngine.Proofs.Scheduler.ServiceTurn
import NeuralEngine.Proofs.Scheduler.Transcript

/-!
# The outputs of a batch over the simulator

A scheduler that is bound to a simulator without transactions runs every checked batch of networks
that the simulator can run, unless its budget of cycles is used up. What a transaction has collected at
any point is the beginning of what the network has for it, and when the run succeeds it is all of it.
The run and the simulator fit together at every point (`Service.of_reach`), and everything else is read
off that.
-/

namespace NeuralEngine

open Simulator

namespace Run

variable {n m : Nat} {work : Vector Transaction m} {history : List (Event m)}
  {inbox inbox' : List Response} {run run' : Run Simulator n m}

namespace Service

variable {engine : Simulator} {name : Fin n → Option Tid}

/-! ## Steps -/

/-- Every step leaves the run and the engine as they fit together. -/
theorem step (h : Service engine work history name inbox run) (pool : Pool work run)
    (ready : ∀ t : Fin m, work[t].Ready) (fits : engine.Fits n work)
    (play : Event.Play history engine run.client.channel) (inTime : run.client.channel.InTime)
    {events : List (Event m)} (s : Step inbox run events inbox' run') :
    ∃ name', Service engine work (history ++ events) name' inbox' run' := by
  cases s with
  | refill =>
    rw [List.append_nil]
    exact ⟨name, h.refill ready pool⟩
  | @turn run run' event prompt turn =>
    obtain ⟨name', hturn⟩ := h.turn pool ready fits play turn
    have hcounted : Service engine work (history ++ [event] ++ []) name' prompt.toList run'.countCycle :=
      hturn.keep (.count hturn.ordered hturn.nodup)
    rw [List.append_nil] at hcounted
    exact ⟨name', hcounted⟩
  | poll poll => exact ⟨name, h.keep (.poll h.ordered h.nodup inTime poll)⟩
  | ask state _ _ ask => exact ⟨name, h.keep (.learn h.ordered h.nodup state ask)⟩
  | route delivered =>
    obtain ⟨name', -, hdelivered⟩ := h.delivered pool delivered
    exact ⟨name', hdelivered⟩

/-- The run and the engine fit together wherever the run comes to in time. -/
theorem of_reach {client : Client Simulator} (ready : ∀ t : Fin m, work[t].Ready)
    (fits : client.channel.Fits n work) (entries : client.channel.tids = [])
    (deferred : client.channel.deferred = []) (h : Reach (Run.start client work) history inbox run)
    (inTime : run.client.channel.InTime) : ∃ name, Service client.channel work history name inbox run := by
  induction h with
  | start => exact ⟨_, start entries deferred⟩
  | step reach step ih =>
    have hbefore := step.inTime inTime
    obtain ⟨name, hservice⟩ := ih hbefore
    exact hservice.step (Pool.of_reach ready reach) ready fits reach.play hbefore step

/-! ## What is read off -/

/-- What a transaction has collected is the beginning of what the network has for it. -/
theorem outputs_prefix (h : Service engine work history name inbox run) (pool : Pool work run)
    (ready : ∀ t : Fin m, work[t].Ready) (t : Fin m) :
    run.transactions[t].outputs.toList <+: work[t].expected := by
  have hunopened : run.transactions[t] = work[t] →
      run.transactions[t].outputs.toList <+: work[t].expected := by
    intro heq
    rw [heq, (ready t).outputs_eq]
    exact List.nil_prefix
  by_cases hheld : ∃ i : Fin n, run.slots[i].transaction = some t
  · obtain ⟨i, hi⟩ := hheld
    cases hx : name i with
    | none =>
      apply hunopened
      refine pool.unnamed hi ?_
      rw [Option.eq_none_iff_forall_ne_some]
      intro x htid
      rw [h.told htid] at hx
      cases hx
    | some x =>
      have hread : run.transactions[t].outputs.toList <+: work[t].expected.take run.slots[i].readsIssued := by
        rw [← h.outputs hi hx]
        exact List.prefix_append _ _
      exact hread.trans (List.take_prefix _ _)
  · rcases Nat.lt_or_ge t.val run.nextPending with hlt | hge
    · obtain ⟨hall, -⟩ := h.done t hlt fun i hi => hheld ⟨i, hi⟩
      exact hall ▸ List.prefix_refl _
    · exact hunopened (pool.pending t hge)

/-- When no slot holds a transaction, the engine has nothing left. -/
theorem empty_of_idle (h : Service engine work history name [] run) (idle : run.isBusy = false) :
    run.client.channel.tids = [] ∧ run.client.channel.deferred = [] := by
  have hnone : ∀ (i : Fin n) (x : Tid), name i ≠ some x := fun i =>
    h.tenancy.name_ne (by rw [unused_of_idle idle i]; rfl)
  constructor
  · rw [List.eq_nil_iff_forall_not_mem]
    intro x hx
    obtain ⟨i, hi⟩ := h.known x hx
    exact hnone i x hi
  · rw [List.eq_nil_iff_forall_not_mem]
    intro d hd
    have htaken : run.client.channel.isTaken d.response.tid = true := by
      unfold isTaken
      rw [Bool.or_eq_true]
      right
      exact List.any_eq_true.2 ⟨d, hd, beq_self_eq_true _⟩
    obtain ⟨i, hi⟩ := h.named_of_taken htaken
    exact hnone i _ hi

end Service

section Alone

variable {client : Client Simulator} (ready : ∀ t : Fin m, work[t].Ready) (fits : client.channel.Fits n work)
  (entries : client.channel.tids = []) (deferred : client.channel.deferred = [])

include ready fits entries deferred

/-- No turn of a run that has the simulator to itself fails, -/
theorem not_failed_of_reach (reach : Reach (Run.start client work) history [] run)
    (inTime : run.client.channel.InTime) {event : Event m} {e : SchedulerError} :
    ¬ FailedTurn run event e run' := by
  obtain ⟨name, hservice⟩ := Service.of_reach ready fits entries deferred reach inTime
  exact hservice.not_failed (Pool.of_reach ready reach) ready fits

/-- and every response is routed. -/
theorem route_ok_of_reach {r : Response} (reach : Reach (Run.start client work) history (r :: inbox) run)
    (inTime : run.client.channel.InTime) : ∃ next, run.route r = .ok next := by
  obtain ⟨name, hservice⟩ := Service.of_reach ready fits entries deferred reach inTime
  have pool := Pool.of_reach ready reach
  exact (pool.route_ok_iff r).2 (hservice.awaited pool)

/-- A run over the simulator ends well, or at the end of its budget. -/
theorem Ended.served {result : Except SchedulerError Unit} (h : Ended (Run.start client work) history result run)
    (inTime : run.client.channel.InTime) (room : 0 < m → 0 < n) :
    Pool work run ∧ (∃ name, Service client.channel work history name [] run) ∧
      (result = .ok () ∧ run.isBusy = false ∧
          (∀ t : Fin m, t.val < run.nextPending ∧ ∀ i : Fin n, run.slots[i].transaction ≠ some t) ∨
        result = .error .cycleBudgetExceeded) := by
  cases h with
  | completed reach _ idle =>
    have pool := Pool.of_reach ready reach.refill
    refine ⟨pool, Service.of_reach ready fits entries deferred reach.refill inTime, ?_⟩
    exact .inl ⟨rfl, idle, pool.left_of_idle room idle⟩
  | outOfBudget reach =>
    have hservice := Service.of_reach ready fits entries deferred reach.refill inTime
    exact ⟨Pool.of_reach ready reach.refill, hservice, .inr rfl⟩
  | failed reach _ turn =>
    exact absurd turn (not_failed_of_reach ready fits entries deferred reach.refill (turn.inTime inTime))
  | unroutable reach _ route =>
    obtain ⟨next, hnext⟩ := route_ok_of_reach ready fits entries deferred reach inTime
    rw [hnext] at route
    cases route

end Alone

end Run

/-! ## The run of a batch -/

namespace Scheduler

/-- The scheduler and its simulator were pointed at the same table and address space, the simulator
holds nothing yet, and it has rows and enough identifiers for them. -/
structure Bound (s : Scheduler Simulator) : Prop where
  entries : s.client.channel.entries = []
  deferred : s.client.channel.deferred = []
  fault : s.client.channel.fault = none
  table : s.client.channel.table = some s.table
  asid : s.client.channel.asid = some s.asid
  narrow : s.asid.toNat < 2 ^ 10
  capacity_pos : 1 ≤ s.client.channel.capacity
  identifiers : s.client.channel.capacity ≤ reach s.client.channel.options.tidStride

/-- The simulator can run the network of the transaction, which has as many outputs as the transaction
awaits. -/
def Suits (s : Scheduler Simulator) (x : Transaction) : Prop :=
  ∀ config, s.table.config? s.asid x.nnid = some config → config.size ≠ 0 ∧
    config.elementsPerBlock = s.client.channel.params.elementsPerBlock ∧
    declaredOutputs config = x.outputCount

variable {s : Scheduler Simulator} {batch : Array Transaction}

theorem capacity_eq (s : Scheduler Simulator) : s.capacity = s.client.channel.capacity :=
  Capability.toNat_tableEntries s.client.channel.capability_ofParams

theorem Bound.fits (bound : s.Bound) (valid : s.validate batch = .ok ())
    (suits : ∀ x ∈ batch, s.Suits x) :
    s.client.channel.Fits (min batch.size s.capacity) (work batch) where
  runs t := by
    obtain ⟨config, hconfig⟩ := (checked_of_validate valid t).known
    obtain ⟨hsize, hblocks, houtputs⟩ := suits batch[t] (Array.getElem_mem t.isLt) config hconfig
    rw [getElem_work]
    exact ⟨s.asid, s.table, config, bound.asid, bound.narrow, bound.table, hconfig, hsize, hblocks, houtputs⟩
  rows := by
    rw [← s.capacity_eq]
    exact Nat.min_le_right _ _
  identifiers := bound.identifiers

variable {history : List (Event batch.size)} {outcome : Outcome} {client : Client Simulator}

theorem Transcript.evolves (h : s.Transcript batch history outcome client) :
    Evolves s.client.channel client.channel := by
  obtain ⟨before, hbefore, hplay⟩ := h.play
  obtain rfl : before = s.client.channel := hbefore.elim id id
  exact hplay.evolves

theorem evolves_run (s : Scheduler Simulator) (batch : Array Transaction) :
    Evolves s.client.channel (s.run batch).2.client.channel :=
  let ⟨_, transcript⟩ := s.exists_transcript batch
  transcript.evolves

/-- The batch is run; its run ends well, or at the end of its budget, if the clock is in time then. -/
theorem Transcript.served (h : s.Transcript batch history outcome client) (bound : s.Bound)
    (valid : s.validate batch = .ok ()) (suits : ∀ x ∈ batch, s.Suits x) (inTime : client.channel.InTime) :
    ∃ run : Run Simulator (min batch.size s.capacity) batch.size,
      outcome.transactions = run.transactions.toArray ∧ client = run.client ∧
      Run.Pool (work batch) run ∧
      (∃ name, Run.Service s.client.channel (work batch) history name [] run) ∧
      (outcome.result = .ok run.report ∧ run.isBusy = false ∧
          (∀ t : Fin batch.size, t.val < run.nextPending ∧
            ∀ i : Fin (min batch.size s.capacity), run.slots[i].transaction ≠ some t) ∨
        outcome.result = .error .cycleBudgetExceeded) := by
  have hcapacity : 0 < s.capacity := by
    rw [s.capacity_eq]
    exact bound.capacity_pos
  cases h with
  | invalid invalid =>
    rw [valid] at invalid
    cases invalid
  | noCapacity _ none => omega
  | @ran _ result run _ _ ended =>
    obtain ⟨hpool, hservice, hresult⟩ := Run.Ended.served (ready_of_validate valid)
      (bound.fits valid suits) ((tids_eq_nil_iff _).2 bound.entries) bound.deferred ended inTime
      fun hpos => Nat.lt_min.2 ⟨hpos, hcapacity⟩
    refine ⟨run, rfl, rfl, hpool, hservice, ?_⟩
    obtain ⟨rfl, hidle, hleft⟩ | rfl := hresult
    · exact .inl ⟨rfl, hidle, hleft⟩
    · exact .inr rfl

/-- At every point of the run of a batch that a simulator can run, each transaction has collected the
beginning of what its network has for it; the run fails at the end of its budget alone; and when it
succeeds every transaction has all of its outputs, under the identifier that the simulator gave it, and
the simulator has nothing left. -/
theorem run_collects_expected (s : Scheduler Simulator) (batch : Array Transaction) (bound : s.Bound)
    (valid : s.validate batch = .ok ()) (suits : ∀ x ∈ batch, s.Suits x)
    (inTime : (s.run batch).2.client.channel.InTime) :
    ((∃ report, (s.run batch).1.result = .ok report) ∨
        (s.run batch).1.result = .error .cycleBudgetExceeded) ∧
      (∀ inbox run, Run.Visits (s.launch batch) inbox run → run.client.channel.InTime →
        run.client.channel.fault = none ∧
          ∀ t : Fin batch.size, run.transactions[t].outputs.toList <+: batch[t].expected) ∧
      (∀ t : Fin batch.size, ∃ x, (s.run batch).1.transactions[t.val]? = some x ∧
        x.outputs.toList <+: batch[t].expected) ∧
      (s.run batch).2.client.channel.fault = none ∧
      (∃ history, s.Transcript batch history (s.run batch).1 (s.run batch).2.client) ∧
      ∀ history, s.Transcript batch history (s.run batch).1 (s.run batch).2.client →
        ∀ report, (s.run batch).1.result = .ok report →
          (s.run batch).2.client.channel.entries = [] ∧ (s.run batch).2.client.channel.deferred = [] ∧
            ∀ t : Fin batch.size, ∃ x tid, (s.run batch).1.transactions[t.val]? = some x ∧
              x.outputs.toList = batch[t].expected ∧ x.tid = some tid ∧
              Allocated s.client.channel (work batch) history t tid := by
  have ready := ready_of_validate valid
  have hexpected : ∀ t : Fin batch.size, (work batch)[t].expected = batch[t].expected := by
    intro t
    rw [getElem_work, Transaction.expected_reset]
  obtain ⟨history, transcript⟩ := s.exists_transcript batch
  obtain ⟨run, htransactions, hclient, hpool, ⟨name, hservice⟩, hresult⟩ :=
    transcript.served bound valid suits inTime
  refine ⟨?_, fun inbox run visits hnow => ?_, fun t => ?_, ?_, ⟨history, transcript⟩, ?_⟩
  · obtain ⟨hok, -⟩ | hbudget := hresult
    · exact .inl ⟨_, hok⟩
    · exact .inr hbudget
  · obtain ⟨history, reach⟩ := visits.reach ready
    obtain ⟨name, hservice⟩ := Run.Service.of_reach ready (bound.fits valid suits)
      ((tids_eq_nil_iff _).2 bound.entries) bound.deferred reach hnow
    refine ⟨hservice.alike.fault.trans bound.fault, fun t => ?_⟩
    rw [← hexpected]
    exact hservice.outputs_prefix (Run.Pool.of_reach ready reach) ready t
  · refine ⟨run.transactions[t], by simp [htransactions], ?_⟩
    rw [← hexpected]
    exact hservice.outputs_prefix hpool ready t
  · rw [hclient]
    exact hservice.alike.fault.trans bound.fault
  · intro history transcript report hok
    obtain ⟨run, htransactions, hclient, hpool, ⟨name, hservice⟩, hresult⟩ :=
      transcript.served bound valid suits inTime
    obtain ⟨-, hidle, hleft⟩ | hbudget := hresult
    · obtain ⟨htids, hdeferred⟩ := hservice.empty_of_idle hidle
      rw [hclient]
      refine ⟨(tids_eq_nil_iff _).1 htids, hdeferred, fun t => ?_⟩
      obtain ⟨hlt, hnone⟩ := hleft t
      obtain ⟨houtputs, tid, htid, halloc⟩ := hservice.done t hlt hnone
      rw [hexpected] at houtputs
      exact ⟨run.transactions[t], tid, by simp [htransactions], houtputs, htid, halloc⟩
    · rw [hok] at hbudget
      cases hbudget

/-- A scheduler bound to a simulator of two rows that defers every answer; the data words of a later
identifier overtake those of an earlier one. -/
def deferring : Scheduler Simulator where
  client := {
    channel := { withCapacity 2 with
      options := { tidDelay := some 3, dataDelay := some fun tid => 4 - tid.toNat }
      table := some { spaces := [{ capacity := 1, configs := [.ofWords [0, 2]] }], configsPerSpace := 1 }
      asid := some 0 } }
  table := { spaces := [{ capacity := 1, configs := [.ofWords [0, 2]] }], configsPerSpace := 1 }
  asid := 0
  cycleBudget := 64

/-- A batch with more transactions than there are rows. -/
def sums : Array Transaction :=
  #[.feedforward 0 [1, 2] 2, .feedforward 0 [5] 2, .feedforward 0 [7] 2]

theorem bound_deferring : deferring.Bound where
  entries := rfl
  deferred := rfl
  fault := rfl
  table := rfl
  asid := rfl
  narrow := by decide
  capacity_pos := by decide
  identifiers := by decide

theorem suits_sums : ∀ x ∈ sums, deferring.Suits x := by
  intro x hx config hconfig
  simp only [sums, List.mem_toArray, List.mem_cons, List.not_mem_nil, or_false] at hx
  obtain rfl | rfl | rfl := hx <;> cases hconfig <;> decide

theorem delay_deferring_le (lane : Option Tid) (steps : Nat)
    (h : deferring.client.channel.options.delay lane = some steps) : steps ≤ 4 := by
  obtain _ | tid := lane <;> cases h
  · decide
  · exact Nat.sub_le _ _

theorem inTime_deferring : (deferring.run sums).2.client.channel.InTime := by
  apply (deferring.evolves_run sums).inTime_of_le 4
  case reaches => decide +kernel
  case le => exact delay_deferring_le

/-- The run of the batch succeeds, and every transaction has all of its outputs. -/
theorem deferring_collects_expected :
    deferring.validate sums = .ok () ∧
      (deferring.run sums).1.result ≠ .error .cycleBudgetExceeded ∧
      (deferring.run sums).2.client.channel.entries = [] ∧
      ∀ t : Fin sums.size, ∃ x, (deferring.run sums).1.transactions[t.val]? = some x ∧
        x.outputs.toList = sums[t].expected := by
  have hvalid : deferring.validate sums = .ok () := rfl
  have hcompleted : (deferring.run sums).1.result.toOption.map (·.completed) = some 3 := by
    decide +kernel
  obtain ⟨-, -, -, -, ⟨history, transcript⟩, hall⟩ :=
    run_collects_expected deferring sums bound_deferring hvalid suits_sums inTime_deferring
  cases hresult : (deferring.run sums).1.result with
  | error e =>
    rw [hresult] at hcompleted
    cases hcompleted
  | ok report =>
    obtain ⟨hentries, -, houtputs⟩ := hall history transcript report hresult
    refine ⟨hvalid, ?_, hentries, fun t => ?_⟩
    · exact fun h => nomatch h
    · obtain ⟨x, tid, hx, hexpected, -⟩ := houtputs t
      exact ⟨x, hx, hexpected⟩

end Scheduler

end NeuralEngine
