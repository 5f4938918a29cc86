import NeuralEngine.Proofs.Client.RetryLimit
import NeuralEngine.Proofs.Scheduler.Accounting

/-!
# Higher limits change only timeouts

A run looks at its budget only where it has used it up, as a client does with its retry limit. So with a higher budget
a run does the same, unless it was abandoned, and one that completes does so with every budget that is not lower than
the cycles it took and with no other.
-/

namespace NeuralEngine

namespace Run

open Inversion

variable {σ : Type} [DrainingChannel σ] {n m : Nat} {run run' : Run σ n m} {budget : Nat} {u : Unit}

/-- A run completes with every budget that it has cycles for. -/
theorem Completes.cycles_of_le {k : Nat} (h : Completes k run run') (le : k ≤ budget) :
    cycles budget run = .ok () run' := by
  induction h generalizing budget with
  | idle hbusy => exact cycles_of_idle hbusy budget
  | cycle hbusy hcycle _ ih =>
    obtain ⟨budget, rfl⟩ : ∃ rest, budget = rest + 1 := ⟨budget - 1, by omega⟩
    rw [cycles_succ_of_busy hbusy]
    exact bind_ok_iff.2 ⟨_, _, hcycle, ih (Nat.le_of_succ_le_succ le)⟩

/-- A run is abandoned with every lower budget. -/
theorem Completes.cycles_of_lt {k : Nat} (h : Completes k run run') (lt : budget < k) :
    ∃ r, cycles budget run = .error .cycleBudgetExceeded r := by
  induction h generalizing budget with
  | idle => exact absurd lt (Nat.not_lt_zero _)
  | cycle hbusy hcycle _ ih =>
    cases budget with
    | zero => exact ⟨_, cycles_zero_of_busy hbusy⟩
    | succ budget =>
      obtain ⟨r, hr⟩ := ih (Nat.lt_of_succ_lt_succ lt)
      rw [cycles_succ_of_busy hbusy]
      exact ⟨r, bind_error_iff.2 (.inr ⟨_, _, hcycle, hr⟩)⟩

/-- With a higher budget a run does the same, unless it is abandoned. -/
theorem cycles_of_le {higher : Nat} (enough : ∀ r, cycles budget run ≠ .error .cycleBudgetExceeded r)
    (le : budget ≤ higher) : cycles higher run = cycles budget run := by
  induction budget generalizing higher run with
  | zero =>
    cases hbusy : run.refill.isBusy with
    | false => rw [cycles_of_idle hbusy, cycles_of_idle hbusy]
    | true => exact absurd (cycles_zero_of_busy hbusy) (enough _)
  | succ budget ih =>
    obtain ⟨higher, rfl⟩ : ∃ k, higher = k + 1 := ⟨higher - 1, by omega⟩
    cases hbusy : run.refill.isBusy with
    | false => rw [cycles_of_idle hbusy, cycles_of_idle hbusy]
    | true =>
      rw [cycles_succ_of_busy hbusy] at enough ⊢
      rw [cycles_succ_of_busy hbusy]
      simp only [Bind.bind, EStateM.bind] at enough ⊢
      cases hcycle : cycle run.refill with
      | error e r => rfl
      | ok v next =>
        rw [hcycle] at enough
        exact ih enough (Nat.le_of_succ_le_succ le)

/-- A run that completes does so with every budget that it has cycles for, and is abandoned with every other. -/
theorem cycles_threshold (h : cycles budget run = .ok u run') (other : Nat) :
    (run'.report.cycles ≤ run.report.cycles + other → cycles other run = .ok u run') ∧
      (run.report.cycles + other < run'.report.cycles →
        ∃ r, cycles other run = .error .cycleBudgetExceeded r) := by
  obtain ⟨k, -, hcompletes⟩ := completes_of_cycles h
  rw [hcompletes.cycles_eq]
  exact ⟨fun hfew => hcompletes.cycles_of_le (Nat.le_of_add_le_add_left hfew),
    fun hmany => hcompletes.cycles_of_lt (Nat.lt_of_add_lt_add_left hmany)⟩

end Run

namespace Scheduler

variable {σ : Type} [DrainingChannel σ]

/-- The scheduler with another budget. -/
def withBudget (budget : Nat) (s : Scheduler σ) : Scheduler σ :=
  { s with cycleBudget := budget }

/-- The budget plays no part unless the batch is run. -/
theorem runBatch_withBudget (s : Scheduler σ) (batch : Array Transaction) :
    (∃ e client, ∀ budget, (s.withBudget budget).runBatch batch = (⟨.error e, batch⟩, client)) ∨
      ∀ budget, (s.withBudget budget).runBatch batch = runChecked budget s.capacity batch s.informed := by
  have hvalidate : ∀ budget, (s.withBudget budget).validate batch = s.validate batch := fun _ => rfl
  cases hv : s.validate batch with
  | error e =>
    refine .inl ⟨e, s.client, fun budget => ?_⟩
    unfold runBatch
    rw [hvalidate, hv]
    rfl
  | ok u =>
    by_cases hnone : s.capacity = 0 ∧ 0 < batch.size
    · refine .inl ⟨.noEngineCapacity, s.informed, fun budget => ?_⟩
      unfold runBatch
      rw [hvalidate, hv]
      exact if_pos hnone
    · refine .inr fun budget => ?_
      unfold runBatch
      rw [hvalidate, hv]
      exact if_neg hnone

/-- What a run of a checked batch leaves behind. -/
theorem runChecked_eq (budget k : Nat) (batch : Array Transaction) (client : Client σ) :
    runChecked budget k batch client =
      match Run.cycles budget (Run.start client (work batch) : Run σ (min batch.size k) batch.size) with
      | .ok () run => (⟨.ok run.report, run.transactions.toArray⟩, run.client)
      | .error e run => (⟨.error e, run.transactions.toArray⟩, run.client) :=
  rfl

section Checked

variable {budget k : Nat} {batch : Array Transaction} {client : Client σ}

theorem runChecked_of_le {higher : Nat}
    (enough : (runChecked budget k batch client).1.result ≠ .error .cycleBudgetExceeded) (le : budget ≤ higher) :
    runChecked higher k batch client = runChecked budget k batch client := by
  rw [runChecked_eq, runChecked_eq, Run.cycles_of_le (fun r hr => enough ?_) le]
  rw [runChecked_eq, hr]

/-- A run that completes does so with every budget that it has cycles for, and is abandoned with every other. -/
theorem runChecked_threshold {report : RunReport} (ok : (runChecked budget k batch client).1.result = .ok report)
    (other : Nat) :
    (report.cycles ≤ other → runChecked other k batch client = runChecked budget k batch client) ∧
      (other < report.cycles → (runChecked other k batch client).1.result = .error .cycleBudgetExceeded) := by
  rw [runChecked_eq] at ok
  rw [runChecked_eq, runChecked_eq]
  generalize hstart : (Run.start client (work batch) : Run σ (min batch.size k) batch.size) = start at ok ⊢
  cases hc : Run.cycles budget start with
  | error e run =>
    rw [hc] at ok
    cases ok
  | ok u run =>
    rw [hc] at ok
    obtain rfl := Except.ok.inj ok
    obtain ⟨hcompletes, habandoned⟩ := Run.cycles_threshold hc other
    have hnone : start.report.cycles = 0 := by
      rw [← hstart]
      rfl
    rw [hnone, Nat.zero_add] at hcompletes habandoned
    refine ⟨fun hfew => by rw [hcompletes hfew], fun hmany => ?_⟩
    obtain ⟨r, hr⟩ := habandoned hmany
    rw [hr]

end Checked

variable {s : Scheduler σ} {batch : Array Transaction} {budget : Nat}

theorem runBatch_of_le (enough : (s.runBatch batch).1.result ≠ .error .cycleBudgetExceeded)
    (le : s.cycleBudget ≤ budget) : (s.withBudget budget).runBatch batch = s.runBatch batch := by
  obtain ⟨e, client, hturned⟩ | hrun := s.runBatch_withBudget batch
  · exact (hturned budget).trans (hturned s.cycleBudget).symm
  · have hown : s.runBatch batch = runChecked s.cycleBudget s.capacity batch s.informed := hrun s.cycleBudget
    rw [hown] at enough ⊢
    rw [hrun, runChecked_of_le enough le]

theorem runBatch_threshold {report : RunReport} (ok : (s.runBatch batch).1.result = .ok report) (budget : Nat) :
    (report.cycles ≤ budget → (s.withBudget budget).runBatch batch = s.runBatch batch) ∧
      (budget < report.cycles →
        ((s.withBudget budget).runBatch batch).1.result = .error .cycleBudgetExceeded) := by
  obtain ⟨e, client, hturned⟩ | hrun := s.runBatch_withBudget batch
  · have hown : s.runBatch batch = (⟨.error e, batch⟩, client) := hturned s.cycleBudget
    rw [hown] at ok
    cases ok
  · have hown : s.runBatch batch = runChecked s.cycleBudget s.capacity batch s.informed := hrun s.cycleBudget
    rw [hown] at ok ⊢
    rw [hrun]
    exact runChecked_threshold ok budget

/-- With the other budget the run has the same outcome, leaves the same client and asks the same. -/
def SameRun (s : Scheduler σ) (batch : Array Transaction) (budget : Nat) : Prop :=
  (s.withBudget budget).run batch = ((s.run batch).1, (s.run batch).2.withBudget budget) ∧
    (s.withBudget budget).trace batch = s.trace batch

theorem sameRun_of_runBatch (bare : (s.withBudget budget).runBatch batch = s.runBatch batch)
    (traced : (s.traced.withBudget budget).runBatch batch = s.traced.runBatch batch) : s.SameRun batch budget := by
  constructor
  · unfold run
    rw [bare]
    rfl
  · exact congrArg (fun left => left.2.channel.trace) traced

theorem result_traced (s : Scheduler σ) (batch : Array Transaction) :
    (s.traced.runBatch batch).1.result = (s.runBatch batch).1.result :=
  congrArg Outcome.result (s.run_traced batch).1

open Client in
/-- With a higher budget a run comes to the same and asks the same, unless it is abandoned; a run that completes does
so exactly if its budget has the cycles that it takes. With a higher retry limit a call comes to the same and asks the
same, unless it runs out of attempts. -/
theorem higher_limits_change_only_timeouts {τ : Type} [Channel τ] (s : Scheduler σ) (batch : Array Transaction)
    (c : Client τ) :
    ((s.run batch).1.result ≠ .error .cycleBudgetExceeded →
      ∀ budget, s.cycleBudget ≤ budget → s.SameRun batch budget) ∧
    (∀ report, (s.run batch).1.result = .ok report → ∀ budget,
      (report.cycles ≤ budget → s.SameRun batch budget) ∧
        (budget < report.cycles →
          ((s.withBudget budget).run batch).1.result = .error .cycleBudgetExceeded)) ∧
    (∀ nnid mode trainOutputs,
      IgnoresLimit (openTransaction nnid mode trainOutputs) (openTransaction nnid mode trainOutputs) c) ∧
    (∀ tid value last, IgnoresLimit (write tid value last) (write tid value last) c) ∧
    (∀ tid values, IgnoresLimit (writeAll tid values) (writeAll tid values) c) ∧
    (∀ tid n, IgnoresLimit (read tid n) (read tid n) c) ∧
    (∀ nnid inputs n, IgnoresLimit (feedforward nnid inputs n) (feedforward nnid inputs n) c) ∧
    (∀ nnid inputs expected,
      IgnoresLimit (trainIncremental nnid inputs expected) (trainIncremental nnid inputs expected) c) ∧
    (∀ nnid inputs expected numInputs numOutputs,
      IgnoresLimit (runCompare nnid inputs expected numInputs numOutputs)
        (runCompare nnid inputs expected numInputs numOutputs) c) ∧
    ∀ nnid samples n, IgnoresLimit (feedforwardPrimed nnid samples n) (feedforwardPrimed nnid samples n) c := by
  refine ⟨fun enough budget le => ?higher, fun report ok budget => ?threshold,
    fun nnid mode trainOutputs => (LimitFree.composes.openTransaction nnid mode trainOutputs).ignoresLimit c,
    fun tid value last => (LimitFree.composes.write tid value last).ignoresLimit c,
    fun tid values => (LimitFree.composes.writeAll tid fun _ => trivial).ignoresLimit c,
    fun tid n => (LimitFree.composes.read tid n).ignoresLimit c,
    fun nnid inputs n => (LimitFree.composes.feedforward nnid n fun _ => trivial).ignoresLimit c,
    fun nnid inputs expected =>
      (LimitFree.composes.trainIncremental nnid (fun _ => trivial) fun _ => trivial).ignoresLimit c,
    fun nnid inputs expected numInputs numOutputs =>
      (LimitFree.composes.runCompare nnid inputs expected fun _ => trivial).ignoresLimit c,
    fun nnid samples n => (LimitFree.composes.feedforwardPrimed nnid n fun _ => trivial).ignoresLimit c⟩
  case higher =>
    refine sameRun_of_runBatch (runBatch_of_le enough le) (runBatch_of_le ?_ le)
    rw [result_traced]
    exact enough
  case threshold =>
    have hbare := runBatch_threshold ok budget
    have htraced := runBatch_threshold ((s.result_traced batch).trans ok) budget
    exact ⟨fun hfew => sameRun_of_runBatch (hbare.1 hfew) (htraced.1 hfew), hbare.2⟩

open Client in
/-- The run takes 55 cycles: a higher budget changes nothing, and one of 54 is too low. The identifier arrives after
three steps, so a fourth attempt is enough, and more attempts change nothing. -/
theorem congested_limits :
    (∀ budget, 55 ≤ budget → congested.SameRun sums budget) ∧
      ((congested.withBudget 54).run sums).1.result = .error .cycleBudgetExceeded ∧
      ∀ limit, 4 ≤ limit →
        outcome (openTransaction 0 .feedforward 0) (congested.client.withLimit limit) = .ok 0 := by
  obtain ⟨report, hreport⟩ : ∃ report, (congested.run sums).1.result = .ok report := by
    apply Inversion.except_ok_of_map (f := RunReport.cycles) (b := 55)
    decide +kernel
  have hcycles : (congested.run sums).1.result.map RunReport.cycles = .ok 55 := by decide +kernel
  rw [hreport] at hcycles
  replace hcycles : report.cycles = 55 := Except.ok.inj hcycles
  have hfour : outcome (openTransaction 0 .feedforward 0) (congested.client.withLimit 4) = .ok 0 := by
    decide +kernel
  obtain ⟨-, hthreshold, hopen, -⟩ :=
    higher_limits_change_only_timeouts congested sums (congested.client.withLimit 4)
  have hbudget := hthreshold report hreport
  rw [hcycles] at hbudget
  refine ⟨fun budget => (hbudget budget).1, (hbudget 54).2 (by decide), fun limit le => ?_⟩
  have hsame := hopen 0 .feedforward 0 (by rw [hfour]; exact nofun) limit le
  exact hsame.1.trans hfour

end Scheduler

end NeuralEngine
