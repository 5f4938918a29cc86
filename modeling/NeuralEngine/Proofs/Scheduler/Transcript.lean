import NeuralEngine.Proofs.Scheduler.Trace
import NeuralEngine.Scheduler.Basic

/-!
# The history of a batch

A batch that passes the check of the scheduler is made of transactions that are ready, so that what
holds of every run of such transactions holds of the run of the batch. `Transcript` says what passes
between the scheduler and its channel for a whole batch: nothing if the batch is turned down, and
the history of its run otherwise.
-/

namespace NeuralEngine

namespace Scheduler

variable {σ : Type}

/-! ## Checked batches -/

/-- What the check of a batch tells of each of its transactions. -/
structure Checked (s : Scheduler σ) (x : Transaction) : Prop where
  inputs_pos : 0 < x.inputCount
  outputs_pos : 0 < x.outputCount
  few : x.trainOutputs < 2 ^ 16
  known : ∃ config, s.table.config? s.asid x.nnid = some config

theorem checked_of_checkTransaction {s : Scheduler σ} {index : Nat} {x : Transaction}
    (h : checkTransaction s.table s.asid index x = .ok ()) : s.Checked x := by
  unfold checkTransaction at h
  split at h
  · cases h
  · next hpos =>
    split at h
    · cases h
    · next hfew =>
      split at h
      · cases h
      · next hknown =>
        simp only [not_or] at hpos
        simp only [Bool.not_eq_true, Option.isNone_eq_false_iff, Option.isSome_iff_exists] at hknown
        exact ⟨by omega, by omega, by omega, hknown⟩

theorem checked_of_checkFrom {s : Scheduler σ} {index : Nat} {batch : List Transaction}
    (h : checkFrom s.table s.asid index batch = .ok ()) : ∀ x ∈ batch, s.Checked x := by
  induction batch generalizing index with
  | nil => simp
  | cons x rest ih =>
    unfold checkFrom at h
    split at h
    · cases h
    · next hx =>
      intro y hy
      obtain rfl | hy := List.mem_cons.1 hy
      · exact checked_of_checkTransaction hx
      · exact ih h y hy

/-- The transactions of a batch as a run of it starts. -/
def work (batch : Array Transaction) : Vector Transaction batch.size :=
  batch.toVector.map Transaction.reset

theorem getElem_work (batch : Array Transaction) (t : Fin batch.size) : (work batch)[t] = batch[t].reset := by
  simp [work]

theorem checked_of_validate {s : Scheduler σ} {batch : Array Transaction}
    (h : s.validate batch = .ok ()) (t : Fin batch.size) : s.Checked batch[t] :=
  checked_of_checkFrom h _ (by simp)

theorem ready_of_validate {s : Scheduler σ} {batch : Array Transaction}
    (h : s.validate batch = .ok ()) (t : Fin batch.size) : (work batch)[t].Ready := by
  have hx := checked_of_validate h t
  rw [getElem_work]
  exact ⟨rfl, hx.inputs_pos, hx.outputs_pos, hx.few⟩

/-! ## The run of a batch -/

variable [DrainingChannel σ]

/-- The number of transactions that the engine of the scheduler holds at once. -/
def capacity (s : Scheduler σ) : Nat :=
  (Channel.capability s.client.channel).1.tableEntries.toNat

/-- The client once it has read the capability word. -/
def informed (s : Scheduler σ) : Client σ :=
  { s.client with channel := (Channel.capability s.client.channel).2 }

/-- The run of a batch before its first cycle. -/
def launch (s : Scheduler σ) (batch : Array Transaction) :
    Run σ (min batch.size s.capacity) batch.size :=
  Run.start s.informed (work batch)

/-- What passes while a batch is run, the outcome and the client that is left. -/
inductive Transcript (s : Scheduler σ) (batch : Array Transaction) :
    List (Event batch.size) → Outcome → Client σ → Prop where
  | invalid {e : SchedulerError} (invalid : s.validate batch = .error e) :
      Transcript s batch [] ⟨.error e, batch⟩ s.client
  | noCapacity (valid : s.validate batch = .ok ()) (none : s.capacity = 0) (pos : 0 < batch.size) :
      Transcript s batch [] ⟨.error .noEngineCapacity, batch⟩ s.informed
  | ran {history : List (Event batch.size)} {result : Except SchedulerError Unit}
      {run : Run σ (min batch.size s.capacity) batch.size} (valid : s.validate batch = .ok ())
      (room : 0 < batch.size → 0 < s.capacity) (ended : Run.Ended (s.launch batch) history result run) :
      Transcript s batch history ⟨result.map fun _ => run.report, run.transactions.toArray⟩ run.client

theorem runChecked_ok {s : Scheduler σ} {batch : Array Transaction} {u : Unit}
    {run : Run σ (min batch.size s.capacity) batch.size}
    (h : Run.cycles s.cycleBudget (s.launch batch) = .ok u run) :
    runChecked s.cycleBudget s.capacity batch s.informed =
      (⟨.ok run.report, run.transactions.toArray⟩, run.client) := by
  unfold launch work at h
  simp only [runChecked, h]

theorem runChecked_error {s : Scheduler σ} {batch : Array Transaction} {e : SchedulerError}
    {run : Run σ (min batch.size s.capacity) batch.size}
    (h : Run.cycles s.cycleBudget (s.launch batch) = .error e run) :
    runChecked s.cycleBudget s.capacity batch s.informed = (⟨.error e, run.transactions.toArray⟩, run.client) := by
  unfold launch work at h
  simp only [runChecked, h]

theorem transcript_of_runChecked {s : Scheduler σ} {batch : Array Transaction}
    (valid : s.validate batch = .ok ()) (room : 0 < batch.size → 0 < s.capacity) :
    ∃ history, s.Transcript batch history
      (runChecked s.cycleBudget s.capacity batch s.informed).1
      (runChecked s.cycleBudget s.capacity batch s.informed).2 := by
  have hready := ready_of_validate valid
  cases hc : Run.cycles s.cycleBudget (s.launch batch) with
  | ok u run =>
    obtain ⟨history, hended⟩ := Run.ended_of_cycles_ok hready .start .start hc
    rw [runChecked_ok hc]
    exact ⟨history, .ran valid room hended⟩
  | error e run =>
    obtain ⟨history, hended⟩ := Run.ended_of_cycles_error hready .start .start hc
    rw [runChecked_error hc]
    exact ⟨history, .ran valid room hended⟩

/-- The history of a batch has all that the channel is asked, but for its capability word. -/
theorem Transcript.play {s : Scheduler σ} {batch : Array Transaction}
    {history : List (Event batch.size)} {outcome : Outcome} {client : Client σ}
    (h : s.Transcript batch history outcome client) :
    ∃ before, (before = s.client.channel ∨ before = s.informed.channel) ∧
      Event.Play history before client.channel := by
  cases h with
  | invalid => exact ⟨_, .inl rfl, rfl⟩
  | noCapacity => exact ⟨_, .inr rfl, rfl⟩
  | ran _ _ ended => exact ⟨_, .inr rfl, ended.play⟩

/-- A batch that is checked is run, on an engine that has room for it. -/
theorem runBatch_eq {s : Scheduler σ} {batch : Array Transaction} (valid : s.validate batch = .ok ())
    (room : 0 < s.capacity) : s.runBatch batch = runChecked s.cycleBudget s.capacity batch s.informed := by
  unfold runBatch
  rw [valid]
  exact if_neg fun h => absurd h.1 (Nat.ne_of_gt room)

/-- Every batch has a transcript. -/
theorem exists_transcript (s : Scheduler σ) (batch : Array Transaction) :
    ∃ history, s.Transcript batch history (s.run batch).1 (s.run batch).2.client := by
  change ∃ history, s.Transcript batch history (s.runBatch batch).1 (s.runBatch batch).2
  unfold runBatch
  cases hv : s.validate batch with
  | error e => exact ⟨[], .invalid hv⟩
  | ok u =>
    change ∃ history, s.Transcript batch history
      (if s.capacity = 0 ∧ 0 < batch.size then (⟨.error .noEngineCapacity, batch⟩, s.informed)
        else runChecked s.cycleBudget s.capacity batch s.informed).1
      (if s.capacity = 0 ∧ 0 < batch.size then (⟨.error .noEngineCapacity, batch⟩, s.informed)
        else runChecked s.cycleBudget s.capacity batch s.informed).2
    split
    · next h => exact ⟨[], .noCapacity hv h.1 h.2⟩
    · next h => exact transcript_of_runChecked hv fun hpos => Nat.pos_of_ne_zero fun hzero => h ⟨hzero, hpos⟩

end Scheduler

end NeuralEngine
