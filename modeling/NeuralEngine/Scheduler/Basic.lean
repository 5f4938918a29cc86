import NeuralEngine.Scheduler.Cycle
import NeuralEngine.Table.Basic

/-!
# The scheduler

A scheduler runs batches of transactions over a client. A batch is checked as a whole before
anything is presented: every transaction needs inputs and outputs, few enough expected outputs for
an open to announce, and a network that the address space has. It then runs over as many slots as
the engine holds transactions, at most one for each transaction, for a bounded number of cycles.
-/

namespace NeuralEngine

namespace Scheduler

/-- Counts over all runs. -/
structure Statistics where
  runs : Nat := 0
  failedRuns : Nat := 0
  busyRetries : Nat := 0
  notDonePolls : Nat := 0
deriving DecidableEq, Repr

end Scheduler

/-- A scheduler over a client of a channel with states `σ`. The table and the address space are
those that the engine was pointed at. -/
structure Scheduler (σ : Type) where
  client : Client σ
  table : ConfigTable
  asid : Asid
  /-- The cycles that a run may take before it is abandoned. -/
  cycleBudget : Nat := 2 ^ 24
  statistics : Scheduler.Statistics := {}

namespace Scheduler

variable {σ : Type}

/-- What a run leaves behind: its report or the error that ended it, and the batch. -/
structure Outcome where
  result : Except SchedulerError RunReport
  transactions : Array Transaction

/-- Checks transaction `index` of a batch. -/
def checkTransaction (table : ConfigTable) (asid : Asid) (index : Nat) (t : Transaction) :
    Except SchedulerError Unit :=
  if t.inputCount = 0 ∨ t.outputCount = 0 then .error (.emptyTransaction index)
  else if 2 ^ 16 ≤ t.trainOutputs then .error (.client .tooManyOutputs)
  else if (table.config? asid t.nnid).isNone then .error (.unknownNetwork index)
  else .ok ()

/-- Checks the transactions of a batch from `index` on. -/
def checkFrom (table : ConfigTable) (asid : Asid) : Nat → List Transaction → Except SchedulerError Unit
  | _, [] => .ok ()
  | index, t :: rest =>
    match checkTransaction table asid index t with
    | .error e => .error e
    | .ok () => checkFrom table asid (index + 1) rest

/-- Checks a batch before it runs. -/
def validate (s : Scheduler σ) (batch : Array Transaction) : Except SchedulerError Unit :=
  checkFrom s.table s.asid 0 batch.toList

variable [DrainingChannel σ]

/-- Runs a batch that was checked, over `k` slots at most. -/
def runChecked (budget k : Nat) (batch : Array Transaction) (client : Client σ) : Outcome × Client σ :=
  let transactions : Vector Transaction batch.size := batch.toVector.map Transaction.reset
  let start : Run σ (min batch.size k) batch.size := Run.start client transactions
  match Run.cycles budget start with
  | .ok () run => (⟨.ok run.report, run.transactions.toArray⟩, run.client)
  | .error e run => (⟨.error e, run.transactions.toArray⟩, run.client)

/-- Checks and runs a batch. -/
def runBatch (batch : Array Transaction) (s : Scheduler σ) : Outcome × Client σ :=
  match s.validate batch with
  | .error e => (⟨.error e, batch⟩, s.client)
  | .ok () =>
    let (capability, channel) := Channel.capability s.client.channel
    let client := { s.client with channel := channel }
    let k := capability.tableEntries.toNat
    if k = 0 ∧ 0 < batch.size then (⟨.error .noEngineCapacity, batch⟩, client)
    else runChecked s.cycleBudget k batch client

/-- The statistics after a run with the given result. -/
def Statistics.add (result : Except SchedulerError RunReport) (t : Statistics) : Statistics :=
  match result with
  | .ok report =>
    { t with
      runs := t.runs + 1
      busyRetries := t.busyRetries + report.busyRetries
      notDonePolls := t.notDonePolls + report.notDonePolls }
  | .error _ => { t with runs := t.runs + 1, failedRuns := t.failedRuns + 1 }

/-- Runs every transaction of a batch to completion and fills in its outputs. After an error the
batch is abandoned as it stands. -/
def run (batch : Array Transaction) (s : Scheduler σ) : Outcome × Scheduler σ :=
  let (outcome, client) := s.runBatch batch
  (outcome, { s with client := client, statistics := s.statistics.add outcome.result })

omit [DrainingChannel σ]

def Statistics.describe (t : Statistics) : String :=
  "Statistics \x7b runs: " ++ toString t.runs ++ ", failed_runs: " ++ toString t.failedRuns ++
    ", busy_retries: " ++ toString t.busyRetries ++ ", not_done_polls: " ++
    toString t.notDonePolls ++ " \x7d"

/-- The scheduler and its client, a line for each thing. -/
def describe (s : Scheduler σ) : List String :=
  ["Scheduler: asid " ++ toString s.asid.toNat ++ " SchedulerConfig \x7b cycle_budget: " ++
      toString s.cycleBudget ++ " \x7d",
   s.statistics.describe] ++ s.client.describe

end Scheduler

end NeuralEngine
