import NeuralEngine.Proofs.Scheduler.ExpectedOutputs

/-!
# Runs after other runs

A scheduler may be used again after a run that failed, over a simulator that still holds what the failed run
left: its transactions, and the responses that were not handed out. The run of a batch is not disturbed by
transactions and data words of an earlier one, as long as no identifier is owed when it starts: if it succeeds,
every transaction has the outputs of its own inputs (`rerun_collects_expected`). An identifier that is owed goes
to the first open of the run, which then feeds and reads a transaction of the earlier one.
-/

namespace NeuralEngine

open Simulator

namespace Run

variable {n m : Nat} {engine : Simulator} {work : Vector Transaction m} {history : List (Event m)}
  {inbox inbox' : List Response} {run run' : Run Simulator n m}

/-- The engine has the transactions of the run among its own, and is addressed once it has any. -/
def Housed (engine : Simulator) (work : Vector Transaction m) (inbox : List Response)
    (run : Run Simulator n m) : Prop :=
  ∃ name, Tenancy engine work name inbox run ∧ ∀ (i : Fin n) (x : Tid), name i = some x → engine.Addressed

namespace Housed

theorem keep (h : Housed engine work inbox run) (u : Undisturbed inbox run inbox' run') :
    Housed engine work inbox' run' := by
  obtain ⟨name, htenancy, haddressed⟩ := h
  exact ⟨name, htenancy.keep u, haddressed⟩

theorem ordered (h : Housed engine work inbox run) : run.client.channel.Ordered := by
  obtain ⟨_, htenancy, -⟩ := h
  exact htenancy.ordered

theorem nodup (h : Housed engine work inbox run) : run.client.channel.tids.Nodup := by
  obtain ⟨_, htenancy, -⟩ := h
  exact htenancy.nodup

/-- A turn that succeeds leaves the run and the engine matched. -/
theorem turn (h : Housed engine work [] run) (pool : Pool work run) (ready : ∀ t : Fin m, work[t].Ready)
    (declares : ∀ t : Fin m, engine.Declares work[t]) {event : Event m} {prompt : Option Response}
    (turn : Turn run event prompt run') : Housed engine work prompt.toList run' := by
  obtain ⟨name, h, haddressed⟩ := h
  have hproceeds := h.proceeds pool ready haddressed turn
  cases turn
  case opened turn _ asks ok =>
    obtain ⟨o, r, next, hanswers, hkind, hfree, hunsent, -, -, hserves, -, haddressed⟩ :=
      h.answers_opened pool (ready _) (declares _) asks ok
    exact ⟨_, h.opened pool ready turn hanswers hkind hfree hunsent hserves, fun _ _ _ => haddressed⟩
  all_goals exact ⟨name, h.proceed (hproceeds rfl), haddressed⟩

theorem step (h : Housed engine work inbox run) (pool : Pool work run) (ready : ∀ t : Fin m, work[t].Ready)
    (declares : ∀ t : Fin m, engine.Declares work[t]) (inTime : run.client.channel.InTime)
    {events : List (Event m)} (s : Step inbox run events inbox' run') : Housed engine work inbox' run' := by
  cases s with
  | refill =>
    obtain ⟨name, htenancy, haddressed⟩ := h
    exact ⟨name, htenancy.refill ready pool, haddressed⟩
  | turn turn =>
    have hturn := h.turn pool ready declares turn
    exact hturn.keep (.count hturn.ordered hturn.nodup)
  | poll poll => exact h.keep (.poll h.ordered h.nodup inTime poll)
  | ask state _ _ ask => exact h.keep (.learn h.ordered h.nodup state ask)
  | route delivered =>
    obtain ⟨name, htenancy, haddressed⟩ := h
    obtain ⟨name', hnames, hdelivered⟩ := htenancy.delivered pool delivered
    exact ⟨name', hdelivered, fun i x hx => haddressed i x (hnames i x hx)⟩

/-- Wherever a run comes to in time that starts while no identifier is owed, it and the engine match. -/
theorem of_reach {client : Client Simulator} (ready : ∀ t : Fin m, work[t].Ready)
    (declares : ∀ t : Fin m, client.channel.Declares work[t]) (orderly : client.channel.Orderly)
    (owed : client.channel.owed = []) (h : Reach (Run.start client work) history inbox run)
    (inTime : run.client.channel.InTime) : Housed client.channel work inbox run := by
  induction h with
  | start => exact ⟨_, .start orderly owed, fun _ _ hx => nomatch hx⟩
  | step reach step ih =>
    have hbefore := step.inTime inTime
    exact (ih hbefore).step (Pool.of_reach ready reach) ready declares hbefore step

end Housed

end Run

namespace Scheduler

open Inversion

/-- The scheduler after batches were run one after another, whatever became of them. -/
def runs {σ : Type} [DrainingChannel σ] (s : Scheduler σ) (batches : List (Array Transaction)) : Scheduler σ :=
  batches.foldl (fun s batch => (s.run batch).2) s

variable {s : Scheduler Simulator} {batch : Array Transaction} {history : List (Event batch.size)}
  {outcome : Outcome} {client : Client Simulator}

/-- Batches leave the simulator bound as it is, and orderly. -/
theorem evolves_runs (s : Scheduler Simulator) (batches : List (Array Transaction)) :
    Evolves s.client.channel (s.runs batches).client.channel := by
  induction batches generalizing s with
  | nil => exact .refl _
  | cons batch batches ih => exact (s.evolves_run batch).trans (ih (s.run batch).2)

/-- A run that starts while no identifier is owed and succeeds has collected the outputs of every
transaction. -/
theorem Transcript.collected (h : s.Transcript batch history outcome client)
    (declares : ∀ x ∈ batch, s.client.channel.Declares x) (orderly : s.client.channel.Orderly)
    (owed : s.client.channel.owed = []) (inTime : client.channel.InTime) {report : RunReport}
    (ok : outcome.result = .ok report)
    (t : Fin batch.size) :
    ∃ x, outcome.transactions[t.val]? = some x ∧ x.outputs.toList = batch[t].expected := by
  cases h with
  | invalid => cases ok
  | noCapacity => cases ok
  | @ran _ result run valid room ended =>
    have ready := ready_of_validate valid
    cases ended with
    | outOfBudget => cases ok
    | failed => cases ok
    | unroutable => cases ok
    | @completed _ run reach _ idle =>
      have hreach := reach.refill
      have hdeclares : ∀ t : Fin batch.size, s.client.channel.Declares (work batch)[t] := by
        intro t
        rw [getElem_work]
        exact declares batch[t] (Array.getElem_mem t.isLt)
      obtain ⟨name, htenancy, -⟩ := Run.Housed.of_reach ready hdeclares orderly owed hreach inTime
      obtain ⟨hlt, hleft⟩ := (Run.Pool.of_reach ready hreach).left_of_idle
        (fun hpos => Nat.lt_min.2 ⟨hpos, room hpos⟩) idle t
      have hexpected := htenancy.collected t hlt hleft
      rw [getElem_work, Transaction.expected_reset] at hexpected
      exact ⟨run.refill.transactions[t], by simp, hexpected⟩

/-- Whatever became of the batches that a scheduler ran before, over a simulator that held nothing at first,
a run that succeeds has collected the outputs of every transaction, if the simulator owed no identifier when
the run started and its clock is in time when it ends. -/
theorem rerun_collects_expected (s : Scheduler Simulator) (entries : s.client.channel.entries = [])
    (deferred : s.client.channel.deferred = []) (earlier : List (Array Transaction))
    (batch : Array Transaction) (declares : ∀ x ∈ batch, s.client.channel.Declares x)
    (owed : (s.runs earlier).client.channel.owed = [])
    (inTime : ((s.runs earlier).run batch).2.client.channel.InTime) (report : RunReport)
    (ok : ((s.runs earlier).run batch).1.result = .ok report) (t : Fin batch.size) :
    ∃ x, ((s.runs earlier).run batch).1.transactions[t.val]? = some x ∧
      x.outputs.toList = batch[t].expected := by
  have hevolves := s.evolves_runs earlier
  have hdeclares : ∀ x ∈ batch, (s.runs earlier).client.channel.Declares x := fun x hx =>
    (declares x hx).congr hevolves.table hevolves.asid
  obtain ⟨history, transcript⟩ := (s.runs earlier).exists_transcript batch
  exact transcript.collected hdeclares (hevolves.orderly (orderly_of_empty entries deferred)) owed inTime ok t

/-- A scheduler of few cycles over a simulator of two rows that holds the data words of its first identifier
back for long. -/
def lagging : Scheduler Simulator where
  client := {
    channel := { withCapacity 2 with
      options := { dataDelay := some fun tid => if tid = 0 then 100 else 1 }
      table := some { spaces := [{ capacity := 1, configs := [.ofWords [0, 2]] }], configsPerSpace := 1 }
      asid := some 0 } }
  table := { spaces := [{ capacity := 1, configs := [.ofWords [0, 2]] }], configsPerSpace := 1 }
  asid := 0
  cycleBudget := 20

/-- A batch of one sample with two outputs. -/
def pair (inputs : List Element) : Array Transaction :=
  #[.feedforward 0 inputs 2]

/-- The first run is abandoned with two data words on their way, and the next one has the outputs of its own
inputs. -/
theorem lagging_reruns :
    (lagging.run (pair [1, 2])).1.result = .error .cycleBudgetExceeded ∧
      (lagging.run (pair [1, 2])).2.client.channel.deferred.length = 2 ∧
      ∃ x, ((lagging.runs [pair [1, 2]]).run (pair [5])).1.transactions[0]? =
        some x ∧ x.outputs.toList = [5, 6] := by
  have hdeclares : ∀ x ∈ pair [5], lagging.client.channel.Declares x := by
    intro x hx asid space config hspace hconfig
    obtain rfl := List.mem_singleton.1 (Array.mem_toList_iff.2 hx)
    cases hspace
    cases hconfig
    rfl
  obtain ⟨report, hreport⟩ : ∃ report, ((lagging.runs [pair [1, 2]]).run (pair [5])).1.result = .ok report := by
    apply except_ok_of_map (f := RunReport.completed) (b := 1)
    decide +kernel
  have howed : (lagging.runs [pair [1, 2]]).client.channel.owed = [] := by
    decide +kernel
  have hinTime : ((lagging.runs [pair [1, 2]]).run (pair [5])).2.client.channel.InTime := by
    have hevolves := (lagging.evolves_runs [pair [1, 2]]).trans (evolves_run _ (pair [5]))
    apply hevolves.inTime_of_le 100
    case reaches => decide +kernel
    case le =>
      rintro (_ | tid) steps ⟨⟩
      dsimp only
      split <;> decide
  exact ⟨by decide +kernel, by decide +kernel,
    rerun_collects_expected lagging rfl rfl [pair [1, 2]] (pair [5]) hdeclares howed hinTime report hreport
      ⟨0, by decide⟩⟩

/-- A scheduler of few cycles over a simulator that holds identifiers back for as many. -/
def hasty : Scheduler Simulator where
  client := {
    channel := { withCapacity 2 with
      options := { tidDelay := some 12 }
      table := some { spaces := [{ capacity := 1, configs := [.ofWords [0, 1]] }], configsPerSpace := 1 }
      asid := some 0 } }
  table := { spaces := [{ capacity := 1, configs := [.ofWords [0, 1]] }], configsPerSpace := 1 }
  asid := 0
  cycleBudget := 12

/-- A training step. -/
def training : Array Transaction :=
  #[.trainIncremental 0 [1] [5]]

/-- A sample of three inputs. -/
def sample : Array Transaction :=
  #[.feedforward 0 [4, 5, 6] 1]

/-- The identifier of an abandoned training step goes to the transaction of the next run, whose first input is
then taken for an expected output. -/
theorem identifier_of_abandoned_run_spoils_outputs :
    hasty.client.channel.entries = [] ∧ hasty.client.channel.deferred = [] ∧
      (hasty.run training).1.result = .error .cycleBudgetExceeded ∧
      (hasty.runs [training]).client.channel.owed = [0] ∧
      (∃ report, ((hasty.runs [training]).run sample).1.result = .ok report) ∧
      ((hasty.runs [training]).run sample).1.transactions.map (·.outputs.toList) = #[[11]] ∧
      sample.map (·.expected) = #[[15]] := by
  refine ⟨rfl, rfl, by decide +kernel, by decide +kernel, ?_, by decide +kernel, by decide +kernel⟩
  apply except_ok_of_map (f := RunReport.completed) (b := 1)
  decide +kernel

end Scheduler

end NeuralEngine
