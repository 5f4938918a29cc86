import NeuralEngine.Proofs.Client.Beside
import NeuralEngine.Proofs.Scheduler.Update
import NeuralEngine.Scheduler.Basic

/-!
# Runs side by side

A run asks its channel through client calls and otherwise works on slots, transactions and its report,
none of which depends on the channel. So over clients that a relation couples, a batch has the same
outcome and leaves clients that are related again.
-/

namespace NeuralEngine

namespace Run

variable {σ τ : Type} {n m : Nat}

/-- The run with another client, maybe of another channel. -/
def withClient (d : Client τ) (run : Run σ n m) : Run τ n m where
  client := d
  slots := run.slots
  transactions := run.transactions
  nextPending := run.nextPending
  awaitingTid := run.awaitingTid
  routes := run.routes
  cursor := run.cursor
  report := run.report

section Fields

variable (d : Client τ) (run : Run σ n m)

@[simp] theorem slots_withClient : (run.withClient d).slots = run.slots := rfl
@[simp] theorem transactions_withClient : (run.withClient d).transactions = run.transactions := rfl
@[simp] theorem awaitingTid_withClient : (run.withClient d).awaitingTid = run.awaitingTid := rfl
@[simp] theorem routes_withClient : (run.withClient d).routes = run.routes := rfl
@[simp] theorem cursor_withClient : (run.withClient d).cursor = run.cursor := rfl

end Fields

/-! ## What the client plays no part in -/

section Route

variable (d : Client τ)

theorem refillSlot_withClient (run : Run σ n m) (i : Fin n) :
    (run.withClient d).refillSlot i = (run.refillSlot i).withClient d := by
  unfold refillSlot
  by_cases h : run.slots[i].state = .unused ∧ run.nextPending < m
  · rw [dif_pos h, dif_pos (by exact h)]
    rfl
  · rw [dif_neg h, dif_neg (by exact h)]

theorem refill_withClient (run : Run σ n m) : (run.withClient d).refill = run.refill.withClient d :=
  List.foldl_hom (withClient d) (refillSlot_withClient d)

theorem routeTid_withClient (tid : Tid) (run : Run σ n m) :
    (run.withClient d).routeTid tid = (run.routeTid tid).map (withClient d) := by
  simp only [routeTid, awaitingTid_withClient, slots_withClient, routes_withClient]
  cases run.awaitingTid with
  | nil => rfl
  | cons i rest =>
    dsimp only
    cases run.slots[i].state <;> cases run.routes.lookup tid <;> cases run.slots[i].transaction <;> rfl

theorem routeData_withClient (tid : Tid) (value : Element) (run : Run σ n m) :
    (run.withClient d).routeData tid value = (run.routeData tid value).map (withClient d) := by
  have hgiven (i : Fin n) (t : Fin m) (given : Run σ n m) :
      (if (given.withClient d).transactions[t].isComplete then (given.withClient d).finish i tid
        else given.withClient d) =
        (if given.transactions[t].isComplete then given.finish i tid else given).withClient d := by
    by_cases hcomplete : given.transactions[t].isComplete = true
    · rw [if_pos hcomplete]
      exact if_pos hcomplete
    · rw [if_neg hcomplete]
      exact if_neg hcomplete
  unfold routeData
  rw [routes_withClient]
  cases run.routes.lookup tid with
  | none => rfl
  | some i =>
    dsimp only
    rw [slots_withClient]
    cases run.slots[i].transaction with
    | none => rfl
    | some t =>
      dsimp only
      by_cases hstate : run.slots[i].state = .read ∨ run.slots[i].state = .readWait
      · rw [if_pos hstate, if_pos hstate]
        exact congrArg Except.ok (hgiven i t (run.modifyTransaction t (·.addOutput value)))
      · rw [if_neg hstate, if_neg hstate]
        rfl

theorem route_withClient (response : Response) (run : Run σ n m) :
    (run.withClient d).route response = (run.route response).map (withClient d) := by
  unfold route
  split
  · exact routeTid_withClient d _ _
  · exact routeData_withClient d _ _ _
  · rfl

end Route

/-! ## The parts of a cycle -/

/-- The runs are the same but for their clients, which are related. -/
def Over (R : Client σ → Client τ → Prop) (run : Run σ n m) (run' : Run τ n m) : Prop :=
  ∃ d, R run.client d ∧ run' = run.withClient d

/-- Computations on runs that come to the same over related clients, with any error. -/
abbrev Parallel {α : Type} (R : Client σ → Client τ → Prop) (x : RunM σ n m α) (y : RunM τ n m α) : Prop :=
  Beside (Over R) (fun _ => True) x y

namespace Parallel

variable {R : Client σ → Client τ → Prop} {α : Type}

/-- Computations that look at the run first. -/
theorem of_get {p : Run σ n m → RunM σ n m α} {q : Run τ n m → RunM τ n m α}
    (rest : ∀ run d, R run.client d →
      SameResult (Over R) (fun _ => True) (p run run) (q (run.withClient d) (run.withClient d))) :
    Parallel R (get >>= p) (get >>= q) := by
  rintro run - ⟨d, hd, rfl⟩
  exact rest run d hd

/-- Computations that change something else than the client first. -/
theorem of_modify {p : Run σ n m → Run σ n m} {q : Run τ n m → Run τ n m} {x : PUnit → RunM σ n m α}
    {y : PUnit → RunM τ n m α} (client : ∀ run, (p run).client = run.client)
    (commutes : ∀ run d, q (run.withClient d) = (p run).withClient d) (rest : ∀ u, Parallel R (x u) (y u)) :
    Parallel R (modify p >>= x) (modify q >>= y) := by
  refine Beside.modify ?_ rest
  rintro run - ⟨d, hd, rfl⟩
  exact ⟨d, (client run).symm ▸ hd, commutes run d⟩

protected theorem ask {P : ClientError → Prop} {x : ClientM σ α} {y : ClientM τ α} (h : Beside R P x y) :
    Parallel R (ask x : RunM σ n m α) (ask y) := by
  rintro run - ⟨d, hd, rfl⟩
  have hcall : SameResult R P (x run.client) (y (run.withClient d).client) := h run.client d hd
  unfold Run.ask
  generalize x run.client = r at hcall ⊢
  generalize y (run.withClient d).client = r' at hcall ⊢
  cases hcall with
  | ok related => exact .ok ⟨_, related, rfl⟩
  | error _ related => exact .error trivial ⟨_, related, rfl⟩

protected theorem routeAll (responses : List Response) :
    Parallel R (routeAll responses : RunM σ n m Unit) (routeAll responses) := by
  induction responses with
  | nil => exact .pure _
  | cons response rest ih =>
    refine Beside.bind ?_ fun _ => ih
    rintro run - ⟨d, hd, rfl⟩
    simp only [attempt, route_withClient]
    cases hroute : run.route response with
    | error e => exact .error trivial ⟨d, hd, rfl⟩
    | ok next => exact .ok ⟨d, (delivered_of_route hroute).client_eq ▸ hd, rfl⟩

protected theorem transactionOf (i : Fin n) : Parallel R (transactionOf i : RunM σ n m (Fin m)) (transactionOf i) :=
  of_get fun run d hd => by
    simp only [slots_withClient]
    cases run.slots[i].transaction with
    | none => exact .error trivial ⟨d, hd, rfl⟩
    | some t => exact .ok ⟨d, hd, rfl⟩

protected theorem tidOf (i : Fin n) : Parallel R (tidOf i : RunM σ n m Tid) (tidOf i) :=
  of_get fun run d hd => by
    simp only [slots_withClient]
    cases run.slots[i].tid with
    | none => exact .error trivial ⟨d, hd, rfl⟩
    | some tid => exact .ok ⟨d, hd, rfl⟩

variable [DrainingChannel σ] [DrainingChannel τ] {P : ClientError → Prop} (h : Client.CouplesDraining R P)

include h

protected theorem presentOpen (i : Fin n) (t : Fin m) :
    Parallel R (presentOpen i t : RunM σ n m (Option Response)) (presentOpen i t) := by
  refine of_get fun run d hd => ?_
  change SameResult _ _ ((if 2 ^ 16 ≤ run.transactions[t].trainOutputs then _ else _ : RunM σ n m _) run)
    ((if 2 ^ 16 ≤ run.transactions[t].trainOutputs then _ else _ : RunM τ n m _) (run.withClient d))
  split
  · exact .error trivial ⟨d, hd, rfl⟩
  · refine (Parallel.ask (h.issueOpen _ _ _)).bind (fun response => ?_) run _ ⟨d, hd, rfl⟩
    exact of_modify (fun _ => rfl) (fun _ _ => rfl) fun _ => .pure _

protected theorem presentWrite (i : Fin n) (t : Fin m) :
    Parallel R (presentWrite i t : RunM σ n m (Option Response)) (presentWrite i t) := by
  refine (Parallel.tidOf i).bind fun tid => of_get fun run d hd => ?_
  simp only [transactions_withClient, slots_withClient]
  cases run.transactions[t].registers[run.slots[i].registersWritten]? with
  | some entry =>
    refine (Parallel.ask (h.writeRegister _ _ _)).bind (fun _ => ?_) run _ ⟨d, hd, rfl⟩
    exact of_modify (fun _ => rfl) (fun _ _ => rfl) fun _ => .pure _
  | none =>
    dsimp only
    cases run.transactions[t].stream[run.slots[i].cursor]? with
    | none => exact .error trivial ⟨d, hd, rfl⟩
    | some value =>
      refine (Parallel.ask (h.tryWrite _ _ _)).bind (fun status => ?_) run _ ⟨d, hd, rfl⟩
      cases status with
      | accepted => exact of_modify (fun _ => rfl) (fun _ _ => rfl) fun _ => .pure _
      | busy => exact of_modify (fun _ => rfl) (fun _ _ => rfl) fun _ => .pure _

protected theorem presentRead (i : Fin n) (t : Fin m) :
    Parallel R (presentRead i t : RunM σ n m (Option Response)) (presentRead i t) := by
  refine (Parallel.tidOf i).bind fun tid => (Parallel.ask (h.tryRead _)).bind fun status => ?_
  cases status with
  | data response => exact of_modify (fun _ => rfl) (fun _ _ => rfl) fun _ => .pure _
  | deferred => exact of_modify (fun _ => rfl) (fun _ _ => rfl) fun _ => .pure _
  | notDone => exact of_modify (fun _ => rfl) (fun _ _ => rfl) fun _ => .pure _

protected theorem present (i : Fin n) :
    Parallel R (present i : RunM σ n m (Option Response)) (present i) := by
  refine (Parallel.transactionOf i).bind fun t => of_get fun run d hd => ?_
  simp only [slots_withClient]
  cases run.slots[i].state
  case newWrite => exact Parallel.presentOpen h i t run _ ⟨d, hd, rfl⟩
  case write => exact Parallel.presentWrite h i t run _ ⟨d, hd, rfl⟩
  case read => exact Parallel.presentRead h i t run _ ⟨d, hd, rfl⟩
  all_goals exact .error trivial ⟨d, hd, rfl⟩

protected theorem takeTurn : Parallel R (takeTurn : RunM σ n m (Option Response)) takeTurn := by
  refine of_get fun run d hd => ?_
  simp only [slots_withClient, cursor_withClient]
  cases next? run.slots run.cursor with
  | some i =>
    have hturn : Parallel R
        (do modify fun run : Run σ n m => { run with cursor := (i + 1) % n }; present i)
        (do modify fun run : Run τ n m => { run with cursor := (i + 1) % n }; present i) :=
      of_modify (fun _ => rfl) (fun _ _ => rfl) fun _ => Parallel.present h i
    exact hturn run _ ⟨d, hd, rfl⟩
  | none =>
    refine (Parallel.ask h.idle).bind (fun _ => ?_) run _ ⟨d, hd, rfl⟩
    exact of_modify (fun _ => rfl) (fun _ _ => rfl) fun _ => .pure _

protected theorem promote (i : Fin n) : Parallel R (promote i : RunM σ n m Unit) (promote i) := by
  refine of_get fun run d hd => ?_
  simp only [slots_withClient]
  cases run.slots[i].state <;> cases run.slots[i].tid
  case executing.some tid =>
    refine (Parallel.ask (h.isDone tid)).bind (fun done => ?_) run _ ⟨d, hd, rfl⟩
    cases done with
    | false => exact .pure _
    | true => exact fun run' _ ⟨d, hd, heq⟩ => .ok ⟨d, hd, heq ▸ rfl⟩
  all_goals exact .ok ⟨d, hd, rfl⟩

protected theorem gather : Parallel R (gather : RunM σ n m (List Response)) gather := by
  have collect : Parallel R (collect : RunM σ n m (List Response)) collect := by
    refine (Parallel.ask h.pollAll).bind fun responses => ?_
    exact of_modify (fun _ => rfl) (fun _ _ => rfl) fun _ => .pure _
  refine (Parallel.takeTurn h).bind fun prompt => of_modify (fun _ => rfl) (fun _ _ => rfl) fun _ => ?_
  exact collect.bind fun late => (Beside.forM (Parallel.promote h) _).bind fun _ => .pure _

protected theorem cycle : Parallel R (cycle : RunM σ n m Unit) cycle :=
  (Parallel.gather h).bind Parallel.routeAll

/-- All cycles of a run go along a relation that the single attempts go along. -/
protected theorem cycles (budget : Nat) : Parallel R (cycles budget : RunM σ n m Unit) (cycles budget) := by
  induction budget with
  | zero =>
    refine of_modify client_refill (fun run d => refill_withClient d run) fun _ => of_get fun run d hd => ?_
    change SameResult _ _ ((if run.isBusy then _ else _ : RunM σ n m Unit) run)
      ((if run.isBusy then _ else _ : RunM τ n m Unit) (run.withClient d))
    cases run.isBusy with
    | false => exact .ok ⟨d, hd, rfl⟩
    | true => exact .error trivial ⟨d, hd, rfl⟩
  | succ budget ih =>
    refine of_modify client_refill (fun run d => refill_withClient d run) fun _ => of_get fun run d hd => ?_
    change SameResult _ _ ((if run.isBusy then _ else _ : RunM σ n m Unit) run)
      ((if run.isBusy then _ else _ : RunM τ n m Unit) (run.withClient d))
    cases run.isBusy with
    | false => exact .ok ⟨d, hd, rfl⟩
    | true => exact (Parallel.cycle h).bind (fun _ => ih) run _ ⟨d, hd, rfl⟩

end Parallel

end Run

namespace Scheduler

variable {σ τ : Type}

/-- The scheduler with another client, maybe of another channel. -/
def withClient (d : Client τ) (s : Scheduler σ) : Scheduler τ where
  client := d
  table := s.table
  asid := s.asid
  cycleBudget := s.cycleBudget
  statistics := s.statistics

variable [DrainingChannel σ] [DrainingChannel τ] {R : Client σ → Client τ → Prop} {P : ClientError → Prop}
  (h : Client.CouplesDraining R P)

include h

theorem runChecked_withClient (budget k : Nat) (batch : Array Transaction) {c : Client σ} {d : Client τ}
    (hcd : R c d) :
    (runChecked budget k batch d).1 = (runChecked budget k batch c).1 ∧
      R (runChecked budget k batch c).2 (runChecked budget k batch d).2 := by
  have hcycles : SameResult (Run.Over R) (fun _ => True)
      (Run.cycles budget (Run.start c (batch.toVector.map Transaction.reset) : Run σ (min batch.size k) _))
      (Run.cycles budget (Run.start d (batch.toVector.map Transaction.reset) : Run τ (min batch.size k) _)) :=
    Run.Parallel.cycles h budget _ _ ⟨d, hcd, rfl⟩
  unfold runChecked
  dsimp only
  generalize Run.cycles budget (Run.start c _) = r at hcycles ⊢
  generalize Run.cycles budget (Run.start d _) = r' at hcycles ⊢
  cases hcycles with
  | ok related =>
    obtain ⟨d', hd', rfl⟩ := related
    exact ⟨rfl, hd'⟩
  | error _ related =>
    obtain ⟨d', hd', rfl⟩ := related
    exact ⟨rfl, hd'⟩

theorem informed_withClient {c : Client σ} {d : Client τ} (hcd : R c d) :
    (Channel.capability d.channel).1 = (Channel.capability c.channel).1 ∧
      R { c with channel := (Channel.capability c.channel).2 }
        { d with channel := (Channel.capability d.channel).2 } :=
  (h.capability c d hcd).of_ok

/-- Over coupled clients a batch has the same outcome and leaves related clients. -/
theorem runBatch_withClient (batch : Array Transaction) (s : Scheduler σ) {d : Client τ} (hd : R s.client d) :
    ((s.withClient d).runBatch batch).1 = (s.runBatch batch).1 ∧
      R (s.runBatch batch).2 ((s.withClient d).runBatch batch).2 := by
  have hvalidate : (s.withClient d).validate batch = s.validate batch := rfl
  obtain ⟨hword, hinformed⟩ := informed_withClient h hd
  unfold runBatch
  rw [hvalidate]
  cases s.validate batch with
  | error e => exact ⟨rfl, hd⟩
  | ok u =>
    dsimp only [withClient]
    rw [hword]
    split
    · exact ⟨rfl, hinformed⟩
    · exact runChecked_withClient h _ _ batch hinformed

end Scheduler

end NeuralEngine
