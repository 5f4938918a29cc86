import NeuralEngine.Proofs.Client.Refusal
import NeuralEngine.Proofs.Scheduler.Routing
import NeuralEngine.Proofs.Scheduler.Transcript

/-!
# Nothing is asked before the arguments are accepted

The run of a batch fails with the fault of its first transaction that has one, and with a lack of
capacity if none has one and the engine holds nothing. Then the engine was asked for its capability word
at most, and every transaction keeps what it had. A batch that was accepted does not come to such an
error later on: the checks that are made again during the run do not fail.
-/

namespace NeuralEngine

/-- The error tells what is wrong with a transaction of a batch. -/
def SchedulerError.isFault : SchedulerError → Bool
  | emptyTransaction _ | unknownNetwork _ | client .tooManyOutputs => true
  | _ => false

namespace Scheduler

variable {σ : Type} {s : Scheduler σ} {batch : Array Transaction} {e : SchedulerError}

/-- Transaction `index` of a batch is at fault. The faults are looked for in this order. -/
inductive Faulty (s : Scheduler σ) (index : Nat) (x : Transaction) : SchedulerError → Prop where
  | empty (none : x.inputCount = 0 ∨ x.outputCount = 0) : Faulty s index x (.emptyTransaction index)
  | crowded (inputs_pos : 0 < x.inputCount) (outputs_pos : 0 < x.outputCount)
      (many : 65535 < x.trainOutputs) : Faulty s index x (.client .tooManyOutputs)
  | unknown (inputs_pos : 0 < x.inputCount) (outputs_pos : 0 < x.outputCount)
      (few : x.trainOutputs ≤ 65535) (lacking : s.table.config? s.asid x.nnid = none) :
      Faulty s index x (.unknownNetwork index)

/-- The first transaction of the batch that is at fault is so with the error. -/
def FirstFault (s : Scheduler σ) (batch : Array Transaction) (e : SchedulerError) : Prop :=
  ∃ i : Fin batch.size, s.Faulty i batch[i] e ∧ ∀ j : Fin batch.size, j < i → s.Checked batch[j]

/-! ## The check of a batch -/

theorem Faulty.isFault {index : Nat} {x : Transaction} (h : s.Faulty index x e) : e.isFault = true := by
  cases h <;> rfl

theorem checkTransaction_eq_ok_iff {index : Nat} {x : Transaction} :
    checkTransaction s.table s.asid index x = .ok () ↔ s.Checked x := by
  refine ⟨checked_of_checkTransaction, fun h => ?_⟩
  obtain ⟨config, hconfig⟩ := h.known
  have hinputs := h.inputs_pos
  have houtputs := h.outputs_pos
  have hfew := h.few
  unfold checkTransaction
  rw [if_neg (by omega), if_neg (by omega), hconfig]
  rfl

theorem checkTransaction_eq_error_iff {index : Nat} {x : Transaction} :
    checkTransaction s.table s.asid index x = .error e ↔ s.Faulty index x e := by
  constructor
  · intro h
    unfold checkTransaction at h
    split at h
    · next hnone =>
      cases h
      exact .empty hnone
    · next hsome =>
      split at h
      · next hmany =>
        cases h
        exact .crowded (by omega) (by omega) (by omega)
      · next hfew =>
        split at h
        · next hlacking =>
          cases h
          exact .unknown (by omega) (by omega) (by omega) (Option.isNone_iff_eq_none.1 hlacking)
        · cases h
  · intro h
    unfold checkTransaction
    cases h with
    | empty none => rw [if_pos none]
    | crowded => rw [if_neg (by omega), if_pos (by omega)]
    | unknown _ _ _ lacking =>
      rw [if_neg (by omega), if_neg (by omega), lacking]
      rfl

theorem checkFrom_eq_ok_iff {index : Nat} {xs : List Transaction} :
    checkFrom s.table s.asid index xs = .ok () ↔ ∀ x ∈ xs, s.Checked x := by
  refine ⟨checked_of_checkFrom, fun h => ?_⟩
  induction xs generalizing index with
  | nil => rfl
  | cons x rest ih =>
    rw [checkFrom, checkTransaction_eq_ok_iff.2 (h x List.mem_cons_self)]
    exact ih fun y hy => h y (List.mem_cons_of_mem _ hy)

theorem checkFrom_eq_error_iff {index : Nat} {xs : List Transaction} :
    checkFrom s.table s.asid index xs = .error e ↔
      ∃ i, ∃ hi : i < xs.length, s.Faulty (index + i) xs[i] e ∧ ∀ j, ∀ hj : j < i, s.Checked xs[j] := by
  induction xs generalizing index with
  | nil => exact iff_of_false (fun h => by cases h) fun ⟨i, hi, _⟩ => absurd hi (Nat.not_lt_zero i)
  | cons x rest ih =>
    rw [checkFrom]
    cases hx : checkTransaction s.table s.asid index x with
    | error d =>
      dsimp only
      rw [← hx, checkTransaction_eq_error_iff]
      constructor
      · exact fun hfaulty => ⟨0, Nat.succ_pos _, hfaulty, fun j hj => absurd hj (Nat.not_lt_zero j)⟩
      · rintro ⟨i, hi, hfaulty, hchecked⟩
        cases i with
        | zero => exact hfaulty
        | succ i =>
          have hok : checkTransaction s.table s.asid index x = .ok () :=
            checkTransaction_eq_ok_iff.2 (hchecked 0 (Nat.succ_pos i))
          rw [hx] at hok
          cases hok
    | ok u =>
      have hfirst := checkTransaction_eq_ok_iff.1 hx
      dsimp only
      rw [ih]
      constructor
      · rintro ⟨i, hi, hfaulty, hchecked⟩
        refine ⟨i + 1, Nat.succ_lt_succ hi, ?_, fun j hj => ?_⟩
        · rwa [Nat.add_right_comm, Nat.add_assoc] at hfaulty
        · cases j with
          | zero => exact hfirst
          | succ j => exact hchecked j (Nat.lt_of_succ_lt_succ hj)
      · rintro ⟨i, hi, hfaulty, hchecked⟩
        cases i with
        | zero =>
          have herror := checkTransaction_eq_error_iff.2 hfaulty
          rw [Nat.add_zero, List.getElem_cons_zero, hx] at herror
          cases herror
        | succ i =>
          refine ⟨i, Nat.lt_of_succ_lt_succ hi, ?_, fun j hj => hchecked (j + 1) (Nat.succ_lt_succ hj)⟩
          rwa [Nat.add_right_comm, Nat.add_assoc]

theorem validate_eq_ok_iff : s.validate batch = .ok () ↔ ∀ i : Fin batch.size, s.Checked batch[i] := by
  refine ⟨checked_of_validate, fun h => checkFrom_eq_ok_iff.2 fun x hx => ?_⟩
  obtain ⟨i, hi, rfl⟩ := Array.mem_iff_getElem.1 (Array.mem_toList_iff.1 hx)
  exact h ⟨i, hi⟩

/-- The check of a batch finds the first fault. -/
theorem validate_eq_error_iff : s.validate batch = .error e ↔ s.FirstFault batch e := by
  unfold validate
  rw [checkFrom_eq_error_iff]
  constructor
  · rintro ⟨i, hi, hfaulty, hchecked⟩
    rw [Nat.zero_add] at hfaulty
    exact ⟨⟨i, hi⟩, hfaulty, fun j hj => hchecked j hj⟩
  · rintro ⟨i, hfaulty, hchecked⟩
    refine ⟨i, i.isLt, ?_, fun j hj => hchecked ⟨j, Nat.lt_trans hj i.isLt⟩ hj⟩
    rwa [Nat.zero_add]

/-! ## The run of a batch -/

variable [DrainingChannel σ]

theorem run_of_validate_error (invalid : s.validate batch = .error e) :
    (s.run batch).1 = ⟨.error e, batch⟩ ∧ (s.run batch).2.client = s.client := by
  unfold run runBatch
  rw [invalid]
  exact ⟨rfl, rfl⟩

theorem run_of_noCapacity (valid : s.validate batch = .ok ()) (none : s.capacity = 0) (pos : 0 < batch.size) :
    (s.run batch).1 = ⟨.error .noEngineCapacity, batch⟩ ∧ (s.run batch).2.client = s.informed := by
  have hrun : s.runBatch batch = (⟨.error .noEngineCapacity, batch⟩, s.informed) := by
    unfold runBatch
    rw [valid]
    exact if_pos ⟨none, pos⟩
  unfold run
  rw [hrun]
  exact ⟨rfl, rfl⟩

/-- Once it has begun, a run comes to no error that an argument could be turned down with. -/
theorem ended_isFault {history : List (Event batch.size)} {result : Except SchedulerError Unit}
    {run : Run σ (min batch.size s.capacity) batch.size} (valid : s.validate batch = .ok ())
    (h : Run.Ended (s.launch batch) history result run) (he : result = .error e) :
    e.isFault = false ∧ e ≠ .noEngineCapacity := by
  cases h with
  | completed => cases he
  | outOfBudget =>
    cases he
    exact ⟨rfl, SchedulerError.noConfusion⟩
  | failed _ _ turn =>
    cases he
    cases turn <;> exact ⟨rfl, SchedulerError.noConfusion⟩
  | unroutable _ visits route =>
    cases he
    obtain rfl | rfl := (visits.pool (ready_of_validate valid)).route_error route <;>
      exact ⟨rfl, SchedulerError.noConfusion⟩

/-- Where the error of a batch comes from: its check, its lack of room or its run. -/
theorem Transcript.error_cases {history : List (Event batch.size)} {outcome : Outcome} {client : Client σ}
    (h : s.Transcript batch history outcome client) (result : outcome.result = .error e) :
    s.validate batch = .error e ∨
      (s.validate batch = .ok () ∧ s.capacity = 0 ∧ 0 < batch.size ∧ e = .noEngineCapacity) ∨
      e.isFault = false ∧ e ≠ .noEngineCapacity := by
  cases h with
  | invalid invalid =>
    cases result
    exact .inl invalid
  | noCapacity valid none pos =>
    cases result
    exact .inr (.inl ⟨valid, none, pos, rfl⟩)
  | @ran _ ending _ valid _ ended =>
    cases ending with
    | ok u => cases result
    | error d =>
      cases result
      exact .inr (.inr (ended_isFault valid ended rfl))

theorem run_error_cases (h : (s.run batch).1.result = .error e) :
    s.validate batch = .error e ∨
      (s.validate batch = .ok () ∧ s.capacity = 0 ∧ 0 < batch.size ∧ e = .noEngineCapacity) ∨
      e.isFault = false ∧ e ≠ .noEngineCapacity :=
  let ⟨_, htranscript⟩ := s.exists_transcript batch
  htranscript.error_cases h

theorem run_eq_fault_iff (fault : e.isFault = true) :
    (s.run batch).1.result = .error e ↔ s.FirstFault batch e := by
  rw [← validate_eq_error_iff]
  constructor
  · intro h
    obtain hinvalid | ⟨-, -, -, rfl⟩ | ⟨hno, -⟩ := run_error_cases h
    · exact hinvalid
    · cases fault
    · rw [hno] at fault
      cases fault
  · intro h
    rw [(run_of_validate_error h).1]

theorem run_eq_noCapacity_iff :
    (s.run batch).1.result = .error .noEngineCapacity ↔
      (∀ i : Fin batch.size, s.Checked batch[i]) ∧ s.capacity = 0 ∧ 0 < batch.size := by
  rw [← validate_eq_ok_iff]
  constructor
  · intro h
    obtain hinvalid | ⟨hvalid, hnone, hpos, -⟩ | ⟨-, hne⟩ := run_error_cases h
    · obtain ⟨i, hfaulty, -⟩ := validate_eq_error_iff.1 hinvalid
      cases hfaulty.isFault
    · exact ⟨hvalid, hnone, hpos⟩
    · exact absurd rfl hne
  · rintro ⟨hvalid, hnone, hpos⟩
    rw [(run_of_noCapacity hvalid hnone hpos).1]

/-- A batch with a fault is given back as it is, and the channel is asked for nothing. -/
theorem untouched_of_fault (fault : e.isFault = true) (h : (s.run batch).1.result = .error e) :
    (s.run batch).1.transactions = batch ∧ (s.run batch).2.client = s.client ∧ s.trace batch = [] := by
  have hinvalid := validate_eq_error_iff.2 ((run_eq_fault_iff fault).1 h)
  obtain ⟨houtcome, hclient⟩ := run_of_validate_error hinvalid
  have htraced : (s.traced.run batch).2.client = s.traced.client :=
    (run_of_validate_error (s := s.traced) hinvalid).2
  refine ⟨by rw [houtcome], hclient, ?_⟩
  rw [trace, htraced]
  rfl

/-- A batch for which there is no room is given back as it is, and the channel is asked for its
capability word. -/
theorem untouched_of_noCapacity (h : (s.run batch).1.result = .error .noEngineCapacity) :
    (s.run batch).1.transactions = batch ∧ (s.run batch).2.client = s.informed ∧
      s.trace batch = [.capability (Channel.capability s.client.channel).1] := by
  obtain ⟨hchecked, hnone, hpos⟩ := run_eq_noCapacity_iff.1 h
  have hvalid := validate_eq_ok_iff.2 hchecked
  obtain ⟨houtcome, hclient⟩ := run_of_noCapacity hvalid hnone hpos
  have htraced : (s.traced.run batch).2.client = s.traced.informed :=
    (run_of_noCapacity (s := s.traced) hvalid hnone hpos).2
  refine ⟨by rw [houtcome], hclient, ?_⟩
  rw [trace, htraced]
  rfl

/-- The first fault of a batch decides how its run fails, and a lack of capacity does if there is no
fault. In these cases the batch is given back as it is and the channel is asked for its capability word at
most. Neither does a client call, over whatever channel, ask or count anything when it turns its arguments down. -/
theorem nothing_asked_before_admission (s : Scheduler σ) (batch : Array Transaction) (τ : Type) [Channel τ] :
    (∀ e : SchedulerError, e.isFault = true →
      ((s.run batch).1.result = .error e ↔ s.FirstFault batch e) ∧
        ((s.run batch).1.result = .error e → (s.run batch).1.transactions = batch ∧
          (s.run batch).2.client = s.client ∧ s.trace batch = [])) ∧
      ((s.run batch).1.result = .error .noEngineCapacity ↔
        (∀ i : Fin batch.size, s.Checked batch[i]) ∧ s.capacity = 0 ∧ 0 < batch.size) ∧
      ((s.run batch).1.result = .error .noEngineCapacity → (s.run batch).1.transactions = batch ∧
        (s.run batch).2.client = s.informed ∧
        s.trace batch = [.capability (Channel.capability s.client.channel).1]) ∧
      (∀ tid values, Client.RefusesAtOnce (Client.writeAll tid values : ClientM τ _)
        (Client.writeAll tid values)) ∧
      (∀ tid inputs expected, Client.RefusesAtOnce (Client.writeTraining tid inputs expected : ClientM τ _)
        (Client.writeTraining tid inputs expected)) ∧
      (∀ nnid inputs n, Client.RefusesAtOnce (Client.feedforward nnid inputs n : ClientM τ _)
        (Client.feedforward nnid inputs n)) ∧
      (∀ nnid inputs expected, Client.RefusesAtOnce
        (Client.trainIncremental nnid inputs expected : ClientM τ _)
        (Client.trainIncremental nnid inputs expected)) ∧
      (∀ nnid inputs expected numInputs numOutputs, Client.RefusesAtOnce
        (Client.runCompare nnid inputs expected numInputs numOutputs : ClientM τ _)
        (Client.runCompare nnid inputs expected numInputs numOutputs)) ∧
      (∀ nnid samples n, Client.RefusesAtOnce (Client.feedforwardPrimed nnid samples n : ClientM τ _)
        (Client.feedforwardPrimed nnid samples n)) ∧
      ∀ tid, Client.RefusesAtOnce (Client.kill tid : ClientM τ _) (Client.kill tid) :=
  ⟨fun _ fault => ⟨run_eq_fault_iff fault, untouched_of_fault fault⟩, run_eq_noCapacity_iff,
    untouched_of_noCapacity, Client.refusesAtOnce_writeAll, Client.refusesAtOnce_writeTraining,
    Client.refusesAtOnce_feedforward, Client.refusesAtOnce_trainIncremental,
    Client.refusesAtOnce_runCompare, Client.refusesAtOnce_feedforwardPrimed, Client.refusesAtOnce_kill⟩

end Scheduler

end NeuralEngine
