import NeuralEngine.Proofs.Client.Attempt
import NeuralEngine.Scheduler.Cycle

/-!
# Turns

In each cycle one slot has its turn and presents a request for its transaction, or the engine takes
a bare step. `Turn` says all that a turn can do when it succeeds: what passes between the run and
its channel, the answer that is left to be routed, and the run after it. `FailedTurn` says the same
of a turn whose answer ends the run. A turn that does neither finds a slot without the data that its
state calls for (`Stuck`); the invariant of the slots rules that out.
-/

namespace NeuralEngine

/-- What takes place in a run of `m` transactions: what passes between it and its channel, and which
responses find the slot that waits for them. -/
inductive Event (m : Nat) where
  /-- A request that is presented for a transaction, and its immediate answer. -/
  | issued (t : Fin m) (request : Request) (answer : Response)
  /-- A step without a request. -/
  | stepped
  | polled (answer : Option Response)
  /-- The question whether a transaction, by its identifier, has finished. -/
  | asked (t : Fin m) (tid : Tid) (done : Bool)
  /-- A response that is routed. -/
  | routed (response : Response)
deriving DecidableEq, Repr

/-- The event takes the channel from one state to another. -/
def Event.Passes {σ : Type} [Channel σ] {m : Nat} (s s' : σ) : Event m → Prop
  | issued _ request answer => Channel.issue request s = (answer, s')
  | stepped => Channel.step s = s'
  | polled answer => Channel.poll s = (answer, s')
  | asked _ tid done => Channel.isDone tid s = (done, s')
  | routed _ => s = s'

/-- The open of a transaction. -/
def Transaction.opening (x : Transaction) : Request :=
  .newTransaction x.nnid x.mode (BitVec.ofNat 16 x.trainOutputs)

namespace Run

variable {σ : Type} {n m : Nat}

/-- Slot `i` has its turn. It is in the given state and holds transaction `t`. -/
structure HasTurn (run : Run σ n m) (i : Fin n) (t : Fin m) (state : SlotState) : Prop where
  turn : next? run.slots run.cursor = some i
  state : run.slots[i].state = state
  holds : run.slots[i].transaction = some t

/-- The run after the turn of a slot, as far as it is the same for every request. -/
def passTurn (i : Fin n) (client : Client σ) (run : Run σ n m) : Run σ n m :=
  { run with client := client, cursor := (i + 1) % n }

/-- The request that slot `i` presents for transaction `t` when it has its turn. -/
inductive Presents (run : Run σ n m) (i : Fin n) (t : Fin m) : Request → Prop where
  | opening (turn : run.HasTurn i t .newWrite) (few : run.transactions[t].trainOutputs < 2 ^ 16) :
      Presents run i t run.transactions[t].opening
  | register {tid : Tid} {register : Register} {value : RegisterValue} (turn : run.HasTurn i t .write)
      (tid_eq : run.slots[i].tid = some tid)
      (entry : run.transactions[t].registers[run.slots[i].registersWritten]? = some (register, value)) :
      Presents run i t (.setRegister tid register value)
  | element {tid : Tid} {value : Element} (turn : run.HasTurn i t .write)
      (tid_eq : run.slots[i].tid = some tid)
      (written : run.transactions[t].registers[run.slots[i].registersWritten]? = none)
      (entry : run.transactions[t].stream[run.slots[i].cursor]? = some value) :
      Presents run i t
        (.writeData tid value (run.slots[i].cursor + 1 == run.transactions[t].stream.size))
  | read {tid : Tid} (turn : run.HasTurn i t .read) (tid_eq : run.slots[i].tid = some tid) :
      Presents run i t (.readData tid)

/-- Only a slot that holds an unopened transaction presents an open. -/
theorem Presents.turn_of_open {run : Run σ n m} {i : Fin n} {t : Fin m} {request : Request}
    (h : run.Presents i t request) (opens : request.op? = some .newRequest) :
    run.HasTurn i t .newWrite ∧ request = run.transactions[t].opening := by
  cases h with
  | opening turn => exact ⟨turn, rfl⟩
  | register => simp at opens
  | element =>
    rw [Request.op?_writeData] at opens
    split at opens <;> cases opens
  | read => simp at opens

variable [Channel σ]

/-- What a turn can do when it succeeds. -/
inductive Turn (run : Run σ n m) : Event m → Option Response → Run σ n m → Prop where
  | idle {c : Client σ} (turn : next? run.slots run.cursor = none)
      (step : Channel.step run.client.channel = c.channel) :
      Turn run .stepped none
        ({ run with client := c }.tally fun r => { r with idleSteps := r.idleSteps + 1 })
  | opened {i : Fin n} {t : Fin m} {c : Client σ} {answer : Response}
      (turn : run.HasTurn i t .newWrite) (few : run.transactions[t].trainOutputs < 2 ^ 16)
      (asks : run.client.Asks run.transactions[t].opening answer c) (ok : answer.exitCode = .ok) :
      Turn run (.issued t run.transactions[t].opening answer)
        (if answer.kind? = some .status then none else some answer) ((run.passTurn i c).awaitTid i)
  | registered {i : Fin n} {t : Fin m} {c : Client σ} {answer : Response} {tid : Tid}
      {register : Register} {value : RegisterValue} (turn : run.HasTurn i t .write)
      (tid_eq : run.slots[i].tid = some tid)
      (entry : run.transactions[t].registers[run.slots[i].registersWritten]? = some (register, value))
      (asks : run.client.Asks (.setRegister tid register value) answer c)
      (ok : answer.exitCode = .ok) :
      Turn run (.issued t (.setRegister tid register value) answer) none
        ((run.passTurn i c).countRegister i)
  | accepted {i : Fin n} {t : Fin m} {c : Client σ} {answer : Response} {tid : Tid} {value : Element}
      {last : Bool} (turn : run.HasTurn i t .write) (tid_eq : run.slots[i].tid = some tid)
      (written : run.transactions[t].registers[run.slots[i].registersWritten]? = none)
      (entry : run.transactions[t].stream[run.slots[i].cursor]? = some value)
      (last_eq : last = (run.slots[i].cursor + 1 == run.transactions[t].stream.size))
      (asks : run.client.Asks (.writeData tid value last) answer c) (ok : answer.exitCode = .ok) :
      Turn run (.issued t (.writeData tid value last) answer) none
        ((run.passTurn i c).countElement i last)
  | busy {i : Fin n} {t : Fin m} {c : Client σ} {answer : Response} {tid : Tid} {value : Element}
      {last : Bool} (turn : run.HasTurn i t .write) (tid_eq : run.slots[i].tid = some tid)
      (written : run.transactions[t].registers[run.slots[i].registersWritten]? = none)
      (entry : run.transactions[t].stream[run.slots[i].cursor]? = some value)
      (last_eq : last = (run.slots[i].cursor + 1 == run.transactions[t].stream.size))
      (asks : run.client.Asks (.writeData tid value last) answer c)
      (code : answer.exitCode = .queueBusy) :
      Turn run (.issued t (.writeData tid value last) answer) none
        ((run.passTurn i c).tally fun r => { r with busyRetries := r.busyRetries + 1 })
  | read {i : Fin n} {t : Fin m} {c : Client σ} {answer : Response} {tid : Tid}
      (turn : run.HasTurn i t .read) (tid_eq : run.slots[i].tid = some tid)
      (asks : run.client.Asks (.readData tid) answer c) (ok : answer.exitCode = .ok)
      (kind : answer.kind? = some .data ∨ answer.kind? = some .status) :
      Turn run (.issued t (.readData tid) answer)
        (if answer.kind? = some .status then none else some answer) ((run.passTurn i c).countRead i t)
  | notDone {i : Fin n} {t : Fin m} {c : Client σ} {answer : Response} {tid : Tid}
      (turn : run.HasTurn i t .read) (tid_eq : run.slots[i].tid = some tid)
      (asks : run.client.Asks (.readData tid) answer c) (code : answer.exitCode = .notDone) :
      Turn run (.issued t (.readData tid) answer) none
        ((run.passTurn i c).tally fun r => { r with notDonePolls := r.notDonePolls + 1 })

/-- What a turn does when its answer ends the run: nothing but the request. -/
inductive FailedTurn (run : Run σ n m) : Event m → SchedulerError → Run σ n m → Prop where
  | refused {i : Fin n} {t : Fin m} {c : Client σ} {request : Request} {answer : Response}
      (presents : run.Presents i t request) (asks : run.client.Asks request answer c)
      (fatal : request.tolerates answer.exitCode = false) :
      FailedTurn run (.issued t request answer) (.client (.engine answer.exitCode)) (run.passTurn i c)
  | unexpected {i : Fin n} {t : Fin m} {c : Client σ} {tid : Tid} {answer : Response}
      (presents : run.Presents i t (.readData tid)) (asks : run.client.Asks (.readData tid) answer c)
      (ok : answer.exitCode = .ok) (data : answer.kind? ≠ some .data)
      (status : answer.kind? ≠ some .status) :
      FailedTurn run (.issued t (.readData tid) answer) (.client .unexpectedResponse) (run.passTurn i c)

omit [Channel σ]

/-- The slot whose turn it is lacks what its state calls for. -/
inductive Stuck (run : Run σ n m) (i : Fin n) : Prop where
  | vacant (holds : run.slots[i].transaction = none)
  | crowded {t : Fin m} (turn : run.HasTurn i t .newWrite)
      (many : 2 ^ 16 ≤ run.transactions[t].trainOutputs)
  | anonymous (state : run.slots[i].state = .write ∨ run.slots[i].state = .read)
      (tid_eq : run.slots[i].tid = none)
  | exhausted {t : Fin m} (turn : run.HasTurn i t .write)
      (entry : run.transactions[t].stream[run.slots[i].cursor]? = none)

open Inversion

theorem ask_ok {α : Type} {call : ClientM σ α} {run run' : Run σ n m} {a : α}
    (h : ask call run = .ok a run') :
    ∃ c, call run.client = .ok a c ∧ { run with client := c } = run' := by
  unfold ask at h
  cases hc : call run.client with
  | error d c => simp [hc] at h
  | ok b c =>
    simp only [hc, EStateM.Result.ok.injEq] at h
    obtain ⟨rfl, rfl⟩ := h
    exact ⟨c, rfl, rfl⟩

theorem ask_error {α : Type} {call : ClientM σ α} {run run' : Run σ n m} {e : SchedulerError}
    (h : ask call run = .error e run') :
    ∃ d c, call run.client = .error d c ∧ e = .client d ∧ { run with client := c } = run' := by
  unfold ask at h
  cases hc : call run.client with
  | ok b c => simp [hc] at h
  | error d c =>
    simp only [hc, EStateM.Result.error.injEq] at h
    obtain ⟨rfl, rfl⟩ := h
    exact ⟨d, c, rfl, rfl, rfl⟩

theorem transactionOf_ok {run run' : Run σ n m} {i : Fin n} {t : Fin m}
    (h : transactionOf i run = .ok t run') : run.slots[i].transaction = some t ∧ run = run' := by
  simp only [transactionOf, get_bind] at h
  cases ht : run.slots[i].transaction <;> simp only [ht] at h
  · exact (throw_ok_iff.1 h).elim
  · obtain ⟨rfl, rfl⟩ := pure_ok_iff.1 h
    exact ⟨rfl, rfl⟩

theorem transactionOf_error {run run' : Run σ n m} {i : Fin n} {e : SchedulerError}
    (h : transactionOf i run = .error e run') : run.slots[i].transaction = none := by
  simp only [transactionOf, get_bind] at h
  cases ht : run.slots[i].transaction with
  | none => rfl
  | some t =>
    simp only [ht] at h
    exact (pure_error_iff.1 h).elim

theorem tidOf_ok {run run' : Run σ n m} {i : Fin n} {tid : Tid}
    (h : tidOf i run = .ok tid run') : run.slots[i].tid = some tid ∧ run = run' := by
  simp only [tidOf, get_bind] at h
  cases ht : run.slots[i].tid <;> simp only [ht] at h
  · exact (throw_ok_iff.1 h).elim
  · obtain ⟨rfl, rfl⟩ := pure_ok_iff.1 h
    exact ⟨rfl, rfl⟩

theorem tidOf_error {run run' : Run σ n m} {i : Fin n} {e : SchedulerError}
    (h : tidOf i run = .error e run') : run.slots[i].tid = none := by
  simp only [tidOf, get_bind] at h
  cases ht : run.slots[i].tid with
  | none => rfl
  | some tid =>
    simp only [ht] at h
    exact (pure_error_iff.1 h).elim

variable [Channel σ]

theorem presentOpen_ok {run run' : Run σ n m} {i : Fin n} {t : Fin m} {prompt : Option Response}
    (turn : run.HasTurn i t .newWrite)
    (h : presentOpen i t { run with cursor := (i + 1) % n } = .ok prompt run') :
    ∃ e, Turn run e prompt run' := by
  simp only [presentOpen, get_bind] at h
  split at h
  · exact (throw_ok_iff.1 h).elim
  · next hfew =>
    obtain ⟨answer, run₁, hask, h⟩ := bind_ok_iff.1 h
    simp only [modify_bind, pure_ok_iff] at h
    obtain ⟨rfl, rfl⟩ := h
    obtain ⟨c, hc, rfl⟩ := ask_ok hask
    obtain ⟨hasks, hok⟩ := Client.issueOpen_ok hc
    exact ⟨_, .opened turn (Nat.lt_of_not_le hfew) hasks hok⟩

theorem presentWrite_ok {run run' : Run σ n m} {i : Fin n} {t : Fin m} {prompt : Option Response}
    (turn : run.HasTurn i t .write)
    (h : presentWrite i t { run with cursor := (i + 1) % n } = .ok prompt run') :
    ∃ e, Turn run e prompt run' := by
  obtain ⟨tid, run₁, htid, h⟩ := bind_ok_iff.1 h
  obtain ⟨tid_eq, rfl⟩ := tidOf_ok htid
  simp only [get_bind] at h
  cases hr : run.transactions[t].registers[run.slots[i].registersWritten]? with
  | some entry =>
    obtain ⟨register, value⟩ := entry
    simp only [hr] at h
    obtain ⟨u, run₁, hask, h⟩ := bind_ok_iff.1 h
    simp only [modify_bind, pure_ok_iff] at h
    obtain ⟨rfl, rfl⟩ := h
    obtain ⟨c, hc, rfl⟩ := ask_ok hask
    obtain ⟨answer, hasks, hok⟩ := Client.writeRegister_ok hc
    exact ⟨_, .registered turn tid_eq hr hasks hok⟩
  | none =>
    simp only [hr] at h
    cases he : run.transactions[t].stream[run.slots[i].cursor]? with
    | none =>
      simp only [he] at h
      exact (throw_ok_iff.1 h).elim
    | some value =>
      simp only [he] at h
      obtain ⟨w, run₁, hask, h⟩ := bind_ok_iff.1 h
      obtain ⟨c, hc, rfl⟩ := ask_ok hask
      obtain ⟨answer, hasks, ⟨rfl, hok⟩ | ⟨rfl, hbusy⟩⟩ := Client.tryWrite_ok hc
      · simp only [modify_bind, pure_ok_iff] at h
        obtain ⟨rfl, rfl⟩ := h
        exact ⟨_, .accepted turn tid_eq hr he rfl hasks hok⟩
      · simp only [modify_bind, pure_ok_iff] at h
        obtain ⟨rfl, rfl⟩ := h
        exact ⟨_, .busy turn tid_eq hr he rfl hasks hbusy⟩

theorem presentRead_ok {run run' : Run σ n m} {i : Fin n} {t : Fin m} {prompt : Option Response}
    (turn : run.HasTurn i t .read)
    (h : presentRead i t { run with cursor := (i + 1) % n } = .ok prompt run') :
    ∃ e, Turn run e prompt run' := by
  obtain ⟨tid, run₁, htid, h⟩ := bind_ok_iff.1 h
  obtain ⟨tid_eq, rfl⟩ := tidOf_ok htid
  obtain ⟨w, run₁, hask, h⟩ := bind_ok_iff.1 h
  obtain ⟨c, hc, rfl⟩ := ask_ok hask
  obtain ⟨answer, hasks, ⟨rfl, hok, hkind⟩ | ⟨rfl, hok, hkind⟩ | ⟨rfl, hcode⟩⟩ := Client.tryRead_ok hc
  all_goals
    simp only [modify_bind, pure_ok_iff] at h
    obtain ⟨rfl, rfl⟩ := h
  · have hread := Turn.read turn tid_eq hasks hok (.inl hkind)
    rw [hkind, if_neg (by simp)] at hread
    exact ⟨_, hread⟩
  · have hread := Turn.read turn tid_eq hasks hok (.inr hkind)
    rw [hkind, if_pos rfl] at hread
    exact ⟨_, hread⟩
  · exact ⟨_, .notDone turn tid_eq hasks hcode⟩

theorem takeTurn_ok {run run' : Run σ n m} {prompt : Option Response}
    (h : takeTurn run = .ok prompt run') : ∃ e, Turn run e prompt run' := by
  simp only [takeTurn, get_bind] at h
  cases hn : next? run.slots run.cursor with
  | none =>
    simp only [hn] at h
    obtain ⟨u, run₁, hask, h⟩ := bind_ok_iff.1 h
    simp only [modify_bind, pure_ok_iff] at h
    obtain ⟨rfl, rfl⟩ := h
    obtain ⟨c, hc, rfl⟩ := ask_ok hask
    simp only [Client.idle, modify_ok_iff] at hc
    exact ⟨_, .idle hn (congrArg Client.channel hc)⟩
  | some i =>
    simp only [hn, modify_bind, present] at h
    obtain ⟨t, run₁, ht, h⟩ := bind_ok_iff.1 h
    obtain ⟨holds, rfl⟩ := transactionOf_ok ht
    simp only [get_bind] at h
    cases hs : run.slots[i].state <;> simp only [hs] at h
    case newWrite => exact presentOpen_ok ⟨hn, hs, holds⟩ h
    case write => exact presentWrite_ok ⟨hn, hs, holds⟩ h
    case read => exact presentRead_ok ⟨hn, hs, holds⟩ h
    all_goals exact (throw_ok_iff.1 h).elim

theorem presentOpen_error {run run' : Run σ n m} {i : Fin n} {t : Fin m} {e : SchedulerError}
    (turn : run.HasTurn i t .newWrite)
    (h : presentOpen i t { run with cursor := (i + 1) % n } = .error e run') :
    (∃ event, FailedTurn run event e run') ∨ Stuck run i := by
  simp only [presentOpen, get_bind] at h
  split at h
  · next hmany => exact .inr (.crowded turn hmany)
  · next hfew =>
    obtain hask | ⟨answer, run₁, -, h⟩ := bind_error_iff.1 h
    · obtain ⟨d, c, hc, rfl, rfl⟩ := ask_error hask
      obtain ⟨answer, hasks, hne, rfl⟩ := Client.issueOpen_error hc
      exact .inl ⟨_, .refused (.opening turn (Nat.lt_of_not_le hfew)) hasks
        (Request.tolerates_newTransaction hne)⟩
    · simp only [modify_bind, pure_error_iff] at h

theorem presentWrite_error {run run' : Run σ n m} {i : Fin n} {t : Fin m} {e : SchedulerError}
    (turn : run.HasTurn i t .write)
    (h : presentWrite i t { run with cursor := (i + 1) % n } = .error e run') :
    (∃ event, FailedTurn run event e run') ∨ Stuck run i := by
  obtain htid | ⟨tid, run₁, htid, h⟩ := bind_error_iff.1 h
  · have hnone := tidOf_error htid
    exact .inr (.anonymous (.inl turn.state) hnone)
  obtain ⟨tid_eq, rfl⟩ := tidOf_ok htid
  simp only [get_bind] at h
  cases hr : run.transactions[t].registers[run.slots[i].registersWritten]? with
  | some entry =>
    obtain ⟨register, value⟩ := entry
    simp only [hr] at h
    obtain hask | ⟨u, run₁, -, h⟩ := bind_error_iff.1 h
    · obtain ⟨d, c, hc, rfl, rfl⟩ := ask_error hask
      obtain ⟨answer, hasks, hne, rfl⟩ := Client.writeRegister_error hc
      exact .inl ⟨_, .refused (.register turn tid_eq hr) hasks (Request.tolerates_setRegister hne)⟩
    · simp only [modify_bind, pure_error_iff] at h
  | none =>
    simp only [hr] at h
    cases he : run.transactions[t].stream[run.slots[i].cursor]? with
    | none => exact .inr (.exhausted turn he)
    | some value =>
      simp only [he] at h
      obtain hask | ⟨w, run₁, -, h⟩ := bind_error_iff.1 h
      · obtain ⟨d, c, hc, rfl, rfl⟩ := ask_error hask
        obtain ⟨answer, hasks, hne, hbusy, rfl⟩ := Client.tryWrite_error hc
        exact .inl ⟨_, .refused (.element turn tid_eq hr he) hasks
          (Request.tolerates_writeData hne hbusy)⟩
      · cases w <;> simp only [modify_bind, pure_error_iff] at h

theorem presentRead_error {run run' : Run σ n m} {i : Fin n} {t : Fin m} {e : SchedulerError}
    (turn : run.HasTurn i t .read)
    (h : presentRead i t { run with cursor := (i + 1) % n } = .error e run') :
    (∃ event, FailedTurn run event e run') ∨ Stuck run i := by
  obtain htid | ⟨tid, run₁, htid, h⟩ := bind_error_iff.1 h
  · have hnone := tidOf_error htid
    exact .inr (.anonymous (.inr turn.state) hnone)
  obtain ⟨tid_eq, rfl⟩ := tidOf_ok htid
  obtain hask | ⟨w, run₁, -, h⟩ := bind_error_iff.1 h
  · obtain ⟨d, c, hc, rfl, rfl⟩ := ask_error hask
    obtain ⟨answer, hasks, ⟨hne, hnot, rfl⟩ | ⟨hok, hdata, hstatus, rfl⟩⟩ := Client.tryRead_error hc
    · exact .inl ⟨_, .refused (.read turn tid_eq) hasks (Request.tolerates_readData hne hnot)⟩
    · exact .inl ⟨_, .unexpected (.read turn tid_eq) hasks hok hdata hstatus⟩
  · cases w <;> simp only [modify_bind, pure_error_iff] at h

theorem next?_isActionable {ι : Type} {slots : Vector (Slot ι) n} {cursor : Nat} {i : Fin n}
    (h : next? slots cursor = some i) : slots[i].state.isActionable = true := by
  simpa using List.find?_some h

theorem mem_turns (cursor : Nat) (i : Fin n) : i ∈ turns cursor n := by
  have hlt := Nat.mod_lt cursor i.pos
  have hcursor := Nat.div_add_mod cursor n
  -- the cursor has `i` before it in this turn or in the next
  have hturn : ∃ k < n, (cursor + k) % n = i := by
    rcases Nat.lt_or_ge i (cursor % n) with hnext | hthis
    · refine ⟨i + n - cursor % n, by omega, ?_⟩
      rw [show cursor + (i + n - cursor % n) = n * (cursor / n) + (n + i) by omega, Nat.mul_add_mod,
        Nat.add_mod_left, Nat.mod_eq_of_lt i.isLt]
    · refine ⟨i - cursor % n, by omega, ?_⟩
      rw [show cursor + (i - cursor % n) = n * (cursor / n) + i by omega, Nat.mul_add_mod,
        Nat.mod_eq_of_lt i.isLt]
  obtain ⟨k, hk, hki⟩ := hturn
  exact List.mem_map.2 ⟨⟨k, hk⟩, List.mem_finRange _, Fin.ext hki⟩

/-- When it is no slot's turn, no slot has anything to present. -/
theorem isActionable_of_next?_none {ι : Type} {slots : Vector (Slot ι) n} {cursor : Nat}
    (h : next? slots cursor = none) (i : Fin n) : slots[i].state.isActionable = false := by
  have hnot := List.find?_eq_none.1 h i (mem_turns cursor i)
  simpa using hnot

/-- A turn that fails either has its request refused or finds its slot stuck. -/
theorem takeTurn_error {run run' : Run σ n m} {e : SchedulerError}
    (h : takeTurn run = .error e run') :
    (∃ event, FailedTurn run event e run') ∨ ∃ i, next? run.slots run.cursor = some i ∧ Stuck run i := by
  simp only [takeTurn, get_bind] at h
  cases hn : next? run.slots run.cursor with
  | none =>
    simp only [hn] at h
    obtain hask | ⟨u, run₁, -, h⟩ := bind_error_iff.1 h
    · obtain ⟨d, c, hc, rfl, rfl⟩ := ask_error hask
      simp only [Client.idle, modify_error_iff] at hc
    · simp only [modify_bind, pure_error_iff] at h
  | some i =>
    simp only [hn, modify_bind, present] at h
    suffices hi : (∃ event, FailedTurn run event e run') ∨ Stuck run i by
      exact hi.imp_right fun hs => ⟨i, rfl, hs⟩
    obtain ht | ⟨t, run₁, ht, h⟩ := bind_error_iff.1 h
    · have hnone := transactionOf_error ht
      exact .inr (.vacant hnone)
    obtain ⟨holds, rfl⟩ := transactionOf_ok ht
    simp only [get_bind] at h
    have hact : run.slots[i].state.isActionable = true := next?_isActionable hn
    cases hs : run.slots[i].state <;> simp only [hs] at h
    case newWrite => exact presentOpen_error ⟨hn, hs, holds⟩ h
    case write => exact presentWrite_error ⟨hn, hs, holds⟩ h
    case read => exact presentRead_error ⟨hn, hs, holds⟩ h
    all_goals
      rw [hs] at hact
      cases hact

end Run

end NeuralEngine
