import NeuralEngine.Proofs.Scheduler.Completion
import NeuralEngine.Proofs.Scheduler.Uses
import NeuralEngine.Proofs.Simulator.Counted

/-!
# The client and the simulator agree

A client and the simulator that it uses count on their own what does not go smoothly. `InStep` says that they
agree, and that the history and the clock of the simulator are what the client has asked of it. A single
attempt does no more than to present its request and to count the answer (`answered`), which the simulator
has counted likewise, so every attempt keeps the two in step (`couples_inStep`), and with the attempts every
use does.
-/

namespace NeuralEngine

namespace Client

variable {σ α : Type} [Channel σ]

/-! ## Single attempts -/

/-- The client after the answer to a request is counted. -/
def counting (request : Request) (code : ExitCode) (c : Client σ) : Client σ :=
  { c with statistics := c.statistics.addAnswer request code }

/-- The client after a request whose answer it counts. -/
def answered (request : Request) (c : Client σ) : Client σ :=
  let answer := Channel.issue request c.channel
  counting request answer.1.exitCode { c with channel := answer.2 }

/-- An attempt presents its request and goes by the code of the answer. -/
theorem after_issue_bind {request : Request} {f : Response → ClientM σ α}
    (rest : ∀ answer c, after (f answer) c = counting request answer.exitCode c) (c : Client σ) :
    after (issue request >>= f) c = c.answered request :=
  rest _ _

omit [Channel σ] in
theorem after_accept {request : Request}
    (op : request.op? = some .newRequest ∨ request.op? = some .writeRegister) (answer : Response)
    (c : Client σ) : after (accept answer) c = counting request answer.exitCode c := by
  unfold accept counting Statistics.addAnswer
  obtain op | op := op <;> rw [op] <;> cases answer.exitCode <;> rfl

theorem after_issueOpen (nnid : Nnid) (mode : LearningMode) (trainOutputs : BitVec 16) (c : Client σ) :
    after (issueOpen nnid mode trainOutputs) c = c.answered (.newTransaction nnid mode trainOutputs) :=
  after_issue_bind (fun answer => after_accept (.inl rfl) answer) c

theorem after_writeRegister (tid : Tid) (register : Register) (value : RegisterValue) (c : Client σ) :
    after (writeRegister tid register value) c = c.answered (.setRegister tid register value) := by
  refine after_issue_bind (fun answer c => ?_) c
  rw [← after_accept (.inr rfl) answer c]
  unfold accept
  cases answer.exitCode <;> rfl

theorem after_tryWrite (tid : Tid) (value : Element) (last : Bool) (c : Client σ) :
    after (tryWrite tid value last) c = c.answered (.writeData tid value last) := by
  refine after_issue_bind (fun answer c => ?_) c
  unfold counting Statistics.addAnswer
  rw [Request.op?_writeData]
  cases answer.exitCode <;> cases last <;> rfl

theorem after_tryRead (tid : Tid) (c : Client σ) : after (tryRead tid) c = c.answered (.readData tid) := by
  refine after_issue_bind (fun answer c => ?_) c
  unfold counting Statistics.addAnswer
  rw [Request.op?_readData]
  cases answer.exitCode with
  | ok => rcases answer.kind? with - | (- | - | -) <;> rfl
  | _ => rfl

end Client

/-! ## The invariant -/

namespace Client

open Simulator

/-- The two sides have counted the same, the history has the requests that were presented, and every step was
one of a request or one on its own. -/
structure Agrees (c : Client (Traced Simulator)) : Prop where
  statistics : c.statistics = c.channel.channel.counts
  history : c.channel.channel.history = c.channel.trace.filterMap Access.request?
  cycle : c.channel.channel.cycle = c.channel.channel.issued.length + c.channel.trace.countP Access.isStep

/-- The client and the simulator agree, unless the simulator has run out of identifiers. -/
structure InStep (c : Client (Traced Simulator)) : Prop where
  narrow : c.channel.channel.Narrow
  /-- No response that is held back is a refusal. -/
  deferred : ∀ d ∈ c.channel.channel.deferred, d.response.exitCode = .ok
  agrees : c.channel.channel.fault ≠ some .identifiersExhausted → c.Agrees

variable {α : Type} {c : Client (Traced Simulator)}

/-- The simulator has entered what it was asked into its history, and its clock goes on by one for a request
and for a step. -/
theorem Agrees.next (h : c.Agrees) (a : Access) {s : Simulator} {t : Statistics} (counts : t = s.counts)
    (issued : s.issued = a.request?.toList ++ c.channel.channel.issued)
    (cycle : s.cycle = c.channel.channel.cycle + (a.request?.toList.length + [a].countP Access.isStep)) :
    Agrees { c with channel := ⟨s, c.channel.trace ++ [a]⟩, statistics := t } where
  statistics := counts
  history := by
    change s.issued.reverse = (c.channel.trace ++ [a]).filterMap Access.request?
    rw [issued, List.filterMap_append, ← h.history, List.reverse_append]
    change _ = c.channel.channel.issued.reverse ++ _
    congr 1
    cases hr : a.request? <;> simp [hr]
  cycle := by
    change s.cycle = s.issued.length + (c.channel.trace ++ [a]).countP Access.isStep
    rw [cycle, issued, h.cycle, List.countP_append, List.length_append]
    omega

theorem InStep.answered (h : c.InStep) (request : Request) : (c.answered request).InStep := by
  obtain ⟨answer, s, hissue⟩ : ∃ answer s, c.channel.channel.issue request = (answer, s) := ⟨_, _, rfl⟩
  have hanswered : c.answered request =
      { c with
        channel := ⟨s, c.channel.trace ++ [.issue request answer]⟩
        statistics := c.statistics.addAnswer request answer.exitCode } := by
    change counting request (c.channel.channel.issue request).1.exitCode { c with
      channel := Traced.mk (c.channel.channel.issue request).2
        (c.channel.trace ++ [.issue request (c.channel.channel.issue request).1]) } = _
    rw [hissue]
    rfl
  have hnarrow : s.Narrow := h.narrow.evolves (.issue hissue)
  rw [hanswered]
  obtain rfl | hcounted := counted_of_issue h.narrow hissue
  · exact ⟨hnarrow, h.deferred, fun hfault => absurd rfl hfault⟩
  refine ⟨hnarrow, fun d hd => (hcounted.deferred d hd).elim (h.deferred d) id, fun hfault => ?_⟩
  have hagrees := h.agrees (hcounted.fault ▸ hfault)
  refine hagrees.next _ ?_ hcounted.issued hcounted.cycle
  rw [hcounted.counts, hagrees.statistics]

theorem InStep.idle (h : c.InStep) : (after idle c).InStep :=
  ⟨h.narrow, h.deferred, fun hfault => (h.agrees hfault).next .step (h.agrees hfault).statistics rfl rfl⟩

theorem InStep.capability (h : c.InStep) : (after capability c).InStep :=
  ⟨h.narrow, h.deferred, fun hfault =>
    (h.agrees hfault).next (.capability _) (h.agrees hfault).statistics rfl rfl⟩

theorem InStep.isDone (h : c.InStep) (tid : Tid) : (after (isDone tid) c).InStep :=
  ⟨h.narrow, h.deferred, fun hfault =>
    (h.agrees hfault).next (.isDone tid _) (h.agrees hfault).statistics rfl rfl⟩

/-- A response that is taken counts on both sides, and is no refusal. -/
theorem InStep.poll (h : c.InStep) {answer : Option Response} {d : Client (Traced Simulator)}
    (hp : Client.poll c = .ok answer d) : d.InStep ∧ ∀ r, answer = some r → r.exitCode = .ok := by
  obtain ⟨found, s, hpoll⟩ : ∃ found s, c.channel.channel.poll = (found, s) := ⟨_, _, rfl⟩
  have hresult : Client.poll c = .ok found
      { c with
        channel := ⟨s, c.channel.trace ++ [.poll found]⟩
        statistics := c.statistics.addPoll found } := by
    change EStateM.Result.ok c.channel.channel.poll.1 { c with
      channel := Traced.mk c.channel.channel.poll.2 (c.channel.trace ++ [Access.poll c.channel.channel.poll.1])
      statistics := c.statistics.addPoll c.channel.channel.poll.1 } = _
    rw [hpoll]
  rw [hresult] at hp
  obtain ⟨rfl, rfl⟩ := EStateM.Result.ok.injEq .. ▸ hp
  have hnarrow : s.Narrow := h.narrow.evolves (.poll hpoll)
  obtain ⟨rfl, rfl⟩ | ⟨x, before, after, rfl, hsplit, -, -, rfl⟩ := poll_cases hpoll
  · refine ⟨⟨hnarrow, h.deferred, fun hfault => ?_⟩, nofun⟩
    exact (h.agrees hfault).next (.poll none) (h.agrees hfault).statistics rfl rfl
  · have hdeferred := h.deferred
    rw [hsplit] at hdeferred
    refine ⟨⟨hnarrow, fun d hd => hdeferred d ?_, fun hfault => ?_⟩, ?_⟩
    · obtain hd | hd := List.mem_append.1 hd
      · exact List.mem_append_left _ hd
      · exact List.mem_append_right _ (List.mem_cons_of_mem _ hd)
    · have hagrees := h.agrees hfault
      refine hagrees.next (.poll _) ?_ rfl rfl
      rw [hagrees.statistics]
      rfl
    · rintro r ⟨⟩
      exact hdeferred x (List.mem_append_right _ List.mem_cons_self)

/-- What keeps the two in step goes along with itself. -/
theorem beside_of_keeps {x : ClientM (Traced Simulator) α} (keeps : ∀ c, c.InStep → (after x c).InStep) :
    Beside (fun c d => c = d ∧ c.InStep) (fun _ => True) x x := by
  rintro c d ⟨rfl, h⟩
  have hafter := keeps c h
  unfold after at hafter
  generalize x c = r at hafter ⊢
  cases r with
  | ok a d => exact .ok ⟨rfl, hafter⟩
  | error e d => exact .error trivial ⟨rfl, hafter⟩

/-- Every attempt keeps the client and the simulator in step. -/
theorem couples_inStep : CouplesDraining (fun c d => c = d ∧ c.InStep) fun _ => True where
  retryLimit h := h.1 ▸ rfl
  backlog h := h.1 ▸ rfl
  unexpectedResponse := trivial
  retryLimitExceeded := trivial
  idle := beside_of_keeps fun _ h => h.idle
  capability := beside_of_keeps fun _ h => h.capability
  isDone tid := beside_of_keeps fun _ h => h.isDone tid
  poll := beside_of_keeps fun _ h => (h.poll rfl).1
  await {x y} hxy := by
    rintro c d ⟨rfl, h⟩
    obtain ⟨answer, d, hpoll⟩ : ∃ answer d, Client.poll c = .ok answer d := ⟨_, _, rfl⟩
    obtain ⟨hd, hcodes⟩ := h.poll hpoll
    simp only [Bind.bind, EStateM.bind, hpoll]
    cases answer with
    | none => exact hxy d d ⟨rfl, hd⟩
    | some response =>
      -- no response that is handed out is a refusal, so none is counted
      simp only [accept, hcodes response rfl]
      exact .ok ⟨rfl, hd⟩
  issueOpen _ _ _ := beside_of_keeps fun c h => by
    rw [after_issueOpen]
    exact h.answered _
  writeRegister _ _ _ := beside_of_keeps fun c h => by
    rw [after_writeRegister]
    exact h.answered _
  tryWrite _ _ _ := beside_of_keeps fun c h => by
    rw [after_tryWrite]
    exact h.answered _
  tryRead _ := beside_of_keeps fun c h => by
    rw [after_tryRead]
    exact h.answered _

/-- A client and a simulator that was not used before are in step. -/
theorem inStep_traced {c : Client Simulator} (unused : c.channel.Unused) (fresh : c.statistics = {})
    (narrow : c.channel.Narrow) : c.traced.InStep where
  narrow := narrow
  deferred d hd := by
    change d ∈ c.channel.deferred at hd
    rw [unused.deferred] at hd
    exact absurd hd List.not_mem_nil
  agrees _ := by
    constructor
    case statistics =>
      change c.statistics = c.channel.counts
      unfold counts
      rw [fresh, unused.statistics, unused.delivered]
      rfl
    case history =>
      change c.channel.issued.reverse = []
      rw [unused.issued]
      rfl
    case cycle =>
      change c.channel.cycle = c.channel.issued.length + 0
      rw [unused.cycle, unused.issued]
      rfl

/-- Whatever a client does with a simulator that only it uses, by single attempts, by calls and in the runs of
schedulers, both have counted the same; the history of the simulator has the requests that the client
presented, in order, and each step of the simulator was one of a request or one that the client let pass. -/
theorem client_agrees_with_simulator (c : Client Simulator) (uses : List Use) (unused : c.channel.Unused)
    (fresh : c.statistics = {}) (narrow : c.channel.Narrow)
    (answers : (c.useAll uses).channel.fault ≠ some .identifiersExhausted) :
    (c.useAll uses).statistics.busyRetries = (c.useAll uses).channel.statistics.busyResponses ∧
      (c.useAll uses).statistics.notDonePolls = (c.useAll uses).channel.statistics.notDoneResponses ∧
      (c.useAll uses).statistics.fatalCodes = (c.useAll uses).channel.statistics.fatalResponses ∧
      (c.useAll uses).statistics.deferredResponses = (c.useAll uses).channel.deliveries.length ∧
      (c.useAll uses).channel.history = (c.trace uses).filterMap Access.request? ∧
      (c.useAll uses).channel.cycle =
        (c.useAll uses).channel.history.length + (c.trace uses).countP Access.isStep := by
  have hinStep : (c.traced.useAll uses).InStep :=
    (couples_inStep.useAll (c := c.traced) (d := c.traced) ⟨rfl, inStep_traced unused fresh narrow⟩ uses).2
  rw [useAll_traced] at answers ⊢
  have hagrees := hinStep.agrees answers
  have hstatistics : (c.traced.useAll uses).untraced.statistics = (c.traced.useAll uses).channel.channel.counts :=
    hagrees.statistics
  rw [hstatistics]
  refine ⟨rfl, rfl, rfl, ?_, hagrees.history, ?_⟩
  · exact List.length_reverse.symm
  · change _ = (c.traced.useAll uses).channel.channel.issued.reverse.length + _
    rw [List.length_reverse]
    exact hagrees.cycle

/-- A sample, an open that is refused, a batch, a read that comes too early, and a batch that is abandoned. -/
def mixed : List Use :=
  [.call (.feedforward 0 [1, 2] 2), .issueOpen 7 .feedforward 0, .run Scheduler.congested.table 0 64 Scheduler.sums,
    .issueOpen 0 .feedforward 0, .tryRead 4, .run Scheduler.congested.table 0 3 Scheduler.sums]

/-- Ten writes are put off, 15 reads come too early, two requests are refused and twelve responses are deferred;
of 94 steps, 47 are those of requests. -/
theorem congested_client_agrees :
    Scheduler.congested.client.channel.Unused ∧ Scheduler.congested.client.channel.Narrow ∧
      (Scheduler.congested.client.useAll mixed).channel.fault = none ∧
      (Scheduler.congested.client.useAll mixed).statistics = ⟨10, 15, 2, 12⟩ ∧
      (Scheduler.congested.client.useAll mixed).channel.statistics.busyResponses = 10 ∧
      (Scheduler.congested.client.useAll mixed).channel.statistics.notDoneResponses = 15 ∧
      (Scheduler.congested.client.useAll mixed).channel.statistics.fatalResponses = 2 ∧
      (Scheduler.congested.client.useAll mixed).channel.deliveries.length = 12 ∧
      ((Scheduler.congested.client.trace mixed).filterMap Access.request?).length = 47 ∧
      (Scheduler.congested.client.trace mixed).countP Access.isStep = 47 := by
  have hunused : Scheduler.congested.client.channel.Unused := ⟨rfl, rfl, rfl, rfl, rfl, rfl⟩
  have hnarrow : Scheduler.congested.client.channel.Narrow := by
    unfold Narrow
    decide
  have hends : (Scheduler.congested.client.useAll mixed).channel.fault = none ∧
      (Scheduler.congested.client.useAll mixed).statistics = ⟨10, 15, 2, 12⟩ ∧
      (Scheduler.congested.client.useAll mixed).channel.history.length = 47 ∧
      (Scheduler.congested.client.useAll mixed).channel.cycle = 94 := by
    decide +kernel
  obtain ⟨hfault, hstatistics, hlength, hcycle⟩ := hends
  have hagrees := client_agrees_with_simulator Scheduler.congested.client mixed hunused rfl hnarrow (by simp [hfault])
  rw [hstatistics, hcycle] at hagrees
  obtain ⟨hbusy, hearly, hfatal, hdeferred, hhistory, hsteps⟩ := hagrees
  rw [hhistory] at hlength hsteps
  exact ⟨hunused, hnarrow, hfault, hstatistics, hbusy.symm, hearly.symm, hfatal.symm, hdeferred.symm, hlength,
    by omega⟩

end Client

end NeuralEngine
