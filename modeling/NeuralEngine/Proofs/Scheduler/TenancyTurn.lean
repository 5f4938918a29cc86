import NeuralEngine.Proofs.Scheduler.Tenancy

/-!
# Turns among other transactions

What the simulator answers to the request of the slot whose turn it is, when the run and the simulator match,
and what each answer leaves of the match. The requests about a transaction of the run are answered as if it
were the only one. An open may be refused, since other transactions take up rows; one that is accepted is
given an identifier that nothing else is about (`opened`).
-/

namespace NeuralEngine

open Simulator

/-- The simulator is bound to an address space that fits its field of a response. -/
def Simulator.Addressed (s : Simulator) : Prop :=
  ∃ asid, s.asid = some asid ∧ asid.toNat < 2 ^ 10

theorem Simulator.Runs.addressed {s : Simulator} {x : Transaction} (h : s.Runs x) : s.Addressed := by
  obtain ⟨asid, _, _, hasid, hnarrow, -⟩ := h
  exact ⟨asid, hasid, hnarrow⟩

namespace Run

variable {n m : Nat} {inbox : List Response} {run run' : Run Simulator n m} {i : Fin n} {t : Fin m} {x : Tid}

/-- The answer that a client is given is the one that the simulator computes. -/
theorem answer_of_asks {s' : Simulator} {request : Request} {answer answer' : Response}
    {given : List Response} {c : Client Simulator} (h : Answers run.client.channel s' request answer given x)
    (asks : run.client.Asks request answer' c) : answer = answer' ∧ s' = c.channel := by
  have heq : (answer, s') = (answer', c.channel) := h.issue_eq.symm.trans asks
  cases heq
  exact ⟨rfl, rfl⟩

/-- Nothing carries an identifier that no deferred response is about. -/
theorem words_eq_nil (unsent : ∀ d ∈ run.client.channel.deferred, d.response.tid ≠ x) :
    words x (flight [] run) = [] := by
  rw [words, List.map_eq_nil_iff]
  apply along_eq_nil
  intro r hr hlane
  obtain ⟨d, hd, rfl⟩ := List.mem_map.1 hr
  exact unsent d hd (Response.tid_of_lane hlane)

theorem lanes_of_gives {answer : Response} {given : List Response}
    (gives : Gives run.client.channel run'.client.channel answer given) (lane : Option Tid) :
    along lane (flight answer.prompt.toList run') = along lane (flight [] run) ++ along lane given := by
  rw [← along_append]
  exact gives.lanes lane

theorem lanes_of_status {answer : Response} (status : answer.kind? = some .status)
    (gives : Gives run.client.channel run'.client.channel answer []) (lane : Option Tid) :
    along lane (flight [] run') = along lane (flight [] run) := by
  have hlanes := lanes_of_gives gives lane
  unfold Response.prompt at hlanes
  rwa [if_pos status, Option.toList_none, along_nil, List.append_nil] at hlanes

/-! ## What leaves the transactions of a run as they are -/

namespace Undisturbed

theorem count (ordered : run.client.channel.Ordered) (nodup : run.client.channel.tids.Nodup) :
    Undisturbed inbox run inbox run.countCycle where
  alike := .refl _
  ordered := ordered
  nodup := nodup
  kept _ := .of_eq rfl
  lanes _ := rfl
  slots _ := .refl _
  transactions := rfl
  nextPending := rfl
  awaiting := rfl

/-- The engine takes a bare step. -/
theorem idle (ordered : run.client.channel.Ordered) (nodup : run.client.channel.tids.Nodup)
    (channel : run'.client.channel = run.client.channel.tick) (slots : run'.slots = run.slots)
    (transactions : run'.transactions = run.transactions)
    (nextPending : run'.nextPending = run.nextPending) (awaiting : run'.awaitingTid = run.awaitingTid) :
    Undisturbed [] run [] run' where
  alike := by
    rw [channel]
    exact ⟨rfl, rfl, rfl, rfl, rfl⟩
  ordered := by
    rw [channel]
    exact ordered.tick
  nodup := by
    rw [channel, tids_tick]
    exact nodup
  kept x := by
    rw [channel]
    exact run.client.channel.kept_tick x
  lanes lane := by
    unfold flight
    rw [channel]
    rfl
  slots i := by
    rw [slots]
    exact .refl _
  transactions := transactions
  nextPending := nextPending
  awaiting := awaiting

/-- A request leaves no trace that the engine could tell: a register is set, or the request is put
off. -/
theorem request {request : Request} {answer : Response}
    (answers : Answers run.client.channel run'.client.channel request answer [] x)
    (kept : Kept run.client.channel run'.client.channel x) (status : answer.kind? = some .status)
    (slots : ∀ j : Fin n, run.slots[j].Matches run'.slots[j])
    (transactions : run'.transactions = run.transactions)
    (nextPending : run'.nextPending = run.nextPending) (awaiting : run'.awaitingTid = run.awaitingTid) :
    Undisturbed [] run [] run' where
  alike := answers.gives.alike
  ordered := answers.gives.ordered
  nodup := answers.nodup
  kept y := by
    by_cases hyx : y = x
    · rw [hyx]
      exact kept
    · exact answers.others y hyx
  lanes := lanes_of_status status answers.gives
  slots := slots
  transactions := transactions
  nextPending := nextPending
  awaiting := awaiting

/-- A poll moves a response from the engine to the inbox, and keeps the order of each lane. -/
theorem poll (ordered : run.client.channel.Ordered) (nodup : run.client.channel.tids.Nodup)
    (inTime : run.client.channel.InTime) {answer : Option Response} {c : Client Simulator}
    (poll : run.client.channel.poll = (answer, c.channel)) :
    Undisturbed inbox run (inbox ++ answer.toList) (run.takeIn answer c) := by
  obtain ⟨halike, hrows⟩ := poll_same poll
  constructor
  case alike => exact halike
  case ordered => exact ordered.poll poll
  case nodup =>
    have hnodup : (Rows.tids run.client.channel.rows).Nodup := nodup
    rw [← hrows] at hnodup
    exact hnodup
  case kept => exact fun x => .of_eq (congrArg (Rows.find? x) hrows)
  case lanes =>
    intro lane
    show along lane ((inbox ++ answer.toList) ++ c.channel.undelivered) =
      along lane (inbox ++ run.client.channel.undelivered)
    rw [List.append_assoc, along_append, along_poll ordered inTime poll, along_append]
  case slots => exact fun i => .refl _
  all_goals rfl

/-- The engine answers a question without a change. -/
theorem learn (ordered : run.client.channel.Ordered) (nodup : run.client.channel.tids.Nodup)
    (state : run.slots[i].state = .executing) {tid : Tid} {done : Bool} {c : Client Simulator}
    (ask : Channel.isDone tid run.client.channel = (done, c.channel)) :
    Undisturbed inbox run inbox (run.learn i done c) := by
  have hsame : run.client.channel = c.channel := congrArg Prod.snd ask
  have hchannel : (run.learn i done c).client.channel = run.client.channel := by
    rw [client_learn, hsame]
  constructor
  case alike =>
    rw [hchannel]
    exact .refl _
  case ordered =>
    rw [hchannel]
    exact ordered
  case nodup =>
    rw [hchannel]
    exact nodup
  case kept =>
    intro x
    rw [hchannel]
    exact .of_eq rfl
  case lanes =>
    intro lane
    unfold flight
    rw [hchannel]
  case slots =>
    cases done with
    | false => exact fun j => .refl _
    | true =>
      -- a slot occupies its row while it executes and while it reads
      have hentry : SlotState.read.holdsEntry = run.slots[i].state.holdsEntry := by
        rw [state]
        rfl
      exact matches_modifySlot run ⟨rfl, rfl, hentry, rfl, rfl⟩
  all_goals cases done <;> rfl

end Undisturbed

variable {engine : Simulator} {work : Vector Transaction m} {name : Fin n → Option Tid}

/-- What a turn that opens nothing comes to: the transactions are left as they are, or an element or a read of
one of them is accepted. -/
inductive Proceeds (work : Vector Transaction m) (run : Run Simulator n m) :
    Option Response → Run Simulator n m → Prop
  | undisturbed {run' : Run Simulator n m} : Undisturbed [] run [] run' → Proceeds work run none run'
  | accepted {i : Fin n} {t : Fin m} {x : Tid} {value : Element} {last : Bool} {c : Client Simulator}
      (holds : run.slots[i].transaction = some t) (state : run.slots[i].state = .write)
      (named : run.slots[i].tid = some x)
      (answers : Answers run.client.channel c.channel (.writeData x value last) (.status .ok) [] x)
      (serves : c.channel.Serves work[t] x (run.slots[i].cursor + 1) run.slots[i].readsIssued) :
      Proceeds work run none ((run.passTurn i c).countElement i last)
  | read {i : Fin n} {t : Fin m} {x : Tid} {answer r : Response} {c : Client Simulator}
      (holds : run.slots[i].transaction = some t) (state : run.slots[i].state = .read)
      (named : run.slots[i].tid = some x)
      (answers : Answers run.client.channel c.channel (.readData x) answer [r] x)
      (kind : r.kind? = some .data) (tid_eq : r.tid = x)
      (value : work[t].expected[run.slots[i].readsIssued]? = some r.element)
      (serves : c.channel.Serves work[t] x run.slots[i].cursor (run.slots[i].readsIssued + 1)) :
      Proceeds work run answer.prompt ((run.passTurn i c).countRead i t)

namespace Tenancy

/-! ## What the simulator answers -/

section Answers

variable (h : Tenancy engine work name [] run) (pool : Pool work run)

include h pool

theorem answers_register (ready : ∀ t : Fin m, work[t].Ready) (turn : run.HasTurn i t .write)
    (tid_eq : run.slots[i].tid = some x) (register : Register) (value : RegisterValue) :
    ∃ s', Answers run.client.channel s' (.setRegister x register value) (.status .ok) [] x ∧
      Kept run.client.channel s' x := by
  obtain ⟨tid, written, cursor, hs, -, hc, -⟩ := pool.writing turn
  have hserves := h.serves turn.holds (h.told tid_eq)
  rw [Transaction.stream_of_reset (pool.same t)] at hc
  rw [hs] at hserves
  exact answers_setRegister h.ordered h.nodup hserves (ready t).outputs_pos hc register value

theorem answers_element (ready : ∀ t : Fin m, work[t].Ready) (turn : run.HasTurn i t .write)
    (tid_eq : run.slots[i].tid = some x) {value : Element} {last : Bool}
    (entry : run.transactions[t].stream[run.slots[i].cursor]? = some value)
    (last_eq : last = (run.slots[i].cursor + 1 == run.transactions[t].stream.size)) :
    ∃ answer s', Answers run.client.channel s' (.writeData x value last) answer [] x ∧
      (answer = .status .ok ∧
          s'.Serves work[t] x (run.slots[i].cursor + 1) run.slots[i].readsIssued ∨
        answer = .status .queueBusy ∧ Kept run.client.channel s' x) := by
  obtain ⟨tid, written, cursor, hs, -, -, -⟩ := pool.writing turn
  have hserves := h.serves turn.holds (h.told tid_eq)
  have hpos := (ready t).outputs_pos
  have hreads : run.slots[i].readsIssued < work[t].outputCount := by
    rw [hs]
    exact hpos
  rw [Transaction.stream_of_reset (pool.same t)] at entry last_eq
  exact answers_writeData h.ordered h.nodup hserves hreads entry last_eq

theorem answers_read (addressed : engine.Addressed) (turn : run.HasTurn i t .read)
    (tid_eq : run.slots[i].tid = some x) :
    ∃ answer s' given, Answers run.client.channel s' (.readData x) answer given x ∧
      (answer = .status .notDone ∧ given = [] ∧ Kept run.client.channel s' x ∨
        answer.exitCode = .ok ∧ (answer.kind? = some .data ∨ answer.kind? = some .status) ∧
          s'.Serves work[t] x run.slots[i].cursor (run.slots[i].readsIssued + 1) ∧
          ∃ r : Response, given = [r] ∧ r.kind? = some .data ∧ r.tid = x ∧
            work[t].expected[run.slots[i].readsIssued]? = some r.element) := by
  obtain ⟨asid, hasid, hnarrow⟩ := addressed
  obtain ⟨tid, reads, hs, hr⟩ := pool.reading turn
  have hserves := h.serves turn.holds (h.told tid_eq)
  have hreads : run.slots[i].readsIssued < work[t].outputCount := by
    rw [hs, ← Transaction.outputCount_of_reset (pool.same t)]
    exact hr
  exact answers_readData h.ordered h.nodup (h.alike.asid.trans hasid) hnarrow hserves hreads

/-- An open that is answered with `ok` was accepted: an identifier that nothing is about is on its way, and the
simulator holds an entry for the transaction. -/
theorem answers_opened (ready : work[t].Ready) (declares : engine.Declares work[t]) {answer : Response}
    {c : Client Simulator} (asks : run.client.Asks run.transactions[t].opening answer c)
    (ok : answer.exitCode = .ok) :
    ∃ (o : Opening) (r : Response) (next : Tid),
      Answers run.client.channel c.channel work[t].opening answer [r] r.tid ∧ r.kind? = some .tid ∧
        run.client.channel.find? r.tid = none ∧ (∀ d ∈ run.client.channel.deferred, d.response.tid ≠ r.tid) ∧
        c.channel.find? r.tid = some (o.entry r.tid) ∧ o.nnid = work[t].nnid ∧
        c.channel.Serves work[t] r.tid 0 0 ∧
        (run.client.channel.record work[t].opening).allocate? = some (r.tid, next) ∧ engine.Addressed := by
  rw [pool.opening_eq] at asks
  obtain ⟨o, r, next, hcheck, halloc, hassigned, hanswers, hfree, hunsent, hfind⟩ :=
    opened_of_issue ⟨h.ordered, h.nodup⟩ rfl asks ok
  have hdeclares : (run.client.channel.record work[t].opening).Declares work[t] :=
    declares.congr h.alike.table h.alike.asid
  obtain ⟨hasid, hmode, htrain, hcount⟩ := checkOpen_opening_ok ready.few hdeclares hcheck
  have hnnid : o.nnid = work[t].nnid := (nnid_of_checkOpen hcheck).trans (Request.nnid_newTransaction ..)
  exact ⟨o, r, next, hanswers, (Response.of_tidAssigned hassigned).2.1, hfree, hunsent, hfind, hnnid,
    serves_entry ready hmode htrain hcount hfind, halloc,
    o.asid, h.alike.asid.symm.trans hasid, Response.narrow_of_tidAssigned hassigned⟩

/-- The simulator tolerates every request that a slot presents, unless it is an open. -/
theorem tolerated (ready : ∀ t : Fin m, work[t].Ready)
    (addressed : ∀ (i : Fin n) (x : Tid), name i = some x → engine.Addressed) {request : Request}
    {answer : Response} {c : Client Simulator} (presents : run.Presents i t request)
    (asks : run.client.Asks request answer c) (opens : request.op? ≠ some .newRequest) :
    request.tolerates answer.exitCode = true := by
  cases presents with
  | opening => exact absurd rfl opens
  | register turn tid_eq =>
    obtain ⟨s', hanswers, -⟩ := h.answers_register pool ready turn tid_eq _ _
    obtain ⟨rfl, -⟩ := answer_of_asks hanswers asks
    exact Request.tolerates_ok _
  | element turn tid_eq _ entry =>
    obtain ⟨answer', s', hanswers, hcases⟩ := h.answers_element pool ready turn tid_eq entry rfl
    obtain ⟨rfl, -⟩ := answer_of_asks hanswers asks
    obtain ⟨rfl, -⟩ | ⟨rfl, -⟩ := hcases
    · exact Request.tolerates_ok _
    · exact Request.tolerates_writeData_busy ..
  | read turn tid_eq =>
    obtain ⟨answer', s', given, hanswers, hcases⟩ :=
      h.answers_read pool (addressed _ _ (h.told tid_eq)) turn tid_eq
    obtain ⟨rfl, -⟩ := answer_of_asks hanswers asks
    obtain ⟨rfl, -⟩ | ⟨hcode, -⟩ := hcases
    · exact Request.tolerates_readData_notDone _
    · rw [hcode, Request.tolerates_ok]

/-- A turn that opens nothing is answered as if the transaction that it is about were the only one. -/
theorem proceeds (ready : ∀ t : Fin m, work[t].Ready)
    (addressed : ∀ (i : Fin n) (x : Tid), name i = some x → engine.Addressed) {event : Event m}
    {prompt : Option Response} (turn : Turn run event prompt run') (line : run'.awaitingTid = run.awaitingTid) :
    Proceeds work run prompt run' := by
  cases turn with
  | idle _ step =>
    refine .undisturbed ?_
    apply Undisturbed.idle h.ordered h.nodup
    case channel => exact step.symm
    all_goals rfl
  | @opened i =>
    have hlonger : run.awaitingTid ++ [i] ≠ run.awaitingTid := by simp
    exact absurd line hlonger
  | @registered i t c answer tid register value turn tid_eq _ asks =>
    obtain ⟨s', hanswers, hkept⟩ := h.answers_register pool ready turn tid_eq register value
    obtain ⟨rfl, rfl⟩ := answer_of_asks hanswers asks
    refine .undisturbed ?_
    apply Undisturbed.request hanswers hkept
    case slots =>
      apply matches_modifySlot (run.passTurn i c)
      constructor <;> rfl
    all_goals rfl
  | accepted turn tid_eq _ entry last_eq asks ok =>
    obtain ⟨answer', s', hanswers, hcases⟩ := h.answers_element pool ready turn tid_eq entry last_eq
    obtain ⟨rfl, rfl⟩ := answer_of_asks hanswers asks
    obtain ⟨rfl, hserves⟩ | ⟨rfl, -⟩ := hcases
    · exact .accepted turn.holds turn.state tid_eq hanswers hserves
    · cases ok
  | busy turn tid_eq _ entry last_eq asks code =>
    obtain ⟨answer', s', hanswers, hcases⟩ := h.answers_element pool ready turn tid_eq entry last_eq
    obtain ⟨rfl, rfl⟩ := answer_of_asks hanswers asks
    obtain ⟨rfl, -⟩ | ⟨rfl, hkept⟩ := hcases
    · cases code
    · refine .undisturbed ?_
      apply Undisturbed.request hanswers hkept
      case slots => exact fun j => .refl _
      all_goals rfl
  | read turn tid_eq asks ok =>
    obtain ⟨answer', s', given, hanswers, hcases⟩ :=
      h.answers_read pool (addressed _ _ (h.told tid_eq)) turn tid_eq
    obtain ⟨rfl, rfl⟩ := answer_of_asks hanswers asks
    obtain ⟨rfl, -⟩ | ⟨-, -, hserves, r, rfl, hkind, htid, hvalue⟩ := hcases
    · cases ok
    · exact .read turn.holds turn.state tid_eq hanswers hkind htid hvalue hserves
  | notDone turn tid_eq asks code =>
    obtain ⟨answer', s', given, hanswers, hcases⟩ :=
      h.answers_read pool (addressed _ _ (h.told tid_eq)) turn tid_eq
    obtain ⟨rfl, rfl⟩ := answer_of_asks hanswers asks
    obtain ⟨rfl, rfl, hkept⟩ | ⟨hok, -⟩ := hcases
    · refine .undisturbed ?_
      apply Undisturbed.request hanswers hkept
      case slots => exact fun j => .refl _
      all_goals rfl
    · rw [hok] at code
      cases code

end Answers

/-! ## What a request leaves -/

/-- An element is accepted. -/
theorem accepted (h : Tenancy engine work name [] run) {value : Element} {last : Bool}
    {c : Client Simulator} (holds : run.slots[i].transaction = some t)
    (state : run.slots[i].state = .write) (named : run.slots[i].tid = some x)
    (answers : Answers run.client.channel c.channel (.writeData x value last) (.status .ok) [] x)
    (serves : c.channel.Serves work[t] x (run.slots[i].cursor + 1) run.slots[i].readsIssued) :
    Tenancy engine work name [] ((run.passTurn i c).countElement i last) := by
  let run' := (run.passTurn i c).countElement i last
  have hlanes : ∀ lane, along lane (flight [] run') = along lane (flight [] run) :=
    lanes_of_status rfl answers.gives
  refine h.act holds named
    (fun s => { s with cursor := s.cursor + 1, state := if last then .executing else s.state }) rfl rfl
    rfl ?_ rfl rfl rfl answers.gives.alike answers.gives.ordered answers.nodup answers.others
    (fun lane _ => hlanes lane) serves ?_
  · show (if last then SlotState.executing else run.slots[i].state).holdsEntry = _
    rw [state]
    cases last <;> rfl
  · rw [words, hlanes]
    exact h.outputs holds (h.told named)

/-- A read is accepted: the next output is on its way. -/
theorem read (h : Tenancy engine work name [] run) {answer r : Response} {c : Client Simulator}
    (holds : run.slots[i].transaction = some t) (state : run.slots[i].state = .read)
    (named : run.slots[i].tid = some x)
    (answers : Answers run.client.channel c.channel (.readData x) answer [r] x)
    (kind : r.kind? = some .data) (tid_eq : r.tid = x)
    (value : work[t].expected[run.slots[i].readsIssued]? = some r.element)
    (serves : c.channel.Serves work[t] x run.slots[i].cursor (run.slots[i].readsIssued + 1)) :
    Tenancy engine work name answer.prompt.toList ((run.passTurn i c).countRead i t) := by
  let run' := (run.passTurn i c).countRead i t
  have hlane : r.lane = some x := by rw [Response.lane_data kind, tid_eq]
  have hlanes : ∀ lane, along lane (flight answer.prompt.toList run') =
      along lane (flight [] run) ++ along lane [r] := lanes_of_gives answers.gives
  refine h.act holds named (fun s =>
    { s with
      readsIssued := s.readsIssued + 1
      state := if s.readsIssued + 1 = run.transactions[t].outputCount then .readWait else s.state })
    rfl rfl rfl ?_ rfl rfl rfl answers.gives.alike answers.gives.ordered answers.nodup answers.others
    (fun lane hne => ?_) serves ?_
  · show (if run.slots[i].readsIssued + 1 = run.transactions[t].outputCount then SlotState.readWait
      else run.slots[i].state).holdsEntry = _
    rw [state]
    split <;> rfl
  · rw [hlanes, along_cons_ne [] (by rw [hlane]; exact Ne.symm hne), along_nil, List.append_nil]
  · have hwords : words x (flight answer.prompt.toList run') = words x (flight [] run) ++ [r.element] := by
      unfold words
      rw [hlanes, along_cons [] hlane, along_nil, List.map_append]
      rfl
    rw [hwords, ← List.append_assoc, h.outputs holds (h.told named), List.take_add_one, value]
    rfl

theorem proceed (h : Tenancy engine work name [] run) {prompt : Option Response}
    (proceeds : Proceeds work run prompt run') : Tenancy engine work name prompt.toList run' := by
  cases proceeds with
  | undisturbed quiet => exact h.keep quiet
  | accepted holds state named answers serves => exact h.accepted holds state named answers serves
  | read holds state named answers kind tid_eq value serves =>
    exact h.read holds state named answers kind tid_eq value serves

/-- A transaction is opened: its identifier, which no other slot has, is on its way. -/
theorem opened (h : Tenancy engine work name [] run) (pool : Pool work run)
    (ready : ∀ t : Fin m, work[t].Ready) {answer r : Response} {c : Client Simulator}
    (turn : run.HasTurn i t .newWrite)
    (answers : Answers run.client.channel c.channel work[t].opening answer [r] r.tid)
    (kind : r.kind? = some .tid) (free : run.client.channel.find? r.tid = none)
    (unsent : ∀ d ∈ run.client.channel.deferred, d.response.tid ≠ r.tid)
    (serves : c.channel.Serves work[t] r.tid 0 0) :
    Tenancy engine work (Function.update name i (some r.tid)) answer.prompt.toList
      ((run.passTurn i c).awaitTid i) := by
  obtain ⟨u, hs⟩ := (pool.stage i).of_newWrite turn.state
  obtain rfl : u = t := by
    have hu := turn.holds
    rw [hs] at hu
    exact Option.some.inj hu
  let run' := (run.passTurn i c).awaitTid i
  have hfresh := h.fresh pool free unsent
  have hlane : r.lane = none := Response.lane_tid kind
  have hlanes : ∀ lane, along lane (flight answer.prompt.toList run') =
      along lane (flight [] run) ++ along lane [r] := lanes_of_gives answers.gives
  have hdata : ∀ y, words y (flight answer.prompt.toList run') = words y (flight [] run) := by
    intro y
    unfold words
    rw [hlanes, along_cons_ne [] (by rw [hlane]; simp), along_nil, List.append_nil]
  have hslot : ∀ j : Fin n, run'.slots[j] =
      if i = j then run.slots[i].transition .newWriteWait else run.slots[j] := fun j =>
    slots_modifySlot ..
  have hother : ∀ {j : Fin n}, i ≠ j → run'.slots[j] = run.slots[j] := fun {j} hij => by
    rw [hslot, if_neg hij]
  have hname : ∀ {j : Fin n} {y : Tid}, Function.update name i (some r.tid) j = some y →
      i = j ∧ y = r.tid ∨ i ≠ j ∧ name j = some y := by
    intro j y hy
    exact (update_eq_some hy).imp_left fun ⟨hij, hr⟩ => ⟨hij, (Option.some.inj hr).symm⟩
  have hself : run'.slots[i] = (Slot.holding u).transition .newWriteWait := by
    rw [hslot, if_pos rfl, hs]
  have hwait : i ∉ run.awaitingTid := by
    rw [pool.mem_awaiting, turn.state]
    simp
  constructor
  case alike => exact h.alike.trans answers.gives.alike
  case ordered => exact answers.gives.ordered
  case nodup => exact answers.nodup
  case name_inj =>
    intro j k y hj hk
    obtain ⟨rfl, rfl⟩ | ⟨-, hj⟩ := hname hj
    · obtain ⟨rfl, -⟩ | ⟨-, hk⟩ := hname hk
      · rfl
      · exact absurd hk (hfresh k)
    · obtain ⟨rfl, rfl⟩ | ⟨-, hk⟩ := hname hk
      · exact absurd hj (hfresh j)
      · exact h.name_inj hj hk
  case named_iff =>
    intro j
    by_cases hij : i = j
    · subst hij
      rw [hself, Function.update_self]
      exact iff_of_true ⟨_, rfl⟩ rfl
    · rw [hother hij, Function.update_of_ne (Ne.symm hij)]
      exact h.named_iff j
  case told =>
    intro j y hy
    by_cases hij : i = j
    · subst hij
      rw [hself] at hy
      cases hy
    · rw [hother hij] at hy
      rw [Function.update_of_ne (Ne.symm hij)]
      exact h.told hy
  case line =>
    have hsame : run.awaitingTid.map (Function.update name i (some r.tid)) = run.awaitingTid.map name := by
      apply List.map_congr_left
      intro j hj
      rw [Function.update_of_ne]
      rintro rfl
      exact hwait hj
    show (run.awaitingTid ++ [i]).map _ = _
    rw [hlanes, along_cons [] hlane, along_nil, List.map_append, List.map_append, hsame, h.line,
      List.map_singleton, List.map_singleton, Function.update_self]
  case serves =>
    intro j v y hv hy
    obtain ⟨rfl, rfl⟩ | ⟨hij, hy⟩ := hname hy
    · rw [hself] at hv ⊢
      cases hv
      exact serves
    · rw [hother hij] at hv ⊢
      have hne : y ≠ r.tid := fun heq => hfresh j (heq ▸ hy)
      exact (answers.others y hne).serves (h.serves hv hy)
  case outputs =>
    intro j v y hv hy
    rw [hdata]
    obtain ⟨rfl, rfl⟩ | ⟨hij, hy⟩ := hname hy
    · rw [hself] at hv ⊢
      cases hv
      have hnew : run.transactions[u] = work[u] := pool.unnamed turn.holds (by rw [hs]; rfl)
      show run.transactions[u].outputs.toList ++ _ = _
      rw [words_eq_nil unsent, hnew, (ready u).outputs_eq]
      rfl
    · rw [hother hij] at hv ⊢
      exact h.outputs hv hy
  case collected =>
    intro v hv hn
    refine h.collected v hv fun j hj => ?_
    by_cases hij : i = j
    · subst hij
      refine hn i ?_
      rw [hself]
      rw [hs] at hj
      exact hj
    · exact hn j (by rw [hother hij]; exact hj)

end Tenancy

end Run

end NeuralEngine
