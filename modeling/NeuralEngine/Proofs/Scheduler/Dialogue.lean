import NeuralEngine.Proofs.Scheduler.Protocol
import NeuralEngine.Proofs.Scheduler.Transcript

/-!
# What a run says on behalf of each transaction

The dialogue of a transaction is what the history of a run has on its behalf. `Spoken` ties the
dialogues to the slots: what has been said for the transaction of a slot is as far as the slot has come,
nothing has been said for one that waits for a slot, and a transaction that has left its slot was read
to the end. Every step of a run preserves this, so every dialogue follows the protocol.
-/

namespace NeuralEngine

/-- The exchange that an event is for transaction `t`, if it is one. -/
def Event.exchange? {m : Nat} (t : Fin m) : Event m → Option Exchange
  | issued u request answer => if u = t then some (.request request answer) else none
  | asked u tid done => if u = t then some (.question tid done) else none
  | stepped | polled _ | routed _ => none

/-- What a history has on behalf of transaction `t`. -/
def dialogue {m : Nat} (t : Fin m) (history : List (Event m)) : List Exchange :=
  history.filterMap (Event.exchange? t)

section Dialogue

variable {m : Nat} (t : Fin m) (history : List (Event m))

@[simp] theorem dialogue_nil : dialogue t [] = [] :=
  rfl

@[simp] theorem dialogue_append (events : List (Event m)) :
    dialogue t (history ++ events) = dialogue t history ++ dialogue t events :=
  List.filterMap_append ..

@[simp] theorem dialogue_issued (request : Request) (answer : Response) :
    dialogue t [.issued t request answer] = [.request request answer] := by
  simp [dialogue, Event.exchange?]

@[simp] theorem dialogue_asked (tid : Tid) (done : Bool) :
    dialogue t [.asked t tid done] = [.question tid done] := by
  simp [dialogue, Event.exchange?]

variable {t}

theorem dialogue_issued_ne {u : Fin m} (h : u ≠ t) (request : Request) (answer : Response) :
    dialogue t [.issued u request answer] = [] := by
  simp [dialogue, Event.exchange?, h]

theorem dialogue_asked_ne {u : Fin m} (h : u ≠ t) (tid : Tid) (done : Bool) :
    dialogue t [.asked u tid done] = [] := by
  simp [dialogue, Event.exchange?, h]

end Dialogue

/-- How far the transaction of a slot has come. -/
def Slot.progress {ι : Type} (s : Slot ι) : Progress :=
  match s.state with
  | .unused | .newWrite => .silent
  | .newWriteWait => .opened
  | .write => .writing s.registersWritten s.cursor
  | .executing => .executing
  | .read | .readWait => .reading s.readsIssued

/-- Without an identifier, a transaction has been opened at most. -/
theorem Slot.Stage.progress_of_tid_eq_none {m : Nat} {work : Vector Transaction m} {s : Slot (Fin m)}
    (h : Slot.Stage work s) (hs : s.tid = none) : s.progress = .silent ∨ s.progress = .opened := by
  cases h
  case unused => exact .inl rfl
  case newWrite => exact .inl rfl
  case newWriteWait => exact .inr rfl
  all_goals cases hs

namespace Run

variable {σ : Type} {n m : Nat}

/-- The dialogues are as far as the transactions have come. -/
structure Spoken (work : Vector Transaction m) (history : List (Event m)) (run : Run σ n m) : Prop where
  pending : ∀ t : Fin m, run.nextPending ≤ t → dialogue t history = []
  held : ∀ {i : Fin n} {t : Fin m}, run.slots[i].transaction = some t →
    Said work[t] (run.slots[i].tid.getD 0) run.slots[i].progress (dialogue t history)
  done : ∀ t : Fin m, t.val < run.nextPending → (∀ i : Fin n, run.slots[i].transaction ≠ some t) →
    ∃ tid reads, run.transactions[t].tid = some tid ∧
      Said work[t] tid (.reading reads) (dialogue t history)

namespace Spoken

variable {work : Vector Transaction m} {run run' : Run σ n m} {history events : List (Event m)}

theorem start {client : Client σ} : Spoken work [] (Run.start client work : Run σ n m) where
  pending _ _ := rfl
  held {i t} hi := by simp [Run.start, Slot.empty] at hi
  done t ht := by simp [Run.start] at ht

/-- A step may change the slot of one transaction and say something on its behalf. -/
theorem speak (h : Spoken work history run) (pool : Pool work run) {i : Fin n} {t : Fin m}
    (holds : run.slots[i].transaction = some t)
    (others : ∀ j, i ≠ j → run'.slots[j] = run.slots[j])
    (holds' : run'.slots[i].transaction = some t)
    (nextPending : run'.nextPending = run.nextPending)
    (tids : ∀ u, t ≠ u → run'.transactions[u].tid = run.transactions[u].tid)
    (quiet : ∀ u, t ≠ u → dialogue u events = [])
    (said : Said work[t] (run'.slots[i].tid.getD 0) run'.slots[i].progress
      (dialogue t history ++ dialogue t events)) : Spoken work (history ++ events) run' := by
  have hheld : ∀ j : Fin n, run'.slots[j].transaction = run.slots[j].transaction := by
    intro j
    by_cases hij : i = j
    · rw [← hij, holds, holds']
    · rw [others j hij]
  constructor
  case pending =>
    intro u hu
    rw [nextPending] at hu
    rw [dialogue_append, h.pending u hu, quiet u (pool.ne_of_pending holds hu), List.append_nil]
  case held =>
    intro j u hj
    rw [hheld] at hj
    rw [dialogue_append]
    by_cases hij : i = j
    · subst hij
      rw [holds] at hj
      cases hj
      exact said
    · rw [others j hij, quiet u (pool.ne_of_ne hij holds hj), List.append_nil]
      exact h.held hj
  case done =>
    intro u hu hn
    have hne : t ≠ u := by
      rintro rfl
      exact hn i holds'
    rw [dialogue_append, tids u hne, quiet u hne, List.append_nil]
    exact h.done u (nextPending ▸ hu) fun j => hheld j ▸ hn j

/-- A step may say nothing and change no slot. -/
theorem quiet (h : Spoken work history run) (slots : run'.slots = run.slots)
    (transactions : run'.transactions = run.transactions)
    (nextPending : run'.nextPending = run.nextPending) (silent : ∀ t : Fin m, dialogue t events = []) :
    Spoken work (history ++ events) run' where
  pending t ht := by
    rw [dialogue_append, silent, List.append_nil]
    exact h.pending t (nextPending ▸ ht)
  held hi := by
    rw [dialogue_append, silent, List.append_nil]
    rw [slots] at hi ⊢
    exact h.held hi
  done t ht hn := by
    rw [dialogue_append, silent, List.append_nil, transactions]
    rw [slots] at hn
    exact h.done t (nextPending ▸ ht) hn

theorem hand (h : Spoken work history run) (pool : Pool work run) {i : Fin n} {t : Fin m}
    (hi : run.slots[i].state = .unused) (ht : t = run.nextPending) :
    Spoken work history (run.hand i t) := by
  have hempty : run.slots[i] = Slot.empty := (pool.stage i).of_unused hi
  constructor
  case pending =>
    intro u hu
    change t + 1 ≤ u.val at hu
    exact h.pending u (by omega)
  case held =>
    intro j u hj
    rw [slots_hand] at hj ⊢
    split at hj
    · next hij =>
      rw [if_pos hij]
      cases hj
      rw [h.pending t (by omega)]
      exact .silent
    · next hij =>
      rw [if_neg hij]
      exact h.held hj
  case done =>
    intro u hu hn
    obtain ⟨hlt, hleft⟩ := left_of_hand (by rw [hempty]; rfl) ht hu hn
    exact h.done u hlt hleft

theorem refill (ready : ∀ t : Fin m, work[t].Ready) (h : Spoken work history run)
    (pool : Pool work run) : Spoken work history run.refill :=
  pool.refill_of_hand ready h fun h pool => h.hand pool

/-- What no dialogue is about may change. -/
theorem of_eq (h : Spoken work history run) (slots : run'.slots = run.slots)
    (transactions : run'.transactions = run.transactions)
    (nextPending : run'.nextPending = run.nextPending) : Spoken work history run' := by
  have hquiet : Spoken work (history ++ []) run' :=
    h.quiet slots transactions nextPending fun _ => rfl
  rwa [List.append_nil] at hquiet

/-- A step may change a slot that keeps its transaction and say something on its behalf. -/
theorem speakSlot (h : Spoken work history run) (pool : Pool work run) {i : Fin n} {t : Fin m}
    (f : Slot (Fin m) → Slot (Fin m)) (holds : run.slots[i].transaction = some t)
    (keeps : (f run.slots[i]).transaction = run.slots[i].transaction)
    (slots : run'.slots = (run.modifySlot i f).slots)
    (transactions : run'.transactions = run.transactions)
    (nextPending : run'.nextPending = run.nextPending)
    (quiet : ∀ u, t ≠ u → dialogue u events = [])
    (said : Said work[t] ((f run.slots[i]).tid.getD 0) (f run.slots[i]).progress
      (dialogue t history ++ dialogue t events)) : Spoken work (history ++ events) run' := by
  have hself : run'.slots[i] = f run.slots[i] := by
    rw [slots, slots_modifySlot_self]
  refine h.speak pool holds (fun j hj => ?_) ?_ nextPending (fun u _ => ?_) quiet ?_
  · rw [slots, slots_modifySlot_ne run hj]
  · rw [hself, keeps, holds]
  · rw [transactions]
  · rw [hself]
    exact said

/-! ## Turns -/

theorem opened (h : Spoken work history run) (pool : Pool work run) {i : Fin n} {t : Fin m}
    {c : Client σ} {answer : Response} (turn : run.HasTurn i t .newWrite)
    (ok : answer.exitCode = .ok) :
    Spoken work (history ++ [.issued t run.transactions[t].opening answer])
      ((run.passTurn i c).awaitTid i) := by
  obtain ⟨u, hs⟩ := (pool.stage i).of_newWrite turn.state
  have hsaid := h.held turn.holds
  refine h.speakSlot pool (·.transition .newWriteWait) turn.holds rfl rfl rfl rfl
    (fun u hu => dialogue_issued_ne hu _ _) ?_
  rw [hs] at hsaid ⊢
  rw [dialogue_issued, pool.opening_eq]
  exact hsaid.openingTaken ok

section Writing

variable {i : Fin n} {t : Fin m} {c : Client σ} {answer : Response} {tid : Tid}

theorem registered (h : Spoken work history run) (pool : Pool work run)
    (turn : run.HasTurn i t .write) (tid_eq : run.slots[i].tid = some tid) {register : Register}
    {value : RegisterValue}
    (entry : run.transactions[t].registers[run.slots[i].registersWritten]? = some (register, value))
    (ok : answer.exitCode = .ok) :
    Spoken work (history ++ [.issued t (.setRegister tid register value) answer])
      ((run.passTurn i c).countRegister i) := by
  obtain ⟨x, written, cursor, hs, -, -, -⟩ := pool.writing turn
  have hsaid := h.held turn.holds
  rw [Transaction.registers_of_reset (pool.same t)] at entry
  refine h.speakSlot pool (fun s => { s with registersWritten := s.registersWritten + 1 }) turn.holds
    rfl rfl rfl rfl (fun u hu => dialogue_issued_ne hu _ _) ?_
  rw [hs] at hsaid entry tid_eq ⊢
  cases tid_eq
  rw [dialogue_issued]
  exact hsaid.register entry ok

theorem accepted (h : Spoken work history run) (pool : Pool work run)
    (turn : run.HasTurn i t .write) (tid_eq : run.slots[i].tid = some tid) {value : Element} {last : Bool}
    (written : run.transactions[t].registers[run.slots[i].registersWritten]? = none)
    (entry : run.transactions[t].stream[run.slots[i].cursor]? = some value)
    (last_eq : last = (run.slots[i].cursor + 1 == run.transactions[t].stream.size))
    (ok : answer.exitCode = .ok) :
    Spoken work (history ++ [.issued t (.writeData tid value last) answer])
      ((run.passTurn i c).countElement i last) := by
  obtain ⟨x, taken, cursor, hs, hr, hc, -⟩ := pool.writing turn
  have hsaid := h.held turn.holds
  rw [Transaction.registers_of_reset (pool.same t)] at written hr
  rw [Transaction.stream_of_reset (pool.same t)] at entry last_eq hc
  refine h.speakSlot pool (fun s =>
    { s with cursor := s.cursor + 1, state := if last then .executing else s.state }) turn.holds
    rfl rfl rfl rfl (fun u hu => dialogue_issued_ne hu _ _) ?_
  rw [hs] at hsaid written entry last_eq tid_eq ⊢
  cases tid_eq
  have hfull : taken = work[t].registers.length :=
    Nat.le_antisymm hr (List.getElem?_eq_none_iff.1 written)
  rw [dialogue_issued]
  cases last with
  | true =>
    have hlast : cursor + 1 = work[t].stream.size := by simpa [Slot.writing] using last_eq.symm
    have hsaid' := hsaid.lastElement hfull entry hlast ok
    rwa [← last_eq] at hsaid'
  | false =>
    have hmore : cursor + 1 ≠ work[t].stream.size := by simpa [Slot.writing] using last_eq.symm
    have hlt : cursor + 1 < work[t].stream.size := by omega
    have hsaid' := hsaid.element hfull entry hlt ok
    rwa [← last_eq] at hsaid'

theorem busy (h : Spoken work history run) (pool : Pool work run)
    (turn : run.HasTurn i t .write) (tid_eq : run.slots[i].tid = some tid) {value : Element} {last : Bool}
    (written : run.transactions[t].registers[run.slots[i].registersWritten]? = none)
    (entry : run.transactions[t].stream[run.slots[i].cursor]? = some value)
    (last_eq : last = (run.slots[i].cursor + 1 == run.transactions[t].stream.size))
    (code : answer.exitCode = .queueBusy) :
    Spoken work (history ++ [.issued t (.writeData tid value last) answer]) run := by
  obtain ⟨x, taken, cursor, hs, hr, hc, -⟩ := pool.writing turn
  have hsaid := h.held turn.holds
  rw [Transaction.registers_of_reset (pool.same t)] at written hr
  rw [Transaction.stream_of_reset (pool.same t)] at entry last_eq hc
  refine h.speak pool turn.holds (fun _ _ => rfl) turn.holds rfl (fun _ _ => rfl)
    (fun u hu => dialogue_issued_ne hu _ _) ?_
  rw [hs] at hsaid written entry last_eq tid_eq ⊢
  cases tid_eq
  have hfull : taken = work[t].registers.length :=
    Nat.le_antisymm hr (List.getElem?_eq_none_iff.1 written)
  rw [dialogue_issued, last_eq]
  exact hsaid.busy hfull entry code

end Writing

section Reading

variable {i : Fin n} {t : Fin m} {c : Client σ} {answer : Response} {tid : Tid}

theorem read (h : Spoken work history run) (pool : Pool work run) (turn : run.HasTurn i t .read)
    (tid_eq : run.slots[i].tid = some tid) (ok : answer.exitCode = .ok) :
    Spoken work (history ++ [.issued t (.readData tid) answer]) ((run.passTurn i c).countRead i t) := by
  obtain ⟨x, reads, hs, hr⟩ := pool.reading turn
  have hsaid := h.held turn.holds
  rw [Transaction.outputCount_of_reset (pool.same t)] at hr
  refine h.speakSlot pool (fun s =>
    { s with
      readsIssued := s.readsIssued + 1
      state := if s.readsIssued + 1 = run.transactions[t].outputCount then .readWait else s.state })
    turn.holds rfl rfl rfl rfl (fun u hu => dialogue_issued_ne hu _ _) ?_
  rw [hs] at hsaid tid_eq ⊢
  cases tid_eq
  rw [dialogue_issued]
  change Said work[t] tid (Slot.fed work[t] t tid
    (if reads + 1 = run.transactions[t].outputCount then .readWait else .read) (reads + 1)).progress _
  split <;> exact hsaid.read hr ok

theorem notDone (h : Spoken work history run) (pool : Pool work run) (turn : run.HasTurn i t .read)
    (tid_eq : run.slots[i].tid = some tid) (code : answer.exitCode = .notDone) :
    Spoken work (history ++ [.issued t (.readData tid) answer]) run := by
  obtain ⟨x, reads, hs, hr⟩ := pool.reading turn
  have hsaid := h.held turn.holds
  refine h.speak pool turn.holds (fun _ _ => rfl) turn.holds rfl (fun _ _ => rfl)
    (fun u hu => dialogue_issued_ne hu _ _) ?_
  rw [hs] at hsaid tid_eq ⊢
  cases tid_eq
  rw [dialogue_issued]
  exact hsaid.notDone code

end Reading

/-! ## Steps -/

theorem learn (h : Spoken work history run) (pool : Pool work run) {i : Fin n} {t : Fin m} {tid : Tid}
    (state : run.slots[i].state = .executing) (holds : run.slots[i].transaction = some t)
    (tid_eq : run.slots[i].tid = some tid) (done : Bool) (c : Client σ) :
    Spoken work (history ++ [.asked t tid done]) (run.learn i done c) := by
  obtain ⟨u, x, hs⟩ := (pool.stage i).of_executing state
  have hsaid := h.held holds
  cases done with
  | false =>
    refine h.speak pool holds (fun _ _ => rfl) holds rfl (fun _ _ => rfl)
      (fun u hu => dialogue_asked_ne hu _ _) ?_
    change Said work[t] (run.slots[i].tid.getD 0) run.slots[i].progress _
    rw [hs] at hsaid tid_eq ⊢
    cases tid_eq
    rw [dialogue_asked]
    exact hsaid.wait
  | true =>
    refine h.speakSlot pool (·.transition .read) holds rfl rfl rfl rfl
      (fun u hu => dialogue_asked_ne hu _ _) ?_
    rw [hs] at hsaid tid_eq ⊢
    cases tid_eq
    rw [dialogue_asked]
    exact hsaid.done

theorem assign (h : Spoken work history run) (pool : Pool work run) {i : Fin n} {t : Fin m} {tid : Tid}
    {rest : List (Fin n)} (state : run.slots[i].state = .newWriteWait)
    (holds : run.slots[i].transaction = some t) : Spoken work history (run.assign i t tid rest) := by
  obtain ⟨u, hs⟩ := (pool.stage i).of_newWriteWait state
  have hself : (run.assign i t tid rest).slots[i] =
      { run.slots[i] with tid := some tid, state := .write } := by
    rw [slots_assign, if_pos rfl]
  have hsaid := h.held holds
  have hspeak : Spoken work (history ++ []) (run.assign i t tid rest) := by
    refine h.speak pool holds (fun j hj => ?_) ?_ rfl (fun v hv => ?_) (fun _ _ => rfl) ?_
    · rw [slots_assign, if_neg hj]
    · rw [hself]
      exact holds
    · rw [transactions_assign, if_neg hv]
    · rw [hself]
      rw [hs] at hsaid ⊢
      rw [dialogue_nil, List.append_nil]
      exact hsaid.start
  rwa [List.append_nil] at hspeak

theorem addOutput (h : Spoken work history run) {t : Fin m} {value : Element} :
    Spoken work history (run.modifyTransaction t (·.addOutput value)) where
  pending := h.pending
  held := h.held
  done u hu hn := by
    obtain ⟨tid, reads, htid, hsaid⟩ := h.done u hu hn
    refine ⟨tid, reads, ?_, hsaid⟩
    rw [transactions_modifyTransaction]
    split
    · next htu => rw [← htu] at htid; exact htid
    · exact htid

/-- A transaction that leaves its slot was read to the end. -/
theorem finish (h : Spoken work history run) (pool : Pool work run) {i : Fin n} {t : Fin m} {tid x : Tid}
    (state : run.slots[i].state = .read ∨ run.slots[i].state = .readWait)
    (holds : run.slots[i].transaction = some t) (tid_eq : run.slots[i].tid = some tid) :
    Spoken work history (run.finish i x) where
  pending := h.pending
  held {j u} hj := by
    rw [slots_finish] at hj ⊢
    split at hj
    · cases hj
    · next hij =>
      rw [if_neg hij]
      exact h.held hj
  done u hu hn := by
    by_cases htu : t = u
    · subst htu
      have hsaid := h.held holds
      have hreads : run.slots[i].progress = .reading run.slots[i].readsIssued := by
        unfold Slot.progress
        rcases state with state | state <;> rw [state]
      rw [tid_eq, hreads] at hsaid
      exact ⟨tid, _, pool.named holds tid_eq, hsaid⟩
    · exact h.done u hu (left_of_finish _ holds htu hn)

theorem delivered (h : Spoken work history run) (pool : Pool work run) {response : Response}
    (d : Delivered run response run') : Spoken work history run' := by
  cases d with
  | assigned _ _ state _ holds => exact h.assign pool state holds
  | given => exact h.addOutput
  | @finished i t _ route state holds complete =>
    have hfinish := h.finish pool (x := response.tid) state holds ((pool.lookup_iff _ _).1 route)
    exact hfinish.addOutput

variable [Channel σ]

theorem turn (h : Spoken work history run) (pool : Pool work run) {event : Event m}
    {prompt : Option Response} (turn : Turn run event prompt run') :
    Spoken work (history ++ [event]) run' := by
  cases turn with
  | idle => exact h.quiet rfl rfl rfl fun _ => rfl
  | opened turn _ _ ok => exact h.opened pool turn ok
  | registered turn tid_eq entry _ ok => exact h.registered pool turn tid_eq entry ok
  | accepted turn tid_eq written entry last_eq _ ok =>
    exact h.accepted pool turn tid_eq written entry last_eq ok
  | busy turn tid_eq written entry last_eq _ code =>
    exact (h.busy pool turn tid_eq written entry last_eq code).of_eq rfl rfl rfl
  | read turn tid_eq _ ok => exact h.read pool turn tid_eq ok
  | notDone turn tid_eq _ code => exact (h.notDone pool turn tid_eq code).of_eq rfl rfl rfl

theorem step (ready : ∀ t : Fin m, work[t].Ready) (h : Spoken work history run) (pool : Pool work run)
    {inbox inbox' : List Response} (s : Step inbox run events inbox' run') :
    Spoken work (history ++ events) run' := by
  cases s with
  | refill =>
    rw [List.append_nil]
    exact h.refill ready pool
  | turn turn => exact (h.turn pool turn).of_eq rfl rfl rfl
  | poll => exact h.quiet rfl rfl rfl fun _ => rfl
  | ask state holds tid_eq => exact h.learn pool state holds tid_eq _ _
  | route delivered => exact (h.delivered pool delivered).quiet rfl rfl rfl fun _ => rfl

/-- The dialogues of a run are as far as its transactions wherever the run comes to. -/
theorem of_reach (ready : ∀ t : Fin m, work[t].Ready) {client : Client σ} {inbox : List Response}
    (h : Reach (Run.start client work) history inbox run) : Spoken work history run :=
  Pool.invariant ready (P := fun history _ run => Spoken work history run) start
    (fun hp pool hs => hp.step ready pool hs) h

end Spoken

end Run

end NeuralEngine
