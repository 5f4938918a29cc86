import NeuralEngine.Proofs.Scheduler.ServiceRouting
import NeuralEngine.Proofs.Scheduler.TenancyTurn

/-!
# Turns of a run over the simulator

What the simulator answers to the request of the slot whose turn it is: the request is one that it
accepts, or that it puts off, so no turn fails; and the turn leaves the run and the simulator as they
fit together. An open finds a row and an identifier because the other slots occupy fewer rows than the
engine has, and name fewer identifiers than the stride reaches.
-/

namespace NeuralEngine

open Simulator

/-- The engine has a row for each slot, an identifier for each row, and can run every network. -/
structure Simulator.Fits {m : Nat} (engine : Simulator) (n : Nat) (work : Vector Transaction m) : Prop where
  runs : ∀ t : Fin m, engine.Runs work[t]
  rows : n ≤ engine.capacity
  identifiers : engine.capacity ≤ reach engine.options.tidStride

namespace Run.Service

variable {n m : Nat} {engine : Simulator} {work : Vector Transaction m} {history : List (Event m)}
  {name : Fin n → Option Tid} {inbox : List Response} {run run' : Run Simulator n m} {i : Fin n}
  {t : Fin m} {x : Tid}

theorem data_of_mem_along (h : Service engine work history name inbox run) {r : Response}
    (hr : r ∈ along (some x) (flight inbox run)) : r.kind? = some .data ∧ r.tid = x := by
  obtain ⟨hmem, hlane⟩ := mem_along.1 hr
  obtain hkind | ⟨hkind, -⟩ := h.kinds r hmem
  · rw [Response.lane_tid hkind] at hlane
    cases hlane
  · exact ⟨hkind, Response.tid_of_lane hlane⟩

/-! ## What the simulator answers -/

theorem answers_opening (h : Service engine work history name [] run) (ready : ∀ t : Fin m, work[t].Ready)
    (fits : engine.Fits n work) (turn : run.HasTurn i t .newWrite) :
    ∃ answer s' r, Answers run.client.channel s' work[t].opening answer [r] r.tid ∧
      answer.exitCode = .ok ∧ r.kind? = some .tid ∧ run.client.channel.find? r.tid = none ∧
      (∀ d ∈ run.client.channel.deferred, d.response.tid ≠ r.tid) ∧ s'.Serves work[t] r.tid 0 0 ∧
      ∃ next, (run.client.channel.record work[t].opening).allocate? = some (r.tid, next) := by
  have hfree : name i = none := by
    rw [Option.eq_none_iff_forall_ne_some]
    exact h.tenancy.name_ne (by rw [turn.state]; rfl)
  have hcapacity : run.client.channel.capacity = engine.capacity := by
    unfold Simulator.capacity
    rw [h.alike.params]
  have hroom : run.client.channel.resident < run.client.channel.capacity := by
    rw [resident_eq, hcapacity]
    exact Nat.lt_of_lt_of_le (length_lt_of_named h.nodup h.known hfree) fits.rows
  have hfew : ∀ xs : List Tid, xs.Nodup → (∀ y ∈ xs, run.client.channel.isTaken y = true) →
      xs.length < reach run.client.channel.options.tidStride := by
    intro xs hxs htaken
    rw [h.alike.options]
    calc xs.length
      _ < n := length_lt_of_named hxs (fun y hy => h.named_of_taken (htaken y hy)) hfree
      _ ≤ engine.capacity := fits.rows
      _ ≤ reach engine.options.tidStride := fits.identifiers
  exact Simulator.answers_opening h.ordered h.nodup ((fits.runs t).of_alike h.alike) (ready t) hroom hfew

theorem addressed (h : Service engine work history name inbox run) (pool : Pool work run)
    (fits : engine.Fits n work) (i : Fin n) (x : Tid) (hx : name i = some x) : engine.Addressed := by
  obtain ⟨t, -⟩ := h.tenancy.holds pool hx
  exact (fits.runs t).addressed

/-- No turn fails: the simulator tolerates every request that a slot presents. -/
theorem not_failed (h : Service engine work history name [] run) (pool : Pool work run)
    (ready : ∀ t : Fin m, work[t].Ready) (fits : engine.Fits n work) {event : Event m} {e : SchedulerError} :
    ¬ FailedTurn run event e run' := by
  intro failed
  cases failed with
  | @refused i t c request answer presents asks fatal =>
    have htolerated : request.tolerates answer.exitCode = true := by
      by_cases hopens : request.op? = some .newRequest
      · obtain ⟨turn, rfl⟩ := presents.turn_of_open hopens
        obtain ⟨answer', s', r, hanswers, hok, -⟩ := h.answers_opening ready fits turn
        rw [pool.opening_eq] at asks
        obtain ⟨rfl, -⟩ := answer_of_asks hanswers asks
        rw [hok, Request.tolerates_ok]
      · exact h.tenancy.tolerated pool ready (h.addressed pool fits) presents asks hopens
    rw [htolerated] at fatal
    cases fatal
  | @unexpected i t c tid answer presents asks ok data status =>
    have hop : (Request.readData tid).op? = some .readData := rfl
    generalize Request.readData tid = request at presents asks hop
    cases presents with
    | read turn tid_eq =>
      obtain ⟨answer', s', given, hanswers, hcases⟩ := h.tenancy.answers_read pool (fits.runs t).addressed turn tid_eq
      obtain ⟨rfl, -⟩ := answer_of_asks hanswers asks
      obtain ⟨rfl, -⟩ | ⟨-, hdata | hstatus, -⟩ := hcases
      · cases ok
      · exact data hdata
      · exact status hstatus
    | opening => simp [Transaction.opening] at hop
    | register => simp at hop
    | element =>
      rw [Request.op?_writeData] at hop
      split at hop <;> cases hop

/-! ## What a turn leaves -/

/-- An element is accepted. -/
theorem accepted (h : Service engine work history name [] run) {value : Element} {last : Bool}
    {c : Client Simulator} (holds : run.slots[i].transaction = some t)
    (state : run.slots[i].state = .write) (named : run.slots[i].tid = some x)
    (answers : Answers run.client.channel c.channel (.writeData x value last) (.status .ok) [] x)
    (serves : c.channel.Serves work[t] x (run.slots[i].cursor + 1) run.slots[i].readsIssued)
    {events : List (Event m)} :
    Service engine work (history ++ events) name [] ((run.passTurn i c).countElement i last) := by
  let run' := (run.passTurn i c).countElement i last
  have hlanes : ∀ lane, along lane (flight [] run') = along lane (flight [] run) :=
    lanes_of_status rfl answers.gives
  refine h.act named
    (fun s => { s with cursor := s.cursor + 1, state := if last then .executing else s.state }) rfl rfl
    rfl rfl rfl answers.others (fun lane _ => hlanes lane) ?_
    (h.tenancy.accepted holds state named answers serves)
  rw [hlanes]
  exact fun r hr => h.data_of_mem_along hr

/-- A read is accepted: the next output is on its way. -/
theorem read (h : Service engine work history name [] run) {answer r : Response} {c : Client Simulator}
    (holds : run.slots[i].transaction = some t) (state : run.slots[i].state = .read)
    (named : run.slots[i].tid = some x)
    (answers : Answers run.client.channel c.channel (.readData x) answer [r] x)
    (kind : r.kind? = some .data) (tid_eq : r.tid = x)
    (value : work[t].expected[run.slots[i].readsIssued]? = some r.element)
    (serves : c.channel.Serves work[t] x run.slots[i].cursor (run.slots[i].readsIssued + 1))
    {events : List (Event m)} :
    Service engine work (history ++ events) name answer.prompt.toList
      ((run.passTurn i c).countRead i t) := by
  let run' := (run.passTurn i c).countRead i t
  have hlane : r.lane = some x := by rw [Response.lane_data kind, tid_eq]
  have hlanes : ∀ lane, along lane (flight answer.prompt.toList run') =
      along lane (flight [] run) ++ along lane [r] := lanes_of_gives answers.gives
  refine h.act named (fun s =>
    { s with
      readsIssued := s.readsIssued + 1
      state := if s.readsIssued + 1 = run.transactions[t].outputCount then .readWait else s.state })
    rfl rfl rfl rfl rfl answers.others (fun lane hne => ?_) (fun r' hr' => ?_)
    (h.tenancy.read holds state named answers kind tid_eq value serves)
  · rw [hlanes, along_cons_ne [] (by rw [hlane]; exact Ne.symm hne), along_nil, List.append_nil]
  · rw [hlanes, List.mem_append] at hr'
    obtain hr' | hr' := hr'
    · exact h.data_of_mem_along hr'
    · obtain rfl := List.mem_singleton.1 (mem_along.1 hr').1
      exact ⟨kind, tid_eq⟩

/-- A transaction is opened: its identifier is on its way. -/
theorem opened (h : Service engine work history name [] run) (pool : Pool work run)
    (ready : ∀ t : Fin m, work[t].Ready) {answer r : Response} {c : Client Simulator}
    (turn : run.HasTurn i t .newWrite)
    (answers : Answers run.client.channel c.channel work[t].opening answer [r] r.tid)
    (kind : r.kind? = some .tid) (free : run.client.channel.find? r.tid = none)
    (unsent : ∀ d ∈ run.client.channel.deferred, d.response.tid ≠ r.tid)
    (serves : c.channel.Serves work[t] r.tid 0 0) {events : List (Event m)}
    (allocated : Allocated engine work (history ++ events) t r.tid) :
    Service engine work (history ++ events) (Function.update name i (some r.tid)) answer.prompt.toList
      ((run.passTurn i c).awaitTid i) := by
  let run' := (run.passTurn i c).awaitTid i
  obtain ⟨u, hs⟩ := (pool.stage i).of_newWrite turn.state
  have hother : ∀ {j : Fin n}, i ≠ j → run'.slots[j] = run.slots[j] := fun {j} hij =>
    slots_modifySlot_ne _ hij _
  have htrans : ∀ j : Fin n, run'.slots[j].transaction = run.slots[j].transaction :=
    apply_getElem_set Slot.transaction rfl
  apply of_tenancy (h.tenancy.opened pool ready turn answers kind free unsent serves)
  case known =>
    intro y hy
    by_cases hyr : y = r.tid
    · exact ⟨i, by rw [Function.update_self, hyr]⟩
    · obtain ⟨j, hj⟩ := h.known y ((answers.others y hyr).mem_tids_iff.1 hy)
      refine ⟨j, ?_⟩
      rw [Function.update_of_ne, hj]
      rintro rfl
      exact h.tenancy.name_ne (by rw [turn.state]; rfl) y hj
  case allocated =>
    intro j v y hv hy
    rw [htrans] at hv
    obtain ⟨rfl, hnew⟩ | ⟨hij, hy⟩ := update_eq_some hy
    · obtain rfl := Option.some.inj hnew
      obtain rfl : t = v := Option.some.inj (turn.holds.symm.trans hv)
      exact allocated
    · exact (h.allocated hv hy).append events
  case kinds =>
    intro r' hr'
    have hmem : r' ∈ flight [] run ++ [r] := by
      apply mem_of_along_eq (fun lane => ?_) hr'
      rw [along_append]
      exact lanes_of_gives answers.gives lane
    rw [List.mem_append, List.mem_singleton] at hmem
    obtain hmem | rfl := hmem
    · obtain hkind | ⟨hkind, j, hj⟩ := h.kinds r' hmem
      · exact .inl hkind
      · refine .inr ⟨hkind, j, ?_⟩
        rw [hother, hj]
        rintro rfl
        rw [hs] at hj
        cases hj
    · exact .inl kind
  case identified =>
    intro v hv hn
    obtain ⟨-, y, hy, halloc⟩ := h.done v hv fun j hj => hn j (by rw [htrans]; exact hj)
    exact ⟨y, hy, halloc.append events⟩

/-- A turn that opens nothing leaves the run and the engine as they fit together. -/
theorem proceed (h : Service engine work history name [] run) (pool : Pool work run)
    (ready : ∀ t : Fin m, work[t].Ready) (addressed : ∀ (i : Fin n) (x : Tid), name i = some x → engine.Addressed)
    {event : Event m} {prompt : Option Response} (turn : Turn run event prompt run')
    (line : run'.awaitingTid = run.awaitingTid) :
    Service engine work (history ++ [event]) name prompt.toList run' := by
  cases h.tenancy.proceeds pool ready addressed turn line with
  | undisturbed quiet => exact h.keep quiet
  | accepted holds state named answers serves => exact h.accepted holds state named answers serves
  | read holds state named answers kind tid_eq value serves =>
    exact h.read holds state named answers kind tid_eq value serves

/-- A turn leaves the run and the engine as they fit together. -/
theorem turn (h : Service engine work history name [] run) (pool : Pool work run)
    (ready : ∀ t : Fin m, work[t].Ready) (fits : engine.Fits n work)
    (play : Event.Play history engine run.client.channel) {event : Event m} {prompt : Option Response}
    (turn : Turn run event prompt run') :
    ∃ name', Service engine work (history ++ [event]) name' prompt.toList run' := by
  have hproceed := h.proceed pool ready (h.addressed pool fits) turn
  cases turn
  case opened i t c answer turn _ asks _ =>
    rw [pool.opening_eq] at asks ⊢
    obtain ⟨answer', s', r, hanswers, -, hkind, hfree, hunsent, hserves, next, halloc⟩ :=
      h.answers_opening ready fits turn
    obtain ⟨rfl, rfl⟩ := answer_of_asks hanswers asks
    exact ⟨_, h.opened pool ready turn hanswers hkind hfree hunsent hserves
      ⟨history, answer', [], _, next, rfl, play, halloc⟩⟩
  all_goals exact ⟨name, hproceed rfl⟩

end Run.Service

end NeuralEngine
