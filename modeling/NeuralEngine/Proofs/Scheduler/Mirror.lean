import NeuralEngine.Proofs.Scheduler.ServiceTurn
import NeuralEngine.Proofs.Simulator.Label

/-!
# Networks, registers and peaks of a run over the simulator

`Mirrored` adds to the match of a run and its simulator (`Service`) what the requests of a run do to the networks
and registers of the entries, and that the peaks of the two counts of identifiers on their way are the same. A run
that starts on a simulator without transactions preserves it as long as the clock is in time, whether the simulator
can run the networks of the batch or not.
-/

namespace NeuralEngine

open Simulator

namespace Run

variable {n m : Nat} {engine : Simulator} {work : Vector Transaction m} {history : List (Event m)}
  {name name' : Fin n → Option Tid} {inbox inbox' : List Response} {run run' : Run Simulator n m} {i : Fin n}
  {t : Fin m} {x : Tid}

/-- The run and the engine fit together; networks, registers and peaks do as well. -/
structure Mirrored (engine : Simulator) (work : Vector Transaction m) (history : List (Event m))
    (name : Fin n → Option Tid) (inbox : List Response) (run : Run Simulator n m) : Prop where
  service : Service engine work history name inbox run
  addressed : ∀ (i : Fin n) (x : Tid), name i = some x → engine.Addressed
  labelled : ∀ {i : Fin n} {t : Fin m} {x : Tid}, run.slots[i].transaction = some t → name i = some x →
    run.client.channel.Labelled work[t] x run.slots[i].registersWritten
  peak : ∀ delay, engine.options.tidDelay = some delay →
    run.report.peakAwaitingTid = run.client.channel.statistics.peakDeferredTids

namespace Mirrored

theorem start {client : Client Simulator} (entries : client.channel.tids = [])
    (deferred : client.channel.deferred = []) (peak : client.channel.statistics.peakDeferredTids = 0) :
    Mirrored client.channel work [] (fun _ => none) [] (Run.start client work : Run Simulator n m) where
  service := .start entries deferred
  addressed _ _ hx := nomatch hx
  labelled _ hx := nomatch hx
  peak _ _ := peak.symm

/-- Slots may go on and give up their transactions as long as they write no registers, and the engine may do
anything that leaves networks, registers and the peak alone. -/
theorem keep (h : Mirrored engine work history name inbox run) {events : List (Event m)}
    (service : Service engine work events name' inbox' run')
    (names : ∀ i x, name' i = some x → name i = some x)
    (slots : ∀ i x, name' i = some x → run'.slots[i].transaction = run.slots[i].transaction ∧
      run'.slots[i].registersWritten = run.slots[i].registersWritten)
    (labels : ∀ y x written, run.client.channel.Labelled y x written →
      run'.client.channel.Labelled y x written)
    (report : run'.report.peakAwaitingTid = run.report.peakAwaitingTid)
    (statistics : run'.client.channel.statistics.peakDeferredTids =
      run.client.channel.statistics.peakDeferredTids) : Mirrored engine work events name' inbox' run' where
  service := service
  addressed i x hx := h.addressed i x (names i x hx)
  labelled {i t x} ht hx := by
    obtain ⟨htransaction, hwritten⟩ := slots i x hx
    rw [htransaction] at ht
    rw [hwritten]
    exact labels _ _ _ (h.labelled ht (names i x hx))
  peak delay hdelay := by rw [report, statistics, h.peak delay hdelay]

theorem narrow (h : Mirrored engine work history name inbox run) (addressed : engine.Addressed) :
    run.client.channel.Narrow := by
  obtain ⟨asid, hasid, hnarrow⟩ := addressed
  unfold Narrow activeAsid
  rw [h.service.alike.asid, hasid]
  exact hnarrow

/-! ## Turns -/

/-- A request that neither opens a transaction nor writes a register. -/
theorem request (h : Mirrored engine work history name [] run) {events : List (Event m)}
    (service : Service engine work events name inbox' run') (named : run.slots[i].tid = some x)
    {request : Request} {answer : Response} (asks : run.client.Asks request answer run'.client)
    (opens : request.op? ≠ some .newRequest) (sets : request.op? ≠ some .writeRegister)
    (transaction : ∀ j : Fin n, run'.slots[j].transaction = run.slots[j].transaction)
    (registersWritten : ∀ j : Fin n, run'.slots[j].registersWritten = run.slots[j].registersWritten)
    (report : run'.report.peakAwaitingTid = run.report.peakAwaitingTid) :
    Mirrored engine work events name inbox' run' := by
  have hnarrow := h.narrow (h.addressed i x (h.service.told named))
  apply h.keep service (fun _ _ => id) (fun j _ _ => ⟨transaction j, registersWritten j⟩)
  case labels =>
    intro y z written hlabelled
    exact hlabelled.issue h.service.nodup hnarrow asks (.inl sets) fun hz => (tids_issue asks opens).subset hz
  case report => exact report
  case statistics => exact peakDeferredTids_issue asks opens

/-- A register is written. -/
theorem registered (h : Mirrored engine work history name [] run) (pool : Pool work run)
    {events : List (Event m)} {c : Client Simulator} {answer : Response} {register : Register}
    {value : RegisterValue} (turn : run.HasTurn i t .write) (named : run.slots[i].tid = some x)
    (entry : run.transactions[t].registers[run.slots[i].registersWritten]? = some (register, value))
    (asks : run.client.Asks (.setRegister x register value) answer c) (ok : answer.exitCode = .ok)
    (service : Service engine work events name [] ((run.passTurn i c).countRegister i)) :
    Mirrored engine work events name [] ((run.passTurn i c).countRegister i) := by
  have hname : name i = some x := h.service.told named
  have hnarrow := h.narrow (h.addressed i x hname)
  have hopens : (Request.setRegister x register value).op? ≠ some .newRequest := by simp
  refine ⟨service, h.addressed, fun {j u y} hu hy => ?_, fun delay hdelay => ?_⟩
  · have htrans : ∀ j : Fin n,
        ((run.passTurn i c).countRegister i).slots[j].transaction = run.slots[j].transaction :=
      apply_getElem_set Slot.transaction rfl
    rw [htrans] at hu
    have hslot : ((run.passTurn i c).countRegister i).slots[j] =
        if i = j then { run.slots[i] with registersWritten := run.slots[i].registersWritten + 1 }
        else run.slots[j] := slots_modifySlot ..
    rw [hslot]
    split
    · next hij =>
      subst hij
      obtain rfl := Option.some.inj (hname.symm.trans hy)
      obtain rfl := Option.some.inj (turn.holds.symm.trans hu)
      rw [Transaction.registers_of_reset (pool.same t)] at entry
      exact (h.labelled hu hy).setRegister h.service.nodup hnarrow asks ok entry
    · next hij =>
      refine (h.labelled hu hy).issue h.service.nodup hnarrow asks (.inr ?_) fun hmem =>
        (tids_issue asks hopens).subset hmem
      rw [Request.tid_setRegister]
      rintro rfl
      exact hij (h.service.name_inj hname hy)
  · exact (h.peak delay hdelay).trans (peakDeferredTids_issue asks hopens).symm

end Mirrored

/-- After a cycle the line is as long as the list of identifiers held back. -/
theorem Service.length_line (h : Service engine work history name [] run) :
    run.awaitingTid.length = run.client.channel.deferredTids := by
  have hlength := congrArg List.length h.line
  rw [List.length_map, List.length_map] at hlength
  exact hlength.trans (deferredTids_eq _).symm

namespace Mirrored

/-- A transaction is opened. -/
theorem opened (h : Mirrored engine work history name [] run) (pool : Pool work run)
    (ready : ∀ t : Fin m, work[t].Ready) (declares : engine.Declares work[t])
    (play : Event.Play history engine run.client.channel) {c : Client Simulator} {answer : Response}
    (turn : run.HasTurn i t .newWrite) (asks : run.client.Asks run.transactions[t].opening answer c)
    (ok : answer.exitCode = .ok) :
    ∃ name', Mirrored engine work (history ++ [.issued t run.transactions[t].opening answer]) name'
      answer.prompt.toList ((run.passTurn i c).awaitTid i) := by
  let run' := (run.passTurn i c).awaitTid i
  obtain ⟨o, r, next, hanswers, hkind, hfree, hunsent, hfind, hnnid, hserves, halloc, haddressed⟩ :=
    h.service.tenancy.answers_opened pool (ready t) declares asks ok
  rw [pool.opening_eq] at asks ⊢
  have hservice : Service engine work (history ++ [.issued t work[t].opening answer])
      (Function.update name i (some r.tid)) answer.prompt.toList run' :=
    h.service.opened pool ready turn hanswers hkind hfree hunsent hserves
      ⟨history, answer, [], _, next, rfl, play, halloc⟩
  obtain ⟨hpeak, hstatus⟩ := peakDeferredTids_open asks rfl ok
  refine ⟨_, hservice, fun _ _ _ => haddressed, fun {j u y} hu hy => ?_, fun delay hdelay => ?_⟩
  · have htrans : ∀ j : Fin n, run'.slots[j].transaction = run.slots[j].transaction :=
      apply_getElem_set Slot.transaction rfl
    have hwritten : ∀ j : Fin n, run'.slots[j].registersWritten = run.slots[j].registersWritten :=
      apply_getElem_set Slot.registersWritten rfl
    show c.channel.Labelled work[u] y run'.slots[j].registersWritten
    rw [htrans] at hu
    rw [hwritten]
    obtain ⟨rfl, hnew⟩ | ⟨hij, hy⟩ := update_eq_some hy
    · obtain rfl := Option.some.inj hnew
      obtain rfl := Option.some.inj (turn.holds.symm.trans hu)
      obtain ⟨v, hs⟩ := (pool.stage i).of_newWrite turn.state
      rw [hs]
      exact labelled_opened hfind hnnid
    · have hne : y ≠ r.tid := by
        rintro rfl
        exact h.service.tenancy.fresh pool hfree hunsent j hy
      exact (h.labelled hu hy).issue h.service.nodup (h.narrow haddressed) asks (.inl (by simp [Transaction.opening]))
        (hanswers.others y hne).mem_tids_iff.1
  · -- identifiers are deferred, so the answer leaves nothing to be routed and the line is as long as their list
    have hprompt : answer.prompt = none :=
      if_pos (hstatus delay ((congrArg Options.tidDelay h.service.alike.options).trans hdelay))
    rw [hprompt] at hservice
    show max run.report.peakAwaitingTid run'.awaitingTid.length = c.channel.statistics.peakDeferredTids
    rw [hpeak, h.peak delay hdelay, hservice.length_line]
    rfl

/-- A turn leaves the run and the engine matched. -/
theorem turn (h : Mirrored engine work history name [] run) (pool : Pool work run)
    (ready : ∀ t : Fin m, work[t].Ready) (declares : ∀ t : Fin m, engine.Declares work[t])
    (play : Event.Play history engine run.client.channel) {event : Event m} {prompt : Option Response}
    (turn : Turn run event prompt run') :
    ∃ name', Mirrored engine work (history ++ [event]) name' prompt.toList run' := by
  have hservice := h.service.proceed pool ready h.addressed turn
  cases turn with
  | @idle c _ step =>
    have hchannel : c.channel = run.client.channel.tick := step.symm
    refine ⟨name, h.keep (hservice rfl) (fun _ _ => id) (fun _ _ _ => ⟨rfl, rfl⟩) (fun y x written hl => ?_) rfl ?_⟩
    · show c.channel.Labelled y x written
      rw [hchannel]
      exact hl.tick
    · show c.channel.statistics.peakDeferredTids = _
      rw [hchannel]
      rfl
  | opened turn _ asks ok => exact h.opened pool ready (declares _) play turn asks ok
  | registered turn tid_eq entry asks ok => exact ⟨name, h.registered pool turn tid_eq entry asks ok (hservice rfl)⟩
  | @accepted _ _ _ _ _ _ last _ tid_eq _ _ _ asks =>
    refine ⟨name, h.request (hservice rfl) tid_eq asks ?_ ?_ ?_ ?_ rfl⟩
    · cases last <;> simp
    · cases last <;> simp
    · exact apply_getElem_set Slot.transaction rfl
    · exact apply_getElem_set Slot.registersWritten rfl
  | @busy _ _ _ _ _ _ last _ tid_eq _ _ _ asks =>
    refine ⟨name, h.request (hservice rfl) tid_eq asks ?_ ?_ (fun _ => rfl) (fun _ => rfl) rfl⟩
    · cases last <;> simp
    · cases last <;> simp
  | read _ tid_eq asks =>
    refine ⟨name, h.request (hservice rfl) tid_eq asks (by simp) (by simp) ?_ ?_ rfl⟩
    · exact apply_getElem_set Slot.transaction rfl
    · exact apply_getElem_set Slot.registersWritten rfl
  | notDone _ tid_eq asks =>
    exact ⟨name, h.request (hservice rfl) tid_eq asks (by simp) (by simp) (fun _ => rfl) (fun _ => rfl) rfl⟩

/-! ## The other steps -/

theorem hand (h : Mirrored engine work history name inbox run) (pool : Pool work run)
    (hi : run.slots[i].state = .unused) (ht : t = run.nextPending) :
    Mirrored engine work history name inbox (run.hand i t) := by
  refine h.keep (h.service.hand pool hi ht) (fun _ _ => id) (fun j x hx => ?_) (fun _ _ _ => id) rfl rfl
  rw [slots_hand, if_neg]
  · exact ⟨rfl, rfl⟩
  · rintro rfl
    exact h.service.tenancy.name_ne (by rw [hi]; rfl) x hx

theorem refill (h : Mirrored engine work history name inbox run) (pool : Pool work run)
    (ready : ∀ t : Fin m, work[t].Ready) : Mirrored engine work history name inbox run.refill :=
  pool.refill_of_hand ready h fun h pool => h.hand pool

theorem poll (h : Mirrored engine work history name inbox run) (inTime : run.client.channel.InTime)
    {answer : Option Response} {c : Client Simulator} (poll : run.client.channel.poll = (answer, c.channel)) :
    Mirrored engine work (history ++ [.polled answer]) name (inbox ++ answer.toList) (run.takeIn answer c) := by
  have hfind : ∀ y, c.channel.find? y = run.client.channel.find? y := fun y =>
    congrArg (Rows.find? y) (poll_same poll).2
  refine h.keep (h.service.keep (.poll h.service.ordered h.service.nodup inTime poll)) (fun _ _ => id)
    (fun _ _ _ => ⟨rfl, rfl⟩) (fun y x written hl => hl.of_find? (hfind x)) rfl ?_
  show c.channel.statistics.peakDeferredTids = _
  obtain ⟨-, hsame⟩ | ⟨d, before, after, -, -, -, -, hsame⟩ := poll_cases poll <;> rw [hsame]

theorem learn (h : Mirrored engine work history name inbox run) (state : run.slots[i].state = .executing)
    {done : Bool} {c : Client Simulator} (ask : Channel.isDone x run.client.channel = (done, c.channel)) :
    Mirrored engine work (history ++ [.asked t x done]) name inbox (run.learn i done c) := by
  have hchannel : (run.learn i done c).client.channel = run.client.channel := by
    rw [client_learn]
    exact (congrArg Prod.snd ask).symm
  apply h.keep (h.service.keep (.learn h.service.ordered h.service.nodup state ask)) (fun _ _ => id)
  case slots =>
    cases done with
    | false => exact fun _ _ _ => ⟨rfl, rfl⟩
    | true =>
      have htrans : ∀ j : Fin n, (run.learn i true c).slots[j].transaction = run.slots[j].transaction :=
        apply_getElem_set Slot.transaction rfl
      have hwritten : ∀ j : Fin n,
          (run.learn i true c).slots[j].registersWritten = run.slots[j].registersWritten :=
        apply_getElem_set Slot.registersWritten rfl
      exact fun j _ _ => ⟨htrans j, hwritten j⟩
  case labels =>
    intro y z written hl
    rw [hchannel]
    exact hl
  case report => cases done <;> rfl
  case statistics => rw [hchannel]

end Mirrored

/-- A response that is routed frees a slot, or leaves its transaction and the registers written as they are. -/
theorem Delivered.slots_cases {r : Response} (d : Delivered run r run') (j : Fin n) :
    run'.slots[j] = Slot.empty ∨ run'.slots[j].transaction = run.slots[j].transaction ∧
      run'.slots[j].registersWritten = run.slots[j].registersWritten := by
  cases d with
  | @assigned i t rest =>
    have htrans : ∀ j : Fin n, (run.assign i t r.tid rest).slots[j].transaction = run.slots[j].transaction :=
      apply_getElem_set Slot.transaction rfl
    have hwritten : ∀ j : Fin n,
        (run.assign i t r.tid rest).slots[j].registersWritten = run.slots[j].registersWritten :=
      apply_getElem_set Slot.registersWritten rfl
    exact .inr ⟨htrans j, hwritten j⟩
  | given => exact .inr ⟨rfl, rfl⟩
  | finished =>
    rw [slots_finish]
    split
    · exact .inl rfl
    · exact .inr ⟨rfl, rfl⟩

theorem Delivered.peakAwaitingTid_eq {r : Response} (d : Delivered run r run') :
    run'.report.peakAwaitingTid = run.report.peakAwaitingTid := by
  cases d <;> rfl

namespace Mirrored

theorem delivered {r : Response} (h : Mirrored engine work history name (r :: inbox) run) (pool : Pool work run)
    (d : Delivered run r run') : ∃ name', Mirrored engine work (history ++ [.routed r]) name' inbox run' := by
  obtain ⟨name', hnames, hservice⟩ := h.service.delivered pool d
  refine ⟨name', ?_⟩
  apply h.keep hservice hnames
  case slots =>
    intro j y hy
    obtain hempty | hsame := d.slots_cases j
    · exact absurd hy (hservice.tenancy.name_ne (by rw [hempty]; rfl) y)
    · exact hsame
  case labels =>
    intro y z written hl
    rw [d.client_eq]
    exact hl
  case report => exact d.peakAwaitingTid_eq
  case statistics => rw [d.client_eq]

/-- Every step leaves the run and the engine matched. -/
theorem step (h : Mirrored engine work history name inbox run) (pool : Pool work run)
    (ready : ∀ t : Fin m, work[t].Ready) (declares : ∀ t : Fin m, engine.Declares work[t])
    (play : Event.Play history engine run.client.channel) (inTime : run.client.channel.InTime)
    {events : List (Event m)} (s : Step inbox run events inbox' run') :
    ∃ name', Mirrored engine work (history ++ events) name' inbox' run' := by
  cases s with
  | refill =>
    rw [List.append_nil]
    exact ⟨name, h.refill pool ready⟩
  | @turn run run' event prompt turn =>
    obtain ⟨name', hturn⟩ := h.turn pool ready declares play turn
    have hcounted : Service engine work (history ++ [event] ++ []) name' prompt.toList run'.countCycle :=
      hturn.service.keep (.count hturn.service.ordered hturn.service.nodup)
    rw [List.append_nil] at hcounted
    exact ⟨name', hturn.keep hcounted (fun _ _ => id) (fun _ _ _ => ⟨rfl, rfl⟩) (fun _ _ _ => id) rfl rfl⟩
  | poll poll => exact ⟨name, h.poll inTime poll⟩
  | ask state _ _ ask => exact ⟨name, h.learn state ask⟩
  | route delivered => exact h.delivered pool delivered

/-- The run and the engine are matched wherever the run comes to in time. -/
theorem of_reach {client : Client Simulator} (ready : ∀ t : Fin m, work[t].Ready)
    (declares : ∀ t : Fin m, client.channel.Declares work[t]) (entries : client.channel.tids = [])
    (deferred : client.channel.deferred = []) (peak : client.channel.statistics.peakDeferredTids = 0)
    (h : Reach (Run.start client work) history inbox run) (inTime : run.client.channel.InTime) :
    ∃ name, Mirrored client.channel work history name inbox run := by
  induction h with
  | start => exact ⟨_, start entries deferred peak⟩
  | step reach step ih =>
    have hbefore := step.inTime inTime
    obtain ⟨name, hmirrored⟩ := ih hbefore
    exact hmirrored.step (Pool.of_reach ready reach) ready declares reach.play hbefore step

end Mirrored

end Run

end NeuralEngine
