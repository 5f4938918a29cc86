import NeuralEngine.Proofs.Simulator.Orderly

/-!
# What a request does

A raw request, of whatever sub-function bits and operands, is refused or does one of a few things to the
simulator (`Performs`). All that is said of single transactions follows from this: `Entry.Handled` is what the
transaction found under an identifier sees of a request, which is nothing unless the request is about it and
was accepted.
-/

namespace NeuralEngine.Simulator

open Inversion

variable {s s' : Simulator} {request : Request} {answer : Response} {tid : Tid}

/-- What a request that is not refused does to the simulator, whose step has passed. -/
inductive Performs (s : Simulator) (request : Request) : Response → Simulator → Prop
  /-- No identifier is left for an open. -/
  | exhausted : request.op? = some .newRequest → s.allocate? = none →
      Performs s request (s.fail .identifiersExhausted).1 (s.fail .identifiersExhausted).2
  | opened (o : Opening) (tid next : Tid) {answer : Response} {t : Simulator} :
      request.op? = some .newRequest → s.checkOpen request = .ok o → s.allocate? = some (tid, next) →
      (s.addEntry (o.entry tid) next).respond (Response.tidAssigned? o.asid tid) s.options.tidDelay = (answer, t) →
      Performs s request answer t.countDeferredTids
  | registered (e : Entry) (register : Register) : request.op? = some .writeRegister →
      Register.ofCode? request.registerCode.toNat = some register → s.find? request.tid = some e →
      e.isWritable = true →
      Performs s request (.status .ok) (s.update request.tid fun e =>
        some { e with registers := e.registers.set register request.registerValue })
  | busy (e : Entry) (last : Bool) : request.op? = some (if last then .writeDataLast else .writeData) →
      s.find? request.tid = some e → e.isWritable = true →
      0 < s.forcedBusy ∨ s.options.queueDepth ≤ e.queue.length →
      Performs s request s.refuseBusy.1 s.refuseBusy.2
  | enqueued (e : Entry) (last : Bool) : request.op? = some (if last then .writeDataLast else .writeData) →
      s.find? request.tid = some e → e.isWritable = true → e.queue.length < s.options.queueDepth →
      Performs s request (.status .ok) (s.enqueue request.tid request.element last)
  | notDone (e : Entry) : request.op? = some .readData → s.find? request.tid = some e → e.isDone = false →
      Performs s request s.refuseNotDone.1 s.refuseNotDone.2
  | read (e : Entry) (value : Element) (rest : List Element) {answer : Response} {t : Simulator} :
      request.op? = some .readData → s.find? request.tid = some e → e.isDone = true →
      e.outputs = value :: rest →
      (s.leaveOutputs request.tid rest).respond (Response.dataOut? s.activeAsid request.tid value)
        (s.options.dataDelay.map fun delay => delay request.tid) = (answer, t) →
      Performs s request answer t

theorem openTransaction_performs (op : request.op? = some .newRequest)
    (h : s.openTransaction request = .ok (answer, s')) : Performs s request answer s' := by
  unfold openTransaction at h
  cases hcheck : s.checkOpen request with
  | error code =>
    rw [hcheck] at h
    cases h
  | ok o =>
    rw [hcheck] at h
    have haccept : s.acceptOpen o = (answer, s') := Except.ok.inj h
    unfold acceptOpen at haccept
    split at haccept
    · next halloc =>
      cases haccept
      exact .exhausted op halloc
    · next tid next halloc =>
      cases haccept
      exact .opened o tid next op hcheck halloc rfl

theorem writeRegister_performs (op : request.op? = some .writeRegister)
    (h : s.writeRegister request = .ok (answer, s')) : Performs s request answer s' := by
  obtain ⟨register, hregister, h⟩ := except_bind_ok_iff.1 h
  obtain ⟨e, hfind, h⟩ := except_bind_ok_iff.1 h
  split at h
  · cases h
  · next hwritable =>
    cases h
    exact .registered e register op (orRefuse_eq_ok.1 hregister) (orRefuse_eq_ok.1 hfind) (by simpa using hwritable)

theorem writeData_performs {last : Bool} (op : request.op? = some (if last then .writeDataLast else .writeData))
    (h : s.writeData last request = .ok (answer, s')) : Performs s request answer s' := by
  obtain ⟨e, hfind, h⟩ := except_bind_ok_iff.1 h
  split at h
  · cases h
  · next hwritable =>
    have hwritable : e.isWritable = true := by simpa using hwritable
    split at h
    · next hbusy =>
      cases h
      exact .busy e last op (orRefuse_eq_ok.1 hfind) hwritable hbusy
    · next hbusy =>
      cases h
      exact .enqueued e last op (orRefuse_eq_ok.1 hfind) hwritable (by omega)

theorem readData_performs (op : request.op? = some .readData)
    (h : s.readData request = .ok (answer, s')) : Performs s request answer s' := by
  obtain ⟨e, hfind, h⟩ := except_bind_ok_iff.1 h
  split at h
  · next hdone =>
    cases h
    exact .notDone e op (orRefuse_eq_ok.1 hfind) (by simpa using hdone)
  · next hdone =>
    split at h
    · cases h
    · next value rest houtputs =>
      exact .read e value rest op (orRefuse_eq_ok.1 hfind) (by simpa using hdone) houtputs (Except.ok.inj h)

theorem performs_of_ok (h : s.perform request = .ok (answer, s')) : Performs s request answer s' := by
  unfold perform at h
  split at h
  case h_1 op => exact openTransaction_performs op h
  case h_2 op => exact writeRegister_performs op h
  case h_3 op => exact @writeData_performs _ _ _ _ false op h
  case h_4 op => exact @writeData_performs _ _ _ _ true op h
  case h_5 op => exact readData_performs op h
  case h_6 => cases h

/-- A request is only refused for good. -/
theorem perform_error {code : ExitCode} (h : s.perform request = .error code) : code.isFatal = true := by
  have htarget : ∀ {code}, s.target request = .error code → code.isFatal = true := fun h =>
    orRefuse_eq_error h ▸ rfl
  have hwrite : ∀ {last}, s.writeData last request = .error code → code.isFatal = true := by
    intro last h
    obtain h | ⟨e, -, h⟩ := except_bind_error_iff.1 h
    · exact htarget h
    · split at h
      · cases h
        rfl
      · split at h <;> cases h
  unfold perform at h
  split at h
  case h_1 =>
    unfold openTransaction at h
    cases hcheck : s.checkOpen request with
    | error code' =>
      rw [hcheck] at h
      cases h
      exact checkOpen_error hcheck
    | ok o =>
      rw [hcheck] at h
      cases h
  case h_2 =>
    obtain h | ⟨register, -, h⟩ := except_bind_error_iff.1 h
    · exact orRefuse_eq_error h ▸ rfl
    obtain h | ⟨e, -, h⟩ := except_bind_error_iff.1 h
    · exact htarget h
    · split at h
      · cases h
        rfl
      · cases h
  case h_3 => exact hwrite h
  case h_4 => exact hwrite h
  case h_5 =>
    obtain h | ⟨e, -, h⟩ := except_bind_error_iff.1 h
    · exact htarget h
    · split at h
      · cases h
      · split at h
        · cases h
          rfl
        · cases h
  case h_6 =>
    cases h
    rfl

/-! ## One transaction -/

theorem tid_of_find? {e : Entry} (h : s.find? tid = some e) : e.tid = tid := by
  simpa using List.find?_some h

theorem find?_of_mem_entries (nodup : s.tids.Nodup) {e : Entry} (he : e ∈ s.entries) :
    s.find? e.tid = some e := by
  obtain ⟨e', he'⟩ := Rows.mem_tids_iff.1 (List.mem_map_of_mem he)
  have hsame : e' = e := List.inj_on_of_nodup_map nodup (List.mem_of_find?_eq_some he') he (tid_of_find? he')
  exact he'.trans (congrArg some hsame)

/-- Whatever the intake and the phases do to an entry, a step does to the one found under an identifier. -/
theorem find?_tick {R : Entry → Entry → Prop} (same : ∀ e, R e e)
    (trans : ∀ {e e' e''}, R e e' → R e' e'' → R e e'')
    (taken : ∀ e value queue, e.queue = value :: queue →
      R e { e with queue := queue, taken := value :: e.taken })
    (advances : ∀ e, R e (e.advance s.options.latency)) (tid : Tid) :
    Option.Rel R (s.find? tid) (s.tick.find? tid) := by
  obtain ⟨rows, hdrain, hadvance⟩ := s.rel_tick (R := fun e e' => e.tid = e'.tid ∧ R e e')
    (fun e => ⟨rfl, same e⟩) (fun e value queue hq => ⟨rfl, taken e value queue hq⟩)
    (fun e => ⟨(Entry.tid_advance _ e).symm, advances e⟩)
  have hfirst := Rows.find?_rel (fun _ _ h => h.1) hdrain tid
  have hsecond := Rows.find?_rel (fun _ _ h => h.1) hadvance tid
  unfold find?
  generalize Rows.find? tid s.rows = a, Rows.find? tid rows = b, Rows.find? tid s.tick.rows = c at *
  cases hfirst with
  | none => exact hsecond.rec (fun h => .some h.2) .none
  | some h =>
    cases hsecond with
    | some h' => exact .some (trans h.2 h'.2)

/-- The responses that an answer hands over, at once or by holding them back. -/
def handedOver (s s' : Simulator) (answer : Response) : List Response :=
  answer.prompt.toList ++ s'.undelivered.drop s.undelivered.length

theorem handedOver_eq_nil (kind : answer.kind? = some .status) (deferred : s'.deferred = s.deferred) :
    handedOver s s' answer = [] := by
  unfold handedOver Response.prompt undelivered
  rw [if_pos kind, deferred, List.drop_length]
  rfl

/-- A response is handed over whether it is held back or not. -/
theorem respond_some {r : Response} {delay : Option Nat} (ok : r.exitCode = .ok)
    (kind : r.kind? ≠ some .status) (h : s.respond (some r) delay = (answer, s')) :
    answer.exitCode = .ok ∧ handedOver s s' answer = [r] ∧ s'.rows = s.rows := by
  cases responded h with
  | prompt =>
    refine ⟨ok, ?_, rfl⟩
    unfold handedOver Response.prompt
    rw [if_neg kind, List.drop_length]
    rfl
  | held =>
    refine ⟨rfl, ?_, rfl⟩
    have hprompt : (Response.status .ok).prompt = none := rfl
    unfold handedOver
    rw [hprompt, undelivered_defer, List.drop_left]
    rfl

/-- A response changes nothing but what is held back, beside a fault. -/
theorem eq_of_respond {response : Option Response} {delay : Option Nat}
    (h : s.respond response delay = (answer, s')) :
    ∃ deferred fault, s' = { s with deferred := deferred, fault := fault } := by
  cases responded h <;> exact ⟨_, _, rfl⟩

theorem respond_same {response : Option Response} {delay : Option Nat}
    (h : s.respond response delay = (answer, s')) : s'.rows = s.rows ∧ s'.statistics = s.statistics := by
  obtain ⟨_, _, rfl⟩ := eq_of_respond h
  exact ⟨rfl, rfl⟩

theorem record_same (request : Request) (s : Simulator) :
    (s.record request).cycle = s.cycle + 1 ∧ (s.record request).delivered = s.delivered ∧
      (s.record request).params = s.params ∧ (s.record request).options = s.options :=
  ⟨rfl, rfl, rfl, rfl⟩

/-- A request takes one step, hands nothing out that was held back, and leaves the engine built as it is. -/
theorem issue_same (h : s.issue request = (answer, s')) :
    s'.cycle = s.cycle + 1 ∧ s'.delivered = s.delivered ∧ s'.params = s.params ∧ s'.options = s.options := by
  obtain ⟨code, -, rfl, rfl⟩ | hperform := issue_cases h
  · exact record_same request s
  cases performs_of_ok hperform with
  | opened _ _ _ _ _ _ respond =>
    obtain ⟨_, _, rfl⟩ := eq_of_respond respond
    exact record_same request s
  | read _ _ _ _ _ _ _ respond =>
    obtain ⟨_, _, rfl⟩ := eq_of_respond respond
    exact record_same request s
  | _ => exact record_same request s

/-- Whatever is handed over for a request that is answered with `ok` carries an `ok` itself. -/
theorem exitCode_of_handedOver (h : s.issue request = (answer, s')) (ok : answer.exitCode = .ok) {r : Response}
    (hr : r ∈ s.handedOver s' answer) : r.exitCode = .ok := by
  obtain ⟨code, hrefused, rfl, -⟩ | hperform := issue_cases h
  · rw [Response.exitCode_status] at ok
    exact absurd ok (ExitCode.ne_ok_of_isFatal (perform_error hrefused))
  have hstatus : s'.deferred = s.deferred → answer.kind? = some .status → r.exitCode = .ok := by
    intro hdeferred hkind
    rw [handedOver_eq_nil hkind hdeferred] at hr
    exact absurd hr List.not_mem_nil
  cases performs_of_ok hperform with
  | exhausted => cases ok
  | @opened o tid next _ t _ _ _ respond =>
    cases ha : Response.tidAssigned? o.asid tid with
    | none =>
      rw [ha] at respond
      cases respond
      cases ok
    | some assigned =>
      obtain ⟨hok, hkind, -⟩ := Response.of_tidAssigned ha
      rw [ha] at respond
      have hgiven : s.handedOver t.countDeferredTids answer = [assigned] :=
        (respond_some hok (by simp [hkind]) respond).2.1
      rw [hgiven, List.mem_singleton] at hr
      exact hr ▸ hok
  | registered => exact hstatus rfl rfl
  | busy => cases ok
  | enqueued => exact hstatus rfl rfl
  | notDone => cases ok
  | read _ value rest _ _ _ _ respond =>
    cases hd : Response.dataOut? (s.record request).activeAsid request.tid value with
    | none =>
      rw [hd] at respond
      cases respond
      cases ok
    | some word =>
      obtain ⟨hok, hkind, -⟩ := Response.of_dataOut hd
      rw [hd] at respond
      have hgiven : s.handedOver s' answer = [word] := (respond_some hok (by simp [hkind]) respond).2.1
      rw [hgiven, List.mem_singleton] at hr
      exact hr ▸ hok

/-- What a request does to the entry of one transaction, beside what it hands over. An entry that is left
with nothing to read is freed. -/
inductive Entry.Handled (e : Entry) (request : Request) (answer : Response) (given : List Response) :
    Option Entry → Prop
  /-- The request is refused, is an open or is about another transaction. -/
  | aside : (answer.exitCode = .ok → request.op? = some .newRequest ∨ request.tid ≠ e.tid) →
      Handled e request answer given (some e)
  | registered (register : Register) : request.op? = some .writeRegister → request.tid = e.tid →
      Register.ofCode? request.registerCode.toNat = some register → answer = .status .ok → given = [] →
      e.isWritable = true →
      Handled e request answer given (some { e with registers := e.registers.set register request.registerValue })
  | fed (last : Bool) : request.op? = some (if last then .writeDataLast else .writeData) →
      request.tid = e.tid → answer = .status .ok → given = [] → e.isWritable = true →
      Handled e request answer given (some { e with queue := e.queue ++ [request.element], lastSeen := last })
  | read (value : Element) (rest : List Element) (r : Response) : request.op? = some .readData →
      request.tid = e.tid → answer.exitCode = .ok → given = [r] → r.exitCode = .ok → r.kind? = some .data →
      r.tid = e.tid → r.element = value → e.isDone = true → e.outputs = value :: rest →
      Handled e request answer given (if rest = [] then none else some { e with outputs := rest })

/-- The address space fits its field of a response. -/
def Narrow (s : Simulator) : Prop :=
  s.activeAsid.toNat < 2 ^ 10

theorem Narrow.evolves (narrow : s.Narrow) (h : Evolves s s') : s'.Narrow := by
  unfold Narrow activeAsid
  rw [h.asid]
  exact narrow

/-- An open is accepted in the address space in force. -/
theorem narrow_iff_of_checkOpen {o : Opening} (h : s.checkOpen request = .ok o) :
    s.Narrow ↔ o.asid.toNat < 2 ^ 10 := by
  obtain ⟨space, config, hspace, -⟩ := checkOpen_ok h
  unfold Narrow activeAsid
  rw [asid_of_activeSpace? hspace]
  rfl

theorem Performs.handled (h : Performs s request answer s') (nodup : s.tids.Nodup) (narrow : s.Narrow)
    {e : Entry} (find : s.find? tid = some e) :
    e.Handled request answer (handedOver s s' answer) (s'.find? tid) := by
  have htid := tid_of_find? find
  cases h with
  | exhausted op => exact find ▸ .aside fun _ => .inl op
  | @opened o new next _ t op check alloc respond =>
    have hne : new ≠ tid := by
      rintro rfl
      rw [(isTaken_of_allocate alloc).1] at find
      cases find
    have hadded : (s.addEntry (o.entry new) next).find? tid = some e :=
      (find?_addEntry (isTaken_of_allocate alloc).1 next tid).trans ((if_neg hne).trans find)
    have hfind : t.countDeferredTids.find? tid = some e :=
      (congrArg (Rows.find? tid) (respond_same respond).1).trans hadded
    rw [hfind]
    exact .aside fun _ => .inl op
  | registered e' register op code found writable =>
    by_cases hr : request.tid = tid
    · subst hr
      obtain rfl := Option.some.inj (found.symm.trans find)
      rw [find?_update_self nodup (by rintro e _ ⟨⟩; rfl), find]
      exact .registered register op htid.symm code rfl (handedOver_eq_nil rfl rfl) writable
    · rw [find?_update_ne (by rintro e _ ⟨⟩; rfl) (Ne.symm hr), find]
      exact .aside fun _ => .inr (htid ▸ hr)
  | busy => exact find ▸ .aside fun hok => ExitCode.noConfusion hok
  | enqueued e' last op found writable =>
    by_cases hr : request.tid = tid
    · subst hr
      obtain rfl := Option.some.inj (found.symm.trans find)
      unfold enqueue
      rw [find?_update_self nodup (by rintro e _ ⟨⟩; rfl), find]
      exact .fed last op htid.symm rfl (handedOver_eq_nil rfl rfl) writable
    · unfold enqueue
      rw [find?_update_ne (by rintro e _ ⟨⟩; rfl) (Ne.symm hr), find]
      exact .aside fun _ => .inr (htid ▸ hr)
  | notDone => exact find ▸ .aside fun hok => ExitCode.noConfusion hok
  | read e' value rest op found done outputs respond =>
    obtain ⟨r, hr⟩ := Response.exists_dataOut narrow request.tid value
    obtain ⟨hok, hkind, hrtid, helement⟩ := Response.of_dataOut hr
    rw [hr] at respond
    obtain ⟨hanswer, hgiven, hrows⟩ := respond_some hok (by simp [hkind]) respond
    have hfind : s'.find? tid = (s.leaveOutputs request.tid rest).find? tid :=
      congrArg (Rows.find? tid) hrows
    rw [hfind]
    by_cases ht : request.tid = tid
    · subst ht
      obtain rfl := Option.some.inj (found.symm.trans find)
      rw [find?_leaveOutputs rest nodup find]
      exact .read value rest r op htid.symm hanswer hgiven hok hkind (hrtid.trans htid.symm) helement done outputs
    · rw [find?_leaveOutputs_ne (Ne.symm ht), find]
      exact .aside fun _ => .inr (htid ▸ ht)

/-- What a raw request does to a transaction, whose entry is `e` once the step of the request has passed. -/
theorem handled_of_issue (nodup : s.tids.Nodup) (narrow : s.Narrow) (h : s.issue request = (answer, s'))
    {e : Entry} (find : s.tick.find? tid = some e) :
    e.Handled request answer (handedOver s s' answer) (s'.find? tid) := by
  obtain ⟨code, hrefused, rfl, rfl⟩ | hperform := issue_cases h
  · have hsame : (((s.record request).refuse code).2).find? tid = some e := find
    rw [hsame]
    refine .aside fun hok => absurd ?_ (ExitCode.ne_ok_of_isFatal (perform_error hrefused))
    rwa [Response.exitCode_status] at hok
  · have hnodup : (s.record request).tids.Nodup := by
      rw [tids_record]
      exact nodup
    exact (performs_of_ok hperform).handled hnodup narrow find

end NeuralEngine.Simulator
