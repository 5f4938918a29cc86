import NeuralEngine.Proofs.Response
import NeuralEngine.Proofs.Scheduler.Turn
import NeuralEngine.Proofs.Simulator.Allocation
import NeuralEngine.Proofs.Simulator.Delivery
import NeuralEngine.Proofs.Simulator.Serving

/-!
# How the simulator answers a client that keeps to the protocol

For each kind of request, the answer that a simulator gives to a client that keeps to the protocol: an
open on a network that the simulator can run finds a row and an identifier, writes to a transaction that
is not fed yet are accepted or, for an element, refused as busy, and a read yields the next output once
the transaction is done. `Answers` says what is common to all of them: nothing but the transaction that
the request is about is touched, and what is handed out comes at the end of its lane.
-/

namespace NeuralEngine

namespace Simulator

variable {s u s' : Simulator} {x : Transaction} {tid : Tid} {fed reads : Nat} {request : Request}
  {answer : Response}

/-! ## The step of a request -/

theorem alike_record (request : Request) (s : Simulator) : Alike s (s.record request) :=
  ⟨rfl, rfl, rfl, rfl, rfl⟩

theorem kept_record (request : Request) (s : Simulator) (tid : Tid) : Kept s (s.record request) tid :=
  s.kept_tick tid

theorem tids_record (request : Request) (s : Simulator) : (s.record request).tids = s.tids :=
  s.tids_tick

theorem Ordered.record (h : s.Ordered) (request : Request) : (s.record request).Ordered :=
  h.of_sublist rfl (Nat.le_succ _) (List.Sublist.refl _)

theorem isTaken_record (request : Request) (s : Simulator) (tid : Tid) :
    (s.record request).isTaken tid = s.isTaken tid := by
  have hnone := (s.kept_record request tid).find?_eq_none_iff
  unfold isTaken
  congr 1
  rw [Bool.eq_iff_iff, Option.isSome_iff_ne_none, Option.isSome_iff_ne_none, Ne, Ne, hnone]

theorem resident_eq (s : Simulator) : s.resident = s.tids.length :=
  (List.length_map _).symm

theorem issue_of_perform (h : (s.record request).perform request = .ok (answer, s')) :
    s.issue request = (answer, s') := by
  simp only [issue, h]

/-- A request is refused for good, or answered by what its operation does after the step. -/
theorem issue_cases (h : s.issue request = (answer, s')) :
    (∃ code, (s.record request).perform request = .error code ∧
        answer = .status code ∧ s' = ((s.record request).refuse code).2) ∨
      (s.record request).perform request = .ok (answer, s') := by
  unfold issue at h
  cases hp : (s.record request).perform request with
  | error code =>
    simp only [hp] at h
    cases h
    exact .inl ⟨code, rfl, rfl, rfl⟩
  | ok given =>
    simp only [hp] at h
    exact .inr (congrArg Except.ok h)

theorem target_eq {e : Entry} (he : s.find? request.tid = some e) : s.target request = .ok e := by
  unfold target
  rw [he]
  rfl

/-- A request about one transaction: the answer and what it leaves. -/
structure Answers (s s' : Simulator) (request : Request) (answer : Response) (given : List Response)
    (tid : Tid) : Prop where
  issue_eq : s.issue request = (answer, s')
  gives : Gives s s' answer given
  nodup : s'.tids.Nodup
  others : ∀ y, y ≠ tid → Kept s s' y

/-- A request is answered by what its operation does after the step. -/
theorem answers_of_perform (perform : (s.record request).perform request = .ok (answer, s'))
    {given : List Response} (gives : Gives (s.record request) s' answer given) (nodup : s'.tids.Nodup)
    (others : ∀ y, y ≠ tid → Kept (s.record request) s' y) : Answers s s' request answer given tid where
  issue_eq := issue_of_perform perform
  gives := gives.of_step (s.alike_record request) rfl
  nodup := nodup
  others y hy := (s.kept_record request y).trans (others y hy)

section Update

variable {f : Entry → Option Entry}

theorem find?_update_ne (keeps : ∀ e e', f e = some e' → e'.tid = e.tid) {y : Tid} (h : y ≠ tid) :
    (s.update tid f).find? y = s.find? y :=
  Rows.find?_update_ne keeps h

theorem find?_update_self (nodup : s.tids.Nodup) (keeps : ∀ e e', f e = some e' → e'.tid = e.tid) :
    (s.update tid f).find? tid = (s.find? tid).bind f :=
  Rows.find?_update_self nodup keeps

theorem nodup_update (nodup : s.tids.Nodup) (keeps : ∀ e e', f e = some e' → e'.tid = e.tid) (tid : Tid) :
    (s.update tid f).tids.Nodup :=
  nodup.sublist (Rows.tids_update_sublist keeps tid s.rows)

end Update

/-! ## Writes -/

/-- A register write is accepted before the last element. -/
theorem answers_setRegister (ordered : s.Ordered) (nodup : s.tids.Nodup)
    (serves : s.Serves x tid fed reads) (lt : reads < x.outputCount) (unfed : fed < x.stream.size)
    (register : Register) (value : RegisterValue) :
    ∃ s', Answers s s' (.setRegister tid register value) (.status .ok) [] tid ∧ Kept s s' tid := by
  let request := Request.setRegister tid register value
  let change : Entry → Option Entry := fun e =>
    some { e with registers := e.registers.set register request.registerValue }
  have hkeeps : ∀ e e', change e = some e' → e'.tid = e.tid := by
    rintro e _ ⟨⟩
    rfl
  obtain ⟨e, he, hserves⟩ := ((s.kept_record request tid).serves serves).entry lt
  have htarget : (s.record request).target request = .ok e :=
    target_eq (by rw [Request.tid_setRegister]; exact he)
  have hwritable : e.isWritable = true := hserves.isWritable unfed
  have hperform : (s.record request).perform request =
      .ok (.status .ok, (s.record request).update tid change) := by
    show (s.record request).writeRegister request = _
    unfold writeRegister
    rw [Request.registerCode_setRegister, Register.toNat_code, Register.ofCode?_code, htarget,
      Request.tid_setRegister]
    simp [orRefuse, bind, Except.bind, hwritable, pure, Except.pure, change]
  have hnodup : (s.record request).tids.Nodup := by
    rw [tids_record]
    exact nodup
  refine ⟨_, answers_of_perform hperform ?_ (nodup_update hnodup hkeeps tid) ?_, ?_⟩
  · exact .of_status rfl ⟨rfl, rfl, rfl, rfl, rfl⟩
      ((ordered.record request).of_sublist rfl (Nat.le_refl _) (List.Sublist.refl _)) rfl
  · exact fun y hy => .of_eq (find?_update_ne hkeeps hy)
  · refine (s.kept_record request tid).trans ?_
    show Option.Rel Entry.Kept _ _
    rw [find?_update_self hnodup hkeeps, he]
    exact .some ⟨rfl, fun h => h.registers _⟩

/-- The next element is accepted, or refused as busy. -/
theorem answers_writeData (ordered : s.Ordered) (nodup : s.tids.Nodup)
    (serves : s.Serves x tid fed reads) (lt : reads < x.outputCount) {value : Element} {last : Bool}
    (entry : x.stream[fed]? = some value) (last_eq : last = (fed + 1 == x.stream.size)) :
    ∃ answer s', Answers s s' (.writeData tid value last) answer [] tid ∧
      (answer = .status .ok ∧ s'.Serves x tid (fed + 1) reads ∨
        answer = .status .queueBusy ∧ Kept s s' tid) := by
  let request := Request.writeData tid value last
  have unfed : fed < x.stream.size := (Array.getElem?_eq_some_iff.1 entry).1
  obtain ⟨e, he, hserves⟩ := ((s.kept_record request tid).serves serves).entry lt
  have htarget : (s.record request).target request = .ok e :=
    target_eq (by rw [Request.tid_writeData]; exact he)
  have hwritable : e.isWritable = true := hserves.isWritable unfed
  have hordered := ordered.record request
  have hnodup : (s.record request).tids.Nodup := by
    rw [tids_record]
    exact nodup
  have hperform : (s.record request).perform request =
      if 0 < (s.record request).forcedBusy ∨ (s.record request).options.queueDepth ≤ e.queue.length then
        .ok (s.record request).refuseBusy
      else .ok (.status .ok, (s.record request).enqueue tid value last) := by
    have hwrite : (s.record request).perform request = (s.record request).writeData last request := by
      cases last <;> rfl
    rw [hwrite]
    unfold writeData
    rw [htarget, Request.tid_writeData, Request.element_writeData]
    simp only [bind, Except.bind, hwritable, pure, Except.pure, Bool.not_true, Bool.false_eq_true, if_false]
  by_cases hbusy : 0 < (s.record request).forcedBusy ∨
      (s.record request).options.queueDepth ≤ e.queue.length
  · rw [if_pos hbusy] at hperform
    refine ⟨_, _, answers_of_perform hperform ?_ hnodup fun y _ => .of_eq rfl, .inr ⟨rfl, ?_⟩⟩
    · exact .of_status rfl ⟨rfl, rfl, rfl, rfl, rfl⟩
        (hordered.of_sublist rfl (Nat.le_refl _) (List.Sublist.refl _)) rfl
    · exact s.kept_record request tid
  · rw [if_neg hbusy] at hperform
    let change : Entry → Option Entry := fun e =>
      some { e with queue := e.queue ++ [value], lastSeen := last }
    have hkeeps : ∀ e e', change e = some e' → e'.tid = e.tid := by
      rintro e _ ⟨⟩
      rfl
    refine ⟨_, _, answers_of_perform hperform ?_ (nodup_update hnodup hkeeps tid) ?_, .inl ⟨rfl, ?_⟩⟩
    · exact .of_status rfl ⟨rfl, rfl, rfl, rfl, rfl⟩
        (hordered.of_sublist rfl (Nat.le_refl _) (List.Sublist.refl _)) rfl
    · exact fun y hy => .of_eq (find?_update_ne hkeeps hy)
    · have haccept := hserves.accept entry
      rw [← last_eq] at haccept
      refine serves_of_entry lt ?_ haccept
      show ((s.record request).update tid change).find? tid = _
      rw [find?_update_self hnodup hkeeps, he]
      rfl

/-! ## Reads -/

section Leave

variable {rest : List Element}

theorem tid_of_leave {e e' : Entry}
    (h : (if rest = [] then none else some { e with outputs := rest }) = some e') : e'.tid = e.tid := by
  split at h
  · cases h
  · cases h
    rfl

theorem find?_leaveOutputs (rest : List Element) (nodup : s.tids.Nodup) {e : Entry}
    (he : s.find? tid = some e) :
    (s.leaveOutputs tid rest).find? tid = if rest = [] then none else some { e with outputs := rest } := by
  unfold leaveOutputs
  rw [find?_update_self nodup fun _ _ => tid_of_leave, he]
  rfl

theorem find?_leaveOutputs_ne {y : Tid} (h : y ≠ tid) : (s.leaveOutputs tid rest).find? y = s.find? y :=
  find?_update_ne (fun _ _ => tid_of_leave) h

theorem nodup_leaveOutputs (nodup : s.tids.Nodup) : (s.leaveOutputs tid rest).tids.Nodup :=
  nodup_update nodup (fun _ _ => tid_of_leave) tid

/-- Once the next output was taken, the simulator serves what is left; it frees the transaction with
the last output. -/
theorem serves_leave (nodup : s.tids.Nodup) {e : Entry} {value : Element} (he : s.find? tid = some e)
    (serves : e.Serves x fed reads) (done : e.phase = .done) (outputs : e.outputs = value :: rest) :
    (s.leaveOutputs tid rest).Serves x tid fed (reads + 1) := by
  have hfind := find?_leaveOutputs rest nodup he
  have hread := serves.read done outputs
  have hlen : (x.expected.drop (reads + 1)).length = rest.length :=
    congrArg List.length (hread.outputs done).symm
  rw [List.length_drop, Transaction.length_expected] at hlen
  by_cases hrest : rest = []
  · rw [if_pos hrest] at hfind
    unfold Serves
    rw [if_neg, hfind]
    rw [hrest, List.length_nil] at hlen
    omega
  · rw [if_neg hrest] at hfind
    have hpos : 0 < rest.length := List.length_pos_iff.2 hrest
    exact serves_of_entry (by omega) hfind hread

end Leave

/-- What a read does when the transaction is done. -/
theorem readData_of_done {e : Entry} {value : Element} {rest : List Element} (he : s.find? tid = some e)
    (done : e.isDone = true) (outputs : e.outputs = value :: rest) :
    s.readData (.readData tid) = .ok ((s.leaveOutputs tid rest).respond
      (Response.dataOut? s.activeAsid tid value) (s.options.dataDelay.map fun delay => delay tid)) := by
  have htarget : s.target (.readData tid) = .ok e := target_eq (by rw [Request.tid_readData]; exact he)
  unfold readData
  rw [htarget, Request.tid_readData]
  simp only [bind, Except.bind, done, outputs, pure, Except.pure, Bool.not_true, Bool.false_eq_true,
    if_false]

/-- What a read does before that. -/
theorem readData_of_not_done {e : Entry} (he : s.find? tid = some e) (done : e.isDone = false) :
    s.readData (.readData tid) = .ok s.refuseNotDone := by
  have htarget : s.target (.readData tid) = .ok e := target_eq (by rw [Request.tid_readData]; exact he)
  unfold readData
  rw [htarget]
  simp only [bind, Except.bind, done, pure, Except.pure, Bool.not_false, if_true]

/-- A read before the transaction is done is put off; after that it yields the next output, and the
transaction is freed with the last one. -/
theorem answers_readData (ordered : s.Ordered) (nodup : s.tids.Nodup) {asid : Asid}
    (asid_eq : s.asid = some asid) (narrow : asid.toNat < 2 ^ 10)
    (serves : s.Serves x tid fed reads) (lt : reads < x.outputCount) :
    ∃ answer s' given, Answers s s' (.readData tid) answer given tid ∧
      (answer = .status .notDone ∧ given = [] ∧ Kept s s' tid ∨
        answer.exitCode = .ok ∧ (answer.kind? = some .data ∨ answer.kind? = some .status) ∧
          s'.Serves x tid fed (reads + 1) ∧
          ∃ r : Response, given = [r] ∧ r.kind? = some .data ∧ r.tid = tid ∧
            x.expected[reads]? = some r.element) := by
  let request := Request.readData tid
  obtain ⟨e, he, hserves⟩ := ((s.kept_record request tid).serves serves).entry lt
  have hordered := ordered.record request
  have hnodup : (s.record request).tids.Nodup := by
    rw [tids_record]
    exact nodup
  cases hdone : e.isDone with
  | false =>
    have hperform : (s.record request).perform request = .ok (s.record request).refuseNotDone :=
      readData_of_not_done he hdone
    refine ⟨_, _, [], answers_of_perform hperform ?_ hnodup fun y _ => .of_eq rfl, .inl ⟨rfl, rfl, ?_⟩⟩
    · exact .of_status rfl ⟨rfl, rfl, rfl, rfl, rfl⟩
        (hordered.of_sublist rfl (Nat.le_refl _) (List.Sublist.refl _)) rfl
    · exact s.kept_record request tid
  | true =>
    have hphase : e.phase = .done := by simpa [Entry.isDone] using hdone
    have hlt : reads < x.expected.length := by
      rw [Transaction.length_expected]
      exact lt
    have houtputs : e.outputs = x.expected[reads] :: x.expected.drop (reads + 1) := by
      rw [← List.drop_eq_getElem_cons hlt]
      exact hserves.outputs hphase
    have hactive : (s.record request).activeAsid = asid := by
      show s.asid.getD 0 = asid
      rw [asid_eq]
      rfl
    obtain ⟨r, hr⟩ := Response.exists_dataOut narrow tid x.expected[reads]
    obtain ⟨hok, hkind, htid, helement⟩ := Response.of_dataOut hr
    let left := (s.record request).leaveOutputs tid (x.expected.drop (reads + 1))
    have hleft : left.Ordered := hordered.of_sublist rfl (Nat.le_refl _) (List.Sublist.refl _)
    have hlane : r.lane = some tid := by simp [Response.lane, hkind, htid]
    have hdelay : (s.record request).options.delay r.lane = left.options.delay r.lane := rfl
    obtain ⟨answer, s', hrespond, hanswer, hsame, hrows, hgives⟩ :=
      gives_respond hleft hok (by simp [hkind]) hdelay
    have hperform : (s.record request).perform request = .ok (answer, s') := by
      show (s.record request).readData request = _
      rw [readData_of_done he hdone houtputs, hactive, hr]
      rw [hlane] at hrespond
      exact congrArg Except.ok hrespond
    refine ⟨answer, s', [r], answers_of_perform hperform
      (hgives.of_step ⟨rfl, rfl, rfl, rfl, rfl⟩ rfl) ?_ fun y hy => ?_,
      .inr ⟨hanswer, ?_, ?_, r, rfl, hkind, htid, ?_⟩⟩
    · show (Rows.tids s'.rows).Nodup
      rw [hrows]
      exact nodup_leaveOutputs hnodup
    · show Option.Rel Entry.Kept _ (Rows.find? y s'.rows)
      rw [hrows]
      exact Kept.of_eq (find?_leaveOutputs_ne hy)
    · obtain hsame | rfl := hsame
      · exact .inr hsame
      · exact .inl hkind
    · have hserved : left.Serves x tid fed (reads + 1) := serves_leave hnodup he hserves hphase houtputs
      refine Kept.serves (.of_eq ?_) hserved
      show Rows.find? tid s'.rows = _
      rw [hrows]
      rfl
    · rw [helement]
      exact List.getElem?_eq_getElem hlt

/-! ## Opens -/

/-- The simulator can run the network of a transaction: its address space has a configuration for it
that is not empty, of the block size of the engine and with as many outputs as the transaction awaits. -/
def Runs (s : Simulator) (x : Transaction) : Prop :=
  ∃ asid table config, s.asid = some asid ∧ asid.toNat < 2 ^ 10 ∧ s.table = some table ∧
    table.config? asid x.nnid = some config ∧ config.size ≠ 0 ∧
    config.elementsPerBlock = s.params.elementsPerBlock ∧ declaredOutputs config = x.outputCount

theorem Runs.of_alike (h : s.Runs x) (alike : Alike s s') : s'.Runs x := by
  unfold Runs
  rw [alike.asid, alike.table, alike.params]
  exact h

/-- An open on a network that is not empty and has the block size of the engine is accepted if a row is
free. -/
theorem checkOpen_newTransaction {asid : Asid} {table : ConfigTable} {nnid : Nnid} {config : NetworkConfig}
    (active : s.asid = some asid) (bound : s.table = some table) (network : table.config? asid nnid = some config)
    (nonempty : config.size ≠ 0) (blocks : config.elementsPerBlock = s.params.elementsPerBlock)
    (room : s.resident < s.capacity) (mode : LearningMode) (trainOutputs : BitVec 16) :
    s.checkOpen (.newTransaction nnid mode trainOutputs) =
      .ok ⟨asid, nnid, mode, trainOutputs.toNat, declaredOutputs config⟩ := by
  obtain ⟨space, hspace, hnnid⟩ := Option.bind_eq_some_iff.1 network
  have hactive : s.activeSpace? = some (asid, space) := by
    unfold activeSpace?
    rw [active, bound]
    simp [hspace]
  have husable : s.usableConfig space nnid = .ok config := by
    unfold usableConfig
    simp [hnnid, nonempty, blocks]
  unfold checkOpen
  rw [hactive, Request.nnid_newTransaction, Request.modeCode_newTransaction,
    Request.trainOutputs_newTransaction, LearningMode.toNat_code, LearningMode.ofCode?_code]
  have hroom : ¬ s.capacity ≤ s.resident := Nat.not_le.2 room
  simp [orRefuse, bind, Except.bind, husable, hroom, pure, Except.pure]

/-- The open of a transaction that the simulator can run is accepted if a row is free. -/
theorem checkOpen_opening (runs : s.Runs x) (few : x.trainOutputs < 2 ^ 16)
    (room : s.resident < s.capacity) :
    ∃ asid, s.asid = some asid ∧ asid.toNat < 2 ^ 10 ∧
      s.checkOpen x.opening = .ok ⟨asid, x.nnid, x.mode, x.trainOutputs, x.outputCount⟩ := by
  obtain ⟨asid, table, config, hasid, hnarrow, htable, hconfig, hsize, hblocks, houtputs⟩ := runs
  have hcheck := checkOpen_newTransaction hasid htable hconfig hsize hblocks room x.mode
    (BitVec.ofNat 16 x.trainOutputs)
  rw [BitVec.toNat_ofNat, Nat.mod_eq_of_lt few, houtputs] at hcheck
  exact ⟨asid, hasid, hnarrow, hcheck⟩

section Open

variable {e : Entry} {next : Tid}

theorem find?_addEntry (fresh : s.find? e.tid = none) (next y : Tid) :
    (s.addEntry e next).find? y = if e.tid = y then some e else s.find? y :=
  Rows.find?_place fresh y

theorem nodup_addEntry (nodup : s.tids.Nodup) (fresh : s.find? e.tid = none) (next : Tid) :
    (s.addEntry e next).tids.Nodup :=
  Rows.nodup_place nodup fresh

end Open

/-- An open that is accepted adds the entry and hands the identifier over. -/
theorem answers_accepted (ordered : s.Ordered) (nodup : s.tids.Nodup) {o : Opening} {next : Tid}
    {r : Response} (op : request.op? = some .newRequest)
    (check : (s.record request).checkOpen request = .ok o)
    (alloc : (s.record request).allocate? = some (r.tid, next))
    (assigned : Response.tidAssigned? o.asid r.tid = some r) :
    ∃ answer s', Answers s s' request answer [r] r.tid ∧ answer.exitCode = .ok ∧
      s.find? r.tid = none ∧ (∀ d ∈ s.deferred, d.response.tid ≠ r.tid) ∧
      s'.find? r.tid = some (o.entry r.tid) := by
  have hordered := ordered.record request
  have hnodup : (s.record request).tids.Nodup := by
    rw [tids_record]
    exact nodup
  obtain ⟨hfree, hunsent⟩ := isTaken_of_allocate alloc
  obtain ⟨hok, hkind, -⟩ := Response.of_tidAssigned assigned
  let added := (s.record request).addEntry (o.entry r.tid) next
  have hadded : added.Ordered := hordered.of_sublist rfl (Nat.le_refl _) (List.Sublist.refl _)
  have hlane : r.lane = none := by simp [Response.lane, hkind]
  have hdelay : (s.record request).options.delay r.lane = added.options.delay r.lane := rfl
  obtain ⟨answer, s', hrespond, hanswer, -, hrows, hgives⟩ :=
    gives_respond hadded hok (by simp [hkind]) hdelay
  have hperform : (s.record request).perform request = .ok (answer, s'.countDeferredTids) := by
    unfold perform
    simp only [op]
    unfold openTransaction acceptOpen
    rw [check, Except.map, alloc]
    simp only [assigned]
    rw [hlane] at hrespond
    simp only [added, Options.delay] at hrespond
    rw [hrespond]
  have hfind : ∀ y, s'.countDeferredTids.find? y =
      if r.tid = y then some (o.entry r.tid) else (s.record request).find? y := by
    intro y
    show Rows.find? y s'.rows = _
    rw [hrows]
    exact find?_addEntry hfree next y
  have hopened : Gives (s.record request) s' answer [r] := hgives.of_step ⟨rfl, rfl, rfl, rfl, rfl⟩ rfl
  have hcounted : Gives (s.record request) s'.countDeferredTids answer [r] :=
    hopened.congr ⟨rfl, rfl, rfl, rfl, rfl⟩ rfl rfl
  refine ⟨answer, s'.countDeferredTids, answers_of_perform hperform hcounted ?_ fun y hy => ?_, hanswer,
    ?_, hunsent, ?_⟩
  · show (Rows.tids s'.rows).Nodup
    rw [hrows]
    exact nodup_addEntry hnodup hfree next
  · refine .of_eq ?_
    rw [hfind, if_neg fun h => hy h.symm]
  · exact (s.kept_record request r.tid).find?_eq_none_iff.1 hfree
  · rw [hfind, if_pos rfl]

/-- The entry of an open that was just accepted serves its transaction. -/
theorem serves_entry {o : Opening} (ready : x.Ready) (mode : o.mode = x.mode)
    (trainOutputs : o.trainOutputs = x.trainOutputs) (outputCount : o.outputCount = x.outputCount)
    (find : s.find? tid = some (o.entry tid)) : s.Serves x tid 0 0 := by
  have hpos : 0 < x.stream.size := by
    have hlt := ready.trainOutputs_lt
    omega
  exact serves_of_entry ready.outputs_pos find
    (.fresh mode trainOutputs outputCount rfl rfl rfl rfl hpos)

/-- An open is answered with an identifier that nothing is about. -/
theorem answers_opening (ordered : s.Ordered) (nodup : s.tids.Nodup) (runs : s.Runs x) (ready : x.Ready)
    (room : s.resident < s.capacity)
    (few : ∀ xs : List Tid, xs.Nodup → (∀ y ∈ xs, s.isTaken y = true) →
      xs.length < reach s.options.tidStride) :
    ∃ answer s' r, Answers s s' x.opening answer [r] r.tid ∧ answer.exitCode = .ok ∧
      r.kind? = some .tid ∧ s.find? r.tid = none ∧ (∀ d ∈ s.deferred, d.response.tid ≠ r.tid) ∧
      s'.Serves x r.tid 0 0 ∧ ∃ next, (s.record x.opening).allocate? = some (r.tid, next) := by
  have hroom : (s.record x.opening).resident < (s.record x.opening).capacity := by
    rw [resident_eq, tids_record, ← resident_eq]
    exact room
  obtain ⟨tid, next, halloc⟩ := exists_allocate (s := s.record x.opening) fun xs hxs htaken =>
    few xs hxs fun y hy => by rw [← isTaken_record x.opening]; exact htaken y hy
  obtain ⟨asid, -, hnarrow, hcheck⟩ :=
    checkOpen_opening (runs.of_alike (s.alike_record x.opening)) ready.few hroom
  obtain ⟨r, hr⟩ := Response.exists_tidAssigned hnarrow tid
  obtain ⟨-, hkind, rfl⟩ := Response.of_tidAssigned hr
  obtain ⟨answer, s', hanswers, hok, hfree, hunsent, hfind⟩ :=
    answers_accepted ordered nodup rfl hcheck halloc hr
  exact ⟨answer, s', r, hanswers, hok, hkind, hfree, hunsent, serves_entry ready rfl rfl rfl hfind,
    next, halloc⟩

end Simulator

end NeuralEngine
