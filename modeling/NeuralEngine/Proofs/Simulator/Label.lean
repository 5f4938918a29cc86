import NeuralEngine.Proofs.Simulator.Performs

/-!
# The network and the registers of a transaction

What the table keeps of a transaction beside its stream: the network, which its open names, and the registers,
which hold the values that were written last. Of all requests only a register write about the transaction
changes them, and nothing that the simulator does on its own does (`Labelled`). The peak of the identifiers
held back follows from the same account of what a request does: it grows with an open that is accepted and
with nothing else.
-/

namespace NeuralEngine.Simulator

open Inversion

variable {s s' : Simulator} {request : Request} {answer : Response} {x : Transaction} {tid : Tid}
  {written : Nat}

/-! ## Entries -/

/-- The entry is about the network of transaction `x`, and its registers hold what the first `written` register
writes of `x` leave there: each the last value that was written to it. -/
structure Entry.Labelled (x : Transaction) (written : Nat) (e : Entry) : Prop where
  nnid_eq : e.nnid = x.nnid
  registers_eq : ∀ register, e.registers.get register = (x.registers.take written).reverse.lookup register

/-- The later entry is about the same network and has the same registers. -/
structure Entry.SameLabel (e e' : Entry) : Prop where
  nnid_eq : e'.nnid = e.nnid
  registers_eq : e'.registers = e.registers

namespace Entry

variable {e e' : Entry}

theorem SameLabel.refl (e : Entry) : SameLabel e e :=
  ⟨rfl, rfl⟩

theorem SameLabel.trans {e'' : Entry} (h : SameLabel e e') (h' : SameLabel e' e'') : SameLabel e e'' :=
  ⟨h'.nnid_eq.trans h.nnid_eq, h'.registers_eq.trans h.registers_eq⟩

theorem sameLabel_advance (latency : Nat) (e : Entry) : SameLabel e (e.advance latency) := by
  unfold Entry.advance
  split
  · split <;> exact ⟨rfl, rfl⟩
  all_goals exact ⟨rfl, rfl⟩

theorem Labelled.of_same (h : e.Labelled x written) (same : SameLabel e e') : e'.Labelled x written where
  nnid_eq := same.nnid_eq.trans h.nnid_eq
  registers_eq := same.registers_eq ▸ h.registers_eq

/-- The next register write is taken. -/
theorem Labelled.set (h : e.Labelled x written) {register : Register} {value : RegisterValue}
    (entry : x.registers[written]? = some (register, value)) :
    Labelled x (written + 1) { e with registers := e.registers.set register value } where
  nnid_eq := h.nnid_eq
  registers_eq other := by
    have hwrites : (x.registers.take (written + 1)).reverse =
        (register, value) :: (x.registers.take written).reverse := by
      rw [List.take_add_one, entry, Option.toList_some, List.reverse_append]
      rfl
    rw [hwrites, List.lookup_cons]
    by_cases ho : other = register
    · rw [ho, Registers.get_set, beq_self_eq_true]
    · rw [Registers.get_set_ne _ _ ho, h.registers_eq, beq_eq_false_iff_ne.2 ho]

/-- A request leaves the label of an entry as it is, unless it writes a register of it. -/
theorem Handled.sameLabel {given : List Response} {left : Option Entry} (h : e.Handled request answer given left)
    (remains : left = some e') (apart : request.op? ≠ some .writeRegister ∨ request.tid ≠ e.tid) :
    SameLabel e e' := by
  cases h with
  | aside =>
    cases remains
    exact .refl e
  | registered _ op about => exact absurd about (apart.resolve_left fun hop => hop op)
  | fed =>
    cases remains
    exact ⟨rfl, rfl⟩
  | read =>
    split at remains
    · cases remains
    · cases remains
      exact ⟨rfl, rfl⟩

end Entry

/-! ## One transaction -/

/-- The entry under an identifier, if it is there, is labelled for transaction `x`. -/
def Labelled (s : Simulator) (x : Transaction) (tid : Tid) (written : Nat) : Prop :=
  ∀ e, s.find? tid = some e → e.Labelled x written

theorem Labelled.of_find? (h : s.Labelled x tid written) (find : s'.find? tid = s.find? tid) :
    s'.Labelled x tid written := by
  unfold Labelled
  rw [find]
  exact h

theorem labelled_opened {o : Opening} (find : s.find? tid = some (o.entry tid)) (nnid : o.nnid = x.nnid) :
    s.Labelled x tid 0 := by
  intro e he
  obtain rfl : o.entry tid = e := Option.some.inj (find.symm.trans he)
  exact ⟨nnid, fun register => by cases register <;> rfl⟩

theorem Labelled.tick (h : s.Labelled x tid written) : s.tick.Labelled x tid written := by
  intro e' he'
  have hrel := find?_tick Entry.SameLabel.refl Entry.SameLabel.trans (fun _ _ _ _ => ⟨rfl, rfl⟩)
    (Entry.sameLabel_advance s.options.latency) tid
  rw [he'] at hrel
  generalize hfind : s.find? tid = a at hrel
  cases hrel with
  | some same => exact (h _ hfind).of_same same

/-- No request but an open adds to the table. -/
theorem tids_issue (h : s.issue request = (answer, s')) (op : request.op? ≠ some .newRequest) :
    s'.tids.Sublist s.tids := by
  rw [← tids_record request s]
  obtain ⟨code, -, -, rfl⟩ | hperform := issue_cases h
  · exact .refl _
  · cases performs_of_ok hperform with
    | exhausted hop => exact absurd hop op
    | opened _ _ _ hop => exact absurd hop op
    | registered => exact Rows.tids_update_sublist (by rintro e _ ⟨⟩; rfl) _ _
    | busy => exact .refl _
    | enqueued => exact Rows.tids_update_sublist (by rintro e _ ⟨⟩; rfl) _ _
    | notDone => exact .refl _
    | read _ _ rest _ _ _ _ respond =>
      show (Rows.tids s'.rows).Sublist _
      rw [(respond_same respond).1]
      exact Rows.tids_update_sublist (fun _ _ => tid_of_leave) _ _

section Issue

variable (h : s.Labelled x tid written) (nodup : s.tids.Nodup) (narrow : s.Narrow)

include nodup narrow

/-- What a request finds under an identifier that it does not add to the table, and what it does to it. -/
theorem handled_of_find? (issue : s.issue request = (answer, s')) (held : tid ∈ s'.tids → tid ∈ s.tids)
    {e' : Entry} (find : s'.find? tid = some e') :
    ∃ e, s.tick.find? tid = some e ∧ e.Handled request answer (handedOver s s' answer) (some e') := by
  have hmem : tid ∈ s.tick.tids := by
    rw [tids_tick]
    exact held (Rows.mem_tids_iff.2 ⟨e', find⟩)
  obtain ⟨e, he⟩ := Rows.mem_tids_iff.1 hmem
  exact ⟨e, he, find ▸ handled_of_issue nodup narrow issue he⟩

include h

/-- A request leaves the label of a transaction as it is, unless it writes a register of it. -/
theorem Labelled.issue (issue : s.issue request = (answer, s'))
    (apart : request.op? ≠ some .writeRegister ∨ request.tid ≠ tid) (held : tid ∈ s'.tids → tid ∈ s.tids) :
    s'.Labelled x tid written := by
  intro e' he'
  obtain ⟨e, he, handled⟩ := handled_of_find? nodup narrow issue held he'
  exact (h.tick e he).of_same (handled.sameLabel rfl (tid_of_find? he ▸ apart))

/-- A register write that is taken is the next one of the transaction. -/
theorem Labelled.setRegister {register : Register} {value : RegisterValue}
    (issue : s.issue (.setRegister tid register value) = (answer, s')) (ok : answer.exitCode = .ok)
    (entry : x.registers[written]? = some (register, value)) : s'.Labelled x tid (written + 1) := by
  intro e' he'
  have hop : (Request.setRegister tid register value).op? = some .writeRegister := rfl
  have htids := tids_issue issue (by rw [hop]; simp)
  obtain ⟨e, he, handled⟩ := handled_of_find? nodup narrow issue (fun hmem => htids.subset hmem) he'
  have htid := tid_of_find? he
  generalize hr : Request.setRegister tid register value = request at handled hop
  generalize hleft : some e' = left at handled
  cases handled with
  | aside other =>
    obtain hopen | hne := other ok
    · rw [hop] at hopen
      cases hopen
    · rw [← hr, Request.tid_setRegister] at hne
      exact absurd htid.symm hne
  | registered register' _ _ code =>
    cases hleft
    rw [← hr, Request.registerCode_setRegister, Register.toNat_code, Register.ofCode?_code] at code
    obtain rfl := Option.some.inj code
    rw [← hr, Request.registerValue_setRegister]
    exact (h.tick e he).set entry
  | fed last op =>
    rw [hop] at op
    cases last <;> cases op
  | read _ _ _ op =>
    rw [hop] at op
    cases op

end Issue

/-! ## The peak of the identifiers held back -/

/-- The identifiers held back are those in the lane of identifiers. -/
theorem deferredTids_eq (s : Simulator) : s.deferredTids = (along none s.undelivered).length := by
  have hlane : ∀ r : Response, (r.kind? == some .tid) = (r.lane == none) := by
    intro r
    unfold Response.lane
    split
    · next kind =>
      rw [kind]
      rfl
    · next kind => exact beq_eq_false_iff_ne.2 kind
  unfold deferredTids along undelivered
  rw [← List.countP_eq_length_filter, List.countP_map]
  exact List.countP_congr fun d _ => by rw [hlane, Function.comp_apply]

theorem peakDeferredTids_issue (h : s.issue request = (answer, s')) (op : request.op? ≠ some .newRequest) :
    s'.statistics.peakDeferredTids = s.statistics.peakDeferredTids := by
  obtain ⟨code, -, -, rfl⟩ | hperform := issue_cases h
  · rfl
  · cases performs_of_ok hperform with
    | exhausted hop => exact absurd hop op
    | opened _ _ _ hop => exact absurd hop op
    | read _ _ _ _ _ _ _ respond =>
      rw [(respond_same respond).2]
      rfl
    | registered => rfl
    | busy => rfl
    | enqueued => rfl
    | notDone => rfl

/-- An open that is accepted takes the identifiers held back after it into their peak; if identifiers are
deferred, the answer to it is a bare `ok`. -/
theorem peakDeferredTids_open (h : s.issue request = (answer, s')) (op : request.op? = some .newRequest)
    (ok : answer.exitCode = .ok) :
    s'.statistics.peakDeferredTids = max s.statistics.peakDeferredTids s'.deferredTids ∧
      ∀ delay, s.options.tidDelay = some delay → answer.kind? = some .status := by
  obtain ⟨code, hrefused, rfl, -⟩ | hperform := issue_cases h
  · rw [Response.exitCode_status] at ok
    exact absurd ok (ExitCode.ne_ok_of_isFatal (perform_error hrefused))
  · cases performs_of_ok hperform with
    | exhausted => cases ok
    | @opened o tid next _ t _ _ _ respond =>
      constructor
      · show max t.statistics.peakDeferredTids t.deferredTids = _
        rw [(respond_same respond).2]
        rfl
      · intro delay hdelay
        have hoptions : (s.record request).options.tidDelay = some delay := hdelay
        rw [hoptions] at respond
        cases ha : Response.tidAssigned? o.asid tid with
        | none =>
          rw [ha] at respond
          cases respond
          rfl
        | some r =>
          rw [ha] at respond
          cases respond
          rfl
    | registered _ _ hop => simp [op] at hop
    | busy _ last hop => cases last <;> simp [op] at hop
    | enqueued _ last hop => cases last <;> simp [op] at hop
    | notDone _ hop => simp [op] at hop
    | read _ _ _ hop => simp [op] at hop

/-! ## Opens that find a free row -/

/-- Of all that an open is checked for, the free row alone makes it a bad request. -/
theorem checkOpen_opening_error (room : s.resident < s.capacity) {code : ExitCode}
    (h : s.checkOpen x.opening = .error code) : code ≠ .badRequest := by
  obtain h | ⟨⟨asid, space⟩, -, h⟩ := except_bind_error_iff.1 h
  · exact orRefuse_eq_error h ▸ ExitCode.noConfusion
  obtain h | ⟨config, -, h⟩ := except_bind_error_iff.1 h
  · unfold usableConfig at h
    repeat' split at h
    all_goals cases h
    all_goals exact ExitCode.noConfusion
  obtain h | ⟨mode, -, h⟩ := except_bind_error_iff.1 h
  · unfold Transaction.opening at h
    rw [Request.modeCode_newTransaction, LearningMode.toNat_code, LearningMode.ofCode?_code] at h
    cases h
  · rw [if_neg (Nat.not_le.2 room)] at h
    cases h

/-- The open of a transaction that finds a free row is not refused as a bad request. -/
theorem exitCode_opening_ne (room : s.resident < s.capacity) (h : s.issue x.opening = (answer, s')) :
    answer.exitCode ≠ .badRequest := by
  have hroom : (s.record x.opening).resident < (s.record x.opening).capacity := by
    rw [resident_eq, tids_record, ← resident_eq]
    exact room
  have hop : x.opening.op? = some .newRequest := rfl
  obtain ⟨code, hrefused, rfl, -⟩ | hperform := issue_cases h
  · rw [Response.exitCode_status]
    unfold perform at hrefused
    simp only [hop, openTransaction] at hrefused
    cases hcheck : (s.record x.opening).checkOpen x.opening with
    | error code' =>
      rw [hcheck] at hrefused
      cases hrefused
      exact checkOpen_opening_error hroom hcheck
    | ok o =>
      rw [hcheck] at hrefused
      cases hrefused
  · cases performs_of_ok hperform with
    | exhausted => exact ExitCode.noConfusion
    | opened _ _ _ _ _ _ respond =>
      obtain hcode | hcode := exitCode_respond (fun r hr => (Response.of_tidAssigned hr).1) respond <;> rw [hcode] <;>
        exact ExitCode.noConfusion
    | registered => exact ExitCode.noConfusion
    | busy => exact ExitCode.noConfusion
    | enqueued => exact ExitCode.noConfusion
    | notDone => exact ExitCode.noConfusion
    | read _ _ _ op => simp [hop] at op

end NeuralEngine.Simulator
