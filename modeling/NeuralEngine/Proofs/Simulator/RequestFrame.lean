import NeuralEngine.Proofs.Simulator.TableInvariant

/-!
# What a request leaves alone

A request takes a step and is then answered. Whatever it is refused for, even where it is refused after the
transaction was found, it leaves what the step left. One that is accepted touches a single row: the row that holds
the transaction that it is about, which is the only one, or the free row that an open takes. A response of its own may
be held back, after the others.
-/

namespace NeuralEngine.Simulator

variable {s s' : Simulator} {request : Request} {answer : Response} {tid : Tid} {i : Nat}

/-- What is held in a row of the table. -/
def row (i : Nat) (s : Simulator) : Row :=
  Rows.row i s.rows

/-- The table, the identifier to be tried next, the responses held back and those handed out are the same. -/
structure SameTable (s s' : Simulator) : Prop where
  rows : s'.rows = s.rows
  nextTid : s'.nextTid = s.nextTid
  deferred : s'.deferred = s.deferred
  delivered : s'.delivered = s.delivered

/-- No row but the given one is different, and at most one response is held back in addition, about the identifier. -/
structure TouchesRow (s s' : Simulator) (tid : Tid) (i : Nat) : Prop where
  others : ∀ j, j ≠ i → s'.row j = s.row j
  deferred : s'.deferred = s.deferred ∨ ∃ d, d.response.tid = tid ∧ s'.deferred = s.deferred ++ [d]
  delivered : s'.delivered = s.delivered

/-- The row is the one that holds the transaction with the identifier. If it is not freed, it still does. -/
structure TouchesHeld (s s' : Simulator) (tid : Tid) (i : Nat) : Prop extends TouchesRow s s' tid i where
  held : ∃ e, s.row i = some e ∧ e.tid = tid
  only : ∀ j e, s.row j = some e → e.tid = tid → j = i
  keeps : ∀ e, s'.row i = some e → e.tid = tid
  nextTid : s'.nextTid = s.nextTid

/-- The row is free and takes a transaction, under an identifier that no other one has. -/
structure TouchesFree (s s' : Simulator) (tid : Tid) (i : Nat) : Prop extends TouchesRow s s' tid i where
  free : s.row i = none
  room : i < s.capacity
  fresh : ∀ j e, s.row j = some e → e.tid ≠ tid
  held : ∃ e, s'.row i = some e ∧ e.tid = tid

/-- What a request may change, beside its step. -/
inductive Frame (s : Simulator) (request : Request) (answer : Response) (s' : Simulator) : Prop
  | refused (code : answer.exitCode ≠ .ok) (same : SameTable s s')
  | changed (code : answer.exitCode = .ok) (op : request.op? ≠ some .newRequest) (i : Nat)
      (touches : TouchesHeld s s' request.tid i)
  | opened (code : answer.exitCode = .ok) (op : request.op? = some .newRequest) (tid : Tid) (i : Nat)
      (touches : TouchesFree s s' tid i)

/-! ## Rows -/

theorem touches_update (nodup : s.tids.Nodup) {e : Entry} (found : s.find? tid = some e)
    {f : Entry → Option Entry} (keeps : ∀ e e', f e = some e' → e'.tid = e.tid) :
    ∃ i, TouchesHeld s (s.update tid f) tid i := by
  have htid := tid_of_find? found
  obtain ⟨i, hi⟩ := Rows.mem_entries_iff.1 (List.mem_of_find?_eq_some found)
  have honly : ∀ j e', s.row j = some e' → e'.tid = tid → j = i := fun j e' hj he' =>
    Rows.row_unique nodup hj hi (he'.trans htid.symm)
  refine ⟨i, ⟨fun j hj => ?_, .inl rfl, rfl⟩, ⟨e, hi, htid⟩, honly, fun e' he' => ?_, rfl⟩
  · refine (Rows.row_update tid f j s.rows).trans ?_
    cases hrow : Rows.row j s.rows with
    | none => exact hrow.symm
    | some e' => exact (if_neg fun he' => hj (honly j e' hrow he')).trans hrow.symm
  · have hupdated := Rows.row_update tid f i s.rows
    rw [hi, Option.bind_some, if_pos htid] at hupdated
    exact (keeps e e' (hupdated.symm.trans he')).trans htid

theorem touches_addEntry {e : Entry} (fresh : s.find? e.tid = none) (room : s.resident < s.capacity) (next : Tid) :
    ∃ i, TouchesFree s (s.addEntry e next) e.tid i := by
  obtain ⟨i, hle, hfree, hplaced, hothers⟩ := Rows.exists_row_place e s.rows
  have hlt : i < s.capacity := Nat.lt_of_le_of_lt hle room
  refine ⟨i, ⟨hothers, .inl rfl, rfl⟩, hfree, hlt, fun j e' hj hsame => ?_, ⟨e, hplaced, rfl⟩⟩
  refine Rows.find?_eq_none_iff.1 fresh (hsame ▸ List.mem_map_of_mem ?_)
  exact Rows.mem_entries_iff.2 ⟨j, hj⟩

/-! ## Responses -/

theorem TouchesRow.respond {u : Simulator} (touches : TouchesRow s u tid i) (deferred : u.deferred = s.deferred)
    {r : Response} (about : r.tid = tid) {delay : Option Nat} (h : u.respond (some r) delay = (answer, s')) :
    TouchesRow s s' tid i ∧ s'.rows = u.rows ∧ s'.nextTid = u.nextTid := by
  cases responded h with
  | prompt => exact ⟨touches, rfl, rfl⟩
  | held _ steps =>
    exact ⟨⟨touches.others, .inr ⟨⟨u.options.clock.count (u.cycle + steps), r⟩, about, congrArg (· ++ [_]) deferred⟩,
      touches.delivered⟩, rfl, rfl⟩

/-! ## Requests -/

theorem Performs.frame (h : Performs s request answer s') (nodup : s.tids.Nodup) (narrow : s.Narrow) :
    Frame s request answer s' := by
  cases h with
  | exhausted => exact .refused ExitCode.noConfusion ⟨rfl, rfl, rfl, rfl⟩
  | @opened o tid next _ t op check alloc respond =>
    obtain ⟨r, hr⟩ := Response.exists_tidAssigned ((narrow_iff_of_checkOpen check).1 narrow) tid
    obtain ⟨hok, hkind, htid⟩ := Response.of_tidAssigned hr
    obtain ⟨i, hadded⟩ :=
      touches_addEntry (e := o.entry tid) (isTaken_of_allocate alloc).1 (room_of_checkOpen check) next
    rw [hr] at respond
    obtain ⟨htouches, hrows, -⟩ := hadded.toTouchesRow.respond rfl htid respond
    refine .opened (respond_some hok (by simp [hkind]) respond).1 op tid i
      ⟨⟨htouches.others, htouches.deferred, htouches.delivered⟩, hadded.free, hadded.room, hadded.fresh, ?_⟩
    obtain ⟨e, he, hetid⟩ := hadded.held
    exact ⟨e, (congrArg (Rows.row i) hrows).trans he, hetid⟩
  | registered e register op _ found =>
    obtain ⟨i, htouches⟩ := touches_update (f := fun e => some
      { e with registers := e.registers.set register request.registerValue }) nodup found (by rintro e _ ⟨⟩; rfl)
    exact .changed rfl (by simp [op]) i htouches
  | busy => exact .refused ExitCode.noConfusion ⟨rfl, rfl, rfl, rfl⟩
  | enqueued e last op found =>
    obtain ⟨i, htouches⟩ := touches_update (f := fun e => some
      { e with queue := e.queue ++ [request.element], lastSeen := last }) nodup found (by rintro e _ ⟨⟩; rfl)
    exact .changed rfl (by cases last <;> simp [op]) i htouches
  | notDone => exact .refused ExitCode.noConfusion ⟨rfl, rfl, rfl, rfl⟩
  | read e value rest op found _ _ respond =>
    obtain ⟨r, hr⟩ := Response.exists_dataOut narrow request.tid value
    obtain ⟨hok, hkind, htid, -⟩ := Response.of_dataOut hr
    obtain ⟨i, hleft⟩ := touches_update (f := fun e => if rest = [] then none else some { e with outputs := rest })
      nodup found fun _ _ => tid_of_leave
    rw [hr] at respond
    obtain ⟨htouches, hrows, hnext⟩ := hleft.toTouchesRow.respond rfl htid respond
    refine .changed (respond_some hok (by simp [hkind]) respond).1 (by simp [op]) i
      ⟨htouches, hleft.held, hleft.only, fun e' he' => hleft.keeps e' ?_, hnext.trans hleft.nextTid⟩
    exact (congrArg (Rows.row i) hrows).symm.trans he'

theorem frame_of_issue (nodup : s.tids.Nodup) (narrow : s.Narrow) (h : s.issue request = (answer, s')) :
    Frame s.tick request answer s' := by
  obtain ⟨code, hrefused, rfl, rfl⟩ | hperform := issue_cases h
  · refine .refused ?_ ⟨rfl, rfl, rfl, rfl⟩
    rw [Response.exitCode_status]
    exact ExitCode.ne_ok_of_isFatal (perform_error hrefused)
  · have hnodup : (s.record request).tids.Nodup := by
      rw [tids_record]
      exact nodup
    -- the record of the request is no part of what a frame compares
    cases (performs_of_ok hperform).frame hnodup narrow with
    | refused code same => exact .refused code ⟨same.rows, same.nextTid, same.deferred, same.delivered⟩
    | changed code op i touches => exact .changed code op i { touches with }
    | opened code op tid i touches => exact .opened code op tid i { touches with }

open Command in
/-- Whatever commands an unused engine was given and whatever raw request is next: if it is answered with any code but
`ok`, the engine is left as the step leaves it; if with `ok`, only the row of the one transaction that the request is
about is touched, or the free row that the new transaction of an open is put into. -/
theorem request_touches_one_row (s : Simulator) (unused : s.Unused) (narrow : s.Narrow) (cs : List Command)
    (request : Request) :
    let t := runAll cs s
    ((t.issue request).1.exitCode ≠ .ok → SameTable t.tick (t.issue request).2) ∧
      ((t.issue request).1.exitCode = .ok → request.op? ≠ some .newRequest →
        ∃ i, TouchesHeld t.tick (t.issue request).2 request.tid i) ∧
      ((t.issue request).1.exitCode = .ok → request.op? = some .newRequest →
        ∃ tid i, TouchesFree t.tick (t.issue request).2 tid i) := by
  intro t
  have hregular : t.Regular := regular_runAll (.of_unused unused) narrow cs
  have hnarrow : t.Narrow := narrow.evolves (evolves_runAll cs s)
  have hframe : Frame t.tick request (t.issue request).1 (t.issue request).2 :=
    frame_of_issue hregular.nodup hnarrow rfl
  cases hframe with
  | refused code same => exact ⟨fun _ => same, fun ok => absurd ok code, fun ok => absurd ok code⟩
  | changed code op i touches =>
    exact ⟨fun refused => absurd code refused, fun _ _ => ⟨i, touches⟩, fun _ opens => absurd opens op⟩
  | opened code op tid i touches =>
    exact ⟨fun refused => absurd code refused, fun _ other => absurd op other, fun _ _ => ⟨tid, i, touches⟩⟩

/-- An engine of two rows that holds back the words of reads. -/
def paired : Simulator :=
  { withCapacity 2 with
    options := { latency := 0, dataDelay := some fun _ => 9 }
    table := recycling.table
    asid := some 0 }

/-- Two transactions are opened and the first one runs to its end. -/
def firstDone : List Command :=
  .issue (.newTransaction 0 .feedforward 0) :: .issue (.newTransaction 0 .feedforward 0) :: (served 0).take 3

/-- A read that comes too early changes nothing; one that comes in time frees its row and leaves the other one as the
step does; an open takes a row. -/
theorem paired_touches_one_row :
    let t := Command.runAll firstDone paired
    paired.Unused ∧ paired.Narrow ∧ SameTable t.tick (t.issue (.readData 1)).2 ∧
      (∃ i, TouchesHeld t.tick (t.issue (.readData 0)).2 0 i) ∧
      (t.issue (.readData 0)).2.rows.map Option.isSome = [false, true] ∧
      ∃ tid i, TouchesFree paired.tick (paired.issue (.newTransaction 0 .feedforward 0)).2 tid i := by
  intro t
  have hunused : paired.Unused := ⟨rfl, rfl, rfl, rfl, rfl, rfl⟩
  have hnarrow : paired.Narrow := by
    unfold Narrow
    decide
  have hcodes : (t.issue (.readData 1)).1.exitCode = .notDone ∧ (t.issue (.readData 0)).1.exitCode = .ok ∧
      (paired.issue (.newTransaction 0 .feedforward 0)).1.exitCode = .ok := by
    decide +kernel
  obtain ⟨hearly, hread, hopen⟩ := hcodes
  have hrefused := (request_touches_one_row paired hunused hnarrow firstDone (.readData 1)).1
  have hheld := (request_touches_one_row paired hunused hnarrow firstDone (.readData 0)).2.1
  have hfree := (request_touches_one_row paired hunused hnarrow [] (.newTransaction 0 .feedforward 0)).2.2
  refine ⟨hunused, hnarrow, hrefused ?_, ?_, by decide +kernel, hfree hopen rfl⟩
  · rw [hearly]
    exact ExitCode.noConfusion
  · exact hheld hread (by decide)

end NeuralEngine.Simulator
