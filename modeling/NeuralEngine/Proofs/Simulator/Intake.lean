import NeuralEngine.Proofs.Simulator.RequestFrame
import NeuralEngine.Proofs.Simulator.Wait

/-!
# What the intake takes

All transactions share one intake. `Ticks` is what a step does to a row of the table, with the element that the
intake takes from it, and `Served` what a request does to a row after its step, which never moves an element from
the queue on. Together they say what a command does (`Takes`): a step of the intake moves the oldest element of the
lowest row with a waiting one, and no other element moves.
-/

namespace NeuralEngine.Simulator

variable {s s' : Simulator} {request : Request} {answer : Response} {tid : Tid} {latency i j : Nat}
  {moved : List Element} {r r' : Row}

/-! ## Entries -/

namespace Entry

@[simp] theorem consumed_advance (latency : Nat) (e : Entry) : (e.advance latency).consumed = e.consumed := by
  unfold advance
  repeat' split
  all_goals rfl

/-- An entry does not get done in the step in which its last element is taken. -/
theorem phase_of_isDone_advance {e : Entry} (done : (e.advance latency).isDone = true) : e.phase ≠ .writing := by
  intro hp
  unfold advance isDone at done
  simp only [hp] at done
  split at done
  · cases done
  · rw [hp] at done
    cases done

end Entry

/-- Nothing waits for the intake once the network runs. -/
def Ran (r : Row) : Prop :=
  ∀ e, r = some e → e.phase ≠ .writing → e.queue = []

theorem Ran.queue_eq_nil {e : Entry} (ran : Ran (some e)) (hp : e.phase ≠ .writing) : e.queue = [] :=
  ran e rfl hp

/-! ## Rows -/

namespace Rows

variable {rows : List Row}

theorem row_advance (latency i : Nat) (rows : List Row) :
    row i (advance latency rows) = (row i rows).map (Entry.advance latency) := by
  unfold row advance
  rw [List.getElem?_map]
  cases rows[i]? <;> rfl

/-- It is the turn of row `i`: its entry is the lowest one with an element in its queue. -/
structure Turn (rows : List Row) (i : Nat) (e : Entry) (x : Element) (rest : List Element) : Prop where
  held : row i rows = some e
  waiting : e.queue = x :: rest
  lowest : ∀ j < i, ∀ f, row j rows = some f → f.queue = []

theorem Turn.cons {r : Row} {e : Entry} {x : Element} {rest : List Element} (h : Turn rows i e x rest)
    (idle : ∀ f, r = some f → f.queue = []) : Turn (r :: rows) (i + 1) e x rest where
  held := h.held
  waiting := h.waiting
  lowest j hj := by
    cases j with
    | zero => exact idle
    | succ j => exact h.lowest j (Nat.lt_of_succ_lt_succ hj)

/-- What the intake does to the rows: all queues are empty, or it is the turn of some row, and only that row is
different afterwards. -/
inductive Drained (rows rows' : List Row) : Prop
  | idle (empty : ∀ e ∈ entries rows, e.queue = []) (same : rows' = rows)
  | taken (i : Nat) (e : Entry) (x : Element) (rest : List Element) (turn : Turn rows i e x rest)
      (held : row i rows' = some { e with queue := rest, taken := x :: e.taken })
      (others : ∀ j, j ≠ i → row j rows' = row j rows)

/-- The intake passes over a row without a waiting element. -/
theorem Drained.cons {rows' : List Row} {r : Row} (h : Drained rows rows') (empty : ∀ f, r = some f → f.queue = []) :
    Drained (r :: rows) (r :: rows') := by
  cases h with
  | idle behind same =>
    refine .idle (fun e he => ?_) (congrArg (r :: ·) same)
    cases r with
    | none => exact behind e he
    | some f =>
      obtain rfl | he := List.mem_cons.1 he
      · exact empty e rfl
      · exact behind e he
  | taken i e x rest turn held others =>
    refine .taken (i + 1) e x rest (turn.cons empty) held fun j hj => ?_
    cases j with
    | zero => rfl
    | succ j => exact others j fun h => hj (congrArg (· + 1) h)

theorem drained (rows : List Row) : Drained rows (drain rows) := by
  induction rows with
  | nil => exact .idle (fun e he => absurd he List.not_mem_nil) rfl
  | cons r rows ih =>
    cases r with
    | none => exact ih.cons fun f hf => by cases hf
    | some e =>
      cases hq : e.queue with
      | nil =>
        have hdrain : drain (some e :: rows) = some e :: drain rows := by simp only [drain, hq]
        rw [hdrain]
        exact ih.cons fun f hf => by cases hf; exact hq
      | cons x rest =>
        have hdrain : drain (some e :: rows) = some { e with queue := rest, taken := x :: e.taken } :: rows := by
          simp only [drain, hq]
        rw [hdrain]
        refine .taken 0 e x rest ⟨rfl, hq, fun j hj => absurd hj (Nat.not_lt_zero j)⟩ rfl fun j hj => ?_
        obtain ⟨j, rfl⟩ := Nat.exists_eq_succ_of_ne_zero hj
        rfl

end Rows

/-! ## Steps -/

/-- What a step does to a row from which the intake takes the elements `moved`, one or none. -/
inductive Ticks (latency : Nat) : List Element → Row → Row → Prop
  | free : Ticks latency [] none none
  | stays (e : Entry) : Ticks latency [] (some e) (some (e.advance latency))
  | takes (e : Entry) (x : Element) (rest : List Element) (waiting : e.queue = x :: rest) :
      Ticks latency [x] (some e) (some (Entry.advance latency { e with queue := rest, taken := x :: e.taken }))

theorem Ticks.of_map (latency : Nat) (r : Row) : Ticks latency [] r (r.map (Entry.advance latency)) := by
  cases r with
  | none => exact .free
  | some e => exact .stays e

/-- A transaction is kept by a step, and what the intake takes goes from its queue to what it has consumed. -/
theorem Ticks.entry {e : Entry} (h : Ticks latency moved (some e) r) :
    ∃ u, r = some u ∧ u.tid = e.tid ∧ e.queue = moved ++ u.queue ∧ u.consumed = e.consumed ++ moved := by
  cases h with
  | stays =>
    refine ⟨_, rfl, e.tid_advance latency, (e.queue_advance latency).symm, ?_⟩
    rw [Entry.consumed_advance, List.append_nil]
  | takes _ x rest waiting =>
    refine ⟨_, rfl, Entry.tid_advance latency { e with queue := rest, taken := x :: e.taken }, ?_, ?_⟩
    · rw [Entry.queue_advance]
      exact waiting
    · rw [Entry.consumed_advance]
      exact List.reverse_cons

/-- Nothing is taken from a transaction in the step after which it is done. -/
theorem Ticks.of_done {e u : Entry} (ran : Ran (some e)) (h : Ticks latency moved (some e) (some u))
    (done : u.isDone = true) : moved = [] ∧ e.queue = [] := by
  cases h with
  | stays => exact ⟨rfl, ran.queue_eq_nil (Entry.phase_of_isDone_advance done)⟩
  | takes _ x rest waiting =>
    have hphase := Entry.phase_of_isDone_advance done
    cases (ran.queue_eq_nil hphase).symm.trans waiting

/-- It is the turn of the intake in the next step. -/
def IntakeTurn (s : Simulator) : Prop :=
  (s.cycle + 1) % s.options.drainInterval = 0

theorem ticks_cases (s : Simulator) :
    (s.IntakeTurn ∧ ∃ i e x rest, Rows.Turn s.rows i e x rest ∧
      Ticks s.options.latency [x] (s.row i) (s.tick.row i) ∧
      ∀ j, j ≠ i → Ticks s.options.latency [] (s.row j) (s.tick.row j)) ∨
    ((s.IntakeTurn → ∀ e ∈ s.entries, e.queue = []) ∧
      ∀ j, Ticks s.options.latency [] (s.row j) (s.tick.row j)) := by
  have hrow : ∀ j rows, (if (s.cycle + 1) % s.options.drainInterval = 0 then Rows.drain s.rows else s.rows) = rows →
      s.tick.row j = (Rows.row j rows).map (Entry.advance s.options.latency) := by
    rintro j _ rfl
    exact Rows.row_advance ..
  by_cases hturn : s.IntakeTurn
  · have hdrained := fun j => hrow j _ (if_pos hturn)
    cases Rows.drained s.rows with
    | idle empty same =>
      refine .inr ⟨fun _ => empty, fun j => ?_⟩
      rw [hdrained, same]
      exact .of_map ..
    | taken i e x rest turn held others =>
      refine .inl ⟨hturn, i, e, x, rest, turn, ?_, fun j hj => ?_⟩
      · have hheld : s.row i = some e := turn.held
        rw [hdrained, held, hheld]
        exact .takes e x rest turn.waiting
      · rw [hdrained, others j hj]
        exact .of_map ..
  · refine .inr ⟨fun h => absurd h hturn, fun j => ?_⟩
    rw [hrow j _ (if_neg hturn)]
    exact .of_map ..

theorem exists_ticks (s : Simulator) (i : Nat) :
    ∃ moved, Ticks s.options.latency moved (s.row i) (s.tick.row i) := by
  obtain ⟨-, k, e, x, rest, -, htakes, hstays⟩ | ⟨-, hstays⟩ := s.ticks_cases
  · by_cases hi : i = k
    · exact ⟨_, hi ▸ htakes⟩
    · exact ⟨_, hstays i hi⟩
  · exact ⟨_, hstays i⟩

/-! ## Requests -/

/-- What a request can do to a row after its step. -/
inductive Served : Row → Row → Prop
  | same (r : Row) : Served r r
  | opened (o : Opening) (tid : Tid) : Served none (some (o.entry tid))
  | registered (e : Entry) (registers : Registers) : Served (some e) (some { e with registers := registers })
  | enqueued (e : Entry) (x : Element) (last : Bool) (writable : e.isWritable = true) :
      Served (some e) (some { e with queue := e.queue ++ [x], lastSeen := last })
  | read (e : Entry) (rest : List Element) (done : e.isDone = true) : Served (some e) (some { e with outputs := rest })
  | freed (e : Entry) (done : e.isDone = true) : Served (some e) none

/-- A request keeps what a transaction has consumed, and its queue but for an element at the end; or it takes a
transaction away that is done. -/
theorem Served.entry {u : Entry} (h : Served (some u) r) :
    (∃ e accepted, r = some e ∧ e.tid = u.tid ∧ e.queue = u.queue ++ accepted ∧ e.consumed = u.consumed) ∨
      r = none ∧ u.isDone = true := by
  cases h with
  | same => exact .inl ⟨u, [], rfl, rfl, (List.append_nil _).symm, rfl⟩
  | registered => exact .inl ⟨_, [], rfl, rfl, (List.append_nil _).symm, rfl⟩
  | enqueued _ x => exact .inl ⟨_, [x], rfl, rfl, rfl, rfl⟩
  | read => exact .inl ⟨_, [], rfl, rfl, (List.append_nil _).symm, rfl⟩
  | freed _ done => exact .inr ⟨rfl, done⟩

theorem served_update (nodup : s.tids.Nodup) {e : Entry} (found : s.find? tid = some e) {f : Entry → Option Entry}
    (serves : Served (some e) (f e)) (i : Nat) : Served (s.row i) ((s.update tid f).row i) := by
  have hupdate : (s.update tid f).row i = _ := Rows.row_update tid f i s.rows
  rw [hupdate]
  cases hrow : s.row i with
  | none =>
    have hnone : Rows.row i s.rows = none := hrow
    rw [hnone]
    exact .same none
  | some e' =>
    have hsome : Rows.row i s.rows = some e' := hrow
    rw [hsome, Option.bind_some]
    split
    · next htid =>
      have hfound := find?_of_mem_entries nodup (Rows.mem_entries_iff.2 ⟨i, hrow⟩)
      rw [htid, found] at hfound
      exact Option.some.inj hfound ▸ serves
    · exact .same _

theorem served_of_issue (nodup : s.tids.Nodup) (h : s.issue request = (answer, s')) (i : Nat) :
    Served (s.tick.row i) (s'.row i) := by
  obtain ⟨code, -, rfl, rfl⟩ | hperform := issue_cases h
  · exact .same _
  have hnodup : (s.record request).tids.Nodup := by
    rw [tids_record]
    exact nodup
  cases performs_of_ok hperform with
  | exhausted => exact .same _
  | @opened o tid next _ t _ _ _ respond =>
    have hrows : t.countDeferredTids.row i = Rows.row i (Rows.place (o.entry tid) s.tick.rows) :=
      congrArg (Rows.row i) (respond_same respond).1
    rw [hrows]
    obtain ⟨k, -, hfree, hplaced, hothers⟩ := Rows.exists_row_place (o.entry tid) s.tick.rows
    by_cases hi : i = k
    · subst hi
      have hnone : s.tick.row i = none := hfree
      rw [hnone, hplaced]
      exact .opened o tid
    · rw [hothers i hi]
      exact .same _
  | registered e register _ _ found =>
    exact served_update (f := fun e => some { e with registers := e.registers.set register request.registerValue })
      hnodup found (.registered e _) i
  | busy => exact .same _
  | enqueued e last _ found writable => exact served_update hnodup found (.enqueued e _ last writable) i
  | notDone => exact .same _
  | read e value rest _ found done _ respond =>
    have hrows : s'.row i = ((s.record request).leaveOutputs request.tid rest).row i :=
      congrArg (Rows.row i) (respond_same respond).1
    rw [hrows]
    refine served_update hnodup found ?_ i
    split
    · exact .freed e done
    · exact .read e rest done

/-! ## Commands -/

/-- What a command does to a row from which the intake takes the elements `moved`: they are the oldest ones of the
queue and become the latest ones consumed. Elements accepted with the command come last in the queue. A transaction
is new without any element, and goes without one in its queue. -/
inductive Takes (moved : List Element) : Row → Row → Prop
  | idle (none' : moved = []) : Takes moved none none
  | opened (e : Entry) (none' : moved = []) (queue : e.queue = []) (consumed : e.consumed = []) :
      Takes moved none (some e)
  | freed (e : Entry) (none' : moved = []) (queue : e.queue = []) : Takes moved (some e) none
  | kept (e e' : Entry) (accepted : List Element) (tid : e'.tid = e.tid)
      (queue : e.queue ++ accepted = moved ++ e'.queue) (consumed : e'.consumed = e.consumed ++ moved) :
      Takes moved (some e) (some e')

theorem Takes.refl (r : Row) : Takes [] r r := by
  cases r with
  | none => exact .idle rfl
  | some e => exact .kept e e [] rfl (List.append_nil _) (List.append_nil _).symm

/-- What is taken in the step of a request is not changed by the request. -/
theorem Takes.of_ticks_of_served (ran : Ran r) {u : Row} (ticks : Ticks latency moved r u) (served : Served u r') :
    Takes moved r r' := by
  cases r with
  | none =>
    cases ticks
    cases served with
    | same => exact .idle rfl
    | opened o tid => exact .opened _ rfl rfl rfl
  | some e =>
    obtain ⟨u, rfl, htid, hqueue, hconsumed⟩ := ticks.entry
    obtain ⟨e', accepted, rfl, htid', hqueue', hconsumed'⟩ | ⟨rfl, hdone⟩ := served.entry
    · refine .kept e e' accepted (htid'.trans htid) ?_ (hconsumed'.trans hconsumed)
      rw [hqueue, hqueue', List.append_assoc]
    · obtain ⟨rfl, hempty⟩ := ticks.of_done ran hdone
      exact .freed e rfl hempty

theorem Ran.advance {e : Entry} (ran : Ran (some e)) (latency : Nat) : Ran (some (e.advance latency)) := by
  rintro _ ⟨⟩ hp
  rw [Entry.queue_advance]
  by_cases hwriting : e.phase = .writing
  · unfold Entry.advance at hp
    simp only [hwriting] at hp
    split at hp
    · next hlast =>
      rw [Bool.and_eq_true, List.isEmpty_iff] at hlast
      exact hlast.2
    · exact absurd hwriting hp
  · exact ran.queue_eq_nil hwriting

theorem Ran.ticks (ran : Ran r) (ticks : Ticks latency moved r r') : Ran r' := by
  cases ticks with
  | free => exact ran
  | stays e => exact ran.advance latency
  | takes e x rest waiting =>
    refine Ran.advance ?_ latency
    rintro _ ⟨⟩ hp
    cases (ran.queue_eq_nil hp).symm.trans waiting

theorem Ran.served (ran : Ran r) (served : Served r r') : Ran r' := by
  cases served with
  | same => exact ran
  | opened o tid =>
    rintro _ ⟨⟩ -
    rfl
  | registered e registers =>
    rintro _ ⟨⟩ hp
    exact ran.queue_eq_nil hp
  | enqueued e x last writable =>
    rintro _ ⟨⟩ hp
    simp only [Entry.isWritable, Bool.and_eq_true, beq_iff_eq] at writable
    exact absurd writable.1 hp
  | read e rest done =>
    rintro _ ⟨⟩ hp
    exact ran.queue_eq_nil hp
  | freed e done =>
    rintro _ ⟨⟩

namespace Command

/-- The command lets a step pass. -/
def isTimed : Command → Bool
  | .poll => false
  | _ => true

theorem eq_poll_of_not_timed {c : Command} (h : c.isTimed = false) : c = .poll := by
  cases c with
  | poll => rfl
  | _ => cases h

theorem row_poll (s : Simulator) (i : Nat) : (Command.poll.run s).row i = s.row i :=
  congrArg (Rows.row i) (poll_same rfl).2

/-- A command that lets a step pass serves each row at most after the step. -/
theorem served_run (nodup : s.tids.Nodup) {c : Command} (timed : c.isTimed = true) (i : Nat) :
    Served (s.tick.row i) ((c.run s).row i) := by
  cases c with
  | issue request => exact served_of_issue nodup rfl i
  | step => exact .same _
  | poll => cases timed

theorem ran_run (nodup : s.tids.Nodup) (ran : ∀ i, Ran (s.row i)) (c : Command) (i : Nat) : Ran ((c.run s).row i) := by
  cases htimed : c.isTimed with
  | true =>
    obtain ⟨moved, hticks⟩ := s.exists_ticks i
    exact ((ran i).ticks hticks).served (served_run nodup htimed i)
  | false =>
    obtain rfl := eq_poll_of_not_timed htimed
    rw [row_poll]
    exact ran i

/-- By induction on the commands: at no time does an element wait for the intake while the network runs. -/
theorem ran_runAll (orderly : s.Orderly) (ran : ∀ i, Ran (s.row i)) (cs : List Command) (i : Nat) :
    Ran ((runAll cs s).row i) := by
  induction cs generalizing s with
  | nil => exact ran i
  | cons c cs ih => exact ih ((c.evolves_run s).orderly orderly) (ran_run orderly.nodup ran c)

/-- What a command does to the rows: a step of the intake takes the oldest element of the lowest row with a waiting
one, and no other element is taken. -/
theorem takes_run (orderly : s.Orderly) (ran : ∀ i, Ran (s.row i)) (c : Command) :
    (c.isTimed = true ∧ s.IntakeTurn ∧ ∃ i e x rest, Rows.Turn s.rows i e x rest ∧
        Takes [x] (s.row i) ((c.run s).row i) ∧ ∀ j, j ≠ i → Takes [] (s.row j) ((c.run s).row j)) ∨
      (c.isTimed = true → s.IntakeTurn → ∀ e ∈ s.entries, e.queue = []) ∧
        ∀ j, Takes [] (s.row j) ((c.run s).row j) := by
  cases htimed : c.isTimed with
  | false =>
    obtain rfl := eq_poll_of_not_timed htimed
    refine .inr ⟨fun h => Bool.noConfusion h, fun j => ?_⟩
    rw [row_poll]
    exact .refl _
  | true =>
    have htakes : ∀ {moved : List Element} {j : Nat}, Ticks s.options.latency moved (s.row j) (s.tick.row j) →
        Takes moved (s.row j) ((c.run s).row j) := fun ticks =>
      .of_ticks_of_served (ran _) ticks (served_run orderly.nodup htimed _)
    obtain ⟨hturn, i, e, x, rest, hfirst, hone, hothers⟩ | ⟨hempty, hnone⟩ := s.ticks_cases
    · exact .inl ⟨rfl, hturn, i, e, x, rest, hfirst, htakes hone, fun j hj => htakes (hothers j hj)⟩
    · exact .inr ⟨fun _ => hempty, fun j => htakes (hnone j)⟩

theorem cycle_run (c : Command) (s : Simulator) : (c.run s).cycle = if c.isTimed then s.cycle + 1 else s.cycle := by
  cases c with
  | issue request => exact (issue_same rfl).1
  | step => rfl
  | poll =>
    obtain ⟨-, hsame⟩ | ⟨_, _, _, -, -, -, -, hsame⟩ := poll_cases (s := s) rfl
    · exact congrArg (·.cycle) hsame
    · exact congrArg (·.cycle) hsame

end Command

end NeuralEngine.Simulator
