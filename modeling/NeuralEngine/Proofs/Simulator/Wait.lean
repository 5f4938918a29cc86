import Mathlib.Algebra.Order.BigOperators.Group.List
import Mathlib.Algebra.Order.Ring.Nat
import NeuralEngine.Proofs.Simulator.Orderly

/-!
# How long the simulator keeps a client waiting

`wait` counts the steps that the simulator takes on its own before it has nothing more to do without a
request: refusals that it was told to make, elements that the intake has to take, phases of its entries and
responses that are not due yet. No step adds to it, and every step lowers it as long as the simulator stirs
(`wait_tick_lt`).
-/

namespace NeuralEngine.Simulator

/-! ## Entries -/

/-- The steps until the outputs can be read, once the whole stream was taken. -/
def Phase.remaining (latency : Nat) : Phase → Nat
  | writing => latency + 2
  | executing left => left + 1
  | done => 0

namespace Entry

variable {latency : Nat} {e : Entry}

@[simp] theorem queue_advance (latency : Nat) (e : Entry) : (e.advance latency).queue = e.queue := by
  unfold advance
  repeat' split
  all_goals rfl

theorem remaining_advance_le (latency : Nat) (e : Entry) :
    (e.advance latency).phase.remaining latency ≤ e.phase.remaining latency := by
  unfold advance
  cases hp : e.phase with
  | writing =>
    simp only
    split
    · simp [Phase.remaining]
    · rw [hp]
  | executing left => cases left <;> simp [Phase.remaining]
  | done => simp [hp]

/-- The phase of an entry with nothing in its queue moves on once the last element was accepted. -/
theorem remaining_advance_lt (pending : e.phase ≠ .done) (last : e.lastSeen = true) (empty : e.queue = []) :
    (e.advance latency).phase.remaining latency < e.phase.remaining latency := by
  unfold advance
  cases hp : e.phase with
  | writing => simp [last, empty, Phase.remaining]
  | executing left => cases left <;> simp [Phase.remaining]
  | done => exact absurd hp pending

end Entry

/-! ## Rows -/

namespace Rows

variable {latency : Nat} {e : Entry} {rows : List Row}

/-- The elements that the intake has to take. -/
def queued (rows : List Row) : Nat :=
  ((entries rows).map (·.queue.length)).sum

/-- The phases that the entries have before them, by their steps. -/
def remaining (latency : Nat) (rows : List Row) : Nat :=
  ((entries rows).map (·.phase.remaining latency)).sum

@[simp] theorem queued_none_cons (rows : List Row) : queued (none :: rows) = queued rows :=
  rfl

@[simp] theorem queued_some_cons (e : Entry) (rows : List Row) :
    queued (some e :: rows) = e.queue.length + queued rows :=
  rfl

@[simp] theorem remaining_none_cons (latency : Nat) (rows : List Row) :
    remaining latency (none :: rows) = remaining latency rows :=
  rfl

@[simp] theorem remaining_some_cons (latency : Nat) (e : Entry) (rows : List Row) :
    remaining latency (some e :: rows) = e.phase.remaining latency + remaining latency rows :=
  rfl

theorem length_queue_le (he : e ∈ entries rows) : e.queue.length ≤ queued rows :=
  List.le_sum_of_mem (List.mem_map_of_mem he)

theorem queued_drain (rows : List Row) : queued (drain rows) = queued rows - 1 := by
  induction rows with
  | nil => rfl
  | cons row rows ih =>
    cases row with
    | none => exact ih
    | some e =>
      unfold drain
      split
      · next hq => simp [hq, ih]
      · next hq =>
        simp only [queued_some_cons, hq, List.length_cons]
        omega

theorem remaining_drain (latency : Nat) (rows : List Row) :
    remaining latency (drain rows) = remaining latency rows := by
  induction rows with
  | nil => rfl
  | cons row rows ih =>
    cases row with
    | none => exact ih
    | some e =>
      unfold drain
      split
      · simp [ih]
      · rfl

theorem drain_eq_self (h : queued rows = 0) : drain rows = rows := by
  induction rows with
  | nil => rfl
  | cons row rows ih =>
    cases row with
    | none => exact congrArg (List.cons none) (ih h)
    | some e =>
      rw [queued_some_cons] at h
      have hq : e.queue = [] := List.eq_nil_of_length_eq_zero (by omega)
      unfold drain
      simp only [hq]
      rw [ih (by omega)]

@[simp] theorem queued_advance (latency : Nat) (rows : List Row) :
    queued (advance latency rows) = queued rows := by
  induction rows with
  | nil => rfl
  | cons row rows ih =>
    cases row with
    | none => exact ih
    | some e =>
      show (e.advance latency).queue.length + queued (advance latency rows) = _
      rw [Entry.queue_advance, ih, queued_some_cons]

theorem remaining_advance_le (latency : Nat) (rows : List Row) :
    remaining latency (advance latency rows) ≤ remaining latency rows := by
  induction rows with
  | nil => exact Nat.le_refl 0
  | cons row rows ih =>
    cases row with
    | none => exact ih
    | some e => exact Nat.add_le_add (Entry.remaining_advance_le latency e) ih

theorem remaining_advance_lt (he : e ∈ entries rows) (pending : e.phase ≠ .done) (last : e.lastSeen = true)
    (empty : e.queue = []) : remaining latency (advance latency rows) < remaining latency rows := by
  induction rows with
  | nil => exact absurd he List.not_mem_nil
  | cons row rows ih =>
    cases row with
    | none => exact ih he
    | some f =>
      obtain rfl | he := List.mem_cons.1 (show e ∈ f :: entries rows from he)
      · exact Nat.add_lt_add_of_lt_of_le (Entry.remaining_advance_lt pending last empty)
          (remaining_advance_le latency rows)
      · exact Nat.add_lt_add_of_le_of_lt (Entry.remaining_advance_le latency f) (ih he)

end Rows

/-! ## The simulator -/

open Inversion

variable {s s' : Simulator}

/-- The steps until the intake has taken everything. -/
def intake (s : Simulator) : Nat :=
  Rows.queued s.rows * s.options.drainInterval - s.cycle % s.options.drainInterval

/-- The steps until the responses held back are due, added up. -/
def lag (s : Simulator) : Nat :=
  (s.deferred.map fun d => d.due - s.cycle).sum

/-- What the simulator has before it without a request. -/
def wait (s : Simulator) : Nat :=
  s.forcedBusy + s.intake + Rows.remaining s.options.latency s.rows + s.lag

/-- The next step changes what the simulator has before it. -/
def Stirs (s : Simulator) : Prop :=
  0 < Rows.queued s.rows ∨ (∃ e ∈ s.entries, e.phase ≠ .done ∧ e.lastSeen = true) ∨
    ∃ d ∈ s.deferred, s.cycle < d.due

theorem mod_succ_cases (c : Nat) {k : Nat} (pos : 0 < k) :
    (c + 1) % k = 0 ∧ c % k + 1 = k ∨ (c + 1) % k ≠ 0 ∧ (c + 1) % k = c % k + 1 := by
  have hlt := Nat.mod_lt c pos
  rw [← Nat.mod_add_mod]
  obtain hlast | hnext : c % k + 1 = k ∨ c % k + 1 < k := by omega
  · left
    rw [hlast]
    exact ⟨Nat.mod_self k, rfl⟩
  · right
    rw [Nat.mod_eq_of_lt hnext]
    exact ⟨by omega, rfl⟩

/-- The intake gets on with every step while elements wait. -/
theorem intake_tick (s : Simulator) : s.tick.intake = s.intake - 1 := by
  have hpos := s.options.drainInterval_pos
  have hlt := Nat.mod_lt s.cycle hpos
  unfold intake tick
  simp only [Rows.queued_advance]
  obtain ⟨hdrain, hlast⟩ | ⟨hnot, hnext⟩ := mod_succ_cases s.cycle hpos
  · rw [if_pos hdrain, Rows.queued_drain, hdrain]
    cases Rows.queued s.rows with
    | zero => simp
    | succ q =>
      rw [Nat.succ_sub_one, Nat.succ_mul]
      omega
  · rw [if_neg hnot, hnext]
    omega

theorem queued_tick_le (s : Simulator) : Rows.queued s.tick.rows ≤ Rows.queued s.rows := by
  unfold tick
  rw [Rows.queued_advance]
  split
  · rw [Rows.queued_drain]
    exact Nat.sub_le _ _
  · exact Nat.le_refl _

theorem intake_pos (h : 0 < Rows.queued s.rows) : 0 < s.intake := by
  have hlt := Nat.mod_lt s.cycle s.options.drainInterval_pos
  have hle := Nat.le_mul_of_pos_left s.options.drainInterval h
  unfold intake
  omega

theorem remaining_tick_le (s : Simulator) :
    Rows.remaining s.options.latency s.tick.rows ≤ Rows.remaining s.options.latency s.rows := by
  refine Nat.le_trans (Rows.remaining_advance_le _ _) ?_
  split
  · rw [Rows.remaining_drain]
  · exact Nat.le_refl _

theorem remaining_tick_lt (idle : Rows.queued s.rows = 0) {e : Entry} (he : e ∈ s.entries)
    (pending : e.phase ≠ .done) (last : e.lastSeen = true) :
    Rows.remaining s.options.latency s.tick.rows < Rows.remaining s.options.latency s.rows := by
  have hrows : s.tick.rows = Rows.advance s.options.latency s.rows := by
    unfold tick
    simp only [Rows.drain_eq_self idle, ite_self]
  have hlen := Rows.length_queue_le he
  rw [hrows]
  exact Rows.remaining_advance_lt he pending last (List.eq_nil_of_length_eq_zero (by omega))

theorem lag_tick_le (s : Simulator) : s.tick.lag ≤ s.lag :=
  List.sum_le_sum fun _ _ => Nat.sub_le_sub_left (Nat.le_succ _) _

theorem lag_tick_lt {d : Deferred} (hd : d ∈ s.deferred) (late : s.cycle < d.due) : s.tick.lag < s.lag :=
  List.sum_lt_sum _ _ (fun _ _ => Nat.sub_le_sub_left (Nat.le_succ _) _)
    ⟨d, hd, Nat.sub_lt_sub_left late (Nat.lt_succ_self _)⟩

theorem wait_tick_le (s : Simulator) : s.tick.wait ≤ s.wait := by
  have hintake := s.intake_tick
  have hremaining := s.remaining_tick_le
  have hlag := s.lag_tick_le
  show s.forcedBusy + s.tick.intake + Rows.remaining s.options.latency s.tick.rows + s.tick.lag ≤ _
  unfold wait
  omega

/-- A step lowers what the simulator has before it, as long as it stirs. -/
theorem wait_tick_lt (h : s.Stirs) : s.tick.wait < s.wait := by
  have hintake := s.intake_tick
  have hremaining := s.remaining_tick_le
  have hlag := s.lag_tick_le
  show s.forcedBusy + s.tick.intake + Rows.remaining s.options.latency s.tick.rows + s.tick.lag < _
  unfold wait
  rcases Nat.eq_zero_or_pos (Rows.queued s.rows) with hidle | hqueued
  · obtain hpos | ⟨e, he, hpending, hlast⟩ | ⟨d, hd, hlate⟩ := h
    · omega
    · have hlt := remaining_tick_lt hidle he hpending hlast
      omega
    · have hlt := lag_tick_lt hd hlate
      omega
  · have hpos := intake_pos hqueued
    omega

/-- A poll takes nothing but what is due. -/
theorem wait_poll_le {answer : Option Response} (h : s.poll = (answer, s')) : s'.wait ≤ s.wait := by
  obtain ⟨-, rfl⟩ | ⟨d, before, after, -, hsplit, -, -, rfl⟩ := poll_cases h
  · exact Nat.le_refl _
  · unfold wait lag
    rw [hsplit]
    simp only [List.map_append, List.map_cons, List.sum_append, List.sum_cons]
    show s.forcedBusy + s.intake + Rows.remaining s.options.latency s.rows + _ ≤ _
    omega

/-- A poll that yields nothing found nothing due. -/
theorem late_of_poll_none (h : s.poll = (none, s')) {d : Deferred} (hd : d ∈ s.deferred) : s.cycle < d.due := by
  unfold poll at h
  cases hf : s.deferred.find? s.isDue with
  | some e =>
    rw [hf] at h
    cases h
  | none =>
    have hnot := List.find?_eq_none.1 hf d hd
    unfold isDue at hnot
    simpa using hnot

/-- Once a client has taken everything that the simulator had to hand out, nothing is due. -/
theorem late_of_pollWithin {limit : Nat} {c c' : Client Simulator} {responses : List Response}
    (h : Client.pollWithin limit c = .ok responses c') (enough : c.channel.deferred.length < limit) :
    c'.channel.wait ≤ c.channel.wait ∧ ∀ d ∈ c'.channel.deferred, c'.channel.cycle < d.due := by
  induction limit generalizing c responses with
  | zero => exact absurd enough (Nat.not_lt_zero _)
  | succ limit ih =>
    obtain ⟨answer, b, hpoll, h⟩ := bind_ok_iff.1 h
    have hpoll : c.channel.poll = (answer, b.channel) := Client.poll_ok hpoll
    have hle := wait_poll_le hpoll
    cases answer with
    | none =>
      obtain ⟨-, rfl⟩ := pure_ok_iff.1 h
      obtain ⟨-, hsame⟩ | ⟨_, _, _, hanswer, -⟩ := poll_cases hpoll
      · rw [hsame]
        exact ⟨Nat.le_refl _, fun d hd => late_of_poll_none hpoll hd⟩
      · cases hanswer
    | some response =>
      obtain ⟨rest, b', hrest, h⟩ := bind_ok_iff.1 h
      obtain ⟨-, rfl⟩ := pure_ok_iff.1 h
      have hlength := length_deferred_poll hpoll
      obtain ⟨hrest, hlate⟩ := ih hrest (by omega)
      exact ⟨Nat.le_trans hrest hle, hlate⟩

theorem isDone_eq_true_iff {tid : Tid} :
    s.isDone tid = true ↔ ∃ e, s.find? tid = some e ∧ e.phase = .done := by
  unfold isDone
  cases s.find? tid <;> simp [Entry.isDone]

/-- What is done stays done. -/
theorem isDone_tick {tid : Tid} (h : s.isDone tid = true) : s.tick.isDone tid = true := by
  let R : Entry → Entry → Prop := fun e e' => e.tid = e'.tid ∧ (e.phase = .done → e'.phase = .done)
  have hadvances : ∀ e, R e (e.advance s.options.latency) := by
    intro e
    refine ⟨(Entry.tid_advance ..).symm, fun hp => ?_⟩
    unfold Entry.advance
    simp only [hp]
  obtain ⟨rows, hdrain, hadvance⟩ := s.rel_tick (R := R) (fun _ => ⟨rfl, id⟩) (fun _ _ _ _ => ⟨rfl, id⟩) hadvances
  have hfirst := Rows.find?_rel (fun _ _ h => h.1) hdrain tid
  have hsecond := Rows.find?_rel (fun _ _ h => h.1) hadvance tid
  obtain ⟨e, he, hp⟩ := isDone_eq_true_iff.1 h
  rw [show Rows.find? tid s.rows = some e from he] at hfirst
  rw [isDone_eq_true_iff]
  unfold find?
  generalize Rows.find? tid rows = a, Rows.find? tid s.tick.rows = b at *
  cases hfirst with
  | some hr =>
    cases hsecond with
    | some hr' => exact ⟨_, rfl, hr'.2 (hr.2 hp)⟩

/-! ## Requests that are put off -/

section Requests

variable {request : Request} {answer : Response} {tid : Tid} {value : Element} {last : Bool}

theorem mem_entries_of_find? {e : Entry} (he : s.find? tid = some e) : e ∈ s.entries :=
  List.mem_of_find?_eq_some he

theorem target_error {code : ExitCode} (h : s.target request = .error code) : code = .badRequest :=
  (orRefuse_eq_error h).symm

/-- A data write that is put off finds refusals due or the queue of its transaction full. -/
theorem writeData_busy (h : s.issue (.writeData tid value last) = (answer, s'))
    (code : answer.exitCode = .queueBusy) :
    s' = (s.record (.writeData tid value last)).refuseBusy.2 ∧
      (0 < s.forcedBusy ∨ ∃ e ∈ s.tick.entries, s.options.queueDepth ≤ e.queue.length) := by
  generalize hrequest : Request.writeData tid value last = request at h
  have hperform : (s.record request).perform request = (s.record request).writeData last request := by
    subst hrequest
    cases last <;> rfl
  obtain ⟨refusal, hrefused, rfl, -⟩ | hdone := issue_cases h
  · rw [hperform] at hrefused
    obtain hbad | ⟨e, -, hbad⟩ := except_bind_error_iff.1 hrefused
    · rw [target_error hbad] at code
      cases code
    · repeat' split at hbad
      all_goals cases hbad
      cases code
  · rw [hperform] at hdone
    obtain ⟨e, he, hdone⟩ := except_bind_ok_iff.1 hdone
    split at hdone
    · cases hdone
    split at hdone
    · next hbusy =>
      cases hdone
      exact ⟨rfl, hbusy.imp_right fun hfull => ⟨e, mem_entries_of_find? (orRefuse_eq_ok.1 he), hfull⟩⟩
    · cases hdone
      cases code

/-- A read that is put off finds its transaction at work. -/
theorem readData_notDone (h : s.issue (.readData tid) = (answer, s')) (code : answer.exitCode = .notDone) :
    s' = (s.record (.readData tid)).refuseNotDone.2 ∧ s.tick.isDone tid = false := by
  have hperform : (s.record (.readData tid)).perform (.readData tid) =
      (s.record (.readData tid)).readData (.readData tid) := rfl
  obtain ⟨refusal, hrefused, rfl, -⟩ | hdone := issue_cases h
  · rw [hperform] at hrefused
    obtain hbad | ⟨e, -, hbad⟩ := except_bind_error_iff.1 hrefused
    · rw [target_error hbad] at code
      cases code
    · repeat' split at hbad
      all_goals cases hbad
      cases code
  · rw [hperform] at hdone
    obtain ⟨e, he, hdone⟩ := except_bind_ok_iff.1 hdone
    rw [target, Request.tid_readData, orRefuse_eq_ok] at he
    split at hdone
    · next hwork =>
      cases hdone
      refine ⟨rfl, ?_⟩
      unfold isDone
      rw [show s.tick.find? tid = some e from he]
      simpa using hwork
    split at hdone
    · cases hdone
    · obtain hcode | hcode := exitCode_respond (fun r hr => (Response.of_dataOut hr).1) (Except.ok.inj hdone)
      all_goals
        rw [hcode] at code
        cases code

/-- A data write that is put off brings the simulator on, as long as its queues hold anything. -/
theorem wait_lt_of_busy (depth : 1 ≤ s.options.queueDepth)
    (h : s.issue (.writeData tid value last) = (answer, s')) (code : answer.exitCode = .queueBusy) :
    s'.wait < s.wait := by
  obtain ⟨rfl, hbusy⟩ := writeData_busy h code
  show s.forcedBusy - 1 + s.tick.intake + Rows.remaining s.options.latency s.tick.rows + s.tick.lag < _
  obtain hforced | ⟨e, he, hfull⟩ := hbusy
  · have hle : s.forcedBusy + s.tick.intake + Rows.remaining s.options.latency s.tick.rows + s.tick.lag ≤ _ :=
      s.wait_tick_le
    omega
  · have hqueue : e.queue.length ≤ Rows.queued s.tick.rows := Rows.length_queue_le he
    have hqueued := s.queued_tick_le
    have hlt : s.forcedBusy + s.tick.intake + Rows.remaining s.options.latency s.tick.rows + s.tick.lag < _ :=
      wait_tick_lt (.inl (by omega))
    omega

/-- A read that is put off brings the simulator on, as its transaction is at work on the whole stream. -/
theorem wait_lt_of_notDone (h : s.issue (.readData tid) = (answer, s')) (code : answer.exitCode = .notDone)
    {e : Entry} (he : s.find? tid = some e) (last : e.lastSeen = true) : s'.wait < s.wait := by
  obtain ⟨rfl, hwork⟩ := readData_notDone h code
  show s.tick.wait < s.wait
  refine wait_tick_lt (.inr (.inl ⟨e, mem_entries_of_find? he, fun hdone => ?_, last⟩))
  rw [isDone_tick (isDone_eq_true_iff.2 ⟨e, he, hdone⟩)] at hwork
  cases hwork

end Requests

end NeuralEngine.Simulator
