import NeuralEngine.Simulator.Answer

/-!
# The order of deferred responses

Identifiers are deferred by one delay, and the data words of a transaction by one of their own. So the
responses fall into lanes, one for the identifiers and one for each transaction, and within a lane they
come due in the order in which they were deferred (`Ordered`), as long as the clock can count the cycles at
which they do (`InTime`). The responses of a lane, those handed out and then those held back, then read the
same before and after a poll (`along_poll`), and an answer adds its response at the end of its lane
(`gives_respond`), deferred or not.
-/

namespace NeuralEngine

/-- The lane of a response: none for an identifier, the transaction for a data word. -/
def Response.lane (r : Response) : Option Tid :=
  if r.kind? = some .tid then none else some r.tid

theorem Response.lane_tid {r : Response} (kind : r.kind? = some .tid) : r.lane = none := by
  unfold Response.lane
  rw [if_pos kind]

theorem Response.lane_data {r : Response} (kind : r.kind? = some .data) : r.lane = some r.tid := by
  unfold Response.lane
  rw [if_neg (by rw [kind]; simp)]

theorem Response.tid_of_lane {r : Response} {tid : Tid} (h : r.lane = some tid) : r.tid = tid := by
  unfold Response.lane at h
  split at h
  · cases h
  · exact Option.some.inj h

/-- What is left to be handed over of an immediate answer. -/
def Response.prompt (r : Response) : Option Response :=
  if r.kind? = some .status then none else some r

/-- The responses of one lane. -/
def along (lane : Option Tid) (rs : List Response) : List Response :=
  rs.filter fun r => r.lane == lane

section Along

variable (lane : Option Tid) (rs rs' : List Response) {r : Response}

@[simp] theorem along_nil : along lane [] = [] :=
  rfl

@[simp] theorem along_append : along lane (rs ++ rs') = along lane rs ++ along lane rs' :=
  List.filter_append ..

variable {lane}

theorem along_cons (h : r.lane = lane) : along lane (r :: rs) = r :: along lane rs :=
  List.filter_cons_of_pos (by simpa using h)

theorem along_cons_ne (h : r.lane ≠ lane) : along lane (r :: rs) = along lane rs :=
  List.filter_cons_of_neg (by simpa using h)

theorem along_eq_nil (h : ∀ r ∈ rs, r.lane ≠ lane) : along lane rs = [] := by
  unfold along
  rw [List.filter_eq_nil_iff]
  intro r hr
  simpa using h r hr

variable {rs rs'}

theorem mem_along : r ∈ along lane rs ↔ r ∈ rs ∧ r.lane = lane := by
  unfold along
  rw [List.mem_filter, beq_iff_eq]

/-- What is in no lane is not there at all. -/
theorem mem_of_along_eq (h : ∀ lane, along lane rs = along lane rs') (hr : r ∈ rs) : r ∈ rs' := by
  have hmem : r ∈ along r.lane rs := mem_along.2 ⟨hr, rfl⟩
  rw [h] at hmem
  exact (mem_along.1 hmem).1

end Along

namespace Simulator

/-- The number of steps by which the responses of a lane are deferred, if they are. -/
def Options.delay (o : Options) : Option Tid → Option Nat
  | none => o.tidDelay
  | some tid => o.dataDelay.map fun delay => delay tid

/-- The responses held back. -/
def undelivered (s : Simulator) : List Response :=
  s.deferred.map (·.response)

@[simp] theorem undelivered_defer (r : Response) (steps : Nat) (s : Simulator) :
    (s.defer r steps).undelivered = s.undelivered ++ [r] := by
  simp [undelivered, defer]

/-! ## The clock -/

/-- The clock can count as far as the cycle. -/
def Clock.Reaches : Clock → Nat → Prop
  | .word, cycle => cycle < 2 ^ 64
  | .unbounded, _ => True

namespace Clock

variable {clock : Clock} {cycle earlier : Nat}

instance : Decidable (clock.Reaches cycle) :=
  match clock with
  | .word => inferInstanceAs (Decidable (cycle < 2 ^ 64))
  | .unbounded => .isTrue trivial

theorem count_le : clock.count cycle ≤ cycle := by
  cases clock with
  | word => exact Nat.mod_le _ _
  | unbounded => exact Nat.le_refl _

theorem Reaches.count_eq (h : clock.Reaches cycle) : clock.count cycle = cycle := by
  cases clock with
  | word => exact Nat.mod_eq_of_lt h
  | unbounded => rfl

theorem Reaches.mono (h : clock.Reaches cycle) (le : earlier ≤ cycle) : clock.Reaches earlier := by
  cases clock with
  | word => exact Nat.lt_of_le_of_lt le h
  | unbounded => trivial

end Clock

/-- The clock can count as far as to the cycle at which a response comes due that is deferred now. -/
def InTime (s : Simulator) : Prop :=
  ∀ lane steps, s.options.delay lane = some steps → s.options.clock.Reaches (s.cycle + steps)

/-- The clock could count as far at any time before. -/
theorem InTime.before {s s' : Simulator} (h : s'.InTime) (options : s'.options = s.options)
    (cycle : s.cycle ≤ s'.cycle) : s.InTime := by
  intro lane steps hdelay
  have hreaches := h lane steps (options ▸ hdelay)
  rw [options] at hreaches
  exact hreaches.mono (by omega)

/-- A clock without a bound is always in time. -/
theorem inTime_of_unbounded {s : Simulator} (unbounded : s.options.clock = .unbounded) : s.InTime := by
  intro lane steps _
  rw [unbounded]
  trivial

/-- The responses of each lane come due in their order. -/
structure Ordered (s : Simulator) : Prop where
  sorted : s.InTime →
    s.deferred.Pairwise fun d e => d.response.lane = e.response.lane → d.due ≤ e.due
  late : ∀ d ∈ s.deferred,
    ∃ steps, s.options.delay d.response.lane = some steps ∧ d.due ≤ s.cycle + steps

/-- What is chosen when an engine is built or bound is the same, and so is its fault. -/
structure Alike (s s' : Simulator) : Prop where
  params : s'.params = s.params
  options : s'.options = s.options
  table : s'.table = s.table
  asid : s'.asid = s.asid
  fault : s'.fault = s.fault

theorem Alike.refl (s : Simulator) : Alike s s :=
  ⟨rfl, rfl, rfl, rfl, rfl⟩

theorem Alike.trans {s s' s'' : Simulator} (h : Alike s s') (h' : Alike s' s'') : Alike s s'' :=
  ⟨h'.params.trans h.params, h'.options.trans h.options, h'.table.trans h.table,
    h'.asid.trans h.asid, h'.fault.trans h.fault⟩

variable {s s' : Simulator}

/-- Responses that were handed out may be missing, and time may have passed. -/
theorem Ordered.of_sublist (h : s.Ordered) (options : s'.options = s.options)
    (cycle : s.cycle ≤ s'.cycle) (sublist : s'.deferred.Sublist s.deferred) : s'.Ordered where
  sorted inTime := (h.sorted (inTime.before options cycle)).sublist sublist
  late d hd := by
    obtain ⟨steps, hsteps, hdue⟩ := h.late d (sublist.subset hd)
    rw [options]
    exact ⟨steps, hsteps, by omega⟩

theorem Ordered.tick (h : s.Ordered) : s.tick.Ordered :=
  h.of_sublist rfl (Nat.le_succ _) (List.Sublist.refl _)

/-- One more response is deferred by the delay of its lane. -/
theorem Ordered.defer (h : s.Ordered) {r : Response} {steps : Nat}
    (delay : s.options.delay r.lane = some steps) :
    (s.defer r steps).Ordered where
  sorted inTime := by
    have hpairwise := h.sorted (inTime.before rfl (Nat.le_refl _))
    refine List.pairwise_append.2 ⟨hpairwise, List.pairwise_singleton _ _, ?_⟩
    intro d hd e he hlane
    rw [List.mem_singleton] at he
    subst he
    obtain ⟨steps', hsteps', hdue⟩ := h.late d hd
    rw [hlane, delay] at hsteps'
    obtain rfl := Option.some.inj hsteps'
    have hcount : s.options.clock.count (s.cycle + steps) = s.cycle + steps :=
      (inTime r.lane steps delay).count_eq
    rw [hcount]
    exact hdue
  late d hd := by
    obtain hd | hd := List.mem_append.1 hd
    · exact h.late d hd
    · rw [List.mem_singleton] at hd
      subst hd
      exact ⟨steps, delay, Clock.count_le⟩

/-- Nothing is deferred in a lane without a delay. -/
theorem Ordered.along_eq_nil (h : s.Ordered) {lane : Option Tid} (delay : s.options.delay lane = none) :
    along lane s.undelivered = [] := by
  refine NeuralEngine.along_eq_nil _ fun r hr => ?_
  obtain ⟨d, hd, rfl⟩ := List.mem_map.1 hr
  rintro rfl
  obtain ⟨steps, hsteps, -⟩ := h.late d hd
  rw [delay] at hsteps
  cases hsteps

/-! ## Polls -/

/-- A poll takes the first response that is due, if there is one. -/
theorem poll_cases {answer : Option Response} (h : s.poll = (answer, s')) :
    answer = none ∧ s' = s ∨
      ∃ d before after, answer = some d.response ∧ s.deferred = before ++ d :: after ∧
        d.due ≤ s.cycle ∧ (∀ e ∈ before, ¬ e.due ≤ s.cycle) ∧
        s' = { s with deferred := before ++ after, delivered := d.response :: s.delivered } := by
  unfold poll at h
  cases hf : s.deferred.find? s.isDue with
  | none =>
    rw [hf] at h
    cases h
    exact .inl ⟨rfl, rfl⟩
  | some d =>
    rw [hf] at h
    cases h
    obtain ⟨hd, before, after, hsplit, hbefore⟩ := List.find?_eq_some_iff_append.1 hf
    have hnot : ∀ e ∈ before, ¬ s.isDue e = true := fun e he => by simpa using hbefore e he
    refine .inr ⟨d, before, after, rfl, hsplit, by simpa [isDue] using hd, ?_, ?_⟩
    · intro e he
      simpa [isDue] using hnot e he
    · rw [hsplit, List.eraseP_append_right _ hnot, List.eraseP_cons_of_pos hd]

/-- A poll leaves everything but the deferred responses as it is. -/
theorem poll_same {answer : Option Response} (h : s.poll = (answer, s')) :
    Alike s s' ∧ s'.rows = s.rows := by
  obtain ⟨-, rfl⟩ | ⟨_, _, _, -, -, -, -, rfl⟩ := poll_cases h
  · exact ⟨.refl _, rfl⟩
  · exact ⟨⟨rfl, rfl, rfl, rfl, rfl⟩, rfl⟩

/-- A poll takes no time. -/
theorem cycle_poll {answer : Option Response} (h : s.poll = (answer, s')) : s'.cycle = s.cycle := by
  obtain ⟨-, rfl⟩ | ⟨_, _, _, -, -, -, -, rfl⟩ := poll_cases h <;> rfl

theorem Ordered.poll (h : s.Ordered) {answer : Option Response} (hp : s.poll = (answer, s')) :
    s'.Ordered := by
  obtain ⟨-, rfl⟩ | ⟨d, before, after, -, hsplit, -, -, rfl⟩ := poll_cases hp
  · exact h
  · refine h.of_sublist rfl (Nat.le_refl _) ?_
    rw [hsplit]
    exact (List.sublist_cons_self d after).append_left before

/-- What a poll hands out is the first response of its lane: an earlier one would have been due as well. -/
theorem Ordered.lane_ne_of_before (h : s.Ordered) (inTime : s.InTime) {d e : Deferred} {before after : List Deferred}
    (split : s.deferred = before ++ d :: after) (due : d.due ≤ s.cycle) (late : ∀ e ∈ before, ¬ e.due ≤ s.cycle)
    (he : e ∈ before) : e.response.lane ≠ d.response.lane := by
  intro hlane
  have hsorted := h.sorted inTime
  rw [split, List.pairwise_append] at hsorted
  exact late e he (Nat.le_trans (hsorted.2.2 e he d List.mem_cons_self hlane) due)

/-- A poll hands out the first response of a lane. -/
theorem along_poll (h : s.Ordered) (inTime : s.InTime) {answer : Option Response}
    (hp : s.poll = (answer, s')) (lane : Option Tid) :
    along lane (answer.toList ++ s'.undelivered) = along lane s.undelivered := by
  obtain ⟨rfl, rfl⟩ | ⟨d, before, after, rfl, hsplit, hdue, hbefore, rfl⟩ := poll_cases hp
  · rfl
  have hearlier : along d.response.lane (before.map (·.response)) = [] := by
    refine NeuralEngine.along_eq_nil _ fun r hr => ?_
    obtain ⟨e, he, rfl⟩ := List.mem_map.1 hr
    exact h.lane_ne_of_before inTime hsplit hdue hbefore he
  unfold undelivered
  simp only [hsplit, Option.toList_some, List.map_append, List.map_cons, along_append]
  by_cases hlane : d.response.lane = lane
  · subst hlane
    rw [along_cons _ rfl, along_cons _ rfl, hearlier]
    rfl
  · rw [along_cons_ne _ hlane, along_cons_ne _ hlane]
    rfl

/-! ## Answers -/

/-- How a response is given: as the answer, or, behind a bare `ok`, after the delay. Where there is none to give,
the engine has a fault. -/
inductive Responded (s : Simulator) : Option Response → Option Nat → Response → Simulator → Prop
  | faulty (delay : Option Nat) :
      Responded s none delay (.status .unknown) { s with fault := some .addressSpaceTooWide }
  | prompt (r : Response) : Responded s (some r) none r s
  | held (r : Response) (steps : Nat) :
      Responded s (some r) (some steps) (.status .ok) (s.defer r steps)

theorem responded {response : Option Response} {delay : Option Nat} {answer : Response}
    (h : s.respond response delay = (answer, s')) : Responded s response delay answer s' := by
  cases response with
  | none =>
    cases h
    exact .faulty delay
  | some r =>
    cases delay with
    | none =>
      cases h
      exact .prompt _
    | some steps =>
      cases h
      exact .held r steps

/-- The answer to a request and what it leaves deferred add `given` to what is to be handed out. -/
structure Gives (s s' : Simulator) (answer : Response) (given : List Response) : Prop where
  alike : Alike s s'
  ordered : s'.Ordered
  lanes : ∀ lane, along lane (answer.prompt.toList ++ s'.undelivered) = along lane (s.undelivered ++ given)

/-- A bare status gives nothing. -/
theorem Gives.of_status {answer : Response} (kind : answer.kind? = some .status) (alike : Alike s s')
    (ordered : s'.Ordered) (deferred : s'.deferred = s.deferred) : Gives s s' answer [] where
  alike := alike
  ordered := ordered
  lanes lane := by
    unfold undelivered Response.prompt
    rw [if_pos kind, deferred, Option.toList_none, List.nil_append, List.append_nil]

theorem Gives.of_step {u : Simulator} {answer : Response} {given : List Response} (h : Gives u s' answer given)
    (alike : Alike s u) (deferred : u.deferred = s.deferred) : Gives s s' answer given where
  alike := alike.trans h.alike
  ordered := h.ordered
  lanes lane := by
    rw [h.lanes]
    unfold undelivered
    rw [deferred]

theorem Gives.congr {s'' : Simulator} {answer : Response} {given : List Response} (h : Gives s s' answer given)
    (alike : Alike s' s'') (cycle : s''.cycle = s'.cycle) (deferred : s''.deferred = s'.deferred) :
    Gives s s'' answer given where
  alike := h.alike.trans alike
  ordered := h.ordered.of_sublist alike.options (Nat.le_of_eq cycle.symm)
    (deferred ▸ List.Sublist.refl _)
  lanes lane := by
    rw [← h.lanes]
    unfold undelivered
    rw [deferred]

/-- The response comes at once or, after a bare `ok`, later: in any case at the end of its lane. -/
theorem gives_respond (h : s.Ordered) {r : Response} {delay : Option Nat} (ok : r.exitCode = .ok)
    (kind : r.kind? ≠ some .status) (delay_eq : delay = s.options.delay r.lane) :
    ∃ answer s', s.respond (some r) delay = (answer, s') ∧ answer.exitCode = .ok ∧
      (answer.kind? = some .status ∨ answer = r) ∧ s'.rows = s.rows ∧ Gives s s' answer [r] := by
  cases delay with
  | none =>
    refine ⟨r, s, rfl, ok, .inr rfl, rfl, .refl s, h, fun lane => ?_⟩
    unfold Response.prompt
    rw [if_neg kind, Option.toList_some, along_append, along_append]
    by_cases hlane : r.lane = lane
    · subst hlane
      rw [h.along_eq_nil delay_eq.symm, List.append_nil, List.nil_append]
    · rw [along_cons_ne [] hlane, along_nil, List.append_nil, List.nil_append]
  | some steps =>
    refine ⟨.status .ok, _, rfl, rfl, .inl rfl, rfl, ⟨rfl, rfl, rfl, rfl, rfl⟩, h.defer delay_eq.symm,
      fun lane => ?_⟩
    have hstatus : (Response.status .ok).prompt = none := rfl
    rw [hstatus, undelivered_defer, Option.toList_none, List.nil_append]

end Simulator

end NeuralEngine
