import NeuralEngine.Proofs.Simulator.TableInvariant
import NeuralEngine.Proofs.Simulator.Wait

/-!
# Responses that are held back

An accepted open or read may be answered with a bare `ok`, and its response is then held back. `Defers` says
when a request leaves a response behind and which one, with the cycle from which on it can be handed out. Polls
take the first response that has come due, wherever it stands. None is lost and none comes before its cycle
(`settles_runAll`). Identifiers and words of different transactions may overtake each other, but each lane is a
queue as long as the clock is in time (`handed_runAll`): the responses of a lane come out in the order in which
they went in. A cycle that the clock cannot count is a small one, and the response that comes due at it overtakes
all others (`overflowing_assignment_overtakes`).
-/

namespace NeuralEngine.Simulator

open Command

variable {s s' : Simulator} {request : Request} {answer : Response} {lane : Option Tid} {tid : Tid}

/-! ## What a request leaves behind -/

/-- What a request adds to the responses held back. Nothing is added for a request that is refused, nor where
the answer itself carries the response; an open and a read that are deferred are answered with a bare `ok`. -/
inductive Defers (s : Simulator) (request : Request) (answer : Response) : List Deferred → Prop
  | nothing (opens : request.op? = some .newRequest → answer.exitCode = .ok → s.options.tidDelay = none)
      (reads : request.op? = some .readData → answer.exitCode = .ok → s.options.dataDelay = none) :
      Defers s request answer []
  /-- The identifier of the transaction that was opened. -/
  | assignment (r : Response) (steps : Nat) (op : request.op? = some .newRequest) (bare : answer = .status .ok)
      (kind : r.kind? = some .tid) (delay : s.options.tidDelay = some steps) :
      Defers s request answer [⟨s.options.clock.count (s.cycle + 1 + steps), r⟩]
  /-- The next output of the transaction that was read. -/
  | word (r : Response) (delays : Tid → Nat) (op : request.op? = some .readData) (bare : answer = .status .ok)
      (kind : r.kind? = some .data) (about : r.tid = request.tid) (delay : s.options.dataDelay = some delays) :
      Defers s request answer [⟨s.options.clock.count (s.cycle + 1 + delays request.tid), r⟩]

/-- A request that is not an accepted open or read leaves nothing behind. -/
theorem Defers.of_aside
    (aside : answer.exitCode = .ok → request.op? ≠ some .newRequest ∧ request.op? ≠ some .readData) :
    Defers s request answer [] :=
  .nothing (fun op ok => absurd op (aside ok).1) fun op ok => absurd op (aside ok).2

/-- Only a bare `ok` leaves a response behind. -/
theorem Defers.eq_nil_of_ne {left : List Deferred} (h : Defers s request answer left) (carries : answer ≠ .status .ok) :
    left = [] := by
  cases h with
  | nothing => rfl
  | assignment _ _ _ bare => exact absurd bare carries
  | word _ _ _ bare => exact absurd bare carries

/-- What is left behind comes due after the delay of its lane, if the clock can count that far. -/
theorem Defers.due_eq {left : List Deferred} (h : Defers s request answer left) (options : s'.options = s.options)
    (cycle : s'.cycle = s.cycle + 1) (inTime : s'.InTime) {d : Deferred} (hd : d ∈ left) :
    ∃ steps, s.options.delay d.response.lane = some steps ∧ d.due = s.cycle + 1 + steps := by
  have hcount : ∀ lane steps, s.options.delay lane = some steps →
      s.options.clock.count (s.cycle + 1 + steps) = s.cycle + 1 + steps := fun lane steps hdelay => by
    have hreaches := inTime lane steps (options ▸ hdelay)
    rw [options, cycle] at hreaches
    exact hreaches.count_eq
  cases h with
  | nothing => cases hd
  | assignment r steps _ _ kind delay =>
    obtain rfl := List.mem_singleton.1 hd
    have hdelay : s.options.delay r.lane = some steps := by
      rw [Response.lane_tid kind]
      exact delay
    exact ⟨steps, hdelay, hcount _ _ hdelay⟩
  | word r delays _ _ kind about delay =>
    obtain rfl := List.mem_singleton.1 hd
    have hdelay : s.options.delay r.lane = some (delays request.tid) := by
      rw [Response.lane_data kind, about, Options.delay, delay]
      rfl
    exact ⟨_, hdelay, hcount _ _ hdelay⟩

/-- What is made for a request is left behind if it is held back. -/
theorem exists_defers_of_respond {u t : Simulator} {response : Option Response} {delay : Option Nat}
    (respond : u.respond response delay = (answer, t)) (options : u.options = s.options)
    (cycle : u.cycle = s.cycle + 1) (deferred : u.deferred = s.deferred)
    (prompt : delay = none → Defers s request answer [])
    (held : ∀ r steps, response = some r → delay = some steps → answer = .status .ok →
      Defers s request answer [⟨s.options.clock.count (s.cycle + 1 + steps), r⟩]) :
    ∃ left, Defers s request answer left ∧ t.deferred = s.deferred ++ left := by
  have hnothing : u.deferred = s.deferred ++ [] := deferred.trans (List.append_nil _).symm
  cases responded respond with
  | faulty => exact ⟨[], .of_aside ExitCode.noConfusion, hnothing⟩
  | prompt => exact ⟨[], prompt rfl, hnothing⟩
  | held r steps => exact ⟨_, held r steps rfl rfl rfl, by rw [defer, options, cycle, deferred]⟩

theorem exists_defers_of_issue (h : s.issue request = (answer, s')) :
    ∃ left, Defers s request answer left ∧ s'.deferred = s.deferred ++ left := by
  have hnothing : ∀ {answer : Response},
      (answer.exitCode = .ok → request.op? ≠ some .newRequest ∧ request.op? ≠ some .readData) →
        ∃ left, Defers s request answer left ∧ s.deferred = s.deferred ++ left := fun aside =>
    ⟨[], .of_aside aside, (List.append_nil _).symm⟩
  obtain ⟨code, hrefused, rfl, rfl⟩ | hperform := issue_cases h
  · refine hnothing fun ok => absurd ok ?_
    rw [Response.exitCode_status]
    exact ExitCode.ne_ok_of_isFatal (perform_error hrefused)
  cases performs_of_ok hperform with
  | exhausted => exact hnothing ExitCode.noConfusion
  | @opened o tid next _ t op _ _ respond =>
    have hread : request.op? ≠ some .readData := by simp [op]
    show ∃ left, Defers s request answer left ∧ t.deferred = s.deferred ++ left
    exact exists_defers_of_respond respond rfl rfl rfl
      (fun hdelay => .nothing (fun _ _ => hdelay) fun read => absurd read hread)
      fun r steps hr hdelay bare => .assignment r steps op bare (Response.of_tidAssigned hr).2.1 hdelay
  | registered _ _ op => exact hnothing fun _ => by simp [op]
  | busy => exact hnothing ExitCode.noConfusion
  | enqueued _ last op => exact hnothing fun _ => by cases last <;> simp [op]
  | notDone => exact hnothing ExitCode.noConfusion
  | read _ _ _ op _ _ _ respond =>
    have hopen : request.op? ≠ some .newRequest := by simp [op]
    refine exists_defers_of_respond respond rfl rfl rfl
      (fun hdelay => .nothing (fun opens => absurd opens hopen) fun _ _ => Option.map_eq_none_iff.1 hdelay)
      fun r steps hr hdelay bare => ?_
    obtain ⟨-, hkind, htid, -⟩ := Response.of_dataOut hr
    obtain ⟨delays, hdelays, rfl⟩ := Option.map_eq_some_iff.1 hdelay
    exact .word r delays op bare hkind htid hdelays

/-! ## Histories -/

namespace Command

variable {α : Type}

/-- What the commands of a sequence yield, one after the other. -/
def collect (yields : Command → Simulator → List α) : List Command → Simulator → List α
  | [], _ => []
  | c :: cs, s => yields c s ++ collect yields cs (c.run s)

/-- The responses that a command leaves to be handed out, with the cycles at which they come due. -/
def defers : Command → Simulator → List Deferred
  | .issue request, s => (s.issue request).2.deferred.drop s.deferred.length
  | _, _ => []

/-- The response that a command hands out, with the cycle at which it does. -/
def handsOut : Command → Simulator → List (Nat × Response)
  | .poll, s => s.poll.1.toList.map fun r => (s.cycle, r)
  | _, _ => []

/-- The responses that were left to be handed out, in the order of their requests. -/
def deferrals (cs : List Command) (s : Simulator) : List Deferred :=
  collect defers cs s

/-- The responses that were handed out, in their order. -/
def handouts (cs : List Command) (s : Simulator) : List (Nat × Response) :=
  collect handsOut cs s

/-- The identifiers that accepted opens were given, in the order of the opens. -/
def givenTids (cs : List Command) (s : Simulator) : List Tid :=
  collect (fun c s => (c.gives? s).toList) cs s

/-- The words that accepted reads under an identifier have taken, in the order of the reads. -/
def readWords (tid : Tid) (cs : List Command) (s : Simulator) : List Response :=
  collect (draws tid) cs s

/-- The responses that a request leaves behind come after those held back. -/
theorem defers_of_issue (h : s.issue request = (answer, s')) :
    Defers s request answer ((issue request).defers s) ∧ s'.deferred = s.deferred ++ (issue request).defers s := by
  obtain ⟨left, hleft, hdeferred⟩ := exists_defers_of_issue h
  have hsame : (issue request).defers s = left :=
    calc (issue request).defers s
      _ = s'.deferred.drop s.deferred.length := congrArg (fun given => given.2.deferred.drop s.deferred.length) h
      _ = left := by rw [hdeferred, List.drop_left]
  exact hsame ▸ ⟨hleft, hdeferred⟩

theorem handedOver_eq (h : s.issue request = (answer, s')) :
    s.handedOver s' answer = answer.prompt.toList ++ ((issue request).defers s).map (·.response) := by
  unfold handedOver undelivered
  rw [(defers_of_issue h).2, List.map_append, List.drop_left]

theorem deliveries_run (c : Command) (s : Simulator) :
    (c.run s).deliveries = s.deliveries ++ (c.handsOut s).map (·.2) := by
  cases c with
  | issue request =>
    have hsame : (s.issue request).2.delivered = s.delivered := (issue_same rfl).2.1
    simp only [run, handsOut, List.map_nil, List.append_nil, deliveries, hsame]
  | step => simp only [run, handsOut, List.map_nil, List.append_nil, deliveries, tick]
  | poll =>
    obtain ⟨answer, s', hp⟩ : ∃ answer s', s.poll = (answer, s') := ⟨_, _, rfl⟩
    simp only [run, handsOut, hp]
    obtain ⟨rfl, rfl⟩ | ⟨d, before, after, rfl, -, -, -, rfl⟩ := poll_cases hp
    · simp
    · simp [deliveries]

theorem deliveries_runAll (cs : List Command) (s : Simulator) :
    (runAll cs s).deliveries = s.deliveries ++ (handouts cs s).map (·.2) := by
  induction cs generalizing s with
  | nil => exact (List.append_nil _).symm
  | cons c cs ih =>
    show (runAll cs (c.run s)).deliveries = s.deliveries ++ (c.handsOut s ++ handouts cs (c.run s)).map (·.2)
    rw [ih, deliveries_run, List.map_append, List.append_assoc]

end Command

/-! ## Nothing lost, nothing early -/

/-- The response was handed out as it was left, and not before its cycle. -/
def Handed (d : Deferred) (h : Nat × Response) : Prop :=
  h.2 = d.response ∧ d.due ≤ h.1

theorem response_of_handed {first : List Deferred} {out : List (Nat × Response)} (h : List.Forall₂ Handed first out) :
    first.map (·.response) = out.map (·.2) := by
  induction h with
  | nil => rfl
  | cons head _ ih => rw [List.map_cons, List.map_cons, head.1, ih]

/-- What was held back has left as it was and in time, or is still there, each as often. -/
def Settles (before : List Deferred) (out : List (Nat × Response)) (after : List Deferred) : Prop :=
  ∃ gone, before.Perm (gone ++ after) ∧ List.Forall₂ Handed gone out

theorem Settles.perm {before after : List Deferred} {out : List (Nat × Response)} (h : Settles before out after) :
    (before.map (·.response)).Perm (out.map (·.2) ++ after.map (·.response)) := by
  obtain ⟨gone, hperm, hgone⟩ := h
  rw [← response_of_handed hgone, ← List.map_append]
  exact hperm.map _

theorem settles_run (c : Command) (s : Simulator) :
    Settles (s.deferred ++ c.defers s) (c.handsOut s) (c.run s).deferred := by
  cases c with
  | issue request =>
    have hdeferred : (s.issue request).2.deferred = _ := (defers_of_issue rfl).2
    exact ⟨[], .of_eq hdeferred.symm, .nil⟩
  | step => exact ⟨[], .of_eq (List.append_nil _), .nil⟩
  | poll =>
    obtain ⟨answer, s', hp⟩ : ∃ answer s', s.poll = (answer, s') := ⟨_, _, rfl⟩
    simp only [run, defers, handsOut, hp, List.append_nil]
    obtain ⟨rfl, rfl⟩ | ⟨d, before, after, rfl, hsplit, hdue, -, rfl⟩ := poll_cases hp
    · exact ⟨[], .refl _, .nil⟩
    · refine ⟨[d], ?_, .cons ⟨rfl, hdue⟩ .nil⟩
      rw [hsplit]
      exact List.perm_middle

open scoped List in
/-- By induction on the commands: what is held back at first and what is left behind on the way is handed out, or
stays. -/
theorem settles_runAll (cs : List Command) (s : Simulator) :
    Settles (s.deferred ++ deferrals cs s) (handouts cs s) (runAll cs s).deferred := by
  induction cs generalizing s with
  | nil => exact ⟨[], .of_eq (List.append_nil _), .nil⟩
  | cons c cs ih =>
    obtain ⟨first, hfirst, hhanded⟩ := settles_run c s
    obtain ⟨rest, hrest, hlater⟩ := ih (c.run s)
    refine ⟨first ++ rest, ?_, List.rel_append hhanded hlater⟩
    calc s.deferred ++ (c.defers s ++ deferrals cs (c.run s))
      _ = s.deferred ++ c.defers s ++ deferrals cs (c.run s) := (List.append_assoc ..).symm
      _ ~ first ++ (c.run s).deferred ++ deferrals cs (c.run s) := hfirst.append_right _
      _ = first ++ ((c.run s).deferred ++ deferrals cs (c.run s)) := List.append_assoc ..
      _ ~ first ++ (rest ++ (runAll cs (c.run s)).deferred) := hrest.append_left first
      _ = first ++ rest ++ (runAll cs (c.run s)).deferred := (List.append_assoc ..).symm

/-! ## Lanes as queues -/

/-- The responses of a lane that are held back, with their cycles. -/
def onLane (lane : Option Tid) (ds : List Deferred) : List Deferred :=
  ds.filter fun d => d.response.lane == lane

/-- The responses of a lane that were handed out, with their cycles. -/
def outOf (lane : Option Tid) (hs : List (Nat × Response)) : List (Nat × Response) :=
  hs.filter fun h => h.2.lane == lane

theorem map_onLane (lane : Option Tid) (ds : List Deferred) :
    (onLane lane ds).map (·.response) = along lane (ds.map (·.response)) := by
  unfold onLane along
  rw [List.filter_map]
  rfl

theorem map_outOf (lane : Option Tid) (hs : List (Nat × Response)) :
    (outOf lane hs).map (·.2) = along lane (hs.map (·.2)) := by
  unfold outOf along
  rw [List.filter_map]
  rfl

theorem onLane_append (lane : Option Tid) (ds more : List Deferred) :
    onLane lane (ds ++ more) = onLane lane ds ++ onLane lane more :=
  List.filter_append ..

/-- What has left a lane is what had been in it the longest, and it left as it was and in time. -/
def Drains (lane : Option Tid) (before : List Deferred) (out : List (Nat × Response)) (after : List Deferred) : Prop :=
  ∃ first, onLane lane before = first ++ onLane lane after ∧ List.Forall₂ Handed first (outOf lane out)

/-- A poll takes the first response of its lane, as an earlier one would have been due as well. -/
theorem drains_poll (ordered : s.Ordered) (inTime : s.InTime) (lane : Option Tid) :
    Drains lane s.deferred (Command.poll.handsOut s) (Command.poll.run s).deferred := by
  obtain ⟨answer, s', hp⟩ : ∃ answer s', s.poll = (answer, s') := ⟨_, _, rfl⟩
  simp only [run, handsOut, hp]
  obtain ⟨rfl, rfl⟩ | ⟨d, before, after, rfl, hsplit, hdue, hbefore, rfl⟩ := poll_cases hp
  · exact ⟨[], rfl, .nil⟩
  have hcons : onLane lane (d :: after) = onLane lane [d] ++ onLane lane after := onLane_append lane [d] after
  refine ⟨onLane lane [d], ?_, ?_⟩
  · rw [hsplit, onLane_append, onLane_append, hcons]
    by_cases hlane : d.response.lane = lane
    · have hearlier : onLane lane before = [] := List.filter_eq_nil_iff.2 fun e he hsame =>
        ordered.lane_ne_of_before inTime hsplit hdue hbefore he ((eq_of_beq hsame).trans hlane.symm)
      rw [hearlier, List.nil_append, List.nil_append]
    · have hother : onLane lane [d] = [] := by simp [onLane, hlane]
      rw [hother, List.nil_append, List.nil_append]
  · by_cases hlane : d.response.lane = lane
    · simp [onLane, outOf, hlane, Handed, hdue]
    · simp [onLane, outOf, hlane]

theorem drains_run (ordered : s.Ordered) (inTime : s.InTime) (c : Command) (lane : Option Tid) :
    Drains lane (s.deferred ++ c.defers s) (c.handsOut s) (c.run s).deferred := by
  cases c with
  | issue request =>
    have hdeferred : (s.issue request).2.deferred = _ := (defers_of_issue rfl).2
    exact ⟨[], congrArg (onLane lane) hdeferred.symm, .nil⟩
  | step => exact ⟨[], congrArg (onLane lane) (List.append_nil _), .nil⟩
  | poll =>
    have hsame : s.deferred ++ Command.poll.defers s = s.deferred := List.append_nil _
    rw [hsame]
    exact drains_poll ordered inTime lane

/-- By induction on the commands: what is held back at first and what is left behind on the way leaves each lane
in order, or stays. -/
theorem handed_runAll (orderly : s.Orderly) (cs : List Command) (inTime : (runAll cs s).InTime) (lane : Option Tid) :
    Drains lane (s.deferred ++ deferrals cs s) (handouts cs s) (runAll cs s).deferred := by
  induction cs generalizing s with
  | nil => exact ⟨[], congrArg (onLane lane) (List.append_nil _), .nil⟩
  | cons c cs ih =>
    have hstart : s.InTime := (evolves_runAll (c :: cs) s).inTime inTime
    obtain ⟨first, hqueue, hfirst⟩ := drains_run orderly.ordered hstart c lane
    obtain ⟨rest, hrest, hlater⟩ := ih ((c.evolves_run s).orderly orderly) inTime
    refine ⟨first ++ rest, ?_, ?_⟩
    · calc onLane lane (s.deferred ++ (c.defers s ++ deferrals cs (c.run s)))
        _ = onLane lane (s.deferred ++ c.defers s) ++ onLane lane (deferrals cs (c.run s)) := by
          rw [← List.append_assoc, onLane_append]
        _ = first ++ onLane lane ((c.run s).deferred ++ deferrals cs (c.run s)) := by
          rw [hqueue, List.append_assoc, ← onLane_append]
        _ = first ++ rest ++ onLane lane (runAll cs (c.run s)).deferred := by rw [hrest, List.append_assoc]
    · show List.Forall₂ Handed (first ++ rest) (outOf lane (c.handsOut s ++ handouts cs (c.run s)))
      rw [outOf, List.filter_append]
      exact List.rel_append hfirst hlater

/-- The responses of a lane that come out, followed by those that stay, are those that went in. -/
theorem Drains.along_eq {before after : List Deferred} {out : List (Nat × Response)}
    (h : Drains lane before out after) :
    along lane (before.map (·.response)) = along lane (out.map (·.2) ++ after.map (·.response)) := by
  obtain ⟨first, hqueue, hfirst⟩ := h
  rw [← map_onLane, hqueue, List.map_append, response_of_handed hfirst, map_outOf, map_onLane, along_append]

/-! ## Opens and reads in their order -/

namespace Command

theorem gives?_issue (h : s.issue request = (answer, s')) :
    (issue request).gives? s =
      if request.op? = some .newRequest ∧ answer.exitCode = .ok then (s.handedOver s' answer).head?.map (·.tid)
      else none := by
  simp only [gives?, h]

theorem draws_issue (h : s.issue request = (answer, s')) (tid : Tid) :
    (issue request).draws tid s = Simulator.draws tid request answer (s.handedOver s' answer) := by
  simp only [draws, h]

/-- With a delay for identifiers, a command leaves behind the one that it gives. -/
theorem assignments_run {steps : Nat} (delay : s.options.tidDelay = some steps) (c : Command) :
    (along none ((c.defers s).map (·.response))).map (·.tid) = (c.gives? s).toList := by
  cases c with
  | step => rfl
  | poll => rfl
  | issue request =>
    obtain ⟨answer, s', h⟩ : ∃ answer s', s.issue request = (answer, s') := ⟨_, _, rfl⟩
    have hdefers := (defers_of_issue h).1
    rw [gives?_issue h, handedOver_eq h]
    generalize (issue request).defers s = left at hdefers ⊢
    cases hdefers with
    | nothing opens =>
      have hnone : ¬ (request.op? = some .newRequest ∧ answer.exitCode = .ok) := fun ⟨op, ok⟩ => by
        rw [opens op ok] at delay
        cases delay
      rw [if_neg hnone]
      rfl
    | assignment r _ op bare kind =>
      rw [if_pos ⟨op, by rw [bare]; rfl⟩, bare, List.map_singleton, along_cons [] (Response.lane_tid kind)]
      rfl
    | word r _ op _ kind =>
      rw [if_neg fun opens => absurd (op.symm.trans opens.1) (by decide), List.map_singleton,
        along_cons_ne [] (by rw [Response.lane_data kind]; exact Option.some_ne_none _)]
      rfl

/-- With a delay for words, a command leaves behind the one that it reads. -/
theorem words_run {delays : Tid → Nat} (delay : s.options.dataDelay = some delays) (tid : Tid) (c : Command) :
    along (some tid) ((c.defers s).map (·.response)) = c.draws tid s := by
  cases c with
  | step => rfl
  | poll => rfl
  | issue request =>
    obtain ⟨answer, s', h⟩ : ∃ answer s', s.issue request = (answer, s') := ⟨_, _, rfl⟩
    have hdefers := (defers_of_issue h).1
    rw [draws_issue h, handedOver_eq h]
    unfold Simulator.draws
    generalize (issue request).defers s = left at hdefers ⊢
    cases hdefers with
    | nothing _ reads =>
      have hnone : ¬ (request.tid = tid ∧ answer.exitCode = .ok ∧ request.op? = some .readData) :=
        fun ⟨_, ok, op⟩ => by
          rw [reads op ok] at delay
          cases delay
      rw [if_neg hnone]
      rfl
    | assignment r _ op _ kind =>
      rw [if_neg fun hreads => absurd (op.symm.trans hreads.2.2) (by decide), List.map_singleton,
        along_cons_ne [] (by rw [Response.lane_tid kind]; exact (Option.some_ne_none _).symm)]
      rfl
    | word r _ op bare kind about =>
      have hlane : r.lane = some request.tid := about ▸ Response.lane_data kind
      rw [List.map_singleton]
      by_cases htid : request.tid = tid
      · rw [if_pos ⟨htid, by rw [bare]; rfl, op⟩, along_cons [] (hlane.trans (congrArg some htid)), bare]
        rfl
      · rw [if_neg fun hreads => htid hreads.1,
          along_cons_ne [] (by rw [hlane]; exact fun hsame => htid (Option.some.inj hsame))]
        rfl

/-- With a delay for identifiers, what goes into their lane are the identifiers given, in the order of the opens. -/
theorem assignments_runAll {steps : Nat} (delay : s.options.tidDelay = some steps) (cs : List Command) :
    (along none ((deferrals cs s).map (·.response))).map (·.tid) = givenTids cs s := by
  induction cs generalizing s with
  | nil => rfl
  | cons c cs ih =>
    have hrest := ih (s := c.run s) (by rw [options_run, delay])
    show (along none ((c.defers s ++ deferrals cs (c.run s)).map (·.response))).map (·.tid) =
      (c.gives? s).toList ++ givenTids cs (c.run s)
    rw [List.map_append, along_append, List.map_append, assignments_run delay, hrest]

/-- With a delay for words, what goes into the lane of an identifier are the words read, in the order of the
reads. -/
theorem words_runAll {delays : Tid → Nat} (delay : s.options.dataDelay = some delays) (tid : Tid)
    (cs : List Command) : along (some tid) ((deferrals cs s).map (·.response)) = readWords tid cs s := by
  induction cs generalizing s with
  | nil => rfl
  | cons c cs ih =>
    have hrest := ih (s := c.run s) (by rw [options_run, delay])
    show along (some tid) ((c.defers s ++ deferrals cs (c.run s)).map (·.response)) =
      c.draws tid s ++ readWords tid cs (c.run s)
    rw [List.map_append, along_append, words_run delay, hrest]

/-- The words of one transaction come before those of the next one that is given its identifier. -/
theorem drawn_then_later (tid : Tid) (cs : List Command) (s : Simulator) :
    ∃ later, readWords tid cs s = drawn tid cs s ++ later ∧ (Holds tid cs s → later = []) := by
  induction cs generalizing s with
  | nil => exact ⟨[], rfl, fun _ => rfl⟩
  | cons c cs ih =>
    by_cases hfree : s.find? tid = none
    · refine ⟨readWords tid (c :: cs) s, ?_, fun holds => absurd hfree holds.1⟩
      rw [drawn_of_free (c :: cs) hfree, List.nil_append]
    · obtain ⟨later, hrest, hlast⟩ := ih (c.run s)
      refine ⟨later, ?_, fun holds => hlast holds.2⟩
      show c.draws tid s ++ readWords tid cs (c.run s) = _
      rw [hrest, drawn, if_neg hfree, List.append_assoc]

/-- After an open that is accepted, nothing is held back in the lane of its identifier. -/
theorem along_opened_eq_nil (orderly : s.Orderly) (op : request.op? = some .newRequest)
    (h : s.issue request = (answer, s')) (ok : answer.exitCode = .ok) (free : s.find? tid = none)
    (held : s'.find? tid ≠ none) : along (some tid) s'.undelivered = [] := by
  obtain ⟨o, r, _, -, -, hassigned, hanswers, -, hunsent, -⟩ := opened_of_issue orderly op h ok
  obtain rfl : tid = r.tid := by
    by_contra hother
    exact held ((hanswers.others tid hother).find?_eq_none_iff.2 free)
  have hempty : along (some r.tid) s.undelivered = [] := by
    refine along_eq_nil _ fun r' hr' hlane => ?_
    obtain ⟨d, hd, rfl⟩ := List.mem_map.1 hr'
    exact hunsent d hd (Response.tid_of_lane hlane)
  have hlane := hanswers.gives.lanes (some r.tid)
  have hother : r.lane ≠ some r.tid := by
    rw [Response.lane_tid (Response.of_tidAssigned hassigned).2.1]
    exact (Option.some_ne_none _).symm
  rw [along_append, along_append, hempty, along_cons_ne [] hother] at hlane
  exact (List.append_eq_nil_iff.1 hlane).2

/-- Where nothing is held back at first: what went into a lane is what came out and what is still there. -/
theorem along_deferrals (orderly : s.Orderly) (deferred : s.deferred = []) (cs : List Command)
    (inTime : (runAll cs s).InTime) (lane : Option Tid) :
    along lane ((deferrals cs s).map (·.response)) =
      along lane ((handouts cs s).map (·.2) ++ (runAll cs s).undelivered) := by
  have hdrains := handed_runAll orderly cs inTime lane
  rw [deferred, List.nil_append] at hdrains
  exact hdrains.along_eq

end Command

/-! ## Every engine, all commands -/

open Command in
/-- After an open that was accepted, with a delay for words: what comes out in the lane of its identifier and what
is still in it are, while the clock is in time, the words read from its transaction, which are first outputs of its
network in their order, and then those of later transactions. -/
theorem words_of_opened {delays : Tid → Nat} (orderly : s.Orderly) (delay : s.options.dataDelay = some delays)
    (op : request.op? = some .newRequest) (h : s.issue request = (answer, s')) (ok : answer.exitCode = .ok) :
    ∃ (o : Opening) (r : Response), s.handedOver s' answer = [r] ∧ s'.find? r.tid = some (o.entry r.tid) ∧
      ∀ after, ∃ later,
        ((runAll after s').InTime →
          along (some r.tid) ((handouts after s').map (·.2) ++ (runAll after s').undelivered) =
            drawn r.tid after s' ++ later) ∧
        (Holds r.tid after s' → later = []) ∧
        (drawn r.tid after s').map (·.element) <+: o.outputs ((fed r.tid after s').map Prod.fst) := by
  obtain ⟨o, r, -, hgiven, -, hfree, hfound, hnarrow⟩ := opened_of_ok op h ok
  have hrun : (Command.issue request).run s = s' := congrArg Prod.snd h
  have hevolves : Evolves s s' := hrun ▸ (Command.issue request).evolves_run s
  have hnarrow' : s'.Narrow := hnarrow.evolves hevolves
  have horderly' : s'.Orderly := hevolves.orderly orderly
  have hempty : along (some r.tid) s'.undelivered = [] :=
    along_opened_eq_nil orderly op h ok hfree (by rw [hfound]; exact Option.some_ne_none _)
  have hdelay : s'.options.dataDelay = some delays := by
    rw [← hrun, options_run, delay]
  refine ⟨o, r, hgiven, hfound, fun after => ?_⟩
  obtain ⟨later, hwords, hlater⟩ := drawn_then_later r.tid after s'
  obtain ⟨-, left, hleft, -⟩ := settled_runAll horderly' hnarrow' hfound (Entry.Accounts.opened o r.tid) after
  have hprefix := hleft.words_prefix
  simp only [List.nil_append] at hprefix
  refine ⟨later, fun inTime => ?_, hlater, hprefix⟩
  have hdrains := (handed_runAll horderly' after inTime (some r.tid)).along_eq
  rw [List.map_append, along_append, words_runAll hdelay] at hdrains
  have hsame : along (some r.tid) (s'.deferred.map (·.response)) = [] := hempty
  rw [hsame, List.nil_append] at hdrains
  exact hdrains.symm.trans hwords

open Command in
/-- Whatever an engine is asked since it was built: a response is held back only if its request was answered with
a bare `ok`; all responses held back are handed out or are still there, each as often, and none is handed out before
it is due; a poll hands nothing out only if nothing is due. As long as the clock can count the cycles, a response is
due after the steps of its delay, and those of a lane leave it in their order. So identifiers are handed out in the
order of their opens, and the words of an identifier in the order of their reads, which is the order of the
outputs. -/
theorem held_back_in_order (s : Simulator) (unused : s.Unused) (cs : List Command) :
    (∀ request answer t', (runAll cs s).issue request = (answer, t') →
      t'.deferred = (runAll cs s).deferred ++ (Command.issue request).defers (runAll cs s) ∧
        Defers (runAll cs s) request answer ((Command.issue request).defers (runAll cs s)) ∧
        (answer ≠ .status .ok → (Command.issue request).defers (runAll cs s) = []) ∧
        (t'.InTime → ∀ d ∈ (Command.issue request).defers (runAll cs s),
          ∃ steps, s.options.delay d.response.lane = some steps ∧ d.due = (runAll cs s).cycle + 1 + steps)) ∧
      (runAll cs s).deliveries = (handouts cs s).map (·.2) ∧
      ((deferrals cs s).map (·.response)).Perm ((runAll cs s).deliveries ++ (runAll cs s).undelivered) ∧
      Settles (deferrals cs s) (handouts cs s) (runAll cs s).deferred ∧
      ((runAll cs s).poll.1 = none → ∀ d ∈ (runAll cs s).deferred, (runAll cs s).cycle < d.due) ∧
      ((runAll cs s).InTime →
        (∀ lane, Drains lane (deferrals cs s) (handouts cs s) (runAll cs s).deferred) ∧
          (s.options.tidDelay ≠ none →
            (along none ((runAll cs s).deliveries ++ (runAll cs s).undelivered)).map (·.tid) = givenTids cs s) ∧
          (s.options.dataDelay ≠ none → ∀ tid,
            along (some tid) ((runAll cs s).deliveries ++ (runAll cs s).undelivered) = readWords tid cs s)) ∧
      (s.options.dataDelay ≠ none → ∀ request answer opened, request.op? = some .newRequest →
        (runAll cs s).issue request = (answer, opened) → answer.exitCode = .ok →
        ∃ (o : Opening) (r : Response), (runAll cs s).handedOver opened answer = [r] ∧
          opened.find? r.tid = some (o.entry r.tid) ∧
          ∀ after, ∃ later,
            ((runAll after opened).InTime →
              along (some r.tid) ((handouts after opened).map (·.2) ++ (runAll after opened).undelivered) =
                drawn r.tid after opened ++ later) ∧
            (Holds r.tid after opened → later = []) ∧
            (drawn r.tid after opened).map (·.element) <+: o.outputs ((fed r.tid after opened).map Prod.fst)) := by
  have horderly : s.Orderly := orderly_of_empty unused.entries unused.deferred
  have hoptions : (runAll cs s).options = s.options := (built_runAll cs s).options
  have hdeliveries : (runAll cs s).deliveries = (handouts cs s).map (·.2) := by
    rw [deliveries_runAll, deliveries, unused.delivered]
    rfl
  have hsettles := settles_runAll cs s
  rw [unused.deferred, List.nil_append] at hsettles
  refine ⟨fun request answer t' h => ?_, hdeliveries, hdeliveries ▸ hsettles.perm, hsettles, fun hnone d hd => ?_,
    fun inTime => ⟨fun lane => ?_, fun hdelay => ?_, fun hdelay tid => ?_⟩,
    fun hdelay request answer opened op h ok => ?_⟩
  · obtain ⟨hdefers, hdeferred⟩ := defers_of_issue h
    obtain ⟨hcycle, -, -, hsame⟩ := issue_same h
    refine ⟨hdeferred, hdefers, hdefers.eq_nil_of_ne, fun inTime d hd => ?_⟩
    rw [← hoptions]
    exact hdefers.due_eq hsame hcycle inTime hd
  · exact late_of_poll_none (Prod.ext hnone rfl) hd
  · have hdrains := handed_runAll horderly cs inTime lane
    rwa [unused.deferred, List.nil_append] at hdrains
  · obtain ⟨steps, hsteps⟩ := Option.ne_none_iff_exists'.1 hdelay
    rw [hdeliveries, ← along_deferrals horderly unused.deferred cs inTime, assignments_runAll hsteps]
  · obtain ⟨delays, hdelays⟩ := Option.ne_none_iff_exists'.1 hdelay
    rw [hdeliveries, ← along_deferrals horderly unused.deferred cs inTime, words_runAll hdelays]
  · obtain ⟨delays, hdelays⟩ := Option.ne_none_iff_exists'.1 hdelay
    have hsame : (runAll cs s).options.dataDelay = some delays := by rw [hoptions, hdelays]
    exact words_of_opened ((evolves_runAll cs s).orderly horderly) hsame op h ok

/-- An engine that holds the words of its first transaction back for longer than those of the others. -/
def overtaking : Simulator :=
  { withCapacity 2 with
    options :=
      { latency := 0
        tidDelay := some 2
        dataDelay := some fun tid => if tid = 0 then 5 else 1 }
    table := some { spaces := [{ capacity := 1, configs := [.ofWords [0, 2]] }], configsPerSpace := 1 }
    asid := some 0 }

/-- Two transactions with one element each, both outputs of which are read. -/
def bothRead : List Command :=
  [.issue (.newTransaction 0 .feedforward 0), .issue (.newTransaction 0 .feedforward 0), .poll, .step, .poll, .poll,
    .step, .poll, .issue (.writeData 0 5 true), .issue (.writeData 1 7 true), .step, .step, .issue (.readData 0),
    .issue (.readData 1), .issue (.readData 0), .issue (.readData 1), .poll, .step, .poll, .poll]

open Command in
/-- The second transaction's words overtake those of the first, which are still there. -/
theorem overtaking_held_back_in_order :
    overtaking.Unused ∧
      (runAll bothRead overtaking).deliveries.map (fun r => (r.tid, r.element)) = [(0, 0), (1, 0), (1, 7), (1, 8)] ∧
      ((deferrals bothRead overtaking).map (·.response)).Perm
        ((runAll bothRead overtaking).deliveries ++ (runAll bothRead overtaking).undelivered) ∧
      ((runAll bothRead overtaking).poll.1 = none ∧
        ∀ d ∈ (runAll bothRead overtaking).deferred, (runAll bothRead overtaking).cycle < d.due) ∧
      (runAll bothRead overtaking).InTime ∧
      givenTids bothRead overtaking = [0, 1] ∧ (readWords 0 bothRead overtaking).map (·.element) = [5, 6] := by
  have hunused : overtaking.Unused := ⟨rfl, rfl, rfl, rfl, rfl, rfl⟩
  have hruns : (runAll bothRead overtaking).poll.1 = none ∧
      (runAll bothRead overtaking).deliveries.map (fun r => (r.tid, r.element)) =
        [(0, 0), (1, 0), (1, 7), (1, 8)] ∧
      (along none ((runAll bothRead overtaking).deliveries ++ (runAll bothRead overtaking).undelivered)).map (·.tid) =
        [0, 1] ∧
      (along (some 0) ((runAll bothRead overtaking).deliveries ++
        (runAll bothRead overtaking).undelivered)).map (·.element) = [5, 6] := by
    decide +kernel
  obtain ⟨hnone, hdelivered, htids, hwords⟩ := hruns
  have hinTime : (runAll bothRead overtaking).InTime := by
    apply (evolves_runAll bothRead overtaking).inTime_of_le 5
    case reaches => decide +kernel
    case le =>
      rintro (_ | tid) steps ⟨⟩
      · decide
      · dsimp only
        split <;> decide
  obtain ⟨-, -, hperm, -, hlate, hordered, -⟩ := held_back_in_order overtaking hunused bothRead
  obtain ⟨-, hgiven, hread⟩ := hordered hinTime
  refine ⟨hunused, hdelivered, hperm, ⟨hnone, hlate hnone⟩, hinTime, ?_, ?_⟩
  · exact (hgiven (Option.some_ne_none _)).symm.trans htids
  · exact (congrArg (List.map (·.element)) (hread (Option.some_ne_none _) 0)).symm.trans hwords

/-- An engine whose identifiers come due at the very end of what its clock can count. -/
def brink : Simulator :=
  { overtaking with options := { latency := 0, tidDelay := some (2 ^ 64 - 2) } }

/-- Two opens and a poll. -/
def openedTwice : List Command :=
  [.issue (.newTransaction 0 .feedforward 0), .issue (.newTransaction 0 .feedforward 0), .poll]

open Command in
/-- The cycle at which the second identifier comes due starts over at zero. So it is handed out at once, long before
the end of its delay and ahead of the first one. -/
theorem overflowing_assignment_overtakes :
    brink.Unused ∧ givenTids openedTwice brink = [0, 1] ∧
      ((deferrals openedTwice brink).map fun d => (d.due, d.response.tid)) = [(2 ^ 64 - 1, 0), (0, 1)] ∧
      ((handouts openedTwice brink).map fun h => (h.1, h.2.tid)) = [(2, 1)] ∧
      (along none ((runAll openedTwice brink).deliveries ++ (runAll openedTwice brink).undelivered)).map (·.tid) =
        [1, 0] := by
  refine ⟨⟨rfl, rfl, rfl, rfl, rfl, rfl⟩, ?_, ?_, ?_, ?_⟩ <;> decide +kernel

end NeuralEngine.Simulator
