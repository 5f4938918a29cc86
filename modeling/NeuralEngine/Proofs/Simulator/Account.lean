import NeuralEngine.Proofs.Simulator.Performs

/-!
# What a transaction is fed and what it yields

However requests of many transactions are mixed, and whatever else is asked of the engine, the words read from
a transaction are those that its network has for the elements written to it. The elements accepted for a
transaction and the words handed over for it are collected along a sequence of commands (`fed`, `drawn`);
`Entry.Accounts` ties them to the entry, each command keeps it, and with the last word the entry goes.
-/

namespace NeuralEngine

/-- The elements of a stream that are inputs of the network; in incremental training the expected outputs
come first. -/
def LearningMode.inputs (mode : LearningMode) (trainOutputs : Nat) (elements : List Element) : List Element :=
  match mode with
  | .trainIncremental => elements.drop trainOutputs
  | _ => elements

namespace Simulator

/-- The outputs of a transaction that was opened so, for the elements of its stream. -/
def Opening.outputs (o : Opening) (elements : List Element) : List Element :=
  expectedOutputs (o.mode.inputs o.trainOutputs elements) o.outputCount

theorem Opening.length_outputs (o : Opening) (elements : List Element) :
    (o.outputs elements).length = o.outputCount := by
  simp [outputs, expectedOutputs]

namespace Entry

/-- The entry of a transaction after the elements `fed`, each with the mark of the last one, were accepted and
`words` were read. -/
structure Accounts (o : Opening) (fed : List (Element × Bool)) (words : List Element) (e : Entry) : Prop where
  mode_eq : e.mode = o.mode
  trainOutputs_eq : e.trainOutputs = o.trainOutputs
  outputCount_eq : e.outputCount = o.outputCount
  elements : e.consumed ++ e.queue = fed.map Prod.fst
  lastSeen_eq : e.lastSeen = fed.any Prod.snd
  /-- The network runs on the whole stream. -/
  ran : e.phase ≠ .writing → e.queue = [] ∧ e.lastSeen = true
  unread : e.phase ≠ .done → words = []
  outputs : e.phase = .done → words ++ e.outputs = o.outputs (fed.map Prod.fst)
  /-- The entry goes with its last word. -/
  left : e.phase = .done → 0 < o.outputCount → e.outputs ≠ []

namespace Accounts

variable {o : Opening} {fed : List (Element × Bool)} {words : List Element} {e : Entry}

theorem opened (o : Opening) (tid : Tid) : (o.entry tid).Accounts o [] [] where
  mode_eq := rfl
  trainOutputs_eq := rfl
  outputCount_eq := rfl
  elements := rfl
  lastSeen_eq := rfl
  ran h := absurd rfl h
  unread _ := rfl
  outputs := Phase.noConfusion
  left := Phase.noConfusion

/-- The intake takes the oldest element. -/
theorem taken (h : e.Accounts o fed words) {value : Element} {queue : List Element}
    (hq : e.queue = value :: queue) :
    Accounts o fed words { e with queue := queue, taken := value :: e.taken } where
  mode_eq := h.mode_eq
  trainOutputs_eq := h.trainOutputs_eq
  outputCount_eq := h.outputCount_eq
  elements := by
    have helements := h.elements
    rw [hq] at helements
    simpa [consumed] using helements
  lastSeen_eq := h.lastSeen_eq
  ran hp := by
    have hempty := (h.ran hp).1
    rw [hq] at hempty
    cases hempty
  unread := h.unread
  outputs := h.outputs
  left := h.left

/-- Once the stream has been taken, the network runs on the inputs in it. -/
theorem outputs_of_ran (h : e.Accounts o fed words) (hp : e.phase ≠ .writing) :
    expectedOutputs e.inputs e.outputCount = o.outputs (fed.map Prod.fst) := by
  have hconsumed := h.elements
  rw [(h.ran hp).1, List.append_nil] at hconsumed
  have hinputs : e.inputs = e.mode.inputs e.trainOutputs e.consumed := by
    unfold inputs LearningMode.inputs
    cases e.mode <;> rfl
  rw [hinputs, hconsumed, h.mode_eq, h.trainOutputs_eq, h.outputCount_eq]
  rfl

/-- The phase advances. -/
theorem advance (h : e.Accounts o fed words) (latency : Nat) : (e.advance latency).Accounts o fed words := by
  unfold Entry.advance
  cases hp : e.phase with
  | writing =>
    have hwords : words = [] := h.unread (by rw [hp]; simp)
    by_cases hlast : (e.lastSeen && e.queue.isEmpty) = true
    · have hfull : e.queue = [] ∧ e.lastSeen = true := by
        rw [Bool.and_eq_true] at hlast
        exact ⟨List.isEmpty_iff.1 hlast.2, hlast.1⟩
      simp only [if_pos hlast]
      exact { h with ran := fun _ => hfull, unread := fun _ => hwords, outputs := Phase.noConfusion, left := Phase.noConfusion }
    · simp only [if_neg hlast]
      exact h
  | executing left =>
    have hwords : words = [] := h.unread (by rw [hp]; simp)
    have hran := h.ran (by rw [hp]; simp)
    cases left with
    | zero =>
      have houtputs := h.outputs_of_ran (by rw [hp]; simp)
      refine { h with ran := fun _ => hran, unread := fun _ => hwords, outputs := fun _ => ?_, left := fun _ hpos => ?_ }
      · rw [hwords, List.nil_append]
        exact houtputs
      · show expectedOutputs e.inputs e.outputCount ≠ []
        rw [houtputs, ← List.length_pos_iff, o.length_outputs]
        exact hpos
    | succ left =>
      exact { h with ran := fun _ => hran, unread := fun _ => hwords, outputs := Phase.noConfusion, left := Phase.noConfusion }
  | done => exact h

/-- An element is accepted. -/
theorem accept (h : e.Accounts o fed words) (writable : e.isWritable = true) (value : Element) (last : Bool) :
    Accounts o (fed ++ [(value, last)]) words { e with queue := e.queue ++ [value], lastSeen := last } := by
  simp only [Entry.isWritable, Bool.and_eq_true, beq_iff_eq, Bool.not_eq_true'] at writable
  obtain ⟨hwriting, hopen⟩ := writable
  have hnone : fed.any Prod.snd = false := h.lastSeen_eq.symm.trans hopen
  refine ⟨h.mode_eq, h.trainOutputs_eq, h.outputCount_eq, ?_, ?_, fun hp => absurd hwriting hp, h.unread,
    fun hp => ?_, fun hp => ?_⟩
  · show e.consumed ++ (e.queue ++ [value]) = _
    rw [← List.append_assoc, h.elements, List.map_append]
    rfl
  · show last = _
    rw [List.any_append, hnone]
    simp
  · rw [show e.phase = .done from hp] at hwriting
    cases hwriting
  · rw [show e.phase = .done from hp] at hwriting
    cases hwriting

/-- The next word is read, and another one is left. -/
theorem read (h : e.Accounts o fed words) {value : Element} {rest : List Element} (done : e.phase = .done)
    (outputs : e.outputs = value :: rest) (more : rest ≠ []) :
    Accounts o fed (words ++ [value]) { e with outputs := rest } :=
  { h with
    unread := fun hp => absurd done hp
    outputs := fun _ => by
      rw [← h.outputs done, outputs, List.append_assoc]
      rfl
    left := fun _ _ => more }

/-- The words read so far are the first ones of the outputs. -/
theorem words_prefix (h : e.Accounts o fed words) : words <+: o.outputs (fed.map Prod.fst) := by
  by_cases hp : e.phase = .done
  · rw [← h.outputs hp]
    exact List.prefix_append _ _
  · rw [h.unread hp]
    exact List.nil_prefix

/-- Nothing is read before the last element has been accepted. -/
theorem any_of_words (h : e.Accounts o fed words) (hwords : words ≠ []) : fed.any Prod.snd = true := by
  have hp : e.phase = .done := Decidable.byContradiction fun hp => hwords (h.unread hp)
  rw [← h.lastSeen_eq]
  exact (h.ran (by rw [hp]; simp)).2

/-- The entry is not left in the table with nothing to read. -/
theorem words_ne (h : e.Accounts o fed words) (pos : 0 < o.outputCount) : words ≠ o.outputs (fed.map Prod.fst) := by
  intro hall
  by_cases hp : e.phase = .done
  · have hwords := h.outputs hp
    rw [← hall] at hwords
    exact h.left hp pos (by simpa using hwords)
  · have hlen := o.length_outputs (fed.map Prod.fst)
    rw [← hall, h.unread hp, List.length_nil] at hlen
    omega

end Accounts

end Entry

/-! ## Requests -/

/-- The element that an answered request has added to the stream of a transaction, with the mark of the last
one. -/
def feeds (tid : Tid) (request : Request) (answer : Response) : List (Element × Bool) :=
  if request.tid = tid ∧ answer.exitCode = .ok then
    match request.op? with
    | some .writeData => [(request.element, false)]
    | some .writeDataLast => [(request.element, true)]
    | _ => []
  else []

/-- What of the responses handed over for an answered request is a read of a transaction. -/
def draws (tid : Tid) (request : Request) (answer : Response) (given : List Response) : List Response :=
  if request.tid = tid ∧ answer.exitCode = .ok ∧ request.op? = some .readData then given else []

/-- The response carries an output of the transaction. -/
def IsWord (tid : Tid) (r : Response) : Prop :=
  r.exitCode = .ok ∧ r.kind? = some .data ∧ r.tid = tid

/-- What is left of a transaction and of its account: the entry, or nothing once the last output was read. -/
def Settled (o : Opening) (fed : List (Element × Bool)) (words : List Element) : Option Entry → Prop
  | some e => e.Accounts o fed words
  | none => words ≠ [] ∧ words = o.outputs (fed.map Prod.fst) ∧ fed.any Prod.snd = true

/-- A request that is about no stream and no output adds nothing. -/
theorem feeds_draws_aside {tid : Tid} {request : Request} {answer : Response} (given : List Response)
    (h : answer.exitCode = .ok → request.tid = tid →
      request.op? = some .newRequest ∨ request.op? = some .writeRegister) :
    feeds tid request answer = [] ∧ draws tid request answer given = [] := by
  unfold feeds draws
  by_cases hok : request.tid = tid ∧ answer.exitCode = .ok
  · obtain hop | hop := h hok.2 hok.1 <;> simp [hop]
  · rw [if_neg hok, if_neg fun hd => hok ⟨hd.1, hd.2.1⟩]
    exact ⟨rfl, rfl⟩

/-- A request keeps the account of a transaction, with what the request adds to it. -/
theorem Entry.Handled.settled {e : Entry} {request : Request} {answer : Response} {given : List Response}
    {left : Option Entry} (h : e.Handled request answer given left) {o : Opening}
    {fed : List (Element × Bool)} {words : List Element} (acc : e.Accounts o fed words) :
    (∀ r ∈ draws e.tid request answer given, IsWord e.tid r) ∧
      Settled o (fed ++ feeds e.tid request answer)
        (words ++ (draws e.tid request answer given).map (·.element)) left := by
  cases h with
  | aside spared =>
    obtain ⟨hfeeds, hdraws⟩ := @feeds_draws_aside e.tid request answer given fun hok htid =>
      .inl ((spared hok).resolve_right fun hne => hne htid)
    rw [hfeeds, hdraws, List.append_nil, List.map_nil, List.append_nil]
    exact ⟨fun r hr => absurd hr List.not_mem_nil, acc⟩
  | registered register op target code hanswer hgiven writable =>
    obtain ⟨hfeeds, hdraws⟩ := @feeds_draws_aside e.tid request answer given fun _ _ => .inr op
    rw [hfeeds, hdraws, List.append_nil, List.map_nil, List.append_nil]
    exact ⟨fun r hr => absurd hr List.not_mem_nil, { acc with }⟩
  | fed last op target hanswer hgiven writable =>
    have hfeeds : feeds e.tid request answer = [(request.element, last)] := by
      unfold feeds
      rw [if_pos ⟨target, by rw [hanswer]; rfl⟩, op]
      cases last <;> rfl
    have hdraws : draws e.tid request answer given = [] := by
      unfold draws
      rw [hgiven, ite_self]
    rw [hfeeds, hdraws, List.map_nil, List.append_nil]
    exact ⟨fun r hr => absurd hr List.not_mem_nil, acc.accept writable _ _⟩
  | read value rest r op target hok hgiven rok kind rtid element done outputs =>
    have hfeeds : feeds e.tid request answer = [] := by
      unfold feeds
      simp [op]
    have hdraws : draws e.tid request answer given = [r] := by
      unfold draws
      rw [if_pos ⟨target, hok, op⟩, hgiven]
    have hdone : e.phase = .done := by simpa [Entry.isDone] using done
    rw [hfeeds, hdraws, List.append_nil, List.map_singleton, element]
    refine ⟨fun r' hr' => ?_, ?_⟩
    · obtain rfl := List.mem_singleton.1 hr'
      exact ⟨rok, kind, rtid⟩
    · split
      case isFalse more => exact acc.read hdone outputs more
      case isTrue hnil =>
        have hall := acc.outputs hdone
        rw [outputs, hnil] at hall
        have hlast := (acc.ran (by rw [hdone]; simp)).2
        exact ⟨by simp, hall, acc.lastSeen_eq.symm.trans hlast⟩

/-! ## Commands -/

/-- What can be asked of an engine. -/
inductive Command where
  | issue (request : Request)
  | step
  | poll
deriving DecidableEq, Repr

namespace Command

/-- The engine after a command. -/
def run : Command → Simulator → Simulator
  | .issue request, s => (s.issue request).2
  | .step, s => s.tick
  | .poll, s => s.poll.2

/-- The engine after a sequence of commands. -/
def runAll : List Command → Simulator → Simulator
  | [], s => s
  | c :: cs, s => runAll cs (c.run s)

/-- The element that a command adds to the stream of a transaction. -/
def feeds (tid : Tid) : Command → Simulator → List (Element × Bool)
  | .issue request, s => Simulator.feeds tid request (s.issue request).1
  | _, _ => []

/-- The response that a command hands over for a read of a transaction. -/
def draws (tid : Tid) : Command → Simulator → List Response
  | .issue request, s =>
    Simulator.draws tid request (s.issue request).1 (s.handedOver (s.issue request).2 (s.issue request).1)
  | _, _ => []

/-- The elements accepted for a transaction as long as it is held, in order. -/
def fed (tid : Tid) : List Command → Simulator → List (Element × Bool)
  | [], _ => []
  | c :: cs, s => if s.find? tid = none then [] else c.feeds tid s ++ fed tid cs (c.run s)

/-- The responses handed over for the reads of a transaction as long as it is held, in order. -/
def drawn (tid : Tid) : List Command → Simulator → List Response
  | [], _ => []
  | c :: cs, s => if s.find? tid = none then [] else c.draws tid s ++ drawn tid cs (c.run s)

/-- The transaction is held all along. -/
def Holds (tid : Tid) : List Command → Simulator → Prop
  | [], s => s.find? tid ≠ none
  | c :: cs, s => s.find? tid ≠ none ∧ Holds tid cs (c.run s)

variable {s : Simulator} {tid : Tid} {o : Opening} {e : Entry}

theorem evolves_run (c : Command) (s : Simulator) : Evolves s (c.run s) := by
  cases c with
  | issue request => exact .issue rfl
  | step => exact .tick s
  | poll => exact .poll rfl

theorem evolves_runAll (cs : List Command) (s : Simulator) : Evolves s (runAll cs s) := by
  induction cs generalizing s with
  | nil => exact .refl s
  | cons c cs ih => exact (c.evolves_run s).trans (ih _)

theorem narrow_run (c : Command) (narrow : s.Narrow) : (c.run s).Narrow :=
  narrow.evolves (c.evolves_run s)

/-- A step leaves the account of a transaction as it is. -/
theorem accounts_tick {fed : List (Element × Bool)} {words : List Element} (find : s.find? tid = some e)
    (h : e.Accounts o fed words) : ∃ e', s.tick.find? tid = some e' ∧ e'.Accounts o fed words := by
  have hrel := s.find?_tick (R := fun e e' => e.Accounts o fed words → e'.Accounts o fed words)
    (fun _ => id) (fun h h' => h' ∘ h) (fun _ _ _ hq h => h.taken hq) (fun _ h => h.advance _) tid
  rw [find] at hrel
  generalize s.tick.find? tid = found at hrel
  cases hrel with
  | some he => exact ⟨_, rfl, he h⟩

/-- A command keeps the account of a transaction, with what the command adds to it. -/
theorem settled_run (orderly : s.Orderly) (narrow : s.Narrow) (find : s.find? tid = some e)
    {fed : List (Element × Bool)} {words : List Element} (h : e.Accounts o fed words) (c : Command) :
    (∀ r ∈ c.draws tid s, IsWord tid r) ∧
      Settled o (fed ++ c.feeds tid s) (words ++ (c.draws tid s).map (·.element)) ((c.run s).find? tid) := by
  cases c with
  | issue request =>
    obtain ⟨e', hfind, hacc⟩ := accounts_tick find h
    obtain rfl := tid_of_find? hfind
    exact (handled_of_issue orderly.nodup narrow rfl hfind).settled hacc
  | step =>
    obtain ⟨e', hfind, hacc⟩ := accounts_tick find h
    refine ⟨fun r hr => absurd hr List.not_mem_nil, ?_⟩
    simp only [feeds, draws, run, List.map_nil, List.append_nil, hfind]
    exact hacc
  | poll =>
    have hrows : s.poll.2.rows = s.rows := (poll_same rfl).2
    have hfind : s.poll.2.find? tid = some e := (congrArg (Rows.find? tid) hrows).trans find
    refine ⟨fun r hr => absurd hr List.not_mem_nil, ?_⟩
    simp only [feeds, draws, run, List.map_nil, List.append_nil, hfind]
    exact h

theorem fed_of_free (cs : List Command) (h : s.find? tid = none) : fed tid cs s = [] := by
  cases cs with
  | nil => rfl
  | cons c cs => exact if_pos h

theorem drawn_of_free (cs : List Command) (h : s.find? tid = none) : drawn tid cs s = [] := by
  cases cs with
  | nil => rfl
  | cons c cs => exact if_pos h

theorem not_holds_of_free (cs : List Command) (h : s.find? tid = none) : ¬ Holds tid cs s := by
  cases cs with
  | nil => exact not_not_intro h
  | cons c cs => exact fun hholds => hholds.1 h

/-- A sequence of commands keeps the account of a transaction, with what the commands add to it. -/
theorem settled_runAll (orderly : s.Orderly) (narrow : s.Narrow) (find : s.find? tid = some e)
    {F : List (Element × Bool)} {words : List Element} (h : e.Accounts o F words) (cs : List Command) :
    (∀ r ∈ drawn tid cs s, IsWord tid r) ∧
      ∃ left, Settled o (F ++ fed tid cs s) (words ++ (drawn tid cs s).map (·.element)) left ∧
        (left = none ↔ ¬ Holds tid cs s) := by
  have hheld : s.find? tid ≠ none := by simp [find]
  induction cs generalizing s e F words with
  | nil =>
    refine ⟨fun r hr => absurd hr List.not_mem_nil, some e, ?_, ?_⟩
    · rw [fed, drawn, List.map_nil, List.append_nil, List.append_nil]
      exact h
    · exact iff_of_false (Option.some_ne_none e) (not_not_intro hheld)
  | cons c cs ih =>
    obtain ⟨hwords, hsettled⟩ := settled_run orderly narrow find h c
    simp only [fed, drawn, Holds, if_neg hheld, ← List.append_assoc, List.map_append]
    cases hnext : (c.run s).find? tid with
    | none =>
      rw [hnext] at hsettled
      rw [fed_of_free cs hnext, drawn_of_free cs hnext, List.append_nil, List.append_nil, List.map_nil, List.append_nil]
      exact ⟨hwords, none, hsettled, iff_of_true rfl fun hholds => not_holds_of_free cs hnext hholds.2⟩
    | some e' =>
      rw [hnext] at hsettled
      obtain ⟨hrest, left, hleft, hholds⟩ := ih ((c.evolves_run s).orderly orderly) (narrow_run c narrow) hnext hsettled
        (by simp [hnext])
      refine ⟨fun r hr => (List.mem_append.1 hr).elim (hwords r) (hrest r), left, hleft, hholds.trans ?_⟩
      exact not_congr ⟨fun h => ⟨hheld, h⟩, fun h => h.2⟩

end Command

/-! ## Accounts that are settled -/

section Settled

variable {o : Opening} {fed : List (Element × Bool)} {words : List Element} {left : Option Entry}

theorem Settled.words_prefix (h : Settled o fed words left) : words <+: o.outputs (fed.map Prod.fst) := by
  cases left with
  | none => exact h.2.1 ▸ List.prefix_refl _
  | some e => exact Entry.Accounts.words_prefix h

theorem Settled.last_fed (h : Settled o fed words left) (hwords : words ≠ []) : ∃ x ∈ fed, x.2 = true := by
  refine List.any_eq_true.1 ?_
  cases left with
  | none => exact h.2.2
  | some e => exact Entry.Accounts.any_of_words h hwords

theorem Settled.freed_iff (h : Settled o fed words left) (pos : 0 < o.outputCount) :
    words = o.outputs (fed.map Prod.fst) ↔ left = none := by
  cases left with
  | none => exact iff_of_true h.2.1 rfl
  | some e => exact iff_of_false (Entry.Accounts.words_ne h pos) (Option.some_ne_none e)

end Settled

/-! ## The account of an open -/

/-- An open that is answered with `ok` hands an identifier over and puts an entry under it, where there was
none. -/
theorem opened_of_ok {s s' : Simulator} {request : Request} {answer : Response}
    (op : request.op? = some .newRequest) (h : s.issue request = (answer, s')) (ok : answer.exitCode = .ok) :
    ∃ o r, (s.record request).checkOpen request = .ok o ∧ s.handedOver s' answer = [r] ∧
      r.kind? = some .tid ∧ s.find? r.tid = none ∧ s'.find? r.tid = some (o.entry r.tid) ∧ s.Narrow := by
  obtain ⟨code, hrefused, rfl, -⟩ | hperform := issue_cases h
  · rw [Response.exitCode_status] at ok
    exact absurd ok (ExitCode.ne_ok_of_isFatal (perform_error hrefused))
  cases performs_of_ok hperform with
  | exhausted => cases ok
  | @opened o tid next _ t _ check alloc respond =>
    cases hr : Response.tidAssigned? o.asid tid with
    | none =>
      rw [hr] at respond
      cases respond
      cases ok
    | some r =>
      obtain ⟨hok, hkind, rfl⟩ := Response.of_tidAssigned hr
      rw [hr] at respond
      obtain ⟨-, hgiven, hrows⟩ := respond_some hok (by simp [hkind]) respond
      have hfree := (isTaken_of_allocate alloc).1
      have hfound : t.countDeferredTids.find? r.tid = some (o.entry r.tid) :=
        (congrArg (Rows.find? r.tid) hrows).trans ((find?_addEntry hfree next r.tid).trans (if_pos rfl))
      exact ⟨o, r, check, hgiven, hkind, (s.kept_record request r.tid).find?_eq_none_iff.1 hfree, hfound,
        (narrow_iff_of_checkOpen check).2 (Response.narrow_of_tidAssigned hr)⟩
  | registered _ _ op' => cases op.symm.trans op'
  | busy _ last op' => cases last <;> cases op.symm.trans op'
  | enqueued _ last op' => cases last <;> cases op.symm.trans op'
  | notDone _ op' => cases op.symm.trans op'
  | read _ _ _ op' => cases op.symm.trans op'

open Command in
/-- Whatever is asked of an engine that starts out empty, before and after an open that it accepts: what is read
from the transaction are the first outputs of its network for the elements accepted for it, none before the last
element was accepted, and the transaction is gone as soon as these are all of them. Other requests have no part
in it: with the same elements, other commands yield the same words as far as they yield any. -/
theorem drawn_words_are_outputs {s : Simulator} (entries : s.entries = []) (deferred : s.deferred = [])
    (before : List Command) {request : Request} (op : request.op? = some .newRequest)
    (ok : ((runAll before s).issue request).1.exitCode = .ok) :
    let asked := runAll before s
    let opened := (asked.issue request).2
    ∃ (o : Opening) (tid : Tid) (space : AddressSpace) (config : NetworkConfig),
      asked.activeSpace? = some (o.asid, space) ∧
      space.config? request.nnid = some config ∧ o.outputCount = declaredOutputs config ∧
      LearningMode.ofCode? request.modeCode.toNat = some o.mode ∧
      o.trainOutputs = request.trainOutputs.toNat ∧
      (∃ r, asked.handedOver opened (asked.issue request).1 = [r] ∧ r.kind? = some .tid ∧ r.tid = tid) ∧
      asked.find? tid = none ∧ opened.find? tid = some (o.entry tid) ∧
      ∀ after : List Command,
        let elements := (fed tid after opened).map Prod.fst
        let words := (drawn tid after opened).map (·.element)
        (∀ r ∈ drawn tid after opened, IsWord tid r) ∧
        words <+: o.outputs elements ∧
        (words ≠ [] → ∃ x ∈ fed tid after opened, x.2 = true) ∧
        (0 < o.outputCount → (words = o.outputs elements ↔ ¬ Holds tid after opened)) ∧
        ∀ other : List Command, (fed tid other opened).map Prod.fst = elements →
          words <+: (drawn tid other opened).map (·.element) ∨
            (drawn tid other opened).map (·.element) <+: words := by
  intro asked opened
  obtain ⟨o, r, hcheck, hgiven, hkind, hfree, hfound, hnarrow⟩ := opened_of_ok op rfl ok
  obtain ⟨space, config, hspace, hconfig, hmode, htrain, hcount⟩ := checkOpen_ok hcheck
  have horderly : asked.Orderly := (evolves_runAll before s).orderly (orderly_of_empty entries deferred)
  have hevolves : Evolves asked opened := (Command.issue request).evolves_run asked
  have hrun := settled_runAll (hevolves.orderly horderly) (narrow_run (.issue request) hnarrow) hfound
    (Entry.Accounts.opened o r.tid)
  simp only [List.nil_append] at hrun
  refine ⟨o, r.tid, space, config, hspace, hconfig, hcount, hmode, htrain, ⟨r, hgiven, hkind, rfl⟩, hfree, hfound,
    fun after => ?_⟩
  obtain ⟨hwords, left, hleft, hholds⟩ := hrun after
  refine ⟨hwords, hleft.words_prefix, hleft.last_fed, fun pos => (hleft.freed_iff pos).trans hholds, fun other hsame => ?_⟩
  obtain ⟨-, _, hother, -⟩ := hrun other
  have hprefix := hother.words_prefix
  rw [hsame] at hprefix
  exact List.prefix_or_prefix_of_prefix hleft.words_prefix hprefix

/-- An engine of two rows with one network of two outputs, which holds the data words back. -/
def mixing : Simulator :=
  { withCapacity 2 with
    options := { dataDelay := some fun _ => 3 }
    table := some { spaces := [{ capacity := 1, configs := [.ofWords [0, 2]] }], configsPerSpace := 1 }
    asid := some 0 }

open Command in
/-- The second of two transactions, a training step that expects one output, yields the first words of what its
network has for the elements behind the first. -/
theorem mixing_words_are_outputs :
    let open' := Request.newTransaction 0 .trainIncremental 1
    let before := [Command.issue (.newTransaction 0 .feedforward 0), .issue (.writeData 0 9 false)]
    let opened := ((runAll before mixing).issue open').2
    mixing.entries = [] ∧ mixing.deferred = [] ∧ open'.op? = some .newRequest ∧
      ((runAll before mixing).issue open').1.exitCode = .ok ∧
      ∀ after : List Command, (drawn 1 after opened).map (·.element) <+:
        expectedOutputs (((fed 1 after opened).map Prod.fst).drop 1) 2 := by
  intro open' before opened
  have hop : open'.op? = some .newRequest := rfl
  have hok : ((runAll before mixing).issue open').1.exitCode = .ok := by decide +kernel
  obtain ⟨o, tid, space, config, hspace, hconfig, hcount, hmode, htrain, ⟨r, hgiven, -, rfl⟩, -, -, hall⟩ :=
    drawn_words_are_outputs (s := mixing) rfl rfl before hop hok
  have hresponse : (runAll before mixing).handedOver opened ((runAll before mixing).issue open').1 =
      [{ kind := 1, tid := 1 }] := by decide +kernel
  obtain rfl : { kind := 1, tid := 1 } = r := List.singleton_inj.1 (hresponse.symm.trans hgiven)
  have hnetwork : (runAll before mixing).activeSpace? =
      some (0, { capacity := 1, configs := [.ofWords [0, 2]] }) := by decide +kernel
  obtain ⟨-, rfl⟩ := Prod.mk.inj (Option.some.inj (hnetwork.symm.trans hspace))
  rw [Request.nnid_newTransaction] at hconfig
  rw [Request.modeCode_newTransaction, LearningMode.toNat_code, LearningMode.ofCode?_code] at hmode
  rw [Request.trainOutputs_newTransaction] at htrain
  obtain rfl : NetworkConfig.ofWords [0, 2] = config := Option.some.inj hconfig
  refine ⟨rfl, rfl, hop, hok, fun after => ?_⟩
  obtain ⟨-, hwords, -⟩ := hall after
  have houtputs : o.outputs = fun elements => expectedOutputs (elements.drop 1) 2 := by
    funext elements
    unfold Opening.outputs
    rw [hcount, htrain, ← Option.some.inj hmode]
    rfl
  rwa [houtputs] at hwords

end Simulator

end NeuralEngine
