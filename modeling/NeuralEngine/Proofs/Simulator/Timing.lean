import NeuralEngine.Proofs.Simulator.Intake

/-!
# When a transaction is done

From the step in which the intake takes the last element of a transaction, nothing that is asked of the engine has
a part in when it is done. Until then its entry is waiting (`Entry.Waits`); from then on it counts its steps down
(`Entry.Executes`), also in the steps of requests about others, and is done after the latency and one more step.
-/

namespace NeuralEngine.Simulator

variable {s s' : Simulator} {request : Request} {answer : Response} {tid : Tid} {latency cycle start : Nat}
  {moved : List Element} {words : List Response} {e e' : Entry}

/-! ## Entries -/

namespace Entry

/-- The intake has not taken the last element yet. -/
structure Waits (e : Entry) : Prop where
  phase : e.phase = .writing
  last : e.lastSeen = true → e.queue ≠ []

/-- The intake took the last element in cycle `start`, and the phases of the entry have advanced since then. -/
structure Executes (latency start cycle : Nat) (e : Entry) : Prop where
  queue : e.queue = []
  last : e.lastSeen = true
  phase : (∃ left, e.phase = .executing left ∧ cycle + left = start + latency) ∨
    e.phase = .done ∧ start + latency + 1 ≤ cycle

theorem Waits.not_done (h : e.Waits) : e.phase ≠ .done := by
  rw [h.phase]
  exact Phase.noConfusion

theorem Executes.done_iff (h : e.Executes latency start cycle) : e.phase = .done ↔ start + latency + 1 ≤ cycle := by
  obtain ⟨left, hp, hleft⟩ | ⟨hp, hle⟩ := h.phase
  · rw [hp]
    exact iff_of_false Phase.noConfusion (by omega)
  · exact iff_of_true hp hle

/-- The phase of an entry moves on as soon as it has the last element and nothing waits. -/
theorem advance_of_writing (hp : e.phase = .writing) (latency : Nat) :
    e.advance latency = if e.lastSeen = true ∧ e.queue = [] then { e with phase := .executing latency } else e := by
  unfold advance
  simp only [hp, Bool.and_eq_true, List.isEmpty_iff]

theorem Executes.advance (h : e.Executes latency start cycle) :
    (e.advance latency).Executes latency start (cycle + 1) := by
  obtain ⟨left, hp, hleft⟩ | ⟨hp, hle⟩ := h.phase
  · cases left with
    | zero =>
      have hdone : (e.advance latency) =
          { e with outputs := expectedOutputs e.inputs e.outputCount, phase := .done } := by
        unfold Entry.advance
        simp only [hp]
      rw [hdone]
      exact ⟨h.queue, h.last, .inr ⟨rfl, by omega⟩⟩
    | succ left =>
      have hnext : (e.advance latency) = { e with phase := .executing left } := by
        unfold Entry.advance
        simp only [hp]
      rw [hnext]
      exact ⟨h.queue, h.last, .inl ⟨left, rfl, by omega⟩⟩
  · have hsame : e.advance latency = e := by
      unfold Entry.advance
      simp only [hp]
    rw [hsame]
    exact ⟨h.queue, h.last, .inr ⟨hp, by omega⟩⟩

/-- In a step, a waiting entry goes on waiting or has its last element taken. -/
theorem Waits.ticks (h : e.Waits) (ticks : Ticks latency moved (some e) (some e')) (cycle : Nat) :
    e'.Waits ∨ e'.Executes latency cycle cycle := by
  cases ticks with
  | stays =>
    have hnot : ¬ (e.lastSeen = true ∧ e.queue = []) := fun hfull => h.last hfull.1 hfull.2
    rw [advance_of_writing h.phase, if_neg hnot]
    exact .inl h
  | takes _ x rest waiting =>
    have hp : Entry.phase { e with queue := rest, taken := x :: e.taken } = .writing := h.phase
    rw [advance_of_writing hp]
    split
    · next hfull => exact .inr ⟨hfull.2, hfull.1, .inl ⟨latency, rfl, rfl⟩⟩
    · next hnot => exact .inl ⟨h.phase, fun hlast hempty => hnot ⟨hlast, hempty⟩⟩

theorem Executes.ticks (h : e.Executes latency start cycle) (ticks : Ticks latency moved (some e) (some e')) :
    e'.Executes latency start (cycle + 1) := by
  cases ticks with
  | stays => exact h.advance
  | takes _ x rest waiting => cases h.queue.symm.trans waiting

/-- The step in which the intake takes the only element left, the last one. -/
theorem Waits.ticks_last (h : e.Waits) (last : e.lastSeen = true) {x : Element} (queue : e.queue = [x])
    (ticks : Ticks latency moved (some e) (some e')) (consumed : e'.consumed = e.consumed ++ [x]) (cycle : Nat) :
    e'.Executes latency cycle cycle := by
  cases ticks with
  | stays =>
    rw [consumed_advance] at consumed
    simp at consumed
  | takes _ y rest waiting =>
    obtain ⟨rfl, rfl⟩ := List.cons.inj (queue.symm.trans waiting)
    have hp : Entry.phase { e with queue := [], taken := x :: e.taken } = .writing := h.phase
    rw [advance_of_writing hp, if_pos ⟨last, rfl⟩]
    exact ⟨rfl, last, .inl ⟨latency, rfl, rfl⟩⟩

theorem Waits.served (h : e.Waits) (served : Served (some e) (some e')) : e'.Waits := by
  cases served with
  | same => exact h
  | registered => exact ⟨h.phase, h.last⟩
  | enqueued => exact ⟨h.phase, fun _ => List.append_ne_nil_of_right_ne_nil _ (List.cons_ne_nil _ _)⟩
  | read _ _ done => exact absurd (eq_of_beq done) h.not_done

theorem Executes.served (h : e.Executes latency start cycle) (served : Served (some e) (some e')) :
    e'.Executes latency start cycle := by
  cases served with
  | same => exact h
  | registered => exact ⟨h.queue, h.last, h.phase⟩
  | enqueued _ _ _ writable => simp [isWritable, h.last] at writable
  | read => exact ⟨h.queue, h.last, h.phase⟩

theorem consumed_of_served (served : Served (some e) (some e')) : e'.consumed = e.consumed := by
  cases served <;> rfl

theorem Handled.served {left : Option Entry} (h : e.Handled request answer words left) : Served (some e) left := by
  cases h with
  | aside => exact .same _
  | registered => exact .registered e _
  | fed last _ _ _ _ writable => exact .enqueued e _ last writable
  | read _ rest _ _ _ _ _ _ _ _ _ done =>
    split
    · exact .freed e done
    · exact .read e rest done

end Entry

/-! ## Commands -/

/-- What a step does to the entry found under an identifier. -/
theorem exists_ticks_find? (nodup : s.tids.Nodup) (find : s.find? tid = some e) :
    ∃ moved e', Ticks s.options.latency moved (some e) (some e') ∧ s.tick.find? tid = some e' := by
  obtain ⟨i, hi⟩ := Rows.mem_entries_iff.1 (mem_entries_of_find? find)
  obtain ⟨moved, hticks⟩ := s.exists_ticks i
  have hrow : s.row i = some e := hi
  rw [hrow] at hticks
  generalize hnext : s.tick.row i = r at hticks
  obtain ⟨e', rfl, htid, -⟩ := hticks.entry
  obtain rfl := tid_of_find? find
  have hnodup : s.tick.tids.Nodup := by rwa [tids_tick]
  exact ⟨moved, e', hticks, htid ▸ find?_of_mem_entries hnodup (Rows.mem_entries_iff.2 ⟨i, hnext⟩)⟩

namespace Command

variable {c : Command} {o : Opening}

/-- What a command that lets a step pass does to the transaction found under an identifier, if it stays. -/
theorem exists_ticks_run (orderly : s.Orderly) (narrow : s.Narrow) (find : s.find? tid = some e)
    (timed : c.isTimed = true) (find' : (c.run s).find? tid = some e') :
    ∃ moved u, Ticks s.options.latency moved (some e) (some u) ∧ Served (some u) (some e') := by
  obtain ⟨moved, u, hticks, hfound⟩ := exists_ticks_find? orderly.nodup find
  refine ⟨moved, u, hticks, ?_⟩
  cases c with
  | issue request => exact find' ▸ (handled_of_issue orderly.nodup narrow rfl hfound).served
  | step =>
    cases hfound.symm.trans find'
    exact .same _
  | poll => cases timed

theorem find?_poll (s : Simulator) (tid : Tid) : (Command.poll.run s).find? tid = s.find? tid :=
  congrArg (Rows.find? tid) (poll_same rfl).2

/-- While the last element waits for the intake, no command but one in whose step it is taken changes that. -/
theorem waits_run (orderly : s.Orderly) (narrow : s.Narrow) (find : s.find? tid = some e) (waits : e.Waits)
    (find' : (c.run s).find? tid = some e') :
    e'.Waits ∨ e'.Executes s.options.latency (c.run s).cycle (c.run s).cycle := by
  cases htimed : c.isTimed with
  | true =>
    obtain ⟨moved, u, hticks, hserved⟩ := exists_ticks_run orderly narrow find htimed find'
    exact (waits.ticks hticks _).imp (·.served hserved) (·.served hserved)
  | false =>
    obtain rfl := eq_poll_of_not_timed htimed
    rw [find?_poll, find] at find'
    cases find'
    exact .inl waits

/-- Every command counts its steps, whatever it asks for. -/
theorem executes_run (orderly : s.Orderly) (narrow : s.Narrow) (find : s.find? tid = some e)
    (executes : e.Executes s.options.latency start s.cycle) (find' : (c.run s).find? tid = some e') :
    e'.Executes s.options.latency start (c.run s).cycle := by
  rw [cycle_run]
  cases htimed : c.isTimed with
  | true =>
    obtain ⟨moved, u, hticks, hserved⟩ := exists_ticks_run orderly narrow find htimed find'
    exact (executes.ticks hticks).served hserved
  | false =>
    obtain rfl := eq_poll_of_not_timed htimed
    rw [find?_poll, find] at find'
    cases find'
    exact executes

theorem holds_append (cs more : List Command) (s : Simulator) :
    Holds tid (cs ++ more) s ↔ Holds tid cs s ∧ Holds tid more (runAll cs s) := by
  induction cs generalizing s with
  | nil =>
    refine ⟨fun h => ⟨?_, h⟩, fun h => h.2⟩
    cases more with
    | nil => exact h
    | cons c more => exact h.1
  | cons c cs ih => exact (and_congr_right fun _ => ih (c.run s)).trans and_assoc.symm

theorem exists_find?_of_holds {cs : List Command} (holds : Holds tid cs s) :
    ∃ e, (runAll cs s).find? tid = some e := by
  induction cs generalizing s with
  | nil => exact Option.ne_none_iff_exists'.1 holds
  | cons c cs ih => exact ih holds.2

theorem Holds.head {cs : List Command} (holds : Holds tid cs s) : ∃ e, s.find? tid = some e := by
  cases cs with
  | nil => exact Option.ne_none_iff_exists'.1 holds
  | cons c cs => exact Option.ne_none_iff_exists'.1 holds.1

/-- By induction on the commands: what each command keeps of a transaction is so as long as it is held. -/
theorem Holds.keeps {P : Simulator → Entry → Prop} (run : ∀ {c : Command} {t : Simulator} {f f' : Entry}, t.Orderly →
      t.Narrow → t.find? tid = some f → P t f → (c.run t).find? tid = some f' → P (c.run t) f')
    {cs : List Command} (holds : Holds tid cs s) (orderly : s.Orderly) (narrow : s.Narrow)
    (find : s.find? tid = some e) (start : P s e) (find' : (runAll cs s).find? tid = some e') :
    P (runAll cs s) e' := by
  induction cs generalizing s e with
  | nil =>
    cases find.symm.trans find'
    exact start
  | cons c cs ih =>
    obtain ⟨u, hu⟩ := Holds.head holds.2
    exact ih holds.2 ((c.evolves_run s).orderly orderly) (narrow_run c narrow) hu (run orderly narrow find start hu) find'

/-- A transaction whose last element was taken counts the steps as long as it is held. -/
theorem executes_runAll (orderly : s.Orderly) (narrow : s.Narrow) {cs : List Command} (holds : Holds tid cs s)
    (find : s.find? tid = some e) (executes : e.Executes s.options.latency start s.cycle)
    (find' : (runAll cs s).find? tid = some e') :
    e'.Executes s.options.latency start (runAll cs s).cycle := by
  have hkept := holds.keeps (P := fun t f => t.options = s.options ∧ f.Executes t.options.latency start t.cycle)
    (fun horderly hnarrow hf h hf' => by
      rw [options_run]
      exact ⟨h.1, executes_run horderly hnarrow hf h.2 hf'⟩)
    orderly narrow find ⟨rfl, executes⟩ find'
  exact hkept.1 ▸ hkept.2

/-- A transaction waits or counts the steps as long as it is held. -/
theorem stage_runAll (orderly : s.Orderly) (narrow : s.Narrow) {cs : List Command} (holds : Holds tid cs s)
    (find : s.find? tid = some e) (waits : e.Waits) (find' : (runAll cs s).find? tid = some e') :
    e'.Waits ∨ ∃ start, e'.Executes (runAll cs s).options.latency start (runAll cs s).cycle := by
  refine holds.keeps (P := fun t f => f.Waits ∨ ∃ start, f.Executes t.options.latency start t.cycle)
    (fun horderly hnarrow hf h hf' => ?_) orderly narrow find (.inl waits) find'
  rw [options_run]
  obtain hwaits | ⟨start, hexecutes⟩ := h
  · exact (waits_run horderly hnarrow hf hwaits hf').imp_right fun h => ⟨_, h⟩
  · exact .inr ⟨start, executes_run horderly hnarrow hf hexecutes hf'⟩

/-- A transaction that is held has an account of all that it was fed and of all that was read from it. -/
theorem accounts_runAll (orderly : s.Orderly) (narrow : s.Narrow) {cs : List Command} (holds : Holds tid cs s)
    (find : s.find? tid = some e) {F : List (Element × Bool)} {words : List Element} (h : e.Accounts o F words)
    (find' : (runAll cs s).find? tid = some e') :
    e'.Accounts o (F ++ fed tid cs s) (words ++ (drawn tid cs s).map (·.element)) := by
  induction cs generalizing s e F words with
  | nil =>
    cases find.symm.trans find'
    rw [fed, drawn, List.map_nil, List.append_nil, List.append_nil]
    exact h
  | cons c cs ih =>
    obtain ⟨u, hu⟩ := Holds.head holds.2
    obtain ⟨-, hsettled⟩ := settled_run orderly narrow find h c
    rw [hu] at hsettled
    have hrest := ih ((c.evolves_run s).orderly orderly) (narrow_run c narrow) holds.2 hu hsettled find'
    rw [fed, drawn, if_neg holds.1, if_neg holds.1, List.map_append, ← List.append_assoc, ← List.append_assoc]
    exact hrest

/-- Not all outputs of the transaction have been read. One without any output keeps its entry. -/
def Unread (o : Opening) (tid : Tid) (cs : List Command) (s : Simulator) : Prop :=
  o.outputCount = 0 ∨ (drawn tid cs s).length < o.outputCount

/-- A transaction is held until its last output is read. -/
theorem holds_iff_unread (orderly : s.Orderly) (narrow : s.Narrow) (find : s.find? tid = some (o.entry tid))
    (cs : List Command) : Holds tid cs s ↔ Unread o tid cs s := by
  obtain ⟨-, left, hleft, hholds⟩ := settled_runAll orderly narrow find (Entry.Accounts.opened o tid) cs
  simp only [List.nil_append] at hleft
  have hlength := o.length_outputs ((fed tid cs s).map Prod.fst)
  unfold Unread
  cases left with
  | none =>
    obtain ⟨hne, hall, -⟩ := hleft
    refine iff_of_false (hholds.1 rfl) ?_
    rw [← hall, List.length_map] at hlength
    have hpos := List.length_pos_iff.2 hne
    rw [List.length_map] at hpos
    omega
  | some e =>
    refine iff_of_true (by_contra fun hnot => Option.some_ne_none e (hholds.2 hnot)) ?_
    by_cases hzero : o.outputCount = 0
    · exact .inl hzero
    · have hfirst := hleft.words_prefix
      have hne := Entry.Accounts.words_ne hleft (Nat.pos_of_ne_zero hzero)
      have hlt : ((drawn tid cs s).map (·.element)).length < (o.outputs ((fed tid cs s).map Prod.fst)).length :=
        Nat.lt_of_le_of_ne hfirst.length_le fun hsame => hne (hfirst.eq_of_length hsame)
      rw [List.length_map, hlength] at hlt
      exact .inr hlt

/-- In the step of the command, the intake takes the element that was accepted as the last one of a
transaction. -/
def TakesLast (tid : Tid) (cs : List Command) (c : Command) (s : Simulator) : Prop :=
  ∃ before x e e', fed tid cs s = before ++ [(x, true)] ∧ (runAll cs s).find? tid = some e ∧
    e.consumed.length = before.length ∧ (c.run (runAll cs s)).find? tid = some e' ∧
    e'.consumed = e.consumed ++ [x]

/-- The last element is the only one in the queue when the intake takes it. -/
theorem TakesLast.executes (orderly : s.Orderly) (narrow : s.Narrow) (find : s.find? tid = some (o.entry tid))
    {cs : List Command} (holds : Holds tid cs s) (takes : TakesLast tid cs c s) :
    ∃ e e', (runAll cs s).find? tid = some e ∧ e.queue ≠ [] ∧ (c.run (runAll cs s)).find? tid = some e' ∧
      e'.Executes s.options.latency (c.run (runAll cs s)).cycle (c.run (runAll cs s)).cycle := by
  obtain ⟨before, x, e, e', hfed, hfind, hlength, hfind', hconsumed⟩ := takes
  have horderly := (evolves_runAll cs s).orderly orderly
  have hnarrow : (runAll cs s).Narrow := narrow.evolves (evolves_runAll cs s)
  have hacc := accounts_runAll orderly narrow holds find (Entry.Accounts.opened o tid) hfind
  rw [List.nil_append, hfed] at hacc
  have hlast : e.lastSeen = true := by rw [hacc.lastSeen_eq, List.any_append]; simp
  have hqueue : e.queue = [x] := by
    have helements := hacc.elements
    rw [List.map_append] at helements
    exact (List.append_inj helements (by rw [List.length_map, hlength])).2
  have hnonempty : e.queue ≠ [] := by rw [hqueue]; exact List.cons_ne_nil x []
  refine ⟨e, e', hfind, hnonempty, hfind', ?_⟩
  have hwaits : e.Waits := by
    obtain hwaits | ⟨start, hexecutes⟩ :=
      stage_runAll orderly narrow holds find ⟨rfl, fun hlast => nomatch hlast⟩ hfind
    · exact hwaits
    · exact absurd hexecutes.queue hnonempty
  cases htimed : c.isTimed with
  | true =>
    obtain ⟨moved, u, hticks, hserved⟩ := exists_ticks_run horderly hnarrow hfind htimed hfind'
    rw [Entry.consumed_of_served hserved] at hconsumed
    rw [← (built_runAll cs s).options]
    exact (hwaits.ticks_last hlast hqueue hticks hconsumed _).served hserved
  | false =>
    obtain rfl := eq_poll_of_not_timed htimed
    rw [find?_poll, hfind] at hfind'
    cases hfind'
    simp at hconsumed

end Command

/-! ## Every engine, all commands -/

open Command in
/-- Around the step in which the last element of a transaction is taken: it is not done before, it is done from the
cycle on that comes the latency and one step later, and no longer once its last output is read. -/
theorem done_after_latency (orderly : s.Orderly) (narrow : s.Narrow) {o : Opening}
    (find : s.find? tid = some (o.entry tid)) {before : List Command} {c : Command} (unread : Unread o tid before s)
    (takes : TakesLast tid before c s) :
    (∀ cs more, before = cs ++ more → (runAll cs s).isDone tid = false) ∧
      (∀ after, Unread o tid (before ++ c :: after) s →
        ((runAll (before ++ c :: after) s).isDone tid = true ↔
          (c.run (runAll before s)).cycle + s.options.latency + 1 ≤ (runAll (before ++ c :: after) s).cycle)) ∧
      ∀ after d, Unread o tid (before ++ c :: after) s → ¬ Unread o tid (before ++ c :: after ++ [d]) s →
        (runAll (before ++ c :: after ++ [d]) s).isDone tid = false := by
  have hholds := holds_iff_unread orderly narrow find
  have hbefore := (hholds before).2 unread
  obtain ⟨e, e', hfind, hqueue, hfind', hexecutes⟩ := takes.executes orderly narrow find hbefore
  have hisDone : ∀ {t : Simulator} {f : Entry}, t.find? tid = some f → (t.isDone tid = true ↔ f.phase = .done) := by
    intro t f hf
    rw [isDone_eq_true_iff, hf]
    exact ⟨fun ⟨f', hf', hp⟩ => Option.some.inj hf' ▸ hp, fun hp => ⟨f, rfl, hp⟩⟩
  refine ⟨fun cs more hsplit => ?_, fun after hunread => ?_, fun after d hunread hread => ?_⟩
  · subst hsplit
    obtain ⟨hcs, hmore⟩ := (holds_append cs more s).1 hbefore
    obtain ⟨f, hf⟩ := exists_find?_of_holds hcs
    rw [← Bool.not_eq_true, hisDone hf]
    obtain hwaits | ⟨start, hexec⟩ :=
      stage_runAll orderly narrow hcs find ⟨rfl, fun hlast => nomatch hlast⟩ hf
    · exact hwaits.not_done
    · -- its queue would still be empty when the last element is taken
      rw [runAll_append] at hfind
      have hend := executes_runAll ((evolves_runAll cs s).orderly orderly) (narrow.evolves (evolves_runAll cs s))
        hmore hf hexec hfind
      exact absurd hend.queue hqueue
  · have hrun : runAll (before ++ c :: after) s = runAll after (c.run (runAll before s)) := runAll_append before _ s
    obtain ⟨-, -, hafter⟩ := (holds_append before (c :: after) s).1 ((hholds _).2 hunread)
    obtain ⟨f, hf⟩ := exists_find?_of_holds hafter
    have hevolves := (evolves_runAll before s).trans (c.evolves_run (runAll before s))
    have hoptions : (c.run (runAll before s)).options = s.options := by
      rw [options_run, (built_runAll before s).options]
    rw [← hoptions] at hexecutes ⊢
    have hend := executes_runAll (hevolves.orderly orderly) (narrow.evolves hevolves) hafter hfind' hexecutes hf
    rw [hrun, hisDone hf]
    exact hend.done_iff
  · have hgone : (runAll (before ++ c :: after ++ [d]) s).find? tid = none := by
      by_contra hheld
      refine hread ((hholds _).1 ((holds_append _ [d] s).2 ⟨(hholds _).2 hunread, ?_, ?_⟩))
      · obtain ⟨f, hf⟩ := exists_find?_of_holds ((hholds _).2 hunread)
        rw [hf]
        exact Option.some_ne_none f
      · rwa [runAll_append] at hheld
    unfold isDone
    rw [hgone]
    rfl

open Command in
/-- Whatever an engine is asked since it was built. In each cycle that is a multiple of its drain interval, exactly
one element moves from a queue to what its transaction has consumed, the oldest one in the lowest row with a waiting
element, if there is one; nothing moves at any other time. And a transaction whose last element moves is done from
the latency and one cycle later on until its last output is read, and not before, whatever else is asked. -/
theorem intake_order_and_latency (s : Simulator) (unused : s.Unused) (cs : List Command) :
    (∀ c : Command,
      (c.run (runAll cs s)).cycle = (if c.isTimed then (runAll cs s).cycle + 1 else (runAll cs s).cycle) ∧
      (c.isTimed = true → (c.run (runAll cs s)).cycle % s.options.drainInterval = 0 →
        (∃ e ∈ (runAll cs s).entries, e.queue ≠ []) →
        ∃ i e x rest, Rows.Turn (runAll cs s).rows i e x rest ∧
          Takes [x] ((runAll cs s).row i) ((c.run (runAll cs s)).row i) ∧
          ∀ j, j ≠ i → Takes [] ((runAll cs s).row j) ((c.run (runAll cs s)).row j)) ∧
      (c.isTimed = false ∨ (c.run (runAll cs s)).cycle % s.options.drainInterval ≠ 0 ∨
          (∀ e ∈ (runAll cs s).entries, e.queue = []) →
        ∀ j, Takes [] ((runAll cs s).row j) ((c.run (runAll cs s)).row j))) ∧
    ∀ request answer opened, request.op? = some .newRequest → (runAll cs s).issue request = (answer, opened) →
      answer.exitCode = .ok →
      ∃ o r, ((runAll cs s).record request).checkOpen request = .ok o ∧
        (runAll cs s).handedOver opened answer = [r] ∧ opened.find? r.tid = some (o.entry r.tid) ∧
        ∀ before c, Unread o r.tid before opened → TakesLast r.tid before c opened →
          (∀ first more, before = first ++ more → (runAll first opened).isDone r.tid = false) ∧
          (∀ after, Unread o r.tid (before ++ c :: after) opened →
            ((runAll (before ++ c :: after) opened).isDone r.tid = true ↔
              (c.run (runAll before opened)).cycle + s.options.latency + 1 ≤
                (runAll (before ++ c :: after) opened).cycle)) ∧
          ∀ after d, Unread o r.tid (before ++ c :: after) opened →
            ¬ Unread o r.tid (before ++ c :: after ++ [d]) opened →
            (runAll (before ++ c :: after ++ [d]) opened).isDone r.tid = false := by
  have horderly : s.Orderly := orderly_of_empty unused.entries unused.deferred
  have horderly' : (runAll cs s).Orderly := (evolves_runAll cs s).orderly horderly
  have hoptions : (runAll cs s).options = s.options := (built_runAll cs s).options
  refine ⟨fun c => ⟨cycle_run c _, ?_⟩, fun request answer opened op h ok => ?_⟩
  · have hran : ∀ i, Ran ((runAll cs s).row i) := by
      refine ran_runAll horderly (fun i e he => ?_) cs
      have hmem : e ∈ s.entries := Rows.mem_entries_iff.2 ⟨i, he⟩
      rw [unused.entries] at hmem
      exact absurd hmem List.not_mem_nil
    have hturn : c.isTimed = true →
        ((runAll cs s).IntakeTurn ↔ (c.run (runAll cs s)).cycle % s.options.drainInterval = 0) := by
      intro htimed
      unfold IntakeTurn
      rw [cycle_run, if_pos htimed, hoptions]
    obtain ⟨htimed, hintake, i, e, x, rest, hfirst, hone, hothers⟩ | ⟨hempty, hnone⟩ :=
      takes_run horderly' hran c
    · refine ⟨fun _ _ _ => ⟨i, e, x, rest, hfirst, hone, hothers⟩, fun hquiet => ?_⟩
      obtain hpoll | hcycle | hall := hquiet
      · cases htimed.symm.trans hpoll
      · exact absurd ((hturn htimed).1 hintake) hcycle
      · cases hfirst.waiting.symm.trans (hall e (Rows.mem_entries_iff.2 ⟨i, hfirst.held⟩))
    · refine ⟨fun htimed hcycle ⟨e, he, hwaiting⟩ => ?_, fun _ => hnone⟩
      exact absurd (hempty htimed ((hturn htimed).2 hcycle) e he) hwaiting
  · obtain ⟨o, r, hcheck, hgiven, -, -, hfound, hnarrow⟩ := opened_of_ok op h ok
    have hrun : (Command.issue request).run (runAll cs s) = opened := congrArg Prod.snd h
    have hevolves : Evolves (runAll cs s) opened := hrun ▸ (Command.issue request).evolves_run _
    refine ⟨o, r, hcheck, hgiven, hfound, fun before c unread takes => ?_⟩
    have hsame : opened.options = s.options := by rw [← hrun, options_run, hoptions]
    rw [← hsame]
    exact done_after_latency (hevolves.orderly horderly') (hnarrow.evolves hevolves) hfound unread takes

/-- An engine of two rows whose intake has its turn in every other cycle. -/
def sharing : Simulator :=
  { withCapacity 2 with
    options := { drainInterval := 2, latency := 1 }
    table := recycling.table
    asid := some 0 }

/-- A second transaction is opened and both are fed; the element of the second one is taken first. -/
def bothFed : List Command :=
  [.issue (.newTransaction 0 .feedforward 0), .issue (.writeData 1 7 false), .issue (.writeData 0 5 true),
    .issue (.writeData 1 8 false)]

open Command in
/-- The last element of the first transaction moves in cycle 6, in the step of a request about the second one, and
the transaction is done in cycle 8. -/
theorem sharing_intake_order_and_latency :
    let opens := Request.newTransaction 0 .feedforward 0
    let opened := (sharing.issue opens).2
    let c := Command.issue (.readData 1)
    sharing.Unused ∧ opens.op? = some .newRequest ∧ (sharing.issue opens).1.exitCode = .ok ∧
      (∃ i e x rest, Rows.Turn (runAll bothFed opened).rows i e x rest ∧
        Takes [x] ((runAll bothFed opened).row i) ((c.run (runAll bothFed opened)).row i)) ∧
      TakesLast 0 bothFed c opened ∧ (c.run (runAll bothFed opened)).cycle = 6 ∧
      (runAll (bothFed ++ [c, .step]) opened).isDone 0 = false ∧
      (runAll (bothFed ++ [c, .poll, .step, .step]) opened).isDone 0 = true := by
  intro opens opened c
  have hunused : sharing.Unused := ⟨rfl, rfl, rfl, rfl, rfl, rfl⟩
  have hop : opens.op? = some .newRequest := rfl
  have hok : (sharing.issue opens).1.exitCode = .ok := by decide +kernel
  have hcycles : (c.run (runAll bothFed opened)).cycle = 6 ∧ (runAll (bothFed ++ [c, .step]) opened).cycle = 7 ∧
      (runAll (bothFed ++ [c, .poll, .step, .step]) opened).cycle = 8 := by
    decide +kernel
  obtain ⟨htaken, hearly, hlate⟩ := hcycles
  have hdrawn : drawn 0 bothFed opened = [] ∧ drawn 0 (bothFed ++ [c, .step]) opened = [] ∧
      drawn 0 (bothFed ++ [c, .poll, .step, .step]) opened = [] := by
    decide +kernel
  have hgiven : sharing.handedOver opened (sharing.issue opens).1 = [{ kind := 1, tid := 0 }] := by decide +kernel
  let fresh : Entry := { tid := 0, nnid := 0, mode := .feedforward, trainOutputs := 0, outputCount := 1 }
  have hentries : opened.find? 0 = some fresh ∧
      (runAll bothFed opened).find? 0 = some { fresh with queue := [5], lastSeen := true } ∧
      (c.run (runAll bothFed opened)).find? 0 =
        some { fresh with taken := [5], lastSeen := true, phase := .executing 1 } := by
    decide +kernel
  obtain ⟨hfresh, hwaiting, hexecuting⟩ := hentries
  have htakes : TakesLast 0 bothFed c opened := ⟨[], 5, _, _, by decide +kernel, hwaiting, rfl, hexecuting, rfl⟩
  obtain ⟨hport, -⟩ := intake_order_and_latency sharing hunused (.issue opens :: bothFed)
  obtain ⟨-, hlatency⟩ := intake_order_and_latency sharing hunused []
  obtain ⟨-, hmoves, -⟩ := hport c
  obtain ⟨i, e, x, rest, hturn, hone, -⟩ := hmoves rfl (congrArg (· % 2) htaken)
    ⟨_, mem_entries_of_find? hwaiting, List.cons_ne_nil _ _⟩
  obtain ⟨o, r, -, hr, hfound, hdone⟩ := hlatency opens _ opened hop rfl hok
  obtain rfl : { kind := 1, tid := 0 } = r := List.singleton_inj.1 (hgiven.symm.trans hr)
  have hcount : o.outputCount = 1 := congrArg Entry.outputCount (Option.some.inj (hfound.symm.trans hfresh))
  have hunread : ∀ {cs : List Command}, drawn 0 cs opened = [] → Unread o 0 cs opened := by
    intro cs h
    refine .inr ?_
    rw [h, hcount]
    exact Nat.zero_lt_one
  obtain ⟨-, hiff, -⟩ := hdone bothFed c (hunread hdrawn.1) htakes
  refine ⟨hunused, hop, hok, ⟨i, e, x, rest, hturn, hone⟩, htakes, htaken, ?_, ?_⟩
  · have hnot := hiff [.step] (hunread hdrawn.2.1)
    rw [htaken, hearly] at hnot
    exact Bool.eq_false_iff.2 fun hyes => absurd (hnot.1 hyes) (by decide)
  · have hyes := hiff [.poll, .step, .step] (hunread hdrawn.2.2)
    rw [htaken, hlate] at hyes
    exact hyes.2 (by decide)

end NeuralEngine.Simulator
