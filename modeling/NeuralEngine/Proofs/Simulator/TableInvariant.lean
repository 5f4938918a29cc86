import Mathlib.Data.List.Induction
import Mathlib.Logic.ExistsUnique
import NeuralEngine.Proofs.Simulator.Account
import NeuralEngine.Proofs.Simulator.Counted

/-!
# The transaction table under any commands

Whatever raw requests an engine is given, and however steps and polls are mixed in, its table keeps in shape.
`Moves` says once what a request can do to the table and to the responses held back: nothing, a change of the
entry that the request is about, or a new entry. Each of the three keeps the table `Regular`. An identifier is
given only when nothing is about it, so as long as it is taken it stands for the transaction of one open
(`Command.existsUnique_owner`).
-/

namespace NeuralEngine.Simulator

variable {s s' : Simulator} {request : Request} {answer : Response} {tid : Tid}

/-! ## Entries -/

/-- What holds of every entry of an engine whose queues hold `depth` elements. -/
structure Entry.Regular (depth : Nat) (e : Entry) : Prop where
  queue_le : e.queue.length ≤ depth
  ran : e.phase ≠ .writing → e.lastSeen = true ∧ e.queue = []
  unread : e.phase ≠ .done → e.outputs = []
  /-- The entry goes with its last output. -/
  left : e.phase = .done → 0 < e.outputCount → e.outputs ≠ []

namespace Entry.Regular

variable {depth : Nat} {e : Entry}

theorem opened (depth : Nat) (o : Opening) (tid : Tid) : (o.entry tid).Regular depth where
  queue_le := Nat.zero_le _
  ran h := absurd rfl h
  unread _ := rfl
  left := Phase.noConfusion

/-- The intake takes the oldest element. -/
theorem taken (h : e.Regular depth) {value : Element} {queue : List Element} (hq : e.queue = value :: queue) :
    Regular depth { e with queue := queue, taken := value :: e.taken } where
  queue_le := by
    have hle := h.queue_le
    rw [hq, List.length_cons] at hle
    exact Nat.le_of_succ_le hle
  ran hp := by
    have hempty := (h.ran hp).2
    rw [hq] at hempty
    cases hempty
  unread := h.unread
  left := h.left

/-- The phase advances. -/
theorem advance (h : e.Regular depth) (latency : Nat) : (e.advance latency).Regular depth := by
  unfold Entry.advance
  cases hp : e.phase with
  | writing =>
    dsimp only
    split
    · next hlast =>
      rw [Bool.and_eq_true, List.isEmpty_iff] at hlast
      have hnone := h.unread (by rw [hp]; exact Phase.noConfusion)
      exact ⟨h.queue_le, fun _ => hlast, fun _ => hnone, Phase.noConfusion⟩
    · exact h
  | executing left =>
    have hran := h.ran (by rw [hp]; exact Phase.noConfusion)
    have hnone := h.unread (by rw [hp]; exact Phase.noConfusion)
    cases left with
    | zero =>
      refine ⟨h.queue_le, fun _ => hran, fun hdone => absurd rfl hdone, fun _ hpos => ?_⟩
      rw [← List.length_pos_iff]
      simpa [expectedOutputs] using hpos
    | succ left => exact ⟨h.queue_le, fun _ => hran, fun _ => hnone, Phase.noConfusion⟩
  | done => exact h

/-- An element is accepted. -/
theorem enqueue (h : e.Regular depth) (writable : e.isWritable = true) (room : e.queue.length < depth)
    (value : Element) (last : Bool) :
    Regular depth { e with queue := e.queue ++ [value], lastSeen := last } := by
  simp only [Entry.isWritable, Bool.and_eq_true, beq_iff_eq, Bool.not_eq_true'] at writable
  refine ⟨?_, fun hp => absurd writable.1 hp, h.unread, h.left⟩
  rw [List.length_append, List.length_singleton]
  exact room

/-- An output is read, and another one is left. -/
theorem read (h : e.Regular depth) (done : e.isDone = true) {rest : List Element} (more : rest ≠ []) :
    Regular depth { e with outputs := rest } where
  queue_le := h.queue_le
  ran := h.ran
  unread hp := absurd (eq_of_beq done) hp
  left _ _ := more

end Entry.Regular

/-! ## Requests -/

/-- What a request can do to the table and to the responses held back. -/
inductive Moves (s : Simulator) (request : Request) (answer : Response) (s' : Simulator) : Prop
  | quiet (given : request.op? = some .newRequest → answer.exitCode ≠ .ok) (rows : s'.rows = s.tick.rows)
      (deferred : s'.deferred = s.deferred)
      (peak : s'.statistics.peakResident = s.statistics.peakResident)
  /-- The entry that the request is about is changed, or freed. -/
  | changed (op : request.op? ≠ some .newRequest) (e : Entry) (found : s.tick.find? request.tid = some e)
      (f : Entry → Option Entry) (keeps : ∀ e e', f e = some e' → e'.tid = e.tid)
      (regular : ∀ e', f e = some e' → e.Regular s.options.queueDepth → e'.Regular s.options.queueDepth)
      (rows : s'.rows = Rows.update request.tid f s.tick.rows)
      (deferred : ∀ d ∈ s'.deferred, d ∈ s.deferred ∨ d.response.tid = request.tid)
      (peak : s'.statistics.peakResident = s.statistics.peakResident)
  /-- A new entry is put into a free row, under an identifier that nothing is about. -/
  | opened (o : Opening) (r : Response) (op : request.op? = some .newRequest) (ok : answer.exitCode = .ok)
      (given : s.handedOver s' answer = [r]) (room : s.resident < s.capacity) (free : s.isTaken r.tid = false)
      (rows : s'.rows = Rows.place (o.entry r.tid) s.tick.rows)
      (deferred : ∀ d ∈ s'.deferred, d ∈ s.deferred ∨ d.response = r)
      (peak : s'.statistics.peakResident = max s.statistics.peakResident s'.resident)

theorem mem_deferred_of_respond {response : Option Response} {delay : Option Nat}
    (h : s.respond response delay = (answer, s')) {d : Deferred} (hd : d ∈ s'.deferred) :
    d ∈ s.deferred ∨ response = some d.response := by
  cases responded h with
  | faulty => exact .inl hd
  | prompt => exact .inl hd
  | held =>
    obtain hd | hd := List.mem_append.1 hd
    · exact .inl hd
    · obtain rfl := List.mem_singleton.1 hd
      exact .inr rfl

theorem room_of_checkOpen {o : Opening} (h : s.checkOpen request = .ok o) : s.resident < s.capacity := by
  obtain ⟨⟨asid, space⟩, -, h⟩ := Inversion.except_bind_ok_iff.1 h
  obtain ⟨config, -, h⟩ := Inversion.except_bind_ok_iff.1 h
  obtain ⟨mode, -, h⟩ := Inversion.except_bind_ok_iff.1 h
  split at h
  · cases h
  · next hroom => exact Nat.lt_of_not_le hroom

theorem resident_record (request : Request) (s : Simulator) : (s.record request).resident = s.resident := by
  rw [resident_eq, resident_eq, tids_record]

theorem moves_of_issue (narrow : s.Narrow) (h : s.issue request = (answer, s')) : Moves s request answer s' := by
  obtain ⟨code, hrefused, rfl, rfl⟩ | hperform := issue_cases h
  · refine .quiet (fun _ => ?_) rfl rfl rfl
    rw [Response.exitCode_status]
    exact ExitCode.ne_ok_of_isFatal (perform_error hrefused)
  cases performs_of_ok hperform with
  | exhausted => exact .quiet (fun _ => ExitCode.noConfusion) rfl rfl rfl
  | @opened o tid next _ t op check alloc respond =>
    obtain ⟨r, hr⟩ := Response.exists_tidAssigned ((narrow_iff_of_checkOpen check).1 narrow) tid
    obtain ⟨hok, hkind, rfl⟩ := Response.of_tidAssigned hr
    rw [hr] at respond
    obtain ⟨hanswer, hgiven, hrows⟩ := respond_some hok (by simp [hkind]) respond
    have hroom := room_of_checkOpen check
    rw [resident_record] at hroom
    have hfree : (s.record request).isTaken r.tid = false := firstFree_some alloc
    rw [isTaken_record] at hfree
    have hpeak : t.statistics.peakResident = max s.statistics.peakResident t.countDeferredTids.resident := by
      have hresident : t.countDeferredTids.resident =
          ((s.record request).addEntry (o.entry r.tid) next).resident :=
        congrArg (fun rows => (Rows.entries rows).length) hrows
      rw [(respond_same respond).2, hresident]
      rfl
    refine .opened o r op hanswer hgiven hroom hfree hrows (fun d hd => ?_) hpeak
    exact (mem_deferred_of_respond respond hd).imp_right fun hsame => (Option.some.inj hsame).symm
  | registered e register op _ found writable =>
    refine .changed (by simp [op]) e found _ (by rintro e _ ⟨⟩; rfl) ?_ rfl (fun d hd => .inl hd) rfl
    rintro _ ⟨⟩ he
    exact { he with }
  | busy e last op =>
    refine .quiet (fun _ => ExitCode.noConfusion) rfl rfl rfl
  | enqueued e last op found writable room =>
    refine .changed (by cases last <;> simp [op]) e found _ (by rintro e _ ⟨⟩; rfl) ?_ rfl (fun d hd => .inl hd) rfl
    rintro _ ⟨⟩ he
    exact he.enqueue writable room _ _
  | notDone => exact .quiet (fun _ => ExitCode.noConfusion) rfl rfl rfl
  | read e value rest op found done outputs respond =>
    have hnarrow : (s.record request).Narrow := narrow
    obtain ⟨r, hr⟩ := Response.exists_dataOut hnarrow request.tid value
    obtain ⟨hok, hkind, htid, -⟩ := Response.of_dataOut hr
    rw [hr] at respond
    obtain ⟨hrows, hstatistics⟩ := respond_same respond
    refine .changed (by simp [op]) e found _ (fun _ _ => tid_of_leave) ?_ hrows (fun d hd => ?_)
      (congrArg (·.peakResident) hstatistics)
    · intro e' he' hregular
      split at he'
      · cases he'
      · next hmore =>
        cases he'
        exact hregular.read done hmore
    · obtain hd | hd := mem_deferred_of_respond respond hd
      · exact .inl hd
      · exact .inr (Option.some.inj hd ▸ htid)

/-! ## The table -/

/-- The table is in shape. -/
structure Regular (s : Simulator) : Prop where
  resident_le : s.resident ≤ s.capacity
  peak : s.resident ≤ s.statistics.peakResident
  nodup : s.tids.Nodup
  entries : ∀ {tid e}, s.find? tid = some e → e.Regular s.options.queueDepth

/-- The engine is built as it was. -/
structure Built (s s' : Simulator) : Prop where
  params : s'.params = s.params
  options : s'.options = s.options

theorem Built.trans {s'' : Simulator} (h : Built s s') (h' : Built s' s'') : Built s s'' :=
  ⟨h'.params.trans h.params, h'.options.trans h.options⟩

theorem built_of_issue (h : s.issue request = (answer, s')) : Built s s' :=
  ⟨(issue_same h).2.2.1, (issue_same h).2.2.2⟩

namespace Regular

theorem of_unused (unused : s.Unused) : s.Regular where
  resident_le := by
    unfold resident
    rw [unused.entries]
    exact Nat.zero_le _
  peak := by
    unfold resident
    rw [unused.entries]
    exact Nat.zero_le _
  nodup := by
    rw [(tids_eq_nil_iff s).2 unused.entries]
    exact .nil
  entries {tid e} he := by
    have hmem : e ∈ s.entries := List.mem_of_find?_eq_some he
    rw [unused.entries] at hmem
    exact absurd hmem List.not_mem_nil

/-- Nothing that the table is judged by has changed. -/
theorem of_rows (h : s.Regular) (built : Built s s') (rows : s'.rows = s.rows)
    (peak : s'.statistics.peakResident = s.statistics.peakResident) : s'.Regular where
  resident_le := by
    unfold capacity resident Simulator.entries
    rw [built.params, rows]
    exact h.resident_le
  peak := by
    unfold resident Simulator.entries
    rw [peak, rows]
    exact h.peak
  nodup := by
    unfold tids
    rw [rows]
    exact h.nodup
  entries {tid e} he := by
    unfold find? at he
    rw [rows] at he
    rw [built.options]
    exact h.entries he

theorem tick (h : s.Regular) : s.tick.Regular where
  resident_le := by
    rw [resident_eq, tids_tick, ← resident_eq]
    exact h.resident_le
  peak := by
    rw [resident_eq, tids_tick, ← resident_eq]
    exact h.peak
  nodup := by
    rw [tids_tick]
    exact h.nodup
  entries {tid e} he := by
    have hrel := s.find?_tick (R := fun e e' => e.Regular s.options.queueDepth → e'.Regular s.options.queueDepth)
      (fun _ => id) (fun h h' => h' ∘ h) (fun _ _ _ hq h => h.taken hq) (fun _ h => h.advance _) tid
    rw [he] at hrel
    generalize hfind : s.find? tid = found at hrel
    cases hrel with
    | some keeps => exact keeps (h.entries hfind)

theorem moves (h : s.Regular) (built : Built s s') (hm : Moves s request answer s') : s'.Regular := by
  have htick := h.tick
  cases hm with
  | quiet _ rows _ peak => exact htick.of_rows ⟨built.params, built.options⟩ rows peak
  | changed _ e found f keeps regular rows _ peak =>
    have hle : s'.resident ≤ s.resident := by
      rw [resident_eq, resident_eq, ← tids_tick s]
      unfold tids
      rw [rows]
      exact (Rows.tids_update_sublist keeps _ _).length_le
    refine ⟨?_, ?_, ?_, fun {tid e'} he' => ?_⟩
    · unfold capacity
      rw [built.params]
      exact hle.trans h.resident_le
    · rw [peak]
      exact hle.trans h.peak
    · unfold tids
      rw [rows]
      exact htick.nodup.sublist (Rows.tids_update_sublist keeps _ _)
    · unfold find? at he'
      rw [rows] at he'
      rw [built.options]
      by_cases htid : tid = request.tid
      · subst htid
        rw [Rows.find?_update_self htick.nodup keeps] at he'
        change (s.tick.find? request.tid).bind f = some e' at he'
        rw [found] at he'
        exact regular e' he' (htick.entries found)
      · rw [Rows.find?_update_ne keeps htid] at he'
        exact htick.entries he'
  | opened o r _ _ _ room free rows _ peak =>
    have hfree : Rows.find? r.tid s.tick.rows = none := by
      have hnone : s.find? r.tid = none := by
        unfold isTaken at free
        rw [Bool.or_eq_false_iff, Option.isSome_eq_false_iff, Option.isNone_iff_eq_none] at free
        exact free.1
      exact (s.kept_tick r.tid).find?_eq_none_iff.2 hnone
    have hresident : s'.resident = s.resident + 1 := by
      rw [resident_eq, resident_eq, ← tids_tick s]
      unfold tids
      rw [rows, (Rows.tids_place_perm _ _).length_eq, List.length_cons]
    refine ⟨?_, ?_, ?_, fun {tid e} he => ?_⟩
    · unfold capacity
      rw [built.params, hresident]
      exact room
    · rw [peak]
      exact Nat.le_max_right _ _
    · unfold tids
      rw [rows]
      exact Rows.nodup_place htick.nodup hfree
    · unfold find? at he
      rw [rows, Rows.find?_place hfree] at he
      rw [built.options]
      split at he
      · cases he
        exact .opened _ o r.tid
      · exact htick.entries he

theorem issue (h : s.Regular) (narrow : s.Narrow) (hi : s.issue request = (answer, s')) : s'.Regular :=
  h.moves (built_of_issue hi) (moves_of_issue narrow hi)

end Regular

/-! ## Commands -/

theorem statistics_poll (s : Simulator) : s.poll.2.statistics = s.statistics := by
  unfold poll
  split <;> rfl

namespace Command

/-- The identifier that an accepted open gives. -/
def gives? : Command → Simulator → Option Tid
  | .issue request, s =>
    if request.op? = some .newRequest ∧ (s.issue request).1.exitCode = .ok then
      ((s.handedOver (s.issue request).2 (s.issue request).1).head?).map (·.tid)
    else none
  | _, _ => none

/-- The number of transactions held right after each of the accepted opens. -/
def afterOpens : List Command → Simulator → List Nat
  | [], _ => []
  | c :: cs, s =>
    if (c.gives? s).isSome then (c.run s).resident :: afterOpens cs (c.run s) else afterOpens cs (c.run s)

variable {c : Command} {cs : List Command} {i : Nat}

theorem moves_run (narrow : s.Narrow) (request : Request) :
    Moves s request (s.issue request).1 ((issue request).run s) :=
  moves_of_issue narrow rfl

theorem gives?_eq_none (given : request.op? = some .newRequest → (s.issue request).1.exitCode ≠ .ok) :
    (issue request).gives? s = none :=
  if_neg fun hopens => given hopens.1 hopens.2

theorem gives?_eq_some (op : request.op? = some .newRequest) (ok : (s.issue request).1.exitCode = .ok)
    {r : Response} (given : s.handedOver ((issue request).run s) (s.issue request).1 = [r]) :
    (issue request).gives? s = some r.tid := by
  refine (if_pos ⟨op, ok⟩).trans ?_
  exact congrArg (fun responses => responses.head?.map (·.tid)) given

theorem regular_run (regular : s.Regular) (narrow : s.Narrow) (c : Command) : (c.run s).Regular := by
  cases c with
  | issue request => exact regular.issue narrow rfl
  | step => exact regular.tick
  | poll =>
    obtain ⟨halike, hrows⟩ := poll_same (s := s) rfl
    exact regular.of_rows ⟨halike.params, halike.options⟩ hrows (congrArg (·.peakResident) s.statistics_poll)

/-- The peak is raised by opens alone. -/
theorem peakResident_run (narrow : s.Narrow) (c : Command) :
    (c.run s).statistics.peakResident =
      if (c.gives? s).isSome then max s.statistics.peakResident (c.run s).resident
      else s.statistics.peakResident := by
  cases c with
  | issue request =>
    cases moves_run narrow request with
    | quiet given _ _ peak =>
      rw [gives?_eq_none given]
      exact peak
    | changed op _ _ _ _ _ _ _ peak =>
      rw [gives?_eq_none fun hop => absurd hop op]
      exact peak
    | opened _ _ op ok given _ _ _ _ peak =>
      rw [gives?_eq_some op ok given]
      exact peak
  | step => rfl
  | poll =>
    change s.poll.2.statistics.peakResident = _
    rw [statistics_poll]
    rfl

theorem regular_runAll (regular : s.Regular) (narrow : s.Narrow) (cs : List Command) :
    (runAll cs s).Regular := by
  induction cs generalizing s with
  | nil => exact regular
  | cons c cs ih => exact ih (regular_run regular narrow c) (narrow_run c narrow)

theorem built_runAll (cs : List Command) (s : Simulator) : Built s (runAll cs s) := by
  induction cs generalizing s with
  | nil => exact ⟨rfl, rfl⟩
  | cons c cs ih =>
    refine Built.trans ?_ (ih (c.run s))
    cases c with
    | issue request => exact built_of_issue rfl
    | step => exact ⟨rfl, rfl⟩
    | poll =>
      obtain ⟨halike, -⟩ := poll_same (s := s) rfl
      exact ⟨halike.params, halike.options⟩

theorem options_run (c : Command) (s : Simulator) : (c.run s).options = s.options :=
  (built_runAll [c] s).options

theorem peakResident_runAll (narrow : s.Narrow) (cs : List Command) :
    (runAll cs s).statistics.peakResident = (afterOpens cs s).foldl max s.statistics.peakResident := by
  induction cs generalizing s with
  | nil => rfl
  | cons c cs ih =>
    unfold runAll afterOpens
    rw [ih (narrow_run c narrow), peakResident_run narrow c]
    split <;> rfl

/-! ## Identifiers that are taken -/

theorem isTaken_iff : s.isTaken tid = true ↔ tid ∈ s.tids ∨ ∃ d ∈ s.deferred, d.response.tid = tid := by
  unfold isTaken tids find?
  rw [Bool.or_eq_true, List.any_eq_true, Rows.mem_tids_iff, Option.isSome_iff_exists]
  simp only [beq_iff_eq]

/-- An identifier is taken if it was before, or an open gives it. -/
theorem taken_of_run (narrow : s.Narrow) (h : (c.run s).isTaken tid = true) :
    s.isTaken tid = true ∨ c.gives? s = some tid := by
  rw [isTaken_iff] at h ⊢
  cases c with
  | step =>
    left
    change tid ∈ s.tick.tids ∨ _ at h
    rwa [tids_tick] at h
  | poll =>
    left
    obtain ⟨answer, s', hp⟩ : ∃ answer s', s.poll = (answer, s') := ⟨_, _, rfl⟩
    have hrun : poll.run s = s' := congrArg Prod.snd hp
    rw [hrun] at h
    obtain ⟨-, rfl⟩ | ⟨d, before, after, -, hsplit, -, -, rfl⟩ := poll_cases hp
    · exact h
    · refine h.imp_right fun ⟨e, he, htid⟩ => ⟨e, ?_, htid⟩
      rw [hsplit]
      obtain he | he := List.mem_append.1 he
      · exact List.mem_append_left _ he
      · exact List.mem_append_right _ (List.mem_cons_of_mem _ he)
  | issue request =>
    unfold tids at h
    cases moves_run narrow request with
    | quiet _ rows deferred =>
      rw [rows, deferred] at h
      left
      exact h.imp_left fun hmem => tids_tick s ▸ hmem
    | changed _ e found f keeps _ rows deferred =>
      left
      rw [rows] at h
      obtain hmem | ⟨d, hd, htid⟩ := h
      · exact .inl (tids_tick s ▸ (Rows.tids_update_sublist keeps _ _).subset hmem)
      · obtain hd | hsame := deferred d hd
        · exact .inr ⟨d, hd, htid⟩
        · -- the word is about a transaction that is held
          have hmem : request.tid ∈ s.tick.tids := Rows.mem_tids_iff.2 ⟨e, found⟩
          rw [tids_tick, ← hsame, htid] at hmem
          exact .inl hmem
    | opened o r op ok given _ _ rows deferred =>
      rw [gives?_eq_some op ok given]
      rw [rows, (Rows.tids_place_perm _ _).mem_iff, List.mem_cons] at h
      obtain (hnew | hmem) | ⟨d, hd, htid⟩ := h
      · exact .inr (congrArg some hnew.symm)
      · exact .inl (.inl (tids_tick s ▸ hmem))
      · obtain hd | hsame := deferred d hd
        · exact .inl (.inr ⟨d, hd, htid⟩)
        · exact .inr (by rw [← htid, hsame])

theorem exists_gives (narrow : s.Narrow) (op : request.op? = some .newRequest)
    (ok : (s.issue request).1.exitCode = .ok) : ∃ tid, (issue request).gives? s = some tid := by
  cases moves_run narrow request with
  | quiet given => exact absurd ok (given op)
  | changed other => exact absurd op other
  | opened o r _ _ given => exact ⟨r.tid, gives?_eq_some op ok given⟩

/-- An open gives an identifier that was not taken, and puts an entry under it. -/
theorem free_of_gives (narrow : s.Narrow) (h : c.gives? s = some tid) :
    s.isTaken tid = false ∧ tid ∈ (c.run s).tids := by
  cases c with
  | step => cases h
  | poll => cases h
  | issue request =>
    cases moves_run narrow request with
    | quiet given =>
      rw [gives?_eq_none given] at h
      cases h
    | changed op =>
      rw [gives?_eq_none fun hop => absurd hop op] at h
      cases h
    | opened o r op ok given _ free rows =>
      rw [gives?_eq_some op ok given] at h
      obtain rfl := Option.some.inj h
      refine ⟨free, ?_⟩
      unfold tids
      rw [rows, (Rows.tids_place_perm _ _).mem_iff]
      exact List.mem_cons_self

theorem runAll_append (cs more : List Command) (s : Simulator) :
    runAll (cs ++ more) s = runAll more (runAll cs s) := by
  induction cs generalizing s with
  | nil => rfl
  | cons c cs ih => exact ih _

/-- The open at position `i` of the commands gave the identifier, which has been taken since then. -/
structure Owns (s : Simulator) (cs : List Command) (tid : Tid) (i : Nat) : Prop where
  given : ∃ c, cs[i]? = some c ∧ c.gives? (runAll (cs.take i) s) = some tid
  since : ∀ k, i < k → k ≤ cs.length → (runAll (cs.take k) s).isTaken tid = true

theorem Owns.lt (h : Owns s cs tid i) : i < cs.length := by
  obtain ⟨c, hc, -⟩ := h.given
  exact (List.getElem?_eq_some_iff.1 hc).1

/-- As long as the identifier stays taken, its owner stays the same. -/
theorem Owns.append (h : Owns s cs tid i) (c : Command) (taken : (runAll (cs ++ [c]) s).isTaken tid = true) :
    Owns s (cs ++ [c]) tid i where
  given := by
    rw [List.getElem?_append_left h.lt, List.take_append_of_le_length h.lt.le]
    exact h.given
  since k hik hk := by
    rw [List.length_append, List.length_singleton] at hk
    obtain hle | hlast := Nat.le_or_eq_of_le_succ hk
    · rw [List.take_append_of_le_length hle]
      exact h.since k hik hle
    · rw [List.take_of_length_le (by simp [hlast])]
      exact taken

/-- By induction on the commands: every identifier that is taken was given by an open. -/
theorem exists_owner (unused : s.Unused) (narrow : s.Narrow) (taken : (runAll cs s).isTaken tid = true) :
    ∃ i, Owns s cs tid i := by
  induction cs using List.reverseRecOn with
  | nil =>
    obtain hmem | ⟨d, hd, -⟩ := isTaken_iff.1 taken
    · rw [runAll, (tids_eq_nil_iff s).2 unused.entries] at hmem
      exact absurd hmem List.not_mem_nil
    · rw [runAll, unused.deferred] at hd
      exact absurd hd List.not_mem_nil
  | append_singleton cs c ih =>
    have hrun : runAll (cs ++ [c]) s = c.run (runAll cs s) := runAll_append cs [c] s
    have hnarrow : (runAll cs s).Narrow := narrow.evolves (evolves_runAll cs s)
    obtain hbefore | hgives := taken_of_run hnarrow (hrun ▸ taken)
    · obtain ⟨i, hi⟩ := ih hbefore
      exact ⟨i, hi.append c taken⟩
    · refine ⟨cs.length, ⟨c, by simp, by simpa using hgives⟩, fun k hlt hle => ?_⟩
      rw [List.take_of_length_le (by rwa [List.length_append])]
      exact taken

/-- A later open would have found the identifier taken. -/
theorem Owns.not_lt (narrow : s.Narrow) {j : Nat} (h : Owns s cs tid i) (h' : Owns s cs tid j) : ¬ i < j := by
  intro hlt
  obtain ⟨c, -, hgives⟩ := h'.given
  have hfree := (free_of_gives (narrow.evolves (evolves_runAll _ s)) hgives).1
  rw [h.since j hlt h'.lt.le] at hfree
  cases hfree

theorem existsUnique_owner (unused : s.Unused) (narrow : s.Narrow) (taken : (runAll cs s).isTaken tid = true) :
    ∃! i, Owns s cs tid i := by
  obtain ⟨i, hi⟩ := exists_owner unused narrow taken
  refine ⟨i, hi, fun j hj => ?_⟩
  exact Nat.le_antisymm (Nat.le_of_not_lt (hi.not_lt narrow hj)) (Nat.le_of_not_lt (hj.not_lt narrow hi))

end Command

/-! ## Every engine, all commands -/

open Command in
/-- Whatever raw requests an engine is given since it was built, mixed with steps and polls: it holds no more
transactions than it has rows, and the peak is the most that it held right after an open; no two of them have
one identifier; an open is given an identifier that no transaction and no response held back carries, so every
response held back is that of one open; and its entries are regular. -/
theorem table_stays_in_shape (s : Simulator) (unused : s.Unused) (narrow : s.Narrow) (cs : List Command) :
    (runAll cs s).resident ≤ s.capacity ∧
      (runAll cs s).resident ≤ (runAll cs s).statistics.peakResident ∧
      (runAll cs s).statistics.peakResident = (afterOpens cs s).max?.getD 0 ∧
      (runAll cs s).tids.Nodup ∧
      (∀ request, request.op? = some .newRequest → ((runAll cs s).issue request).1.exitCode = .ok →
        ∃ tid, (Command.issue request).gives? (runAll cs s) = some tid ∧
          (∀ e ∈ (runAll cs s).entries, e.tid ≠ tid) ∧ (∀ d ∈ (runAll cs s).deferred, d.response.tid ≠ tid) ∧
          ∃ e ∈ ((runAll cs s).issue request).2.entries, e.tid = tid) ∧
      (∀ d ∈ (runAll cs s).deferred, ∃! i, Owns s cs d.response.tid i) ∧
      ∀ e ∈ (runAll cs s).entries, e.Regular s.options.queueDepth := by
  have hregular := regular_runAll (.of_unused unused) narrow cs
  have hbuilt := built_runAll cs s
  have hnarrow : (runAll cs s).Narrow := narrow.evolves (evolves_runAll cs s)
  refine ⟨?_, hregular.peak, ?_, hregular.nodup, fun request op ok => ?_, fun d hd => ?_, fun e he => ?_⟩
  · have hle := hregular.resident_le
    unfold capacity at hle
    rwa [hbuilt.params] at hle
  · rw [peakResident_runAll narrow cs, unused.statistics]
    cases afterOpens cs s with
    | nil => rfl
    | cons n ns => exact congrArg (ns.foldl max) (Nat.zero_max n)
  · obtain ⟨tid, hgives⟩ := exists_gives hnarrow op ok
    obtain ⟨hfree, hmem⟩ := free_of_gives hnarrow hgives
    rw [← Bool.not_eq_true, isTaken_iff, not_or] at hfree
    refine ⟨tid, hgives, fun e he htid => hfree.1 (htid ▸ List.mem_map_of_mem he),
      fun d hd htid => hfree.2 ⟨d, hd, htid⟩, ?_⟩
    obtain ⟨e, he, htid⟩ := List.mem_map.1 hmem
    exact ⟨e, he, htid⟩
  · exact existsUnique_owner unused narrow (isTaken_iff.2 (.inr ⟨d, hd, rfl⟩))
  · rw [← hbuilt.options]
    exact hregular.entries (find?_of_mem_entries hregular.nodup he)

/-- An engine with one row whose stride reaches two identifiers; the words of the first are held back for long. -/
def recycling : Simulator :=
  { withCapacity 1 with
    options :=
      { tidStride := 0x8000
        latency := 0
        dataDelay := some fun tid => 99 - tid.toNat }
    table := some { spaces := [{ capacity := 1, configs := [.ofWords [0, 1]] }], configsPerSpace := 1 }
    asid := some 0 }

/-- The transaction of an identifier is fed one element and read. -/
def served (tid : Tid) : List Command :=
  [.issue (.writeData tid 5 true), .step, .step, .issue (.readData tid), .poll]

/-- Two transactions, one after the other. -/
def twice : List Command :=
  .issue (.newTransaction 0 .feedforward 0) :: served 0 ++
    .issue (.newTransaction 0 .feedforward 0) :: served 0x8000

/-- The third open is given the second identifier once more: a word of the first one is still held back. -/
theorem recycling_table_in_shape :
    recycling.Unused ∧ recycling.Narrow ∧ (Command.runAll twice recycling).nextTid = 0 ∧
      (Command.runAll twice recycling).deferred.map (·.response.tid) = [0] ∧
      (∃ tid, (Command.issue (.newTransaction 0 .feedforward 0)).gives? (Command.runAll twice recycling) = some tid ∧
        tid = 0x8000 ∧ ∀ d ∈ (Command.runAll twice recycling).deferred, d.response.tid ≠ tid) ∧
      (Command.runAll twice recycling).statistics.peakResident = 1 ∧
      ∃! i, Command.Owns recycling twice 0 i := by
  have hunused : recycling.Unused := ⟨rfl, rfl, rfl, rfl, rfl, rfl⟩
  have hnarrow : recycling.Narrow := by
    unfold Narrow
    decide
  have hnext : (Command.runAll twice recycling).nextTid = 0 ∧
      (Command.runAll twice recycling).deferred = [⟨104, { kind := 2, tid := 0, data := 5 }⟩] ∧
      ((Command.runAll twice recycling).issue (.newTransaction 0 .feedforward 0)).1.exitCode = .ok ∧
      (Command.issue (.newTransaction 0 .feedforward 0)).gives? (Command.runAll twice recycling) = some 0x8000 ∧
      Command.afterOpens twice recycling = [1, 1] := by
    decide +kernel
  obtain ⟨hfirst, hdeferred, hok, hgiven, hopens⟩ := hnext
  obtain ⟨-, -, hpeak, -, hopen, howner, -⟩ := table_stays_in_shape recycling hunused hnarrow twice
  obtain ⟨tid, hgives, -, hfree, -⟩ := hopen _ rfl hok
  rw [hopens] at hpeak
  refine ⟨hunused, hnarrow, hfirst, by rw [hdeferred]; rfl, ⟨tid, hgives, ?_, hfree⟩, hpeak, ?_⟩
  · exact Option.some.inj (hgives.symm.trans hgiven)
  · exact howner _ (hdeferred ▸ List.mem_singleton_self _)

end NeuralEngine.Simulator
