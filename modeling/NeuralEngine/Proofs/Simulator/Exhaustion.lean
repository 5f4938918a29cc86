import NeuralEngine.Proofs.Simulator.TableInvariant

/-!
# Running out of identifiers

The search for an identifier has no end of its own: it goes on until it finds one that is free. All that an
engine ever gives is on the orbit of its stride (`OnOrbit`), and the search goes round that orbit, so it ends
just if some of the orbit is free, which is to say if fewer identifiers are taken than the stride reaches
(`OnOrbit.searchEnds_iff`). An odd stride reaches all of them. An even one may reach fewer than the engine has
rows, and then the engine is stuck at an open although a row is free.
-/

namespace NeuralEngine.Simulator

open Command

variable {s s' : Simulator} {request : Request} {answer : Response} {first tid : Tid}

/-- The identifiers that transactions and responses not handed out carry. -/
def takenTids (s : Simulator) : Finset Tid :=
  (s.tids ++ s.deferred.map (·.response.tid)).toFinset

theorem mem_takenTids : tid ∈ s.takenTids ↔ s.isTaken tid = true := by
  rw [isTaken_iff, takenTids, List.mem_toFinset, List.mem_append, List.mem_map]

/-- The search for an identifier ends: with enough tries, one is found. -/
def SearchEnds (s : Simulator) : Prop :=
  ∃ tries found, firstFree s.isTaken s.options.tidStride tries s.nextTid = some found

/-! ## The orbit of the stride -/

/-- All identifiers that are taken, and the one to be tried next, are on the orbit of the stride. -/
structure OnOrbit (first : Tid) (s : Simulator) : Prop where
  next : s.nextTid ∈ orbit s.options.tidStride first
  taken : ∀ tid, s.isTaken tid = true → tid ∈ orbit s.options.tidStride first

theorem onOrbit_of_unused (unused : s.Unused) : OnOrbit s.nextTid s where
  next := mem_orbit_iff.2 ⟨0, by simp [candidate]⟩
  taken tid h := by
    obtain hmem | ⟨d, hd, -⟩ := isTaken_iff.1 h
    · rw [(tids_eq_nil_iff s).2 unused.entries] at hmem
      exact absurd hmem List.not_mem_nil
    · rw [unused.deferred] at hd
      exact absurd hd List.not_mem_nil

namespace OnOrbit

theorem held (h : OnOrbit first s) {d : Deferred} (hd : d ∈ s.deferred) :
    d.response.tid ∈ orbit s.options.tidStride first :=
  h.taken _ (isTaken_iff.2 (.inr ⟨d, hd, rfl⟩))

/-- The search goes on where it was, and no transaction is new. -/
theorem of_tids (h : OnOrbit first s) (options : s'.options = s.options) (next : s'.nextTid = s.nextTid)
    (tids : ∀ tid ∈ s'.tids, tid ∈ s.tids)
    (deferred : ∀ d ∈ s'.deferred, d.response.tid ∈ orbit s.options.tidStride first) : OnOrbit first s' where
  next := by
    rw [options, next]
    exact h.next
  taken tid htaken := by
    rw [options]
    obtain hmem | ⟨d, hd, rfl⟩ := isTaken_iff.1 htaken
    · exact h.taken tid (isTaken_iff.2 (.inl (tids tid hmem)))
    · exact deferred d hd

theorem tick (h : OnOrbit first s) : OnOrbit first s.tick :=
  h.of_tids rfl rfl (fun _ hmem => s.tids_tick ▸ hmem) fun _ hd => h.held hd

theorem update (h : OnOrbit first s) (tid : Tid) {f : Entry → Option Entry}
    (keeps : ∀ e e', f e = some e' → e'.tid = e.tid) : OnOrbit first (s.update tid f) :=
  h.of_tids rfl rfl (fun _ hmem => (Rows.tids_update_sublist keeps tid s.rows).subset hmem) fun _ hd => h.held hd

/-- A new entry is put under an identifier of the search. -/
theorem addEntry (h : OnOrbit first s) {e : Entry} {next : Tid} (alloc : s.allocate? = some (e.tid, next)) :
    OnOrbit first (s.addEntry e next) := by
  obtain ⟨k, htid, hnext⟩ := exists_candidate_of_firstFree alloc
  obtain ⟨j, hj⟩ := mem_orbit_iff.1 h.next
  rw [← hj, candidate_candidate] at htid hnext
  refine ⟨mem_orbit_iff.2 ⟨_, hnext.symm⟩, fun tid htaken => ?_⟩
  obtain hmem | ⟨d, hd, rfl⟩ := isTaken_iff.1 htaken
  · obtain rfl | hmem := List.mem_cons.1 ((Rows.tids_place_perm e s.rows).subset hmem)
    · exact mem_orbit_iff.2 ⟨_, htid.symm⟩
    · exact h.taken tid (isTaken_iff.2 (.inl hmem))
  · exact h.held hd

/-- A response about an identifier of the orbit is held back. -/
theorem respond (h : OnOrbit first s) {response : Option Response} {delay : Option Nat}
    (reached : ∀ r, response = some r → r.tid ∈ orbit s.options.tidStride first)
    (hr : s.respond response delay = (answer, s')) : OnOrbit first s' := by
  obtain ⟨hoptions, hnext⟩ : s'.options = s.options ∧ s'.nextTid = s.nextTid := by
    obtain ⟨_, _, rfl⟩ := eq_of_respond hr
    exact ⟨rfl, rfl⟩
  have htids : s'.tids = s.tids := congrArg Rows.tids (respond_same hr).1
  refine h.of_tids hoptions hnext (fun _ hmem => htids ▸ hmem) fun d hd => ?_
  obtain hd | hd := mem_deferred_of_respond hr hd
  · exact h.held hd
  · exact reached _ hd

theorem performs (h : OnOrbit first s) (hp : Performs s request answer s') : OnOrbit first s' := by
  have quiet : ∀ u : Simulator, u.options = s.options → u.nextTid = s.nextTid → u.tids = s.tids →
      u.deferred = s.deferred → OnOrbit first u := fun u options next tids deferred =>
    h.of_tids options next (fun _ hmem => tids ▸ hmem) fun d hd => h.held (deferred ▸ hd)
  cases hp with
  | exhausted => exact quiet _ rfl rfl rfl rfl
  | @opened o tid next _ t _ _ alloc respond =>
    have hadded := h.addEntry (e := o.entry tid) alloc
    have hnew : tid ∈ orbit s.options.tidStride first :=
      hadded.taken tid (isTaken_iff.2 (.inl ((Rows.tids_place_perm (o.entry tid) s.rows).symm.subset
        List.mem_cons_self)))
    have hresponded : OnOrbit first t := hadded.respond (fun r hr => (Response.of_tidAssigned hr).2.2 ▸ hnew) respond
    exact ⟨hresponded.next, hresponded.taken⟩
  | registered =>
    apply h.update
    rintro e _ ⟨⟩
    rfl
  | busy => exact quiet _ rfl rfl rfl rfl
  | enqueued =>
    apply h.update
    rintro e _ ⟨⟩
    rfl
  | notDone => exact quiet _ rfl rfl rfl rfl
  | read e value rest _ found _ _ respond =>
    have htid : request.tid ∈ orbit s.options.tidStride first :=
      h.taken _ (isTaken_iff.2 (.inl (Rows.mem_tids_iff.2 ⟨e, found⟩)))
    have hleft : OnOrbit first (s.leaveOutputs request.tid rest) := h.update _ fun _ _ => tid_of_leave
    exact hleft.respond (fun r hr => (Response.of_dataOut hr).2.2.1 ▸ htid) respond

/-- No command leads off the orbit. -/
theorem run (h : OnOrbit first s) (c : Command) : OnOrbit first (c.run s) := by
  cases c with
  | step => exact h.tick
  | poll =>
    obtain ⟨answer, s', hp⟩ : ∃ answer s', s.poll = (answer, s') := ⟨_, _, rfl⟩
    have hrun : Command.poll.run s = s' := congrArg Prod.snd hp
    rw [hrun]
    obtain ⟨-, rfl⟩ | ⟨d, before, after, -, hsplit, -, -, rfl⟩ := poll_cases hp
    · exact h
    · refine h.of_tids rfl rfl (fun _ hmem => hmem) fun e he => h.held ?_
      rw [hsplit]
      obtain he | he := List.mem_append.1 he
      · exact List.mem_append_left _ he
      · exact List.mem_append_right _ (List.mem_cons_of_mem _ he)
  | issue request =>
    have hrecord : OnOrbit first (s.record request) := ⟨h.tick.next, h.tick.taken⟩
    obtain ⟨answer, s', hi⟩ : ∃ answer s', s.issue request = (answer, s') := ⟨_, _, rfl⟩
    have hrun : (Command.issue request).run s = s' := congrArg Prod.snd hi
    rw [hrun]
    obtain ⟨code, -, -, rfl⟩ | hperform := issue_cases hi
    · exact ⟨hrecord.next, hrecord.taken⟩
    · exact hrecord.performs (performs_of_ok hperform)

theorem runAll (h : OnOrbit first s) (cs : List Command) : OnOrbit first (runAll cs s) := by
  induction cs generalizing s with
  | nil => exact h
  | cons c cs ih => exact ih (h.run c)

theorem takenTids_subset (h : OnOrbit first s) : s.takenTids ⊆ orbit s.options.tidStride first :=
  fun tid htid => h.taken tid (mem_takenTids.1 htid)

end OnOrbit

/-! ## The end of the search -/

/-- If fewer identifiers are taken than the stride reaches, one is found within as many tries as there are
identifiers. -/
theorem exists_allocate_of_card (few : s.takenTids.card < reach s.options.tidStride) :
    ∃ tid next, s.allocate? = some (tid, next) := by
  refine exists_allocate fun xs nodup taken => Nat.lt_of_le_of_lt ?_ few
  rw [← List.toFinset_card_of_nodup nodup]
  exact Finset.card_le_card fun x hx => mem_takenTids.2 (taken x (List.mem_toFinset.1 hx))

/-- The search ends just if fewer identifiers are taken than the stride reaches. -/
theorem OnOrbit.searchEnds_iff (h : OnOrbit first s) :
    s.SearchEnds ↔ s.takenTids.card < reach s.options.tidStride := by
  constructor
  · rintro ⟨tries, ⟨tid, next⟩, hfound⟩
    obtain ⟨k, htid, -⟩ := exists_candidate_of_firstFree hfound
    obtain ⟨j, hj⟩ := mem_orbit_iff.1 h.next
    have hfree : tid ∉ s.takenTids := by
      rw [mem_takenTids, firstFree_some hfound]
      exact Bool.false_ne_true
    have htid : tid ∈ orbit s.options.tidStride first := by
      rw [mem_orbit_iff, htid, ← hj, candidate_candidate]
      exact ⟨_, rfl⟩
    rw [← card_orbit s.options.tidStride first]
    exact Finset.card_lt_card ⟨h.takenTids_subset, fun hall => hfree (hall htid)⟩
  · intro hfew
    obtain ⟨tid, next, halloc⟩ := exists_allocate_of_card hfew
    exact ⟨2 ^ 16, (tid, next), halloc⟩

/-- The simulator can run a network: its address space has a configuration for it that is not empty and has
the block size of the engine. -/
def Usable (s : Simulator) (nnid : Nnid) : Prop :=
  ∃ asid table config, s.asid = some asid ∧ asid.toNat < 2 ^ 10 ∧ s.table = some table ∧
    table.config? asid nnid = some config ∧ config.size ≠ 0 ∧
    config.elementsPerBlock = s.params.elementsPerBlock

theorem allocate?_record (request : Request) (s : Simulator) : (s.record request).allocate? = s.allocate? := by
  have htaken : (s.record request).isTaken = s.isTaken := funext (s.isTaken_record request)
  unfold allocate?
  rw [htaken]
  rfl

/-- An open on a network that the simulator can run passes all checks if a row is free. -/
theorem Usable.checkOpen {nnid : Nnid} (usable : s.Usable nnid) (room : s.resident < s.capacity)
    (mode : LearningMode) (trainOutputs : BitVec 16) :
    let request := Request.newTransaction nnid mode trainOutputs
    ∃ o, (s.record request).checkOpen request = .ok o ∧ o.asid.toNat < 2 ^ 10 := by
  intro request
  obtain ⟨asid, table, config, hasid, hnarrow, htable, hconfig, hsize, hblocks⟩ := usable
  have hroom : (s.record request).resident < (s.record request).capacity := by
    rw [resident_record]
    exact room
  have hcheck := checkOpen_newTransaction (s := s.record request) hasid htable hconfig hsize hblocks hroom mode
    trainOutputs
  exact ⟨_, hcheck, hnarrow⟩

theorem Usable.narrow {nnid : Nnid} (usable : s.Usable nnid) : s.Narrow := by
  obtain ⟨asid, -, -, hasid, hnarrow, -⟩ := usable
  unfold Narrow activeAsid
  rw [hasid]
  exact hnarrow

/-- Where the search ends, an open on a network that the simulator can run is given a free identifier. -/
theorem OnOrbit.gives_of_searchEnds (h : OnOrbit first s) (orderly : s.Orderly) {nnid : Nnid}
    (usable : s.Usable nnid) (room : s.resident < s.capacity) (ends : s.SearchEnds) (mode : LearningMode)
    (trainOutputs : BitVec 16) :
    ∃ tid, s.isTaken tid = false ∧
      (Command.issue (.newTransaction nnid mode trainOutputs)).gives? s = some tid := by
  have hop : (Request.newTransaction nnid mode trainOutputs).op? = some .newRequest := rfl
  obtain ⟨o, hcheck, hnarrow⟩ := usable.checkOpen room mode trainOutputs
  obtain ⟨tid, next, halloc⟩ := exists_allocate_of_card (h.searchEnds_iff.1 ends)
  rw [← allocate?_record (.newTransaction nnid mode trainOutputs)] at halloc
  obtain ⟨r, hr⟩ := Response.exists_tidAssigned hnarrow tid
  obtain ⟨-, -, rfl⟩ := Response.of_tidAssigned hr
  obtain ⟨answer, s', hanswers, hok, -⟩ := answers_accepted orderly.ordered orderly.nodup hop hcheck halloc hr
  have hissue : (s.issue (.newTransaction nnid mode trainOutputs)).1 = answer :=
    congrArg Prod.fst hanswers.issue_eq
  obtain ⟨given, hgives⟩ := exists_gives usable.narrow hop (hissue ▸ hok)
  exact ⟨given, (free_of_gives usable.narrow hgives).1, hgives⟩

/-- Where the search does not end, such an open is where the engine is stuck. -/
theorem fault_of_not_searchEnds {nnid : Nnid} (usable : s.Usable nnid) (room : s.resident < s.capacity)
    (endless : ¬ s.SearchEnds) (mode : LearningMode) (trainOutputs : BitVec 16) :
    ((Command.issue (.newTransaction nnid mode trainOutputs)).run s).fault = some .identifiersExhausted := by
  let request := Request.newTransaction nnid mode trainOutputs
  obtain ⟨o, hcheck, -⟩ := usable.checkOpen room mode trainOutputs
  have halloc : (s.record request).allocate? = none := by
    rw [allocate?_record, ← Option.not_isSome_iff_eq_none, Option.isSome_iff_exists]
    rintro ⟨found, hfound⟩
    exact endless ⟨_, found, hfound⟩
  have hperform : (s.record request).perform request =
      .ok ((s.record request).fail .identifiersExhausted) := by
    show (s.record request).openTransaction request = _
    unfold openTransaction acceptOpen
    rw [hcheck, halloc]
    rfl
  exact congrArg (fun answered => answered.2.fault) (issue_of_perform hperform)

/-- Whatever commands an unused engine was given, its search for an identifier ends just if fewer identifiers are
taken than the stride reaches, which are all of them if the stride is odd. Where it ends, an open on a usable network
with a row free is given a free identifier; where it does not, the engine is stuck at the open. -/
theorem search_ends_iff_reached_free (unused : s.Unused) (cs : List Command) :
    let t := runAll cs s
    (t.SearchEnds ↔ t.takenTids.card < reach s.options.tidStride) ∧
      (s.options.tidStride.toNat % 2 = 1 → reach s.options.tidStride = 2 ^ 16) ∧
      ∀ nnid mode trainOutputs, t.Usable nnid → t.resident < t.capacity →
        let opening := Command.issue (.newTransaction nnid mode trainOutputs)
        (t.SearchEnds → ∃ tid, t.isTaken tid = false ∧ opening.gives? t = some tid) ∧
          (¬ t.SearchEnds → (opening.run t).fault = some .identifiersExhausted) := by
  intro t
  have horbit : OnOrbit s.nextTid t := (onOrbit_of_unused unused).runAll cs
  have horderly : t.Orderly :=
    (evolves_runAll cs s).orderly (orderly_of_empty unused.entries unused.deferred)
  have hoptions : t.options = s.options := (built_runAll cs s).options
  refine ⟨hoptions ▸ horbit.searchEnds_iff, reach_eq_of_odd, fun nnid mode trainOutputs usable room => ?_⟩
  exact ⟨fun ends => horbit.gives_of_searchEnds horderly usable room ends mode trainOutputs,
    fun endless => fault_of_not_searchEnds usable room endless mode trainOutputs⟩

/-- An engine of three rows whose stride reaches two identifiers. -/
def halving : Simulator :=
  { withCapacity 3 with
    options := ({} : Options).withStride 0x8000
    table := some { spaces := [{ capacity := 1, configs := [.ofWords [0, 1]] }], configsPerSpace := 1 }
    asid := some 0 }

/-- The open that the engine is given again and again. -/
def halvingOpen : Command :=
  .issue (.newTransaction 0 .feedforward 0)

/-- After one open the search still ends. -/
theorem halving_opens_twice :
    halving.Unused ∧ (runAll [halvingOpen] halving).takenTids.card = 1 ∧
      reach halving.options.tidStride = 2 ∧
      (runAll [halvingOpen] halving).Usable 0 ∧
      (runAll [halvingOpen] halving).resident < (runAll [halvingOpen] halving).capacity ∧
      ∃ tid, (runAll [halvingOpen] halving).isTaken tid = false ∧
        halvingOpen.gives? (runAll [halvingOpen] halving) = some tid := by
  have hunused : halving.Unused := ⟨rfl, rfl, rfl, rfl, rfl, rfl⟩
  have hcard : (runAll [halvingOpen] halving).takenTids.card = 1 := by decide +kernel
  have hreach : reach halving.options.tidStride = 2 := by decide +kernel
  have husable : (runAll [halvingOpen] halving).Usable 0 :=
    ⟨0, _, _, rfl, by decide, rfl, rfl, by decide, by decide +kernel⟩
  have hroom : (runAll [halvingOpen] halving).resident < (runAll [halvingOpen] halving).capacity := by
    decide +kernel
  obtain ⟨hends, -, hopens⟩ := search_ends_iff_reached_free hunused [halvingOpen]
  have hsearch := hends.2 (by rw [hcard, hreach]; decide)
  exact ⟨hunused, hcard, hreach, husable, hroom, (hopens 0 .feedforward 0 husable hroom).1 hsearch⟩

/-- After two opens two of the identifiers are taken and a row is free, but no number of tries finds an identifier,
and a third open gets stuck. -/
theorem third_open_of_halving_gets_stuck :
    let t := runAll [halvingOpen, halvingOpen] halving
    halving.Unused ∧ t.resident < t.capacity ∧ t.takenTids.card = 2 ∧ t.Usable 0 ∧
      (∀ tries, firstFree t.isTaken t.options.tidStride tries t.nextTid = none) ∧
      (halvingOpen.run t).fault = some .identifiersExhausted := by
  intro t
  have hunused : halving.Unused := ⟨rfl, rfl, rfl, rfl, rfl, rfl⟩
  have hcard : t.takenTids.card = 2 := by decide +kernel
  have hroom : t.resident < t.capacity := by decide +kernel
  have husable : t.Usable 0 := ⟨0, _, _, rfl, by decide, rfl, rfl, by decide, by decide +kernel⟩
  have horbit : OnOrbit halving.nextTid t := (onOrbit_of_unused hunused).runAll _
  have hreach : reach t.options.tidStride = 2 := by decide +kernel
  have hendless : ¬ t.SearchEnds := by
    rw [horbit.searchEnds_iff, hcard, hreach]
    exact Nat.lt_irrefl 2
  refine ⟨hunused, hroom, hcard, husable, fun tries => ?_, fault_of_not_searchEnds husable hroom hendless _ _⟩
  rw [← Option.not_isSome_iff_eq_none, Option.isSome_iff_exists]
  rintro ⟨found, hfound⟩
  exact hendless ⟨tries, found, hfound⟩

end NeuralEngine.Simulator
