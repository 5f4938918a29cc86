import Mathlib.Data.List.Perm.Subperm
import NeuralEngine.Proofs.Client.Session
import NeuralEngine.Proofs.Simulator.Performs

/-!
# A client that has an engine to itself

Between two blocking calls of such a client, the engine holds the transactions that the client has opened, its
leases, and owes it nothing (`Leased`). Each call touches one of them and leaves the others as they are. What a call
comes to is stated by `Attains`: it yields what is said, or its attempts are used up.
-/

namespace NeuralEngine

namespace Simulator

variable {base s s' : Simulator} {request : Request} {answer r : Response} {tid : Tid}

/-! ## Frames -/

/-- The engine owes nothing and nothing but one transaction was touched. -/
structure Touches (tid : Tid) (s s' : Simulator) : Prop where
  alike : Alike s s'
  orderly : s'.Orderly
  settled : s'.deferred = []
  others : ∀ y, y ≠ tid → Kept s s' y

theorem undelivered_eq_nil : s.undelivered = [] ↔ s.deferred = [] :=
  List.map_eq_nil_iff

/-- One response is in its lane alone. -/
theorem eq_singleton_of_along {rs : List Response} (h : ∀ lane, along lane rs = along lane [r]) : rs = [r] := by
  have hall : ∀ r' ∈ rs, r' = r := fun r' hr' => List.mem_singleton.1 (mem_of_along_eq h hr')
  have hlane : along r.lane rs = rs := List.filter_eq_self.2 fun r' hr' => by simp [hall r' hr']
  rw [← hlane, h, along_cons [] rfl]
  rfl

theorem eq_nil_of_along {rs : List Response} (h : ∀ lane, along lane rs = []) : rs = [] := by
  refine List.eq_nil_iff_forall_not_mem.2 fun r hr => ?_
  have hmem : r ∈ ([] : List Response) := mem_of_along_eq h hr
  exact List.not_mem_nil hmem

/-- A request that hands nothing over touches its transaction only. -/
theorem Answers.touches (h : Answers s s' request answer [] tid) (settled : s.deferred = []) : Touches tid s s' where
  alike := h.gives.alike
  orderly := ⟨h.gives.ordered, h.nodup⟩
  settled := by
    have hnone := eq_nil_of_along fun lane => by
      rw [h.gives.lanes, undelivered_eq_nil.2 settled]
      rfl
    exact undelivered_eq_nil.1 (List.append_eq_nil_iff.1 hnone).2
  others := h.others

theorem Answers.handedOver_eq (h : Answers s s' request answer [r] tid) (settled : s.deferred = []) :
    s.handedOver s' answer = [r] := by
  unfold handedOver
  rw [undelivered_eq_nil.2 settled, List.length_nil, List.drop_zero]
  refine eq_singleton_of_along fun lane => ?_
  rw [h.gives.lanes, undelivered_eq_nil.2 settled]
  rfl

/-- What a request hands over comes at once, or it is all that is held back. -/
theorem Answers.handed_over (h : Answers s s' request answer [r] tid) (settled : s.deferred = []) :
    answer.kind? = some .status ∧ (∃ due, s'.deferred = [⟨due, r⟩]) ∨ answer = r ∧ Touches tid s s' := by
  have hone := h.handedOver_eq settled
  unfold handedOver Response.prompt at hone
  rw [undelivered_eq_nil.2 settled, List.length_nil, List.drop_zero] at hone
  by_cases hkind : answer.kind? = some .status
  · rw [if_pos hkind, Option.toList_none, List.nil_append] at hone
    obtain ⟨d, hd, rfl⟩ := List.map_eq_singleton_iff.1 hone
    exact .inl ⟨hkind, d.due, hd⟩
  · rw [if_neg hkind, Option.toList_some, List.singleton_append, List.cons.injEq] at hone
    exact .inr ⟨hone.1, h.gives.alike, ⟨h.gives.ordered, h.nodup⟩, undelivered_eq_nil.1 hone.2, h.others⟩

/-! ## Leases -/

/-- A transaction that a client has opened: so many elements of its stream were accepted, and so many of its outputs
were read. -/
structure Lease where
  tid : Tid
  work : Transaction
  fed : Nat := 0
  reads : Nat := 0

/-- The engine holds the leases and nothing else. -/
structure Leased (base s : Simulator) (leases : List Lease) : Prop where
  alike : Alike base s
  orderly : s.Orderly
  settled : s.deferred = []
  nodup : (leases.map (·.tid)).Nodup
  mem_iff : ∀ y, y ∈ s.tids ↔ y ∈ leases.map (·.tid)
  unread : ∀ l ∈ leases, l.reads < l.work.outputCount
  serves : ∀ l ∈ leases, s.Serves l.work l.tid l.fed l.reads

namespace Leased

variable {l : Lease} {ls ls' : List Lease}

/-- Before the first call. -/
theorem start (entries : s.entries = []) (deferred : s.deferred = []) : Leased s s [] where
  alike := .refl s
  orderly := orderly_of_empty entries deferred
  settled := deferred
  nodup := .nil
  mem_iff y := by
    rw [(tids_eq_nil_iff s).2 entries]
    rfl
  unread _ hl := absurd hl List.not_mem_nil
  serves _ hl := absurd hl List.not_mem_nil

/-- An engine without a lease holds nothing. -/
theorem entries_eq_nil (h : Leased base s []) : s.entries = [] :=
  (tids_eq_nil_iff s).1 (List.eq_nil_iff_forall_not_mem.2 fun y hy => List.not_mem_nil ((h.mem_iff y).1 hy))

theorem perm (h : Leased base s ls) (p : ls.Perm ls') : Leased base s ls' where
  alike := h.alike
  orderly := h.orderly
  settled := h.settled
  nodup := (p.map _).nodup_iff.1 h.nodup
  mem_iff y := (h.mem_iff y).trans (p.map _).mem_iff
  unread l hl := h.unread l (p.mem_iff.2 hl)
  serves l hl := h.serves l (p.mem_iff.2 hl)

theorem resident_eq (h : Leased base s ls) : s.resident = ls.length := by
  have hperm : s.tids.Perm (ls.map (·.tid)) := (List.perm_ext_iff_of_nodup h.orderly.nodup h.nodup).2 h.mem_iff
  rw [Simulator.resident_eq, hperm.length_eq, List.length_map]

theorem ne_of_mem (h : Leased base s (l :: ls)) {l' : Lease} (hl' : l' ∈ ls) : l'.tid ≠ l.tid := by
  have hnodup := h.nodup
  rw [List.map_cons, List.nodup_cons] at hnodup
  exact fun heq => hnodup.1 (heq ▸ List.mem_map_of_mem hl')

/-- A transaction is opened. -/
theorem opened (h : Leased base s ls) (touches : Touches l.tid s s') (free : s.find? l.tid = none)
    (unread : l.reads < l.work.outputCount) (serves : s'.Serves l.work l.tid l.fed l.reads) :
    Leased base s' (l :: ls) := by
  have hfree : l.tid ∉ ls.map (·.tid) := fun hmem => Rows.find?_eq_none_iff.1 free ((h.mem_iff _).2 hmem)
  have hfound : l.tid ∈ s'.tids := by
    obtain ⟨e, he, -⟩ := serves.entry unread
    exact Rows.mem_tids_iff.2 ⟨e, he⟩
  refine ⟨h.alike.trans touches.alike, touches.orderly, touches.settled, ?_, fun y => ?_, ?_, ?_⟩
  · exact List.nodup_cons.2 ⟨hfree, h.nodup⟩
  · by_cases hy : y = l.tid
    · subst hy
      exact iff_of_true hfound List.mem_cons_self
    · rw [(touches.others y hy).mem_tids_iff, h.mem_iff, List.map_cons, List.mem_cons, or_iff_right hy]
  · exact List.forall_mem_cons.2 ⟨unread, h.unread⟩
  · refine List.forall_mem_cons.2 ⟨serves, fun l' hl' => ?_⟩
    have hne : l'.tid ≠ l.tid := fun heq => hfree (heq ▸ List.mem_map_of_mem hl')
    exact (touches.others _ hne).serves (h.serves l' hl')

/-- The transaction of the first lease is given up. -/
theorem closed (h : Leased base s (l :: ls)) (touches : Touches l.tid s s') (free : s'.find? l.tid = none) :
    Leased base s' ls := by
  refine ⟨h.alike.trans touches.alike, touches.orderly, touches.settled, ?_, fun y => ?_, ?_, ?_⟩
  · exact (List.nodup_cons.1 h.nodup).2
  · by_cases hy : y = l.tid
    · subst hy
      exact iff_of_false (Rows.find?_eq_none_iff.1 free) (List.nodup_cons.1 h.nodup).1
    · rw [(touches.others y hy).mem_tids_iff, h.mem_iff, List.map_cons, List.mem_cons, or_iff_right hy]
  · exact fun l' hl' => h.unread l' (List.mem_cons_of_mem _ hl')
  · exact fun l' hl' => (touches.others _ (h.ne_of_mem hl')).serves (h.serves l' (List.mem_cons_of_mem _ hl'))

/-- The transaction of the first lease goes on. -/
theorem moved (h : Leased base s (l :: ls)) (touches : Touches l.tid s s') {fed reads : Nat}
    (unread : reads < l.work.outputCount) (serves : s'.Serves l.work l.tid fed reads) :
    Leased base s' (⟨l.tid, l.work, fed, reads⟩ :: ls) := by
  refine ⟨h.alike.trans touches.alike, touches.orderly, touches.settled, h.nodup, fun y => ?_, ?_, ?_⟩
  · by_cases hy : y = l.tid
    · subst hy
      obtain ⟨e, he, -⟩ := serves.entry unread
      exact iff_of_true (Rows.mem_tids_iff.2 ⟨e, he⟩) List.mem_cons_self
    · rw [(touches.others y hy).mem_tids_iff, h.mem_iff]
      rfl
  · exact List.forall_mem_cons.2 ⟨unread, fun l' hl' => h.unread l' (List.mem_cons_of_mem _ hl')⟩
  · refine List.forall_mem_cons.2 ⟨serves, fun l' hl' => ?_⟩
    exact (touches.others _ (h.ne_of_mem hl')).serves (h.serves l' (List.mem_cons_of_mem _ hl'))

/-- Few enough identifiers are taken for an open. -/
theorem few (h : Leased base s ls) (orbit : ls.length < reach s.options.tidStride) (xs : List Tid) (nodup : xs.Nodup)
    (taken : ∀ y ∈ xs, s.isTaken y = true) : xs.length < reach s.options.tidStride := by
  have hsub : xs ⊆ ls.map (·.tid) := by
    intro y hy
    have htaken := taken y hy
    unfold isTaken at htaken
    rw [h.settled, List.any_nil, Bool.or_false, Option.isSome_iff_exists] at htaken
    exact (h.mem_iff y).1 (Rows.mem_tids_iff.2 htaken)
  have hle := (nodup.subperm hsub).length_le
  rw [List.length_map] at hle
  exact Nat.lt_of_le_of_lt hle orbit

end Leased

end Simulator

namespace Client

open Inversion Simulator

/-! ## What a call comes to -/

section Attains

variable {σ α β : Type} {c : Client σ} {post : α → Client σ → Prop}

/-- The call yields what is said, or it fails because its attempts are used up. -/
structure Attains (call : ClientM σ α) (post : α → Client σ → Prop) (c : Client σ) : Prop where
  ok : ∀ a d, call c = .ok a d → post a d
  error : ∀ e d, call c = .error e d → e = .retryLimitExceeded

theorem attains_pure {a : α} (h : post a c) : Attains (pure a) post c where
  ok _ _ hok := by
    obtain ⟨rfl, rfl⟩ := pure_ok_iff.1 hok
    exact h
  error _ _ herror := (pure_error_iff.1 herror).elim

theorem attains_exceeded : Attains (throw .retryLimitExceeded : ClientM σ α) post c where
  ok _ _ hok := (throw_ok_iff.1 hok).elim
  error _ _ herror := (throw_error_iff.1 herror).1.symm

theorem attains_get {f : Client σ → ClientM σ α} (h : Attains (f c) post c) : Attains (get >>= f) post c :=
  ⟨h.ok, h.error⟩

theorem Attains.bind {x : ClientM σ β} {f : β → ClientM σ α} (h : Attains x (fun b => Attains (f b) post) c) :
    Attains (x >>= f) post c where
  ok a d hok := by
    obtain ⟨b, e, hx, hf⟩ := bind_ok_iff.1 hok
    exact (h.ok b e hx).ok a d hf
  error e d herror := by
    obtain hx | ⟨b, c', hx, hf⟩ := bind_error_iff.1 herror
    · exact h.error e d hx
    · exact (h.ok b c' hx).error e d hf

theorem Attains.mono {call : ClientM σ α} {post' : α → Client σ → Prop} (h : Attains call post c)
    (weaken : ∀ a d, post a d → post' a d) : Attains call post' c :=
  ⟨fun a d hok => weaken a d (h.ok a d hok), h.error⟩

theorem Attains.cases {call : ClientM σ α} (h : Attains call post c) :
    (∃ d, call c = .error .retryLimitExceeded d) ∨ ∃ a d, call c = .ok a d ∧ post a d := by
  cases hcall : call c with
  | ok a d => exact .inr ⟨a, d, rfl, h.ok a d hcall⟩
  | error e d =>
    obtain rfl := h.error e d hcall
    exact .inl ⟨d, rfl⟩

end Attains

/-! ## Calls on leases -/

variable {base : Simulator} {c : Client Simulator} {l : Lease} {ls : List Lease}

/-- What a request is answered is what the engine answers. -/
theorem answer_eq {s' : Simulator} {request : Request} {answer a : Response} {given : List Response} {tid : Tid}
    {d : Client Simulator} (h : Answers c.channel s' request answer given tid) (asks : c.Asks request a d) :
    a = answer ∧ d.channel = s' := by
  have hsame : (a, d.channel) = (answer, s') := asks.symm.trans h.issue_eq
  exact Prod.mk.inj hsame

/-- An attempt to write the next element of a lease. -/
theorem attains_tryWrite (h : Leased base c.channel (l :: ls)) {value : Element}
    (entry : l.work.stream[l.fed]? = some value) :
    Attains (tryWrite l.tid value (l.fed + 1 == l.work.stream.size)) (fun status d =>
      match status with
      | .accepted => Leased base d.channel (⟨l.tid, l.work, l.fed + 1, l.reads⟩ :: ls)
      | .busy => Leased base d.channel (l :: ls)) c := by
  have hunread := h.unread l List.mem_cons_self
  have hserves := h.serves l List.mem_cons_self
  obtain ⟨answer, s', hanswers, houtcome⟩ := answers_writeData h.orderly.ordered h.orderly.nodup hserves hunread
    entry rfl
  have htouches := hanswers.touches h.settled
  refine .mk (fun status d hok => ?_) fun e d herror => ?_
  · obtain ⟨a, hasks, hstatus⟩ := tryWrite_ok hok
    obtain ⟨rfl, hd⟩ := answer_eq hanswers hasks
    rw [← hd] at htouches houtcome
    obtain ⟨rfl, hcode⟩ | ⟨rfl, hcode⟩ := hstatus
    · obtain ⟨-, hfed⟩ | ⟨rfl, -⟩ := houtcome
      · exact h.moved htouches hunread hfed
      · cases hcode
    · obtain ⟨rfl, -⟩ | ⟨-, hkept⟩ := houtcome
      · cases hcode
      · exact h.moved htouches hunread (hkept.serves hserves)
  · obtain ⟨a, hasks, hok, hbusy, -⟩ := tryWrite_error herror
    obtain ⟨rfl, -⟩ := answer_eq hanswers hasks
    obtain ⟨rfl, -⟩ | ⟨rfl, -⟩ := houtcome
    · exact absurd rfl hok
    · exact absurd rfl hbusy

/-- The next element of a lease is written, in as many attempts as it takes. -/
theorem attains_writeWithin (h : Leased base c.channel (l :: ls)) {value : Element}
    (entry : l.work.stream[l.fed]? = some value) (attempts : Nat) :
    Attains (writeWithin l.tid value (l.fed + 1 == l.work.stream.size) attempts) (fun _ d =>
      Leased base d.channel (⟨l.tid, l.work, l.fed + 1, l.reads⟩ :: ls)) c := by
  induction attempts generalizing c with
  | zero => exact attains_exceeded
  | succ attempts ih =>
    refine .bind ((attains_tryWrite h entry).mono fun status d hstatus => ?_)
    cases status with
    | accepted => exact attains_pure hstatus
    | busy => exact ih hstatus

theorem attains_write (h : Leased base c.channel (l :: ls)) {value : Element} {last : Bool}
    (entry : l.work.stream[l.fed]? = some value) (last_eq : last = (l.fed + 1 == l.work.stream.size)) :
    Attains (write l.tid value last) (fun _ d =>
      Leased base d.channel (⟨l.tid, l.work, l.fed + 1, l.reads⟩ :: ls)) c := by
  subst last_eq
  exact attains_get (attains_writeWithin h entry _)

/-- The next element of a stream, and what is left after it. -/
theorem next_of_drop {xs : Array Element} {k : Nat} {value : Element} {values : List Element}
    (left : xs.toList.drop k = value :: values) :
    xs[k]? = some value ∧ xs.toList.drop (k + 1) = values ∧ k + 1 + values.length = xs.size := by
  have hlt : k < xs.toList.length := List.length_lt_of_drop_ne_nil (by rw [left]; exact List.cons_ne_nil _ _)
  rw [List.drop_eq_getElem_cons hlt, List.cons.injEq] at left
  obtain ⟨rfl, rfl⟩ := left
  refine ⟨by simp, rfl, ?_⟩
  rw [List.length_drop, Array.length_toList] at *
  omega

/-- Elements of the stream of a lease are written, but not its last one. -/
theorem attains_writeExceptLast (h : Leased base c.channel (l :: ls)) {values rest : List Element}
    (stream : l.work.stream.toList.drop l.fed = values ++ rest) (more : rest ≠ []) :
    Attains (writeExceptLast l.tid values) (fun _ d =>
      Leased base d.channel (⟨l.tid, l.work, l.fed + values.length, l.reads⟩ :: ls)) c := by
  induction values generalizing c l with
  | nil => exact attains_pure h
  | cons value values ih =>
    rw [List.cons_append] at stream
    obtain ⟨hentry, hleft, hsize⟩ := next_of_drop stream
    have hlast : false = (l.fed + 1 == l.work.stream.size) := by
      have hpos := List.length_pos_iff.2 more
      rw [List.length_append] at hsize
      exact (beq_eq_false_iff_ne.2 (by omega)).symm
    refine .bind ((attains_write h hentry hlast).mono fun _ d hd => ?_)
    have hcount : l.fed + 1 + values.length = l.fed + (value :: values).length := by
      rw [List.length_cons]
      omega
    exact hcount ▸ ih hd hleft

/-- The rest of the stream of a lease is written. -/
theorem attains_writeAll (h : Leased base c.channel (l :: ls)) {values : List Element}
    (stream : l.work.stream.toList.drop l.fed = values) (some_left : values ≠ []) :
    Attains (writeAll l.tid values) (fun _ d =>
      Leased base d.channel (⟨l.tid, l.work, l.work.stream.size, l.reads⟩ :: ls)) c := by
  induction values generalizing c l with
  | nil => exact absurd rfl some_left
  | cons value values ih =>
    obtain ⟨hentry, hleft, hsize⟩ := next_of_drop stream
    cases values with
    | nil =>
      have hlast : true = (l.fed + 1 == l.work.stream.size) := (beq_iff_eq.2 hsize).symm
      exact hsize ▸ attains_write h hentry hlast
    | cons next rest =>
      have hlast : false = (l.fed + 1 == l.work.stream.size) := by
        rw [List.length_cons] at hsize
        exact (beq_eq_false_iff_ne.2 (by omega)).symm
      refine .bind ((attains_write h hentry hlast).mono fun _ d hd => ?_)
      have hwritten := ih hd hleft (List.cons_ne_nil _ _)
      exact hwritten

theorem attains_idle {post : Unit → Client Simulator → Prop}
    (h : post () { c with channel := c.channel.tick }) : Attains idle post c where
  ok _ _ hok := by
    cases hok
    exact h
  error _ _ herror := by cases herror

/-- A wait for the only response that is held back yields it. -/
theorem attains_awaitWithin {due : Nat} {r : Response} (ok : r.exitCode = .ok) (orderly : c.channel.Orderly)
    (deferred : c.channel.deferred = [⟨due, r⟩]) (attempts : Nat) :
    Attains (awaitWithin attempts) (fun a d => a = r ∧ Alike c.channel d.channel ∧ d.channel.Orderly ∧
      d.channel.deferred = [] ∧ ∀ y, Kept c.channel d.channel y) c := by
  induction attempts generalizing c with
  | zero => exact attains_exceeded
  | succ attempts ih =>
    refine .bind (.mk (fun answer d hpoll => ?_) fun e d herror => (poll_error herror).elim)
    have hpoll : c.channel.poll = (answer, d.channel) := poll_ok hpoll
    have horderly := (Evolves.poll hpoll).orderly orderly
    obtain ⟨halike, hrows⟩ := poll_same hpoll
    have hkept : ∀ y, Kept c.channel d.channel y := fun y => .of_eq (congrArg (Rows.find? y) hrows)
    obtain ⟨rfl, hsame⟩ | ⟨held, before, after, rfl, hsplit, -, -, hleft⟩ := poll_cases hpoll
    · have hdeferred : d.channel.tick.deferred = [⟨due, r⟩] := by
        show d.channel.deferred = _
        rw [hsame, deferred]
      have hwait := @ih { d with channel := d.channel.tick } ((Evolves.tick d.channel).orderly horderly) hdeferred
      refine .bind (attains_idle (hwait.mono fun a e ⟨ha, he, hordered, hsettled, hkeeps⟩ => ?_))
      have htick : Alike d.channel d.channel.tick := ⟨rfl, rfl, rfl, rfl, rfl⟩
      exact ⟨ha, halike.trans (htick.trans he), hordered, hsettled,
        fun y => (hkept y).trans ((d.channel.kept_tick y).trans (hkeeps y))⟩
    · rw [deferred] at hsplit
      obtain ⟨rfl, hheld, rfl⟩ : before = [] ∧ held = ⟨due, r⟩ ∧ after = [] := by
        cases before with
        | nil => simpa [eq_comm] using hsplit
        | cons => simp at hsplit
      subst hheld
      have haccept : accept r = (pure r : ClientM Simulator Response) := by
        unfold accept
        rw [ok]
      show Attains (accept r) _ d
      rw [haccept]
      refine attains_pure ⟨rfl, halike, horderly, ?_, hkept⟩
      rw [hleft]
      rfl

/-- Where the response to a request is held back, it is what the wait for it yields. -/
theorem attains_awaitDeferred {s : Simulator} {request : Request} {answer r : Response} {tid : Tid}
    (h : Answers s c.channel request answer [r] tid) (settled : s.deferred = []) (ok : answer.exitCode = .ok)
    (kind : answer.kind? = some .status) (proper : r.kind? ≠ some .status) :
    Attains awaitDeferred (fun a d => a = r ∧ Touches tid s d.channel ∧ Kept c.channel d.channel tid) c := by
  obtain ⟨-, due, hdeferred⟩ | ⟨rfl, -⟩ := h.handed_over settled
  · have hrok : r.exitCode = .ok :=
      exitCode_of_handedOver h.issue_eq ok (h.handedOver_eq settled ▸ List.mem_singleton_self r)
    refine attains_get ((attains_awaitWithin hrok ⟨h.gives.ordered, h.nodup⟩ hdeferred _).mono ?_)
    rintro a d ⟨rfl, halike, horderly, hsettled, hkept⟩
    exact ⟨rfl, ⟨h.gives.alike.trans halike, horderly, hsettled, fun y hy => (h.others y hy).trans (hkept y)⟩,
      hkept tid⟩
  · exact absurd kind proper

/-- An open takes a lease on a transaction, if the engine can run it and has room for it. -/
theorem attains_openTransaction (h : Leased base c.channel ls) {x : Transaction} (runs : base.Runs x)
    (ready : x.Ready) (room : ls.length < base.capacity) (orbit : ls.length < reach base.options.tidStride) :
    Attains (openTransaction x.nnid x.mode (BitVec.ofNat 16 x.trainOutputs)) (fun tid d =>
      Leased base d.channel (⟨tid, x, 0, 0⟩ :: ls)) c := by
  have hroom : c.channel.resident < c.channel.capacity := by
    have hcapacity : c.channel.capacity = base.capacity := congrArg EngineParams.tableEntries h.alike.params
    rw [h.resident_eq, hcapacity]
    exact room
  have horbit : ls.length < reach c.channel.options.tidStride := by
    rw [h.alike.options]
    exact orbit
  obtain ⟨answer, s', r, hanswers, hok, hkind, hfree, -, hserves, -⟩ :=
    answers_opening h.orderly.ordered h.orderly.nodup (runs.of_alike h.alike) ready hroom (h.few horbit)
  have hproper : r.kind? ≠ some .status := by simp [hkind]
  rw [openTransaction_eq]
  refine .bind (.mk (fun a d hopen => ?_) fun e d herror => ?_)
  case refine_2 =>
    obtain ⟨a, hasks, hne, -⟩ := issueOpen_error herror
    obtain ⟨rfl, -⟩ := answer_eq hanswers hasks
    exact absurd hok hne
  obtain ⟨hasks, -⟩ := issueOpen_ok hopen
  obtain ⟨rfl, rfl⟩ := answer_eq hanswers hasks
  have htaken : ∀ e : Client Simulator, Touches r.tid c.channel e.channel → Kept d.channel e.channel r.tid →
      Attains (if r.kind? = some .tid then pure r.tid else throw .unexpectedResponse) (fun tid d =>
        Leased base d.channel (⟨tid, x, 0, 0⟩ :: ls)) e := by
    intro e htouches hkept
    rw [if_pos hkind]
    exact attains_pure (h.opened (l := ⟨r.tid, x, 0, 0⟩) htouches hfree ready.outputs_pos (hkept.serves hserves))
  by_cases hstatus : a.kind? = some .status
  · rw [if_pos hstatus]
    refine .bind ((attains_awaitDeferred hanswers h.settled hok hstatus hproper).mono ?_)
    rintro _ e ⟨rfl, htouches, hkept⟩
    exact htaken e htouches hkept
  · obtain ⟨hstatus', -⟩ | ⟨rfl, htouches⟩ := hanswers.handed_over h.settled
    · exact absurd hstatus' hstatus
    · rw [if_neg hstatus]
      exact .bind (attains_pure (htaken d htouches (.of_eq rfl)))

/-- The next output of a lease is read; with the last one the lease ends. -/
theorem attains_readWithin (h : Leased base c.channel (l :: ls)) {asid : Asid} (asid_eq : base.asid = some asid)
    (narrow : asid.toNat < 2 ^ 10) (attempts : Nat) :
    Attains (readWithin l.tid attempts) (fun value d => l.work.expected[l.reads]? = some value ∧
      Leased base d.channel (if l.reads + 1 < l.work.outputCount then ⟨l.tid, l.work, l.fed, l.reads + 1⟩ :: ls else ls))
      c := by
  induction attempts generalizing c with
  | zero => exact attains_exceeded
  | succ attempts ih =>
    have hunread := h.unread l List.mem_cons_self
    have hserves := h.serves l List.mem_cons_self
    obtain ⟨answer, s', given, hanswers, houtcome⟩ := answers_readData h.orderly.ordered h.orderly.nodup
      (h.alike.asid.trans asid_eq) narrow hserves hunread
    -- once the output is read, the lease goes on or ends
    have hnext : ∀ e : Client Simulator, Touches l.tid c.channel e.channel →
        e.channel.Serves l.work l.tid l.fed (l.reads + 1) → Leased base e.channel
          (if l.reads + 1 < l.work.outputCount then ⟨l.tid, l.work, l.fed, l.reads + 1⟩ :: ls else ls) := by
      intro e htouches hserved
      split
      case isTrue hmore => exact h.moved htouches hmore hserved
      case isFalse hlast =>
        unfold Serves at hserved
        rw [if_neg hlast] at hserved
        exact h.closed htouches hserved
    have helement : ∀ {r : Response} {e : Client Simulator}, r.kind? = some .data → r.tid = l.tid →
        l.work.expected[l.reads]? = some r.element → Touches l.tid c.channel e.channel →
        e.channel.Serves l.work l.tid l.fed (l.reads + 1) → Attains (elementOf l.tid r) (fun value d =>
          l.work.expected[l.reads]? = some value ∧ Leased base d.channel
            (if l.reads + 1 < l.work.outputCount then ⟨l.tid, l.work, l.fed, l.reads + 1⟩ :: ls else ls)) e := by
      intro r e hkind htid hvalue htouches hserved
      unfold elementOf
      rw [if_pos ⟨hkind, htid⟩]
      exact attains_pure ⟨hvalue, hnext e htouches hserved⟩
    refine .bind (.mk (fun status d hstatus => ?_) fun e d herror => ?_)
    case refine_2 =>
      obtain ⟨a, hasks, hcode⟩ := tryRead_error herror
      obtain ⟨rfl, -⟩ := answer_eq hanswers hasks
      obtain ⟨rfl, -, -⟩ | ⟨hok, hkind, -⟩ := houtcome
      · obtain ⟨-, hne, -⟩ | ⟨hok, -⟩ := hcode
        · exact absurd rfl hne
        · cases hok
      · obtain ⟨hne, -⟩ | ⟨-, hdata, hstatus, -⟩ := hcode
        · exact absurd hok hne
        · exact absurd hkind (not_or.2 ⟨hdata, hstatus⟩)
    obtain ⟨a, hasks, hcode⟩ := tryRead_ok hstatus
    obtain ⟨rfl, rfl⟩ := answer_eq hanswers hasks
    obtain ⟨rfl, rfl, hkept⟩ | ⟨hok, -, hserved, r, rfl, hkind, htid, hvalue⟩ := houtcome
    · obtain ⟨-, hok, -⟩ | ⟨-, hok, -⟩ | ⟨rfl, -⟩ := hcode
      · cases hok
      · cases hok
      · exact ih (h.moved (hanswers.touches h.settled) hunread (hkept.serves hserves))
    · have hproper : r.kind? ≠ some .status := by simp [hkind]
      obtain ⟨rfl, -, hdata⟩ | ⟨rfl, -, hdeferred⟩ | ⟨-, hnot⟩ := hcode
      · obtain ⟨hstatus', -⟩ | ⟨rfl, htouches⟩ := hanswers.handed_over h.settled
        · rw [hdata] at hstatus'
          cases hstatus'
        · exact helement hkind htid hvalue htouches hserved
      · refine .bind ((attains_awaitDeferred hanswers h.settled hok hdeferred hproper).mono ?_)
        rintro _ e ⟨rfl, htouches, hkept⟩
        exact helement hkind htid hvalue htouches (hkept.serves hserved)
      · rw [hok] at hnot
        cases hnot

/-- The outputs of a lease are read up to the last one, and the lease ends. -/
theorem attains_readOnto (h : Leased base c.channel (l :: ls)) {asid : Asid} (asid_eq : base.asid = some asid)
    (narrow : asid.toNat < 2 ^ 10) {n : Nat} (count : l.reads + n = l.work.outputCount) (got : List Element) :
    Attains (readOnto l.tid n got) (fun values d =>
      values = got.reverse ++ l.work.expected.drop l.reads ∧ Leased base d.channel ls) c := by
  have hunread := h.unread l List.mem_cons_self
  induction n generalizing c l got with
  | zero => omega
  | succ n ih =>
    refine .bind ((attains_get (attains_readWithin h asid_eq narrow _)).mono fun value d ⟨hvalue, hleased⟩ => ?_)
    have hexpected : l.work.expected.drop l.reads = value :: l.work.expected.drop (l.reads + 1) := by
      obtain ⟨hlt, rfl⟩ := List.getElem?_eq_some_iff.1 hvalue
      exact List.drop_eq_getElem_cons hlt
    rw [hexpected]
    split at hleased
    case isTrue hmore =>
      have hcount : l.reads + 1 + n = l.work.outputCount := by omega
      have hrest := ih hleased hcount (value :: got) hmore
      simpa using hrest
    case isFalse hlast =>
      obtain rfl : n = 0 := by omega
      have hnil : l.work.expected.drop (l.reads + 1) = [] := by
        rw [List.drop_eq_nil_iff, Transaction.length_expected]
        omega
      rw [hnil]
      exact attains_pure ⟨by simp, hleased⟩

end Client

end NeuralEngine
