import NeuralEngine.Channel.Replay
import NeuralEngine.Proofs.Client.Deferral

/-!
# The read stream

A client that reads the outputs of a transaction fetches one after the other. A `Fetch` is a series of reads that
come too early, the read that is taken, and the wait for the response if the answer defers it. So what the client
asks are the fetches of the outputs that it has got, and what it asked for the one at which it stopped
(`FetchStops`). An access with a fault (`Access.fault?`) can only be the last one of all.
-/

namespace NeuralEngine

/-- The response carries an output of the transaction. -/
def Response.Carries (tid : Tid) (r : Response) : Prop :=
  r.kind? = some .data ∧ r.tid = tid

instance (tid : Tid) (r : Response) : Decidable (r.Carries tid) :=
  inferInstanceAs (Decidable (_ ∧ _))

/-- The error for which the reads of a transaction stop at this access, if any. The answer to a read may defer the
output by a bare `ok`, a response that is polled may not; either way the output has to be one of the transaction. -/
def Access.fault? (tid : Tid) : Access → Option ClientError
  | issue _ answer =>
    match answer.exitCode with
    | .ok => if answer.kind? = some .status ∨ answer.Carries tid then none else some .unexpectedResponse
    | .notDone => none
    | code => some (.engine code)
  | poll (some response) =>
    match response.exitCode with
    | .ok => if response.Carries tid then none else some .unexpectedResponse
    | code => some (.engine code)
  | _ => none

/-- No request is presented but a read of the transaction. -/
def Access.Reads (tid : Tid) (a : Access) : Prop :=
  ∀ request ∈ a.request?, request = .readData tid

namespace Access

variable {tid : Tid} {request : Request} {r : Response}

theorem reads_issue : (issue (.readData tid) r).Reads tid :=
  fun _ h => (Option.some.inj h).symm

theorem reads_of_none {a : Access} (h : a.request? = none) : a.Reads tid := by
  intro _ hrequest
  rw [h] at hrequest
  cases hrequest

theorem fault?_issue_ok (h : r.exitCode = .ok) :
    (issue request r).fault? tid =
      if r.kind? = some .status ∨ r.Carries tid then none else some .unexpectedResponse := by
  simp [fault?, h]

theorem fault?_issue_notDone (h : r.exitCode = .notDone) : (issue request r).fault? tid = none := by
  simp [fault?, h]

theorem fault?_issue_engine (ok : r.exitCode ≠ .ok) (done : r.exitCode ≠ .notDone) :
    (issue request r).fault? tid = some (.engine r.exitCode) := by
  unfold fault?
  split <;> simp_all

theorem fault?_poll_ok (h : r.exitCode = .ok) :
    (poll (some r)).fault? tid = if r.Carries tid then none else some .unexpectedResponse := by
  simp [fault?, h]

theorem fault?_poll_engine (ok : r.exitCode ≠ .ok) :
    (poll (some r)).fault? tid = some (.engine r.exitCode) := by
  unfold fault?
  split <;> simp_all

end Access

namespace Client

variable {σ : Type}

/-! ## Fetches -/

/-- A read that comes too early is no fault. -/
theorem fault?_early {tid : Tid} {early : List Response} (notDone : ∀ r ∈ early, r.exitCode = .notDone) :
    ∀ a ∈ early.map (Access.issue (.readData tid)), a.fault? tid = none := by
  intro a ha
  obtain ⟨r, hr, rfl⟩ := List.mem_map.1 ha
  exact Access.fault?_issue_notDone (notDone r hr)

theorem reads_early {tid : Tid} {early : List Response} :
    ∀ a ∈ early.map (Access.issue (.readData tid)), a.Reads tid := by
  intro a ha
  obtain ⟨r, -, rfl⟩ := List.mem_map.1 ha
  exact Access.reads_issue

/-- How an output is fetched: by reads that come too early and one that is taken, and, if its answer defers the
output, by so many polls that yield nothing and one that yields the response. -/
structure Fetch where
  early : List Response
  answer : Response
  late : Option (Nat × Response)

namespace Fetch

/-- The response that carries the output. -/
def response (f : Fetch) : Response :=
  match f.late with
  | none => f.answer
  | some (_, response) => response

/-- What is asked after the read that is taken. -/
def wait (f : Fetch) : List Access :=
  match f.late with
  | none => []
  | some (n, response) => emptyPolls n ++ [.poll (some response)]

/-- What is asked. -/
def asked (tid : Tid) (f : Fetch) : List Access :=
  f.early.map (.issue (.readData tid)) ++ .issue (.readData tid) f.answer :: f.wait

/-- The fetch gets an output of the transaction, by so many reads and a wait of so many polls at most. -/
structure Yields (tid : Tid) (attempts limit : Nat) (f : Fetch) : Prop where
  early : ∀ r ∈ f.early, r.exitCode = .notDone
  room : f.early.length < attempts
  taken : f.answer.exitCode = .ok
  late : ∀ n r, f.late = some (n, r) → f.answer.kind? = some .status ∧ n < limit
  code : f.response.exitCode = .ok
  carries : f.response.Carries tid

variable {tid : Tid} {attempts limit : Nat} {f : Fetch}

/-- One more read before the others, which comes too early. -/
theorem Yields.cons (h : f.Yields tid attempts limit) {answer : Response} (notDone : answer.exitCode = .notDone) :
    Yields tid (attempts + 1) limit { f with early := answer :: f.early } where
  early := List.forall_mem_cons.2 ⟨notDone, h.early⟩
  room := Nat.succ_lt_succ h.room
  taken := h.taken
  late := h.late
  code := h.code
  carries := h.carries

/-- Nothing is presented in a wait. -/
theorem mem_wait {a : Access} (ha : a ∈ f.wait) : a.request? = none ∧ a.answer? = none := by
  unfold wait at ha
  split at ha
  · exact absurd ha List.not_mem_nil
  obtain ha | ha := List.mem_append.1 ha
  · obtain rfl | rfl := mem_emptyPolls ha <;> exact ⟨rfl, rfl⟩
  · obtain rfl := List.mem_singleton.1 ha
    exact ⟨rfl, rfl⟩

theorem answers : (f.asked tid).filterMap Access.answer? = f.early ++ [f.answer] := by
  have hwait : f.wait.filterMap Access.answer? = [] :=
    List.filterMap_eq_nil_iff.2 fun a ha => (mem_wait ha).2
  have hearly : (f.early.map (Access.issue (.readData tid))).filterMap Access.answer? = f.early := by
    rw [List.filterMap_map]
    exact List.filterMap_some
  rw [asked, List.filterMap_append, hearly]
  simp only [List.filterMap_cons, Access.answer?, hwait]

theorem Yields.fault? (h : f.Yields tid attempts limit) {a : Access} (ha : a ∈ f.asked tid) :
    a.fault? tid = none := by
  obtain ha | ha := List.mem_append.1 ha
  · exact fault?_early h.early a ha
  obtain rfl | ha := List.mem_cons.1 ha
  · rw [Access.fault?_issue_ok h.taken, if_pos]
    cases hlate : f.late with
    | none =>
      have hcarries := h.carries
      rw [response, hlate] at hcarries
      exact .inr hcarries
    | some late => exact .inl (h.late _ _ hlate).1
  · cases hlate : f.late with
    | none => simp [wait, hlate] at ha
    | some late =>
      have hcode := h.code
      have hcarries := h.carries
      simp only [response, hlate] at hcode hcarries
      simp only [wait, hlate] at ha
      obtain ha | ha := List.mem_append.1 ha
      · obtain rfl | rfl := mem_emptyPolls ha <;> rfl
      · obtain rfl := List.mem_singleton.1 ha
        rw [Access.fault?_poll_ok hcode, if_pos hcarries]

/-- Every read comes too early but the one that is taken. -/
theorem Yields.answers_ok (h : f.Yields tid attempts limit) :
    ((f.asked tid).filterMap Access.answer?).filter (·.exitCode = .ok) = [f.answer] ∧
      ∀ r ∈ (f.asked tid).filterMap Access.answer?, r.exitCode = .ok ∨ r.exitCode = .notDone := by
  rw [answers]
  constructor
  · have hearly : f.early.filter (·.exitCode = .ok) = [] :=
      List.filter_eq_nil_iff.2 fun r hr => by simp [h.early r hr]
    rw [List.filter_append, hearly, List.nil_append, List.filter_cons_of_pos (by simpa using h.taken)]
    rfl
  · intro r hr
    obtain hr | hr := List.mem_append.1 hr
    · exact .inr (h.early r hr)
    · obtain rfl := List.mem_singleton.1 hr
      exact .inl h.taken

/-- The reads that are answered with `ok` are those that are taken, one for each fetch. -/
theorem answers_flatMap {fetches : List Fetch} (h : ∀ f ∈ fetches, f.Yields tid attempts limit) :
    let answers := (fetches.flatMap (asked tid)).filterMap Access.answer?
    answers.filter (·.exitCode = .ok) = fetches.map (·.answer) ∧
      ∀ r ∈ answers, r.exitCode = .ok ∨ r.exitCode = .notDone := by
  induction fetches with
  | nil => exact ⟨rfl, fun _ h => absurd h List.not_mem_nil⟩
  | cons f fetches ih =>
    obtain ⟨hf, hfetches⟩ := List.forall_mem_cons.1 h
    obtain ⟨htaken, hrest⟩ := ih hfetches
    obtain ⟨hone, heach⟩ := hf.answers_ok
    intro answers
    have hanswers : answers = (f.asked tid).filterMap Access.answer? ++
        (fetches.flatMap (asked tid)).filterMap Access.answer? := List.filterMap_append
    rw [hanswers, List.filter_append, htaken, hone]
    exact ⟨rfl, fun r hr => (List.mem_append.1 hr).elim (heach r) (hrest r)⟩

theorem reads_of_mem {a : Access} (ha : a ∈ f.asked tid) : a.Reads tid := by
  obtain ha | ha := List.mem_append.1 ha
  · exact reads_early a ha
  obtain rfl | ha := List.mem_cons.1 ha
  · exact Access.reads_issue
  · exact Access.reads_of_none (mem_wait ha).1

end Fetch

/-- How a client stops at a read that is not too early. -/
inductive ReadStops (tid : Tid) (limit : Nat) : List Access → ClientError → Prop where
  /-- The answer is at fault. -/
  | refused {answer : Response} {e : ClientError}
      (fault : (Access.issue (.readData tid) answer).fault? tid = some e) :
      ReadStops tid limit [.issue (.readData tid) answer] e
  /-- The output is deferred, and does not come. -/
  | overdue {answer : Response} (taken : answer.exitCode = .ok) (status : answer.kind? = some .status) :
      ReadStops tid limit (.issue (.readData tid) answer :: emptyPolls limit) .retryLimitExceeded
  /-- The output is deferred, and the response that comes is at fault. -/
  | misled {answer response : Response} {n : Nat} {e : ClientError} (taken : answer.exitCode = .ok)
      (status : answer.kind? = some .status) (patience : n < limit)
      (fault : (Access.poll (some response)).fault? tid = some e) :
      ReadStops tid limit (.issue (.readData tid) answer :: (emptyPolls n ++ [.poll (some response)])) e

/-- How a client stops that fetches an output: all reads come too early, or it stops at one that does not. -/
inductive FetchStops (tid : Tid) (attempts limit : Nat) : List Access → ClientError → Prop where
  | early {early : List Response} (notDone : ∀ r ∈ early, r.exitCode = .notDone)
      (used : early.length = attempts) :
      FetchStops tid attempts limit (early.map (.issue (.readData tid))) .retryLimitExceeded
  | read {early : List Response} {asked : List Access} {e : ClientError}
      (notDone : ∀ r ∈ early, r.exitCode = .notDone) (room : early.length < attempts)
      (stops : ReadStops tid limit asked e) :
      FetchStops tid attempts limit (early.map (.issue (.readData tid)) ++ asked) e

section Stops

variable {tid : Tid} {attempts limit : Nat} {asked : List Access} {e : ClientError}

/-- Some access is at fault, which is the last one, or none is. -/
def FaultLast (tid : Tid) (e : ClientError) (asked : List Access) : Prop :=
  (∀ a ∈ asked, a.fault? tid = none) ∨
    ∃ sound a, asked = sound ++ [a] ∧ (∀ b ∈ sound, b.fault? tid = none) ∧ a.fault? tid = some e

/-- Accesses without a fault may come before. -/
theorem FaultLast.append_left {before : List Access} (sound : ∀ a ∈ before, a.fault? tid = none)
    (h : FaultLast tid e asked) : FaultLast tid e (before ++ asked) := by
  obtain hnone | ⟨more, a, rfl, hmore, ha⟩ := h
  · exact .inl (List.forall_mem_append.2 ⟨sound, hnone⟩)
  · exact .inr ⟨before ++ more, a, (List.append_assoc ..).symm, List.forall_mem_append.2 ⟨sound, hmore⟩, ha⟩

/-- What is asked ends at the access with a fault. -/
theorem FaultLast.split (h : FaultLast tid e asked) {before behind : List Access} {a : Access}
    {fault : ClientError} (split : asked = before ++ a :: behind) (ha : a.fault? tid = some fault) :
    fault = e ∧ behind = [] := by
  obtain hnone | ⟨sound, last, rfl, hsound, hlast⟩ := h
  · rw [hnone a (split ▸ List.mem_append_right _ List.mem_cons_self)] at ha
    cases ha
  obtain rfl | ⟨more, x, rfl⟩ := List.eq_nil_or_concat behind
  · obtain ⟨-, hsame⟩ := List.append_inj' split rfl
    obtain rfl := List.singleton_inj.1 hsame
    exact ⟨Option.some.inj (ha.symm.trans hlast), rfl⟩
  · rw [List.concat_eq_append, ← List.cons_append, ← List.append_assoc] at split
    obtain ⟨rfl, -⟩ := List.append_inj' split rfl
    rw [hsound a (List.mem_append_right _ List.mem_cons_self)] at ha
    cases ha

theorem ReadStops.faultLast (h : ReadStops tid limit asked e) : FaultLast tid e asked := by
  have hstatus : ∀ {answer : Response}, answer.exitCode = .ok → answer.kind? = some .status →
      ∀ a ∈ [Access.issue (.readData tid) answer], a.fault? tid = none := by
    intro answer hok hkind a ha
    obtain rfl := List.mem_singleton.1 ha
    rw [Access.fault?_issue_ok hok, if_pos (.inl hkind)]
  have hpolls : ∀ n, ∀ a ∈ emptyPolls n, a.fault? tid = none := by
    intro n a ha
    obtain rfl | rfl := mem_emptyPolls ha <;> rfl
  cases h with
  | refused fault => exact .inr ⟨[], _, rfl, fun _ h => absurd h List.not_mem_nil, fault⟩
  | overdue taken status => exact .append_left (hstatus taken status) (.inl (hpolls limit))
  | misled taken status _ fault =>
    exact .append_left (hstatus taken status) (.inr ⟨_, _, rfl, hpolls _, fault⟩)

theorem ReadStops.reads_of_mem (h : ReadStops tid limit asked e) {a : Access} (ha : a ∈ asked) :
    a.Reads tid := by
  cases h with
  | refused =>
    obtain rfl := List.mem_singleton.1 ha
    exact Access.reads_issue
  | overdue =>
    obtain rfl | ha := List.mem_cons.1 ha
    · exact Access.reads_issue
    · obtain rfl | rfl := mem_emptyPolls ha <;> exact Access.reads_of_none rfl
  | misled =>
    obtain rfl | ha := List.mem_cons.1 ha
    · exact Access.reads_issue
    obtain ha | ha := List.mem_append.1 ha
    · obtain rfl | rfl := mem_emptyPolls ha <;> exact Access.reads_of_none rfl
    · obtain rfl := List.mem_singleton.1 ha
      exact Access.reads_of_none rfl

namespace FetchStops

/-- One more read before the others, which comes too early. -/
theorem cons (h : FetchStops tid attempts limit asked e) {answer : Response}
    (notDone : answer.exitCode = .notDone) :
    FetchStops tid (attempts + 1) limit (.issue (.readData tid) answer :: asked) e := by
  cases h with
  | early h used => exact .early (List.forall_mem_cons.2 ⟨notDone, h⟩) (congrArg Nat.succ used)
  | read h room stops => exact .read (List.forall_mem_cons.2 ⟨notDone, h⟩) (Nat.succ_lt_succ room) stops

theorem faultLast (h : FetchStops tid attempts limit asked e) : FaultLast tid e asked := by
  cases h with
  | early notDone => exact .inl (fault?_early notDone)
  | read notDone _ stops => exact stops.faultLast.append_left (fault?_early notDone)

theorem reads_of_mem (h : FetchStops tid attempts limit asked e) {a : Access} (ha : a ∈ asked) :
    a.Reads tid := by
  cases h with
  | early => exact reads_early a ha
  | read _ _ stops =>
    obtain ha | ha := List.mem_append.1 ha
    · exact reads_early a ha
    · exact stops.reads_of_mem ha

end FetchStops

end Stops

/-! ## The reads -/

/-- The element of a response that carries an output of the transaction. -/
theorem asking_elementOf (tid : Tid) (response : Response) (c : Client (Traced σ)) :
    response.Carries tid ∧ Asking (elementOf tid response) c [] (.ok response.element) ∨
      ¬ response.Carries tid ∧ Asking (elementOf tid response) c [] (.error .unexpectedResponse) := by
  unfold elementOf
  split
  · next h => exact .inl ⟨h, .pure _ _⟩
  · next h => exact .inr ⟨h, .throw _ _⟩

variable [Channel σ]

/-- One attempt asks once, and what it comes to is in the answer. -/
theorem asking_tryRead (tid : Tid) (c : Client (Traced σ)) :
    ∃ answer result, Asking (tryRead tid) c [.issue (.readData tid) answer] result ∧
      (answer.exitCode = .notDone ∧ result = .ok .notDone ∨
        answer.exitCode = .ok ∧ answer.kind? = some .data ∧ result = .ok (.data answer) ∨
        answer.exitCode = .ok ∧ answer.kind? = some .status ∧ result = .ok .deferred ∨
        ∃ e, (Access.issue (.readData tid) answer).fault? tid = some e ∧ result = .error e) := by
  obtain ⟨answer, hissue⟩ := Asking.issue (.readData tid) c
  refine ⟨answer, ?_⟩
  unfold tryRead
  by_cases hdone : answer.exitCode = .notDone
  · refine ⟨_, hissue.bind_quiet ?_, .inl ⟨hdone, rfl⟩⟩
    simp only [hdone]
    exact (Asking.count _ _).bind (.pure _ _)
  by_cases hok : answer.exitCode = .ok
  · by_cases hdata : answer.kind? = some .data
    · refine ⟨_, hissue.bind_quiet ?_, .inr (.inl ⟨hok, hdata, rfl⟩)⟩
      simp only [hok, hdata]
      exact .pure _ _
    by_cases hstatus : answer.kind? = some .status
    · refine ⟨_, hissue.bind_quiet ?_, .inr (.inr (.inl ⟨hok, hstatus, rfl⟩))⟩
      simp only [hok, hstatus]
      exact .pure _ _
    · refine ⟨_, hissue.bind_quiet ?_, .inr (.inr (.inr ⟨.unexpectedResponse, ?_, rfl⟩))⟩
      · simp only [hok]
        exact .throw _ _
      · rw [Access.fault?_issue_ok hok, if_neg]
        rintro (h | h)
        · exact hstatus h
        · exact hdata h.1
  · refine ⟨_, hissue.bind_quiet ?_,
      .inr (.inr (.inr ⟨.engine answer.exitCode, Access.fault?_issue_engine hok hdone, rfl⟩))⟩
    split
    · contradiction
    · contradiction
    · exact .fatal _ _

/-- The attempts to read an output are a fetch, or they stop. -/
theorem asking_readWithin (tid : Tid) (attempts : Nat) (c : Client (Traced σ)) :
    (∃ f : Fetch, f.Yields tid attempts c.retryLimit ∧
      Asking (readWithin tid attempts) c (f.asked tid) (.ok f.response.element)) ∨
    ∃ asked e, FetchStops tid attempts c.retryLimit asked e ∧
      Asking (readWithin tid attempts) c asked (.error e) := by
  have hnone : ∀ r ∈ ([] : List Response), r.exitCode = .notDone := fun _ h => absurd h List.not_mem_nil
  induction attempts generalizing c with
  | zero => exact .inr ⟨_, _, .early hnone rfl, .throw _ _⟩
  | succ attempts ih =>
    obtain ⟨answer, result, htry, ⟨hdone, rfl⟩ | ⟨hok, hkind, rfl⟩ | ⟨hok, hkind, rfl⟩ | ⟨e, hfault, rfl⟩⟩ :=
      asking_tryRead tid c
    · obtain ⟨f, hyields, hmore⟩ | ⟨asked, e, hstops, hmore⟩ := ih (after (tryRead tid) c)
      · rw [htry.retryLimit] at hyields
        exact .inl ⟨_, hyields.cons hdone, htry.bind hmore⟩
      · rw [htry.retryLimit] at hstops
        exact .inr ⟨_, e, hstops.cons hdone, htry.bind hmore⟩
    · obtain ⟨hcarries, helement⟩ | ⟨hcarries, helement⟩ :=
        asking_elementOf tid answer (after (tryRead tid) c)
      · refine .inl ⟨⟨[], answer, none⟩, ?_, htry.bind_quiet helement⟩
        exact ⟨hnone, Nat.succ_pos _, hok, nofun, hok, hcarries⟩
      · refine .inr ⟨_, _, .read hnone (Nat.succ_pos _) (.refused ?_), htry.bind_quiet helement⟩
        rw [Access.fault?_issue_ok hok, if_neg]
        rintro (h | h)
        · rw [hkind] at h
          cases h
        · exact hcarries h
    · obtain ⟨asked, result, hends, hawait⟩ := asking_awaitDeferred (after (tryRead tid) c)
      rw [htry.retryLimit] at hends
      cases hends with
      | @arrived n response room code =>
        obtain ⟨hcarries, helement⟩ | ⟨hcarries, helement⟩ :=
          asking_elementOf tid response (after awaitDeferred (after (tryRead tid) c))
        · refine .inl ⟨⟨[], answer, some (n, response)⟩, ?_, htry.bind (hawait.bind_quiet helement)⟩
          refine ⟨hnone, Nat.succ_pos _, hok, ?_, code, hcarries⟩
          rintro _ _ ⟨⟩
          exact ⟨hkind, room⟩
        · refine .inr ⟨_, _, .read hnone (Nat.succ_pos _) (.misled hok hkind room ?_),
            htry.bind (hawait.bind_quiet helement)⟩
          rw [Access.fault?_poll_ok code, if_neg hcarries]
      | refused room code =>
        exact .inr ⟨_, _, .read hnone (Nat.succ_pos _) (.misled hok hkind room (Access.fault?_poll_engine code)),
          htry.bind hawait.bind_error⟩
      | exhausted =>
        exact .inr ⟨_, _, .read hnone (Nat.succ_pos _) (.overdue hok hkind), htry.bind hawait.bind_error⟩
    · exact .inr ⟨_, e, .read hnone (Nat.succ_pos _) (.refused hfault), htry.bind_error⟩

theorem asking_readNext (tid : Tid) (c : Client (Traced σ)) :
    (∃ f : Fetch, f.Yields tid c.retryLimit c.retryLimit ∧
      Asking (readNext tid) c (f.asked tid) (.ok f.response.element)) ∨
    ∃ asked e, FetchStops tid c.retryLimit c.retryLimit asked e ∧
      Asking (readNext tid) c asked (.error e) := by
  obtain ⟨f, hyields, h⟩ | ⟨asked, e, hstops, h⟩ := asking_readWithin tid c.retryLimit c
  · exact .inl ⟨f, hyields, h.limited⟩
  · exact .inr ⟨asked, e, hstops, h.limited⟩

/-- The reads of several outputs are their fetches, one after the other, up to the output at which they stop. -/
theorem asking_readOnto (tid : Tid) (n : Nat) (got : List Element) (c : Client (Traced σ)) :
    ∃ fetches : List Fetch, (∀ f ∈ fetches, f.Yields tid c.retryLimit c.retryLimit) ∧
      (fetches.length = n ∧
          Asking (readOnto tid n got) c (fetches.flatMap (Fetch.asked tid))
            (.ok (got.reverse ++ fetches.map (·.response.element))) ∨
        fetches.length < n ∧ ∃ rest e, FetchStops tid c.retryLimit c.retryLimit rest e ∧
          Asking (readOnto tid n got) c (fetches.flatMap (Fetch.asked tid) ++ rest) (.error e)) := by
  induction n generalizing got c with
  | zero =>
    refine ⟨[], fun _ h => absurd h List.not_mem_nil, .inl ⟨rfl, ?_⟩⟩
    rw [List.map_nil, List.append_nil]
    exact .pure _ _
  | succ n ih =>
    obtain ⟨f, hf, hnext⟩ | ⟨rest, e, hstops, hnext⟩ := asking_readNext tid c
    · obtain ⟨fetches, hfetches, hmore⟩ := ih (f.response.element :: got) (after (readNext tid) c)
      rw [hnext.retryLimit] at hfetches hmore
      refine ⟨f :: fetches, List.forall_mem_cons.2 ⟨hf, hfetches⟩, ?_⟩
      obtain ⟨hlength, hmore⟩ | ⟨hlength, rest, e, hstops, hmore⟩ := hmore
      · have h := hnext.bind (f := fun value => readOnto tid n (value :: got)) hmore
        rw [List.reverse_cons, List.append_assoc] at h
        exact .inl ⟨congrArg Nat.succ hlength, h⟩
      · have h := hnext.bind (f := fun value => readOnto tid n (value :: got)) hmore
        rw [← List.append_assoc] at h
        exact .inr ⟨Nat.succ_lt_succ hlength, rest, e, hstops, h⟩
    · exact ⟨[], fun _ h => absurd h List.not_mem_nil,
        .inr ⟨Nat.succ_pos _, rest, e, hstops, hnext.bind_error⟩⟩

/-- What a client asks that reads outputs, whatever the answers, are reads of the transaction and waits. It fetches
one output after the other: the reads that are answered with `ok` are those that are taken, one for each output, and
every other read is answered with `notDone`, fewer times in a row than the limit. The element is that of the answer
or, if the answer is a bare `ok`, of the response that is polled next; either carries an output of the transaction.
The call succeeds if every output is fetched. Any answer or response with a fault ends the call at once, and the
error tells the fault. -/
theorem read_asks_read_stream (c : Client σ) (tid : Tid) (n : Nat) :
    ∃ (fetches : List Fetch) (rest : List Access),
      let trace := callTrace (read tid n) c
      let result := outcome (read tid n) c
      let answers := trace.filterMap Access.answer?
      trace = fetches.flatMap (Fetch.asked tid) ++ rest ∧
        (∀ f ∈ fetches, f.Yields tid c.retryLimit c.retryLimit) ∧
        (∀ a ∈ trace, a.Reads tid) ∧
        (fetches.length = n ∧ rest = [] ∧ result = .ok (fetches.map (·.response.element)) ∧
            answers.filter (·.exitCode = .ok) = fetches.map (·.answer) ∧
            (∀ r ∈ answers, r.exitCode = .ok ∨ r.exitCode = .notDone) ∨
          fetches.length < n ∧ ∃ e, FetchStops tid c.retryLimit c.retryLimit rest e ∧ result = .error e) ∧
        ∀ before a behind fault, trace = before ++ a :: behind → a.fault? tid = some fault →
          result = .error fault ∧ behind = [] := by
  have houtcome : outcome (read tid n) c.traced = outcome (read tid n) c :=
    outcome_traced (couples_traced.composes.read tid n) c
  obtain ⟨fetches, hyields, hends⟩ := asking_readOnto tid n [] c.traced
  have hreads : ∀ a ∈ fetches.flatMap (Fetch.asked tid), a.Reads tid := by
    intro a ha
    obtain ⟨f, -, ha⟩ := List.mem_flatMap.1 ha
    exact f.reads_of_mem ha
  have hsound : ∀ a ∈ fetches.flatMap (Fetch.asked tid), a.fault? tid = none := by
    intro a ha
    obtain ⟨f, hf, ha⟩ := List.mem_flatMap.1 ha
    exact (hyields f hf).fault? ha
  obtain ⟨hlength, hasks⟩ | ⟨hlength, rest, e, hstops, hasks⟩ := hends
  · have htrace : callTrace (read tid n) c = fetches.flatMap (Fetch.asked tid) := hasks.trace
    have hresult := houtcome.symm.trans hasks.outcome
    obtain ⟨htaken, heach⟩ := Fetch.answers_flatMap hyields
    refine ⟨fetches, [], htrace.trans (List.append_nil _).symm, hyields, ?_, ?_, ?_⟩
    · rw [htrace]
      exact hreads
    · rw [htrace]
      exact .inl ⟨hlength, rfl, hresult, htaken, heach⟩
    · intro before a behind fault hsplit ha
      rw [htrace] at hsplit
      rw [hsound a (hsplit ▸ List.mem_append_right _ List.mem_cons_self)] at ha
      cases ha
  · have htrace : callTrace (read tid n) c = fetches.flatMap (Fetch.asked tid) ++ rest := hasks.trace
    have hresult := houtcome.symm.trans hasks.outcome
    refine ⟨fetches, rest, htrace, hyields, ?_, .inr ⟨hlength, e, hstops, hresult⟩, ?_⟩
    · rw [htrace]
      exact List.forall_mem_append.2 ⟨hreads, fun a ha => hstops.reads_of_mem ha⟩
    · intro before a behind fault hsplit ha
      rw [htrace] at hsplit
      obtain ⟨rfl, hbehind⟩ := (hstops.faultLast.append_left hsound).split hsplit ha
      exact ⟨hresult, hbehind⟩

/-- The first output is late and takes two reads, the second one comes at once. -/
example :
    let data (element : Element) : Response := { kind := 2, tid := 7, data := element }
    let c : Client Replay :=
      { channel := { responses := [.status .notDone, .status .ok, data 5], deferred := [⟨3, data 9⟩] } }
    callTrace (read 7 2) c =
        [.issue (.readData 7) (.status .notDone), .issue (.readData 7) (.status .ok), .poll none, .step,
          .poll (some (data 9)), .issue (.readData 7) (data 5)] ∧
      outcome (read 7 2) c = .ok [9, 5] :=
  ⟨by decide +kernel, rfl⟩

end Client

end NeuralEngine
