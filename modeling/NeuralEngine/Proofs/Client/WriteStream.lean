import NeuralEngine.Channel.Replay
import NeuralEngine.Proofs.Client.Asking

/-!
# The write stream

A client that writes a stream presents each element until it is taken, is refused for good or has been
presented as often as the retry limit allows. So what it asks of its channel are groups of equal requests, a
group for each element up to the one at which it stops (`streamWrites`), and all that can end a group is in
`GroupEnds`. The writes of one element are such a group by induction on the attempts, those of the stream are the
groups one after the other by induction on the elements.
-/

namespace NeuralEngine.Client

variable {σ : Type}

/-- The writes of a stream, if each group answers one element, in order; the last element of the stream is
presented as the last one. -/
def streamWrites (tid : Tid) : List Element → List (List Response) → List Access
  | value :: rest, answers :: groups =>
    answers.map (.issue (.writeData tid value rest.isEmpty)) ++ streamWrites tid rest groups
  | _, _ => []

theorem streamWrites_singleton (tid : Tid) (value : Element) (rest : List Element) (group : List Response) :
    streamWrites tid (value :: rest) [group] = group.map (.issue (.writeData tid value rest.isEmpty)) := by
  have hnone : streamWrites tid rest [] = [] := by cases rest <;> rfl
  rw [streamWrites, hnone, List.append_nil]

/-! ## Groups of attempts -/

/-- How the attempts to write one element end. -/
inductive GroupEnds (limit : Nat) : List Response → Except ClientError Unit → Prop where
  /-- The last one is accepted. -/
  | accepted {busy : List Response} {answer : Response} (refused : ∀ r ∈ busy, r.exitCode = .queueBusy)
      (room : busy.length < limit) (code : answer.exitCode = .ok) : GroupEnds limit (busy ++ [answer]) (.ok ())
  /-- The last one is refused for good. -/
  | fatal {busy : List Response} {answer : Response} (refused : ∀ r ∈ busy, r.exitCode = .queueBusy)
      (room : busy.length < limit) (ok : answer.exitCode ≠ .ok) (full : answer.exitCode ≠ .queueBusy) :
      GroupEnds limit (busy ++ [answer]) (.error (.engine answer.exitCode))
  /-- There is none left. -/
  | exhausted {busy : List Response} (refused : ∀ r ∈ busy, r.exitCode = .queueBusy)
      (used : busy.length = limit) : GroupEnds limit busy (.error .retryLimitExceeded)

namespace GroupEnds

variable {limit : Nat} {group : List Response} {result : Except ClientError Unit}

/-- One more attempt before the others, which finds the queue full. -/
theorem cons (h : GroupEnds limit group result) {answer : Response} (full : answer.exitCode = .queueBusy) :
    GroupEnds (limit + 1) (answer :: group) result := by
  have hbusy : ∀ busy : List Response, (∀ r ∈ busy, r.exitCode = .queueBusy) →
      ∀ r ∈ answer :: busy, r.exitCode = .queueBusy := fun busy refused =>
    List.forall_mem_cons.2 ⟨full, refused⟩
  cases h with
  | accepted refused room code => exact .accepted (hbusy _ refused) (Nat.succ_lt_succ room) code
  | fatal refused room ok full => exact .fatal (hbusy _ refused) (Nat.succ_lt_succ room) ok full
  | exhausted refused used => exact .exhausted (hbusy _ refused) (congrArg Nat.succ used)

/-- Every answer but the last one says that the queue is full, and there are no more than the limit. -/
theorem bounded (h : GroupEnds limit group result) :
    group.length ≤ limit ∧ ∀ r ∈ group.dropLast, r.exitCode = .queueBusy := by
  cases h with
  | accepted refused room | fatal refused room =>
    rw [List.dropLast_concat, List.length_append]
    exact ⟨room, refused⟩
  | exhausted refused used => exact ⟨Nat.le_of_eq used, fun r hr => refused r (List.dropLast_subset _ hr)⟩

/-- If there are attempts at all, one is made. -/
theorem nonempty (h : GroupEnds limit group result) (pos : 0 < limit) : group ≠ [] := by
  cases h with
  | accepted | fatal => exact List.append_ne_nil_of_right_ne_nil _ (List.cons_ne_nil _ _)
  | exhausted _ used => exact List.length_pos_iff.1 (used ▸ pos)

theorem result_cases (h : GroupEnds limit group result) :
    result = .ok () ∨ result = .error .retryLimitExceeded ∨ ∃ code, result = .error (.engine code) := by
  cases h with
  | accepted => exact .inl rfl
  | fatal => exact .inr (.inr ⟨_, rfl⟩)
  | exhausted => exact .inr (.inl rfl)

/-- What the attempts come to can be told from the answers. -/
theorem result_iff (h : GroupEnds limit group result) {answer : Response}
    (last : group.getLast? = some answer) :
    (result = .ok () ↔ answer.exitCode = .ok) ∧
      (result = .error .retryLimitExceeded ↔
        group.length = limit ∧ ∀ r ∈ group, r.exitCode = .queueBusy) ∧
      (∀ code, result = .error (.engine code) ↔
        answer.exitCode = code ∧ code ≠ .ok ∧ code ≠ .queueBusy) := by
  have hmem : answer ∈ group := List.mem_of_getLast? last
  cases h with
  | accepted refused room code =>
    obtain rfl := Option.some.inj (List.getLast?_concat.symm.trans last)
    refine ⟨iff_of_true rfl code, iff_of_false nofun fun h => ?_, fun other => iff_of_false nofun fun h => ?_⟩
    · exact nomatch code.symm.trans (h.2 _ hmem)
    · exact h.2.1 (h.1.symm.trans code)
  | fatal refused room ok full =>
    obtain rfl := Option.some.inj (List.getLast?_concat.symm.trans last)
    refine ⟨iff_of_false nofun ok, iff_of_false nofun fun h => full (h.2 _ hmem), fun code => ⟨?_, ?_⟩⟩
    · rintro ⟨⟩
      exact ⟨rfl, ok, full⟩
    · rintro ⟨rfl, -, -⟩
      rfl
  | exhausted refused used =>
    have hfull := refused answer hmem
    refine ⟨iff_of_false nofun fun h => ?_, iff_of_true rfl ⟨used, refused⟩,
      fun code => iff_of_false nofun fun h => ?_⟩
    · exact nomatch h.symm.trans hfull
    · exact h.2.2 (h.1.symm.trans hfull)

end GroupEnds

/-! ## The writes -/

variable [Channel σ]

/-- One attempt asks once, and what it comes to is in the code of the answer. -/
theorem asking_tryWrite (tid : Tid) (value : Element) (last : Bool) (c : Client (Traced σ)) :
    ∃ answer result, Asking (tryWrite tid value last) c [.issue (.writeData tid value last) answer] result ∧
      (answer.exitCode = .ok ∧ result = .ok .accepted ∨
        answer.exitCode = .queueBusy ∧ result = .ok .busy ∨
        answer.exitCode ≠ .ok ∧ answer.exitCode ≠ .queueBusy ∧ result = .error (.engine answer.exitCode)) := by
  obtain ⟨answer, hissue⟩ := Asking.issue (.writeData tid value last) c
  refine ⟨answer, ?_⟩
  unfold tryWrite
  by_cases hok : answer.exitCode = .ok
  · refine ⟨_, hissue.bind_quiet ?_, .inl ⟨hok, rfl⟩⟩
    simp only [hok]
    exact .pure _ _
  by_cases hbusy : answer.exitCode = .queueBusy
  · refine ⟨_, hissue.bind_quiet ?_, .inr (.inl ⟨hbusy, rfl⟩)⟩
    simp only [hbusy]
    exact (Asking.count _ _).bind (.pure _ _)
  · refine ⟨_, hissue.bind_quiet ?_, .inr (.inr ⟨hok, hbusy, rfl⟩)⟩
    split
    · contradiction
    · contradiction
    · exact .fatal _ _

/-- The attempts to write an element are a group of equal requests. -/
theorem asking_writeWithin (tid : Tid) (value : Element) (last : Bool) (attempts : Nat) (c : Client (Traced σ)) :
    ∃ group result, GroupEnds attempts group result ∧
      Asking (writeWithin tid value last attempts) c (group.map (.issue (.writeData tid value last))) result := by
  induction attempts generalizing c with
  | zero => exact ⟨[], _, .exhausted (fun _ h => absurd h List.not_mem_nil) rfl, .throw _ _⟩
  | succ attempts ih =>
    obtain ⟨answer, result, htry, ⟨hok, rfl⟩ | ⟨hbusy, rfl⟩ | ⟨hok, hbusy, rfl⟩⟩ :=
      asking_tryWrite tid value last c
    · exact ⟨[answer], _, .accepted (fun _ h => absurd h List.not_mem_nil) (Nat.succ_pos _) hok,
        htry.bind_quiet (.pure _ _)⟩
    · obtain ⟨group, result, hends, hmore⟩ := ih (after (tryWrite tid value last) c)
      exact ⟨answer :: group, result, hends.cons hbusy, htry.bind hmore⟩
    · exact ⟨[answer], _, .fatal (fun _ h => absurd h List.not_mem_nil) (Nat.succ_pos _) hok hbusy,
        htry.bind_error⟩

theorem asking_write (tid : Tid) (value : Element) (last : Bool) (c : Client (Traced σ)) :
    ∃ group result, GroupEnds c.retryLimit group result ∧
      Asking (write tid value last) c (group.map (.issue (.writeData tid value last))) result := by
  obtain ⟨group, result, hends, h⟩ := asking_writeWithin tid value last c.retryLimit c
  exact ⟨group, result, hends, h.limited⟩

/-- The writes of a stream are a group for each element that is taken, and one more for the element at which the
client stops, which is the last one if all are taken. -/
theorem asking_writeAll (tid : Tid) {values : List Element} (nonempty : values ≠ []) (c : Client (Traced σ)) :
    ∃ accepted final result, (∀ group ∈ accepted, GroupEnds c.retryLimit group (.ok ())) ∧
      GroupEnds c.retryLimit final result ∧ accepted.length < values.length ∧
      (result = .ok () → accepted.length + 1 = values.length) ∧
      Asking (writeAll tid values) c (streamWrites tid values (accepted ++ [final])) result := by
  induction values generalizing c with
  | nil => exact absurd rfl nonempty
  | cons value rest ih =>
    cases rest with
    | nil =>
      obtain ⟨final, result, hends, hwrite⟩ := asking_write tid value true c
      refine ⟨[], final, result, fun _ h => absurd h List.not_mem_nil, hends, Nat.one_pos, fun _ => rfl, ?_⟩
      rw [List.nil_append, streamWrites_singleton]
      exact hwrite
    | cons next rest =>
      obtain ⟨group, result, hends, hwrite⟩ := asking_write tid value false c
      cases result with
      | error e =>
        refine ⟨[], group, _, fun _ h => absurd h List.not_mem_nil, hends, Nat.succ_pos _, nofun, ?_⟩
        rw [List.nil_append, streamWrites_singleton]
        exact hwrite.bind_error
      | ok u =>
        obtain ⟨accepted, final, result, haccepted, hfinal, hless, hall, hrest⟩ :=
          ih (List.cons_ne_nil _ _) (after (write tid value false) c)
        rw [hwrite.retryLimit] at haccepted hfinal
        refine ⟨group :: accepted, final, result, List.forall_mem_cons.2 ⟨hends, haccepted⟩, hfinal,
          Nat.succ_lt_succ hless, fun hok => congrArg Nat.succ (hall hok), ?_⟩
        exact hwrite.bind hrest

/-- The expected outputs of a training step are written as the front of its stream. -/
theorem writeExceptLast_bind_writeAll (tid : Tid) (front : List Element) {inputs : List Element}
    (nonempty : inputs ≠ []) :
    (do writeExceptLast tid front; writeAll tid inputs : ClientM σ Unit) = writeAll tid (front ++ inputs) := by
  induction front with
  | nil => rfl
  | cons value front ih =>
    obtain ⟨next, rest, hrest⟩ := List.exists_cons_of_ne_nil (List.append_ne_nil_of_right_ne_nil front nonempty)
    have hall : (writeAll tid (value :: (front ++ inputs)) : ClientM σ Unit) =
        (do write tid value false; writeAll tid (front ++ inputs)) := by
      rw [hrest]
      rfl
    rw [List.cons_append, hall, ← ih]
    exact bind_assoc _ _ _

/-- A training step writes its expected outputs and inputs as one stream. -/
theorem writeTraining_eq_writeAll (tid : Tid) {inputs : List Element} (expected : List Element)
    (nonempty : inputs ≠ []) :
    (writeTraining tid inputs expected : ClientM σ Unit) = writeAll tid (expected ++ inputs) := by
  unfold writeTraining
  rw [if_neg nonempty]
  exact writeExceptLast_bind_writeAll tid expected nonempty

/-- What a client asks that writes a stream, whatever the answers: for each element up to the one at which it
stops, the same write as often as the queue was full and once more, and no more often than the limit. Only the last
element of the stream is presented as the last one. The call succeeds if every element was accepted, and otherwise
tells why it stopped. A training step is the stream of its expected outputs and inputs. -/
theorem writeAll_asks_write_stream (c : Client σ) (attempts : 0 < c.retryLimit) (tid : Tid) {values : List Element}
    (nonempty : values ≠ []) :
    ∃ (accepted : List (List Response)) (final : List Response) (answer : Response),
      let groups := accepted ++ [final]
      let result := outcome (writeAll tid values) c
      callTrace (writeAll tid values) c = streamWrites tid values groups ∧
        groups.length ≤ values.length ∧
        (∀ group ∈ groups, group ≠ [] ∧ group.length ≤ c.retryLimit ∧
          ∀ r ∈ group.dropLast, r.exitCode = .queueBusy) ∧
        (∀ group ∈ accepted, ∃ r, group.getLast? = some r ∧ r.exitCode = .ok) ∧
        final.getLast? = some answer ∧
        (result = .ok () ↔ groups.length = values.length ∧ answer.exitCode = .ok) ∧
        (result = .error .retryLimitExceeded ↔
          final.length = c.retryLimit ∧ ∀ r ∈ final, r.exitCode = .queueBusy) ∧
        (∀ code, result = .error (.engine code) ↔
          answer.exitCode = code ∧ code ≠ .ok ∧ code ≠ .queueBusy) ∧
        (result = .ok () ∨ result = .error .retryLimitExceeded ∨ ∃ code, result = .error (.engine code)) ∧
        ∀ inputs expected, inputs ≠ [] → expected ++ inputs = values →
          outcome (writeTraining tid inputs expected) c = result ∧
            callTrace (writeTraining tid inputs expected) c = callTrace (writeAll tid values) c := by
  obtain ⟨accepted, final, result, haccepted, hfinal, hless, hall, hasks⟩ :=
    asking_writeAll tid nonempty c.traced
  have hresult : outcome (writeAll tid values) c = result :=
    (outcome_traced (couples_traced.composes.writeAll tid fun _ => trivial) c).symm.trans hasks.outcome
  have hlast : final.getLast? = some (final.getLast (hfinal.nonempty attempts)) :=
    List.getLast?_eq_some_getLast _
  obtain ⟨hok, hexceeded, hengine⟩ := hfinal.result_iff hlast
  refine ⟨accepted, final, _, hasks.trace, ?length, ?groups, ?accepted, hlast, ?_⟩
  case length =>
    rw [List.length_append]
    exact hless
  case groups =>
    intro group hgroup
    obtain hgroup | hgroup := List.mem_append.1 hgroup
    · exact ⟨(haccepted group hgroup).nonempty attempts, (haccepted group hgroup).bounded⟩
    · obtain rfl := List.mem_singleton.1 hgroup
      exact ⟨hfinal.nonempty attempts, hfinal.bounded⟩
  case accepted =>
    intro group hgroup
    have hends := haccepted group hgroup
    have hsome := List.getLast?_eq_some_getLast (hends.nonempty attempts)
    exact ⟨_, hsome, (hends.result_iff hsome).1.1 rfl⟩
  rw [hresult]
  refine ⟨⟨fun h => ⟨?_, hok.1 h⟩, fun h => hok.2 h.2⟩, hexceeded, hengine, hfinal.result_cases, ?_⟩
  · rw [List.length_append]
    exact hall h
  · rintro inputs expected hinputs rfl
    rw [← hresult, callTrace, callTrace, writeTraining_eq_writeAll tid expected hinputs,
      writeTraining_eq_writeAll tid expected hinputs]
    exact ⟨rfl, rfl⟩

/-- A client of two attempts over a channel that is full at first and refuses the third element. -/
def refused : Client Replay where
  channel := { responses := [.status .queueBusy, .status .ok, .status .ok] }
  retryLimit := 2

/-- The first of three elements is written twice, and the third one is where the stream stops. -/
theorem refused_stops_at_third_element :
    0 < refused.retryLimit ∧
      callTrace (writeAll 7 [1, 2, 3]) refused =
        [.issue (.writeData 7 1 false) (.status .queueBusy), .issue (.writeData 7 1 false) (.status .ok),
          .issue (.writeData 7 2 false) (.status .ok), .issue (.writeData 7 3 true) (.status .badRequest)] ∧
      outcome (writeAll 7 [1, 2, 3]) refused = .error (.engine .badRequest) ∧
      ∃ (accepted : List (List Response)) (final : List Response) (answer : Response),
        callTrace (writeAll 7 [1, 2, 3]) refused = streamWrites 7 [1, 2, 3] (accepted ++ [final]) ∧
          final.getLast? = some answer ∧ answer.exitCode = .badRequest := by
  have hattempts : 0 < refused.retryLimit := by decide
  have houtcome : outcome (writeAll 7 [1, 2, 3]) refused = .error (.engine .badRequest) := rfl
  obtain ⟨accepted, final, answer, htrace, -, -, -, hlast, -, -, hengine, -⟩ :=
    writeAll_asks_write_stream refused hattempts 7 (List.cons_ne_nil 1 [2, 3])
  exact ⟨hattempts, by decide +kernel, houtcome, accepted, final, answer, htrace, hlast,
    ((hengine _).1 houtcome).1⟩

end NeuralEngine.Client
