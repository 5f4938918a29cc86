import NeuralEngine.Proofs.Client.OpenOrder
import NeuralEngine.Proofs.Client.OpenWait

/-!
# How long a call takes

Every element and every wait of a call has as many attempts as the retry limit of the client. What a call may present
and how often it may step the engine is its budget (`Spends`): the budgets of the parts of a call add up, and a loop
that is left after a number of attempts has that many times the budget of one. So every blocking call comes to an end
within a number of requests and steps that can be told from its arguments, whatever the channel answers.
-/

namespace NeuralEngine.Client

variable {σ α β : Type}

/-- So many requests are presented, and so many steps taken, at most. -/
def Within (requests steps : Nat) (asked : List Access) : Prop :=
  asked.countP Access.isIssue ≤ requests ∧ asked.countP Access.isStep ≤ steps

theorem Within.append {a m b n : Nat} {asked more : List Access} (h : Within a b asked) (h' : Within m n more) :
    Within (a + m) (b + n) (asked ++ more) := by
  unfold Within
  rw [List.countP_append, List.countP_append]
  exact ⟨Nat.add_le_add h.1 h'.1, Nat.add_le_add h.2 h'.2⟩

theorem Within.mono {a m b n : Nat} {asked : List Access} (h : Within a b asked) (requests : a ≤ m)
    (steps : b ≤ n) : Within m n asked :=
  ⟨h.1.trans requests, h.2.trans steps⟩

/-- Over a channel with a trace, and with that retry limit, the call stays within the budget. -/
def Spends (limit requests steps : Nat) (call : ClientM (Traced σ) α) : Prop :=
  ∀ c, c.retryLimit = limit → ∃ asked result, Asking call c asked result ∧ Within requests steps asked

namespace Spends

variable {limit a m b n : Nat}

protected theorem pure (x : α) : Spends limit 0 0 (pure x : ClientM (Traced σ) α) :=
  fun c _ => ⟨_, _, .pure x c, Nat.le_refl 0, Nat.le_refl 0⟩

protected theorem throw (e : ClientError) : Spends limit 0 0 (throw e : ClientM (Traced σ) α) :=
  fun c _ => ⟨_, _, .throw e c, Nat.le_refl 0, Nat.le_refl 0⟩

variable {x : ClientM (Traced σ) α} {f : α → ClientM (Traced σ) β}

theorem mono (h : Spends limit a b x) (requests : a ≤ m) (steps : b ≤ n) : Spends limit m n x := by
  intro c hc
  obtain ⟨asked, result, hasks, hwithin⟩ := h c hc
  exact ⟨asked, result, hasks, hwithin.mono requests steps⟩

/-- Budgets add up. -/
theorem bind_of_ok (first : Spends limit a b x) (rest : ∀ c v, outcome x c = .ok v → Spends limit m n (f v)) :
    Spends limit (a + m) (b + n) (x >>= f) := by
  intro c hc
  obtain ⟨asked, result, hasks, hwithin⟩ := first c hc
  cases result with
  | error e => exact ⟨asked, _, hasks.bind_error, hwithin.mono (Nat.le_add_right _ _) (Nat.le_add_right _ _)⟩
  | ok v =>
    obtain ⟨more, result, hmore, hwithin'⟩ := rest c v hasks.outcome (after x c) (hasks.retryLimit.trans hc)
    exact ⟨asked ++ more, result, hasks.bind hmore, hwithin.append hwithin'⟩

theorem bind (first : Spends limit a b x) (rest : ∀ v, Spends limit m n (f v)) :
    Spends limit (a + m) (b + n) (x >>= f) :=
  first.bind_of_ok fun _ v _ => rest v

/-- A computation that goes by the retry limit. -/
theorem limited {call : Nat → ClientM (Traced σ) α} (h : Spends limit a b (call limit)) :
    Spends limit a b (do call (← MonadState.get).retryLimit) := by
  intro c hc
  obtain ⟨asked, result, hasks, hwithin⟩ := h c hc
  exact ⟨asked, result, (hc.symm ▸ hasks : Asking (call c.retryLimit) c asked result).limited, hwithin⟩

/-- Each element of a list has a budget of its own. -/
theorem mapM {f : α → ClientM (Traced σ) β} {requests steps : α → Nat} {as : List α}
    (each : ∀ v ∈ as, Spends limit (requests v) (steps v) (f v)) :
    Spends limit (as.map requests).sum (as.map steps).sum (as.mapM f) := by
  induction as with
  | nil => exact .pure _
  | cons v as ih =>
    rw [List.mapM_cons]
    refine (each v List.mem_cons_self).bind fun _ => ?_
    exact (ih fun w hw => each w (List.mem_cons_of_mem _ hw)).bind fun _ => .pure _

theorem forM {f : α → ClientM (Traced σ) Unit} (each : ∀ v, Spends limit a b (f v)) (as : List α) :
    Spends limit (as.length * a) (as.length * b) (as.forM f) := by
  induction as with
  | nil => exact (Spends.pure _).mono (Nat.zero_le _) (Nat.zero_le _)
  | cons v as ih =>
    rw [List.length_cons, Nat.succ_mul, Nat.succ_mul, Nat.add_comm _ a, Nat.add_comm _ b]
    exact (each v).bind fun _ => ih

/-- A series yields a value for each element. -/
theorem length_of_mapM {as : List α} {bs : List β} {f : α → ClientM (Traced σ) β} {c : Client (Traced σ)}
    (h : outcome (as.mapM f) c = .ok bs) : bs.length = as.length := by
  induction as generalizing c bs with
  | nil =>
    cases h
    rfl
  | cons v as ih =>
    rw [List.mapM_cons, outcome_bind_ok_iff] at h
    obtain ⟨b, -, h⟩ := h
    obtain ⟨rest, hrest, h⟩ := outcome_bind_ok_iff.1 h
    cases h
    exact congrArg Nat.succ (ih hrest)

/-! ## Single attempts -/

protected theorem fatal (code : ExitCode) : Spends limit 0 0 (fatal code : ClientM (Traced σ) α) :=
  fun c _ => ⟨_, _, .fatal code c, Nat.le_refl 0, Nat.le_refl 0⟩

protected theorem count (f : Statistics → Statistics) : Spends limit 0 0 (count f : ClientM (Traced σ) Unit) :=
  fun c _ => ⟨_, _, .count f c, Nat.le_refl 0, Nat.le_refl 0⟩

theorem accept (response : Response) : Spends limit 0 0 (accept response : ClientM (Traced σ) Response) := by
  intro c _
  obtain ⟨-, h⟩ | ⟨-, h⟩ := Asking.accept response c
  · exact ⟨_, _, h, Nat.le_refl 0, Nat.le_refl 0⟩
  · exact ⟨_, _, h, Nat.le_refl 0, Nat.le_refl 0⟩

theorem elementOf (tid : Tid) (response : Response) :
    Spends limit 0 0 (elementOf tid response : ClientM (Traced σ) Element) := by
  unfold Client.elementOf
  split
  · exact .pure _
  · exact .throw _

variable [Channel σ]

protected theorem issue (request : Request) : Spends (σ := σ) limit 1 0 (issue request) := by
  intro c _
  obtain ⟨answer, h⟩ := Asking.issue request c
  exact ⟨_, _, h, Nat.le_refl 1, Nat.le_refl 0⟩

protected theorem poll : Spends (σ := σ) limit 0 0 poll := by
  intro c _
  obtain ⟨answer, h⟩ := Asking.poll c
  exact ⟨_, _, h, Nat.le_refl 0, Nat.le_refl 0⟩

protected theorem idle : Spends (σ := σ) limit 0 1 idle :=
  fun c _ => ⟨_, _, .idle c, Nat.le_refl 0, Nat.le_refl 1⟩

protected theorem capability : Spends (σ := σ) limit 0 0 capability :=
  fun _ _ => ⟨_, _, ⟨rfl, rfl, rfl⟩, Nat.le_refl 0, Nat.le_refl 0⟩

theorem tryWrite (tid : Tid) (value : Element) (last : Bool) :
    Spends (σ := σ) limit 1 0 (tryWrite tid value last) := by
  refine (Spends.issue (σ := σ) _).bind (m := 0) (n := 0) fun response => ?_
  split
  · exact .pure _
  · exact (Spends.count _).bind fun _ => .pure _
  · exact .fatal _

theorem tryRead (tid : Tid) : Spends (σ := σ) limit 1 0 (tryRead tid) := by
  refine (Spends.issue (σ := σ) _).bind (m := 0) (n := 0) fun response => ?_
  split
  · split
    · exact .pure _
    · exact .pure _
    · exact .throw _
  · exact (Spends.count _).bind fun _ => .pure _
  · exact .fatal _

/-! ## Blocking calls -/

theorem awaitWithin (attempts : Nat) : Spends (σ := σ) limit 0 attempts (awaitWithin attempts) := by
  induction attempts with
  | zero => exact .throw _
  | succ attempts ih =>
    have hpoll : Spends (σ := σ) limit (0 + 0) (0 + (1 + attempts)) (Client.awaitWithin (attempts + 1)) :=
      Spends.poll.bind fun answer => by
        cases answer with
        | some response => exact (accept response).mono (Nat.le_refl 0) (Nat.zero_le _)
        | none => exact Spends.idle.bind fun _ => ih
    exact hpoll.mono (Nat.le_refl 0) (by omega)

theorem awaitDeferred : Spends (σ := σ) limit 0 limit awaitDeferred :=
  .limited (awaitWithin limit)

/-- An open is one request and, at most, a wait. -/
theorem asking_openTransaction (nnid : Nnid) (mode : LearningMode) (trainOutputs : BitVec 16)
    (c : Client (Traced σ)) :
    ∃ answer waited result, Within 0 c.retryLimit waited ∧
      Asking (Client.openTransaction nnid mode trainOutputs) c
        (.issue (.newTransaction nnid mode trainOutputs) answer :: waited) result := by
  have htid : ∀ response : Response, Spends (σ := σ) c.retryLimit 0 0
      (if response.kind? = some .tid then Pure.pure response.tid else MonadExcept.throw .unexpectedResponse) := by
    intro response
    split
    · exact .pure _
    · exact .throw _
  have hwait : ∀ answer : Response, Spends (σ := σ) c.retryLimit 0 c.retryLimit
      (if answer.kind? = some .status then Client.awaitDeferred else Pure.pure answer) := by
    intro answer
    split
    · exact awaitDeferred
    · exact (Spends.pure _).mono (Nat.le_refl 0) (Nat.zero_le _)
  obtain ⟨answer, hissue⟩ := Asking.issue (.newTransaction nnid mode trainOutputs) c
  obtain ⟨waited, result, hmore, hwithin⟩ :=
    (accept answer).bind (fun answer => (hwait answer).bind htid) _ hissue.retryLimit
  rw [Nat.add_zero, Nat.zero_add] at hwithin
  have hissueOpen : issueOpen nnid mode trainOutputs =
      issue (σ := Traced σ) (.newTransaction nnid mode trainOutputs) >>= Client.accept := rfl
  rw [openTransaction_eq, hissueOpen, bind_assoc]
  exact ⟨answer, waited, result, hwithin, hissue.bind hmore⟩

theorem openTransaction (nnid : Nnid) (mode : LearningMode) (trainOutputs : BitVec 16) :
    Spends (σ := σ) limit 1 limit (openTransaction nnid mode trainOutputs) := by
  rintro c rfl
  obtain ⟨answer, waited, result, hwithin, hasks⟩ := asking_openTransaction nnid mode trainOutputs c
  have hissue : Within 1 0 [.issue (.newTransaction nnid mode trainOutputs) answer] :=
    ⟨Nat.le_refl 1, Nat.le_refl 0⟩
  exact ⟨_, result, hasks, (hissue.append hwithin).mono (Nat.le_refl 1) (by omega)⟩

theorem writeWithin (tid : Tid) (value : Element) (last : Bool) (attempts : Nat) :
    Spends (σ := σ) limit attempts 0 (writeWithin tid value last attempts) := by
  induction attempts with
  | zero => exact .throw _
  | succ attempts ih =>
    refine ((tryWrite tid value last).bind (m := attempts) (n := 0) fun status => ?_).mono (by omega) (by omega)
    cases status with
    | accepted => exact (Spends.pure _).mono (Nat.zero_le _) (Nat.le_refl 0)
    | busy => exact ih

theorem write (tid : Tid) (value : Element) (last : Bool) : Spends (σ := σ) limit limit 0 (write tid value last) :=
  .limited (writeWithin tid value last limit)

theorem writeExceptLast (tid : Tid) (values : List Element) :
    Spends (σ := σ) limit (values.length * limit) 0 (writeExceptLast tid values) := by
  induction values with
  | nil => exact (Spends.pure _).mono (Nat.zero_le _) (Nat.le_refl 0)
  | cons value rest ih =>
    rw [List.length_cons, Nat.succ_mul, Nat.add_comm]
    exact (write tid value false).bind fun _ => ih

theorem writeAll (tid : Tid) (values : List Element) :
    Spends (σ := σ) limit (values.length * limit) 0 (writeAll tid values) := by
  induction values with
  | nil => exact (Spends.throw _).mono (Nat.zero_le _) (Nat.le_refl 0)
  | cons value rest ih =>
    rw [List.length_cons, Nat.succ_mul, Nat.add_comm]
    cases rest with
    | nil => exact (write tid value true).mono (Nat.le_add_right _ _) (Nat.le_refl 0)
    | cons next rest => exact (write tid value false).bind fun _ => ih

theorem writeTraining (tid : Tid) (inputs expected : List Element) :
    Spends (σ := σ) limit ((inputs.length + expected.length) * limit) 0 (writeTraining tid inputs expected) := by
  unfold Client.writeTraining
  split
  · exact (Spends.throw _).mono (Nat.zero_le _) (Nat.le_refl 0)
  · rw [Nat.add_comm, Nat.add_mul]
    exact (writeExceptLast tid expected).bind fun _ => writeAll tid inputs

theorem readWithin (tid : Tid) (attempts : Nat) :
    Spends (σ := σ) limit attempts limit (readWithin tid attempts) := by
  induction attempts with
  | zero => exact (Spends.throw _).mono (Nat.le_refl 0) (Nat.zero_le _)
  | succ attempts ih =>
    refine ((tryRead tid).bind (m := attempts) (n := limit) fun status => ?_).mono (by omega) (by omega)
    cases status with
    | data response => exact (elementOf tid response).mono (Nat.zero_le _) (Nat.zero_le _)
    | deferred =>
      exact (awaitDeferred.bind fun response => elementOf tid response).mono (Nat.zero_le _) (Nat.le_refl _)
    | notDone => exact ih

theorem readNext (tid : Tid) : Spends (σ := σ) limit limit limit (readNext tid) :=
  .limited (readWithin tid limit)

theorem read (tid : Tid) (n : Nat) : Spends (σ := σ) limit (n * limit) (n * limit) (read tid n) := by
  suffices honto : ∀ got, Spends (σ := σ) limit (n * limit) (n * limit) (readOnto tid n got) from honto []
  induction n with
  | zero => exact fun got => (Spends.pure _).mono (Nat.zero_le _) (Nat.zero_le _)
  | succ n ih =>
    intro got
    rw [Nat.succ_mul, Nat.add_comm]
    exact (readNext tid).bind fun value => ih (value :: got)

/-! ## Whole transactions -/

theorem feedforward (nnid : Nnid) (inputs : List Element) (n : Nat) :
    Spends (σ := σ) limit (1 + (inputs.length + n) * limit) ((1 + n) * limit) (feedforward nnid inputs n) := by
  unfold Client.feedforward
  split
  · exact (Spends.throw _).mono (Nat.zero_le _) (Nat.zero_le _)
  · refine (openTransaction nnid .feedforward 0).bind (fun tid =>
      (writeAll tid inputs).bind fun _ => read tid n) |>.mono ?_ ?_
    · rw [Nat.add_mul]
    · rw [Nat.add_mul, Nat.one_mul, Nat.zero_add]

theorem trainIncremental (nnid : Nnid) (inputs expected : List Element) :
    Spends (σ := σ) limit (1 + (inputs.length + 2 * expected.length) * limit) ((1 + expected.length) * limit)
      (trainIncremental nnid inputs expected) := by
  unfold Client.trainIncremental
  split
  · exact (Spends.throw _).mono (Nat.zero_le _) (Nat.zero_le _)
  split
  · exact (Spends.throw _).mono (Nat.zero_le _) (Nat.zero_le _)
  · refine (openTransaction nnid .trainIncremental _).bind (fun tid =>
      (writeTraining tid inputs expected).bind fun _ => read tid expected.length) |>.mono ?_ ?_
    · rw [← Nat.add_mul, Nat.add_assoc, Nat.two_mul]
    · rw [Nat.add_mul, Nat.one_mul, Nat.zero_add]

theorem compareSamples (nnid : Nnid) {samples : List (List Element × List Element)} {numInputs numOutputs : Nat}
    (sizes : ∀ sample ∈ samples, sample.1.length = numInputs ∧ sample.2.length = numOutputs)
    (report : CompareReport) :
    Spends (σ := σ) limit (samples.length * (1 + (numInputs + numOutputs) * limit))
      (samples.length * ((1 + numOutputs) * limit)) (compareSamples nnid samples report) := by
  induction samples generalizing report with
  | nil => exact (Spends.pure _).mono (Nat.zero_le _) (Nat.zero_le _)
  | cons sample rest ih =>
    obtain ⟨⟨rfl, rfl⟩, hrest⟩ := List.forall_mem_cons.1 sizes
    rw [List.length_cons, Nat.succ_mul, Nat.succ_mul, Nat.add_comm (rest.length * _), Nat.add_comm (rest.length * _)]
    exact (feedforward nnid sample.1 sample.2.length).bind fun _ => ih hrest _

theorem runCompare (nnid : Nnid) (inputs expected : List Element) (numInputs numOutputs : Nat) :
    let samples := (wholeBlocks numInputs inputs).zip (wholeBlocks numOutputs expected)
    Spends (σ := σ) limit (samples.length * (1 + (numInputs + numOutputs) * limit))
      (samples.length * ((1 + numOutputs) * limit)) (runCompare nnid inputs expected numInputs numOutputs) := by
  intro samples
  unfold Client.runCompare
  split
  · exact (Spends.throw _).mono (Nat.zero_le _) (Nat.zero_le _)
  · refine compareSamples nnid (fun sample hsample => ?_) {}
    obtain ⟨hinputs, houtputs⟩ := List.of_mem_zip (a := sample.1) (b := sample.2) hsample
    exact ⟨length_of_mem_wholeBlocks hinputs, length_of_mem_wholeBlocks houtputs⟩

theorem prime (nnid : Nnid) (sample : List Element) :
    Spends (σ := σ) limit (1 + (sample.length - 1) * limit) limit (prime nnid sample) := by
  refine (openTransaction nnid .feedforward 0).bind (n := 0) fun tid => ?_
  split
  · exact (Spends.throw _).mono (Nat.zero_le _) (Nat.zero_le _)
  · have hwrite : Spends (σ := σ) limit _ 0 _ := writeExceptLast tid sample.dropLast
    rw [List.length_dropLast] at hwrite
    exact hwrite.bind fun _ => .pure _

/-- A budget that is the same for each element, beside one that is not. -/
theorem sum_map_add_le {f g : α → Nat} {k : Nat} {as : List α} (h : ∀ v ∈ as, f v + k ≤ g v) :
    (as.map f).sum + as.length * k ≤ (as.map g).sum := by
  induction as with
  | nil => simp
  | cons v as ih =>
    have hrest := ih fun w hw => h w (List.mem_cons_of_mem _ hw)
    have hfirst := h v List.mem_cons_self
    rw [List.map_cons, List.map_cons, List.sum_cons, List.sum_cons, List.length_cons, Nat.succ_mul]
    omega

theorem runPrimed (nnid : Nnid) (n : Nat) {samples : List (List Element)} (nonempty : [] ∉ samples) :
    Spends (σ := σ) limit (samples.map fun sample => 1 + (sample.length + n) * limit).sum
      (samples.map fun _ => (1 + n) * limit).sum (runPrimed nnid n samples) := by
  have hprime : Spends (σ := σ) limit _ _ (samples.mapM (Client.prime nnid)) :=
    mapM fun sample _ => prime nnid sample
  have hrest : ∀ primed : List (Tid × Element), primed.length = samples.length →
      Spends (σ := σ) limit (samples.length * (limit + n * limit)) (samples.length * (n * limit))
        ((primed.forM fun p => Client.write p.1 p.2 true) >>= fun _ => primed.mapM fun p => Client.read p.1 n) := by
    intro primed hlength
    have hwrite : Spends (σ := σ) limit _ _ (primed.forM fun p => Client.write p.1 p.2 true) :=
      forM (fun p => write p.1 p.2 true) primed
    have hread : Spends (σ := σ) limit _ _ (primed.mapM fun p => Client.read p.1 n) :=
      mapM fun p _ => read p.1 n
    rw [List.map_const', List.sum_replicate_nat] at hread
    rw [← hlength, Nat.mul_add]
    exact (hwrite.bind fun _ => hread).mono (Nat.le_refl _) (by omega)
  refine (hprime.bind_of_ok fun c primed hprimed => hrest primed (length_of_mapM hprimed)).mono ?_ ?_
  · refine sum_map_add_le fun sample hsample => ?_
    have hpos : 0 < sample.length := List.length_pos_iff.2 fun hnil => nonempty (hnil ▸ hsample)
    obtain ⟨k, hk⟩ : ∃ k, sample.length = k + 1 := ⟨sample.length - 1, by omega⟩
    rw [hk, Nat.add_sub_cancel, Nat.add_mul, Nat.add_mul, Nat.one_mul]
    omega
  · exact sum_map_add_le fun _ _ => Nat.le_of_eq (by rw [Nat.add_mul, Nat.one_mul])

theorem feedforwardPrimed (nnid : Nnid) (samples : List (List Element)) (n : Nat) :
    Spends (σ := σ) limit (samples.map fun sample => 1 + (sample.length + n) * limit).sum
      (samples.length * ((1 + n) * limit)) (feedforwardPrimed nnid samples n) := by
  unfold Client.feedforwardPrimed
  split
  · exact (Spends.throw _).mono (Nat.zero_le _) (Nat.zero_le _)
  next hnone =>
  have hblocks : ∀ word : Capability, Spends (σ := σ) limit
      (samples.map fun sample => 1 + (sample.length + n) * limit).sum (samples.length * ((1 + n) * limit))
      ((allBlocks (max word.tableEntries.toNat 1) samples).mapM (Client.runPrimed nnid n)) := by
    intro word
    have hflatten := flatten_allBlocks (Nat.le_max_right word.tableEntries.toNat 1) samples
    have hsum : ∀ f : List Element → Nat,
        ((allBlocks (max word.tableEntries.toNat 1) samples).map fun block => (block.map f).sum).sum =
          (samples.map f).sum := by
      intro f
      conv => rhs; rw [← hflatten]
      rw [List.map_flatten, List.sum_flatten, List.map_map]
      rfl
    have hrun : Spends (σ := σ) limit _ _
        ((allBlocks (max word.tableEntries.toNat 1) samples).mapM (Client.runPrimed nnid n)) :=
      mapM fun block hblock => runPrimed nnid n fun hnil =>
        hnone (hflatten ▸ List.mem_flatten_of_mem hblock hnil)
    rw [hsum, hsum, List.map_const', List.sum_replicate_nat] at hrun
    exact hrun
  exact (Spends.capability.bind fun word => (hblocks word).bind fun _ => .pure _).mono (by omega) (by omega)

end Spends

theorem Spends.callTrace {call : ClientM (Traced σ) α} {a b : Nat} {c : Client σ}
    (h : Spends c.retryLimit a b call) : Within a b (callTrace call c) := by
  obtain ⟨asked, result, hasks, hwithin⟩ := h c.traced rfl
  have htrace : Client.callTrace call c = asked := hasks.trace
  exact htrace ▸ hwithin

variable [Channel σ]

/-- Every blocking call ends within a number of requests and steps that its arguments and the retry limit tell,
whatever the channel answers: an open presents one request, each element that is written or read takes at most so
many requests as the limit, and each wait at most so many steps. The wait of an open is as long as the limit allows:
it succeeds if, and only if, the identifier comes with the answer or before the last poll. So over a simulator that
holds nothing back, an open that is accepted succeeds exactly if identifiers are deferred by fewer steps than the
limit, as long as the clock can count them. -/
theorem calls_end_within_attempts (c : Client σ) :
    let limit := c.retryLimit
    (∀ nnid mode trainOutputs, let asked := callTrace (openTransaction nnid mode trainOutputs) c
      asked.countP Access.isIssue = 1 ∧ asked.countP Access.isStep ≤ limit) ∧
    (∀ tid value last, Within limit 0 (callTrace (write tid value last) c)) ∧
    (∀ tid values, Within (values.length * limit) 0 (callTrace (writeAll tid values) c)) ∧
    (∀ tid n, Within (n * limit) (n * limit) (callTrace (read tid n) c)) ∧
    (∀ nnid inputs n,
      Within (1 + (inputs.length + n) * limit) ((1 + n) * limit) (callTrace (feedforward nnid inputs n) c)) ∧
    (∀ nnid inputs expected,
      Within (1 + (inputs.length + 2 * expected.length) * limit) ((1 + expected.length) * limit)
        (callTrace (trainIncremental nnid inputs expected) c)) ∧
    (∀ nnid inputs expected numInputs numOutputs,
      let samples := (wholeBlocks numInputs inputs).zip (wholeBlocks numOutputs expected)
      Within (samples.length * (1 + (numInputs + numOutputs) * limit)) (samples.length * ((1 + numOutputs) * limit))
        (callTrace (runCompare nnid inputs expected numInputs numOutputs) c)) ∧
    (∀ nnid samples n,
      Within (samples.map fun sample => 1 + (sample.length + n) * limit).sum (samples.length * ((1 + n) * limit))
        (callTrace (feedforwardPrimed nnid samples n) c)) ∧
    (∀ nnid mode trainOutputs tid,
      let asked := Channel.issue (.newTransaction nnid mode trainOutputs) c.channel
      outcome (openTransaction nnid mode trainOutputs) c = .ok tid ↔
        asked.1.AssignsTid tid ∨
          asked.1.exitCode = .ok ∧ asked.1.kind? = some .status ∧
            ∃ i < limit, ∃ r, Arrives r i asked.2 ∧ r.AssignsTid tid) ∧
    ∀ (d : Client Simulator) nnid mode trainOutputs delay,
      d.channel.deferred = [] → d.channel.options.tidDelay = some delay →
      d.channel.options.clock.Reaches (d.channel.cycle + 1 + delay) →
      (d.channel.issue (.newTransaction nnid mode trainOutputs)).1.exitCode = .ok →
      ((∃ tid, outcome (openTransaction nnid mode trainOutputs) d = .ok tid) ↔ delay < d.retryLimit) := by
  refine ⟨fun nnid mode trainOutputs => ?_, fun tid value last => (Spends.write tid value last).callTrace,
    fun tid values => (Spends.writeAll tid values).callTrace, fun tid n => (Spends.read tid n).callTrace,
    fun nnid inputs n => (Spends.feedforward nnid inputs n).callTrace,
    fun nnid inputs expected => (Spends.trainIncremental nnid inputs expected).callTrace,
    fun nnid inputs expected numInputs numOutputs =>
      (Spends.runCompare nnid inputs expected numInputs numOutputs).callTrace,
    fun nnid samples n => (Spends.feedforwardPrimed nnid samples n).callTrace,
    fun nnid mode trainOutputs tid => outcome_openTransaction_ok_iff nnid mode trainOutputs c tid,
    fun _ _ _ _ _ deferred tidDelay reaches accepted =>
      openTransaction_succeeds_iff deferred tidDelay reaches accepted⟩
  obtain ⟨answer, waited, result, ⟨hrequests, hsteps⟩, hasks⟩ :=
    Spends.asking_openTransaction nnid mode trainOutputs c.traced
  have htrace : callTrace (openTransaction nnid mode trainOutputs) c =
      .issue (.newTransaction nnid mode trainOutputs) answer :: waited := hasks.trace
  have hnone : waited.countP Access.isIssue = 0 := Nat.eq_zero_of_le_zero hrequests
  intro asked
  change asked = _ at htrace
  rw [htrace, List.countP_cons_of_pos rfl, List.countP_cons_of_neg Bool.false_ne_true, hnone]
  exact ⟨rfl, hsteps⟩

/-- With identifiers that are deferred by two steps, two polls are too few and three are enough. -/
theorem impatient_open_needs_three_polls :
    (¬ ∃ tid, outcome (openTransaction 0 .feedforward 0) impatient = .ok tid) ∧
      ∃ tid, outcome (openTransaction 0 .feedforward 0) { impatient with retryLimit := 3 } = .ok tid := by
  obtain ⟨-, -, -, -, -, -, -, -, -, hsimulator⟩ := calls_end_within_attempts impatient
  have haccepted : (impatient.channel.issue (.newTransaction 0 .feedforward 0)).1.exitCode = .ok := by
    decide +kernel
  refine ⟨fun h => ?_, ?_⟩
  · exact absurd ((hsimulator impatient 0 .feedforward 0 2 rfl rfl (by decide) haccepted).1 h) (by decide)
  · exact (hsimulator { impatient with retryLimit := 3 } 0 .feedforward 0 2 rfl rfl (by decide) haccepted).2
      (by decide)

/-- A client of one attempt over a simulator that defers identifiers by as many steps as a word can tell. -/
def overdue : Client Simulator where
  channel := { impatient.channel with options := { tidDelay := some (2 ^ 64 - 1) } }
  retryLimit := 1

/-- The cycle at which the identifier comes due starts over at zero, so the open succeeds at its only poll. -/
theorem overflowing_open_succeeds :
    overdue.channel.deferred = [] ∧ overdue.channel.options.tidDelay = some (2 ^ 64 - 1) ∧
      (overdue.channel.issue (.newTransaction 0 .feedforward 0)).1.exitCode = .ok ∧
      outcome (openTransaction 0 .feedforward 0) overdue = .ok 0 ∧ ¬ 2 ^ 64 - 1 < overdue.retryLimit := by
  refine ⟨rfl, rfl, ?_, ?_, ?_⟩ <;> decide +kernel

end NeuralEngine.Client
