import NeuralEngine.Proofs.Simulator.Requests

/-!
# The simulator under any client

Whatever it is asked, the simulator keeps its table without repeated identifiers and the deferred responses
of each lane in order (`Orderly`), and it stays bound to its table and address space (`Evolves`). An open that
it answers with `ok` was accepted: it was given an identifier that no other transaction and no response held
back is about (`opened_of_issue`). The identifiers held back are those that the simulator still owes, the
oldest first (`owed`).
-/

namespace NeuralEngine

/-- The code refuses a request for good. -/
def ExitCode.isFatal (code : ExitCode) : Bool :=
  code != .ok && !code.isTransient

theorem ExitCode.ne_ok_of_isFatal {code : ExitCode} (h : code.isFatal = true) : code ≠ .ok := by
  rintro rfl
  cases h

namespace Simulator

open Inversion

variable {s s' s'' : Simulator} {request : Request} {answer : Response}

/-- The table repeats no identifier, and the responses of each lane come due in their order. -/
structure Orderly (s : Simulator) : Prop where
  ordered : s.Ordered
  nodup : s.tids.Nodup

theorem orderly_of_empty (entries : s.entries = []) (deferred : s.deferred = []) : s.Orderly where
  ordered := by
    constructor <;> rw [deferred]
    · exact fun _ => .nil
    · exact fun d hd => absurd hd List.not_mem_nil
  nodup := by
    rw [(tids_eq_nil_iff s).2 entries]
    exact .nil

/-- The later state is bound as the earlier one was, and as orderly. -/
structure Evolves (s s' : Simulator) : Prop where
  table : s'.table = s.table
  asid : s'.asid = s.asid
  options : s'.options = s.options
  cycle : s.cycle ≤ s'.cycle
  orderly : s.Orderly → s'.Orderly

namespace Evolves

theorem refl (s : Simulator) : Evolves s s :=
  ⟨rfl, rfl, rfl, Nat.le_refl _, id⟩

theorem trans (h : Evolves s s') (h' : Evolves s' s'') : Evolves s s'' :=
  ⟨h'.table.trans h.table, h'.asid.trans h.asid, h'.options.trans h.options, Nat.le_trans h.cycle h'.cycle,
    h'.orderly ∘ h.orderly⟩

/-- The clock only comes closer to its bound. -/
theorem inTime (h : Evolves s s') (inTime : s'.InTime) : s.InTime :=
  inTime.before h.options h.cycle

/-- The delays are those from the beginning. -/
theorem inTime_of_le (h : Evolves s s') (bound : Nat) (reaches : s.options.clock.Reaches (s'.cycle + bound))
    (le : ∀ lane steps, s.options.delay lane = some steps → steps ≤ bound) : s'.InTime := fun lane steps hdelay =>
  h.options ▸ reaches.mono (Nat.add_le_add_left (le lane steps (h.options ▸ hdelay)) _)

/-- Entries may have left, and time may have passed. -/
theorem of_sublist (table : s'.table = s.table) (asid : s'.asid = s.asid)
    (options : s'.options = s.options) (cycle : s.cycle ≤ s'.cycle) (deferred : s'.deferred = s.deferred)
    (tids : s'.tids.Sublist s.tids) : Evolves s s' where
  table := table
  asid := asid
  options := options
  cycle := cycle
  orderly h := ⟨h.ordered.of_sublist options cycle (deferred ▸ List.Sublist.refl _), h.nodup.sublist tids⟩

theorem tick (s : Simulator) : Evolves s s.tick :=
  of_sublist rfl rfl rfl (Nat.le_succ _) rfl (by rw [tids_tick])

theorem record (request : Request) (s : Simulator) : Evolves s (s.record request) :=
  of_sublist rfl rfl rfl (Nat.le_succ _) rfl (by rw [tids_record])

theorem poll {answer : Option Response} (hp : s.poll = (answer, s')) : Evolves s s' := by
  obtain ⟨halike, hrows⟩ := poll_same hp
  refine ⟨halike.table, halike.asid, halike.options, Nat.le_of_eq (cycle_poll hp).symm, fun h => ⟨h.ordered.poll hp, ?_⟩⟩
  show (Rows.tids s'.rows).Nodup
  rw [hrows]
  exact h.nodup

theorem update (tid : Tid) {f : Entry → Option Entry} (keeps : ∀ e e', f e = some e' → e'.tid = e.tid) :
    Evolves s (s.update tid f) :=
  of_sublist rfl rfl rfl (Nat.le_refl _) rfl (Rows.tids_update_sublist keeps tid s.rows)

theorem addEntry {e : Entry} (fresh : s.find? e.tid = none) (next : Tid) : Evolves s (s.addEntry e next) where
  table := rfl
  asid := rfl
  options := rfl
  cycle := Nat.le_refl _
  orderly h := ⟨h.ordered.of_sublist rfl (Nat.le_refl _) (List.Sublist.refl _),
    nodup_addEntry h.nodup fresh next⟩

/-- A response comes at once or at the end of its lane, if there is one. -/
theorem respond (response : Option Response) (delay : Option Nat)
    (delay_eq : ∀ r, response = some r → delay = s.options.delay r.lane) :
    Evolves s (s.respond response delay).2 := by
  cases response with
  | none => exact of_sublist rfl rfl rfl (Nat.le_refl _) rfl (List.Sublist.refl _)
  | some r =>
    cases delay with
    | none => exact refl s
    | some steps => exact ⟨rfl, rfl, rfl, Nat.le_refl _, fun h => ⟨h.ordered.defer (delay_eq r rfl).symm, h.nodup⟩⟩

theorem acceptOpen (o : Opening) : Evolves s (s.acceptOpen o).2 := by
  unfold Simulator.acceptOpen
  cases halloc : s.allocate? with
  | none => exact of_sublist rfl rfl rfl (Nat.le_refl _) rfl (List.Sublist.refl _)
  | some found =>
    obtain ⟨tid, next⟩ := found
    have hadded : Evolves s (s.addEntry (o.entry tid) next) := addEntry (isTaken_of_allocate halloc).1 next
    have hresponded := respond (s := s.addEntry (o.entry tid) next) (Response.tidAssigned? o.asid tid)
      s.options.tidDelay fun r hr => by
        rw [Response.lane_tid (Response.of_tidAssigned hr).2.1]
        rfl
    exact (hadded.trans hresponded).trans
      (of_sublist rfl rfl rfl (Nat.le_refl _) rfl (List.Sublist.refl _))

/-! ### Requests -/

theorem openTransaction (hp : s.openTransaction request = .ok (answer, s')) : Evolves s s' := by
  unfold Simulator.openTransaction at hp
  cases hc : s.checkOpen request with
  | error code =>
    rw [hc] at hp
    cases hp
  | ok o =>
    rw [hc] at hp
    obtain rfl : (s.acceptOpen o).2 = s' := congrArg Prod.snd (Except.ok.inj hp)
    exact acceptOpen o

theorem writeRegister (hp : s.writeRegister request = .ok (answer, s')) : Evolves s s' := by
  obtain ⟨register, -, hp⟩ := except_bind_ok_iff.1 hp
  obtain ⟨entry, -, hp⟩ := except_bind_ok_iff.1 hp
  split at hp
  · cases hp
  · cases hp
    apply update
    rintro e _ ⟨⟩
    rfl

theorem writeData {last : Bool} (hp : s.writeData last request = .ok (answer, s')) : Evolves s s' := by
  obtain ⟨entry, -, hp⟩ := except_bind_ok_iff.1 hp
  split at hp
  · cases hp
  split at hp
  · cases hp
    exact of_sublist rfl rfl rfl (Nat.le_refl _) rfl (List.Sublist.refl _)
  · cases hp
    apply update
    rintro e _ ⟨⟩
    rfl

theorem readData (hp : s.readData request = .ok (answer, s')) : Evolves s s' := by
  obtain ⟨entry, -, hp⟩ := except_bind_ok_iff.1 hp
  split at hp
  · cases hp
    exact of_sublist rfl rfl rfl (Nat.le_refl _) rfl (List.Sublist.refl _)
  split at hp
  · cases hp
  · next value rest _ =>
    have hleft : Evolves s (s.leaveOutputs request.tid rest) := update _ fun _ _ => tid_of_leave
    have hresponded := respond (s := s.leaveOutputs request.tid rest)
      (Response.dataOut? s.activeAsid request.tid value)
      (s.options.dataDelay.map fun delay => delay request.tid) fun r hr => by
        obtain ⟨-, hkind, htid, -⟩ := Response.of_dataOut hr
        rw [Response.lane_data hkind, htid]
        rfl
    have hstate := congrArg Prod.snd (Except.ok.inj hp)
    dsimp only at hstate
    exact hstate ▸ hleft.trans hresponded

/-- No request makes the simulator disorderly, whether it is accepted or not. -/
theorem issue (hi : s.issue request = (answer, s')) : Evolves s s' := by
  obtain ⟨code, -, -, rfl⟩ | hp := issue_cases hi
  · exact (record request s).trans (of_sublist rfl rfl rfl (Nat.le_refl _) rfl (List.Sublist.refl _))
  · refine (record request s).trans ?_
    unfold perform at hp
    split at hp
    · exact openTransaction hp
    · exact writeRegister hp
    · exact writeData hp
    · exact writeData hp
    · exact readData hp
    · cases hp

end Evolves

/-! ## Opens that are accepted -/

theorem orRefuse_eq_ok {α : Type} {code : ExitCode} {x : Option α} {a : α} :
    orRefuse code x = .ok a ↔ x = some a := by
  cases x <;> simp [orRefuse]

theorem orRefuse_eq_error {α : Type} {code code' : ExitCode} {x : Option α}
    (h : orRefuse code x = .error code') : code = code' := by
  cases x with
  | none => exact Except.error.inj h
  | some a => cases h

/-- An answer is the response or a bare `ok`, or reports that there is no response. -/
theorem exitCode_respond {response : Option Response} {delay : Option Nat}
    (ok : ∀ r, response = some r → r.exitCode = .ok) (h : s.respond response delay = (answer, s')) :
    answer.exitCode = .unknown ∨ answer.exitCode = .ok := by
  cases responded h with
  | faulty => exact .inl rfl
  | prompt => exact .inr (ok _ rfl)
  | held => exact .inr rfl

/-- An open is only refused for good. -/
theorem checkOpen_error {code : ExitCode} (h : s.checkOpen request = .error code) : code.isFatal = true := by
  obtain h | ⟨⟨asid, space⟩, -, h⟩ := except_bind_error_iff.1 h
  · obtain rfl := orRefuse_eq_error h
    rfl
  obtain h | ⟨config, -, h⟩ := except_bind_error_iff.1 h
  · unfold usableConfig at h
    repeat' split at h
    all_goals cases h
    all_goals rfl
  obtain h | ⟨mode, -, h⟩ := except_bind_error_iff.1 h
  · obtain rfl := orRefuse_eq_error h
    rfl
  split at h
  · cases h
    rfl
  · cases h

/-- An open that is accepted asks for what the configuration of its network has. -/
theorem checkOpen_ok {o : Opening} (h : s.checkOpen request = .ok o) :
    ∃ space config, s.activeSpace? = some (o.asid, space) ∧ space.config? request.nnid = some config ∧
      LearningMode.ofCode? request.modeCode.toNat = some o.mode ∧
      o.trainOutputs = request.trainOutputs.toNat ∧ o.outputCount = declaredOutputs config := by
  obtain ⟨⟨asid, space⟩, hspace, h⟩ := except_bind_ok_iff.1 h
  obtain ⟨config, hconfig, h⟩ := except_bind_ok_iff.1 h
  obtain ⟨mode, hmode, h⟩ := except_bind_ok_iff.1 h
  split at h
  · cases h
  · cases h
    refine ⟨space, config, orRefuse_eq_ok.1 hspace, ?_, orRefuse_eq_ok.1 hmode, rfl, rfl⟩
    unfold usableConfig at hconfig
    split at hconfig
    · cases hconfig
    · next found hfound =>
      repeat' split at hconfig
      all_goals cases hconfig
      exact hfound

theorem nnid_of_checkOpen {o : Opening} (h : s.checkOpen request = .ok o) : o.nnid = request.nnid := by
  obtain ⟨⟨asid, space⟩, -, h⟩ := except_bind_ok_iff.1 h
  obtain ⟨config, -, h⟩ := except_bind_ok_iff.1 h
  obtain ⟨mode, -, h⟩ := except_bind_ok_iff.1 h
  split at h
  · cases h
  · cases h
    rfl

/-- An open that is answered with `ok` was accepted: the answer to it is the identifier of a new entry,
which nothing was about before. -/
theorem opened_of_issue (orderly : s.Orderly) (op : request.op? = some .newRequest)
    (h : s.issue request = (answer, s')) (ok : answer.exitCode = .ok) :
    ∃ o r next, (s.record request).checkOpen request = .ok o ∧
      (s.record request).allocate? = some (r.tid, next) ∧ Response.tidAssigned? o.asid r.tid = some r ∧
      Answers s s' request answer [r] r.tid ∧ s.find? r.tid = none ∧
      (∀ d ∈ s.deferred, d.response.tid ≠ r.tid) ∧ s'.find? r.tid = some (o.entry r.tid) := by
  have hperform : (s.record request).perform request = (s.record request).openTransaction request := by
    unfold perform
    simp only [op]
  unfold issue at h
  simp only [hperform, openTransaction] at h
  cases hc : (s.record request).checkOpen request with
  | error code =>
    simp only [hc, Except.map] at h
    cases h
    rw [Response.exitCode_status] at ok
    exact absurd ok (ExitCode.ne_ok_of_isFatal (checkOpen_error hc))
  | ok o =>
    cases halloc : (s.record request).allocate? with
    | none =>
      simp only [hc, Except.map, acceptOpen, halloc] at h
      cases h
      cases ok
    | some found =>
      obtain ⟨tid, next⟩ := found
      cases hr : Response.tidAssigned? o.asid tid with
      | none =>
        simp only [hc, Except.map, acceptOpen, halloc, hr] at h
        cases h
        cases ok
      | some r =>
        obtain ⟨-, -, rfl⟩ := Response.of_tidAssigned hr
        obtain ⟨answer', s'', hanswers, -, hfree, hunsent, hfind⟩ :=
          answers_accepted orderly.ordered orderly.nodup op hc halloc hr
        have hissue : s.issue request = (answer, s') := by
          unfold issue
          simp only [hperform, openTransaction]
          exact h
        cases hanswers.issue_eq.symm.trans hissue
        exact ⟨o, r, next, rfl, rfl, hr, hanswers, hfree, hunsent, hfind⟩

/-- The network of a transaction, where the simulator has one for it, has as many outputs as the transaction
awaits. -/
def Declares (s : Simulator) (x : Transaction) : Prop :=
  ∀ asid space config, s.activeSpace? = some (asid, space) → space.config? x.nnid = some config →
    declaredOutputs config = x.outputCount

theorem Declares.congr {x : Transaction} (h : s.Declares x) (table : s'.table = s.table)
    (asid : s'.asid = s.asid) : s'.Declares x := by
  unfold Declares activeSpace?
  rw [table, asid]
  exact h

theorem asid_of_activeSpace? {asid : Asid} {space : AddressSpace} (h : s.activeSpace? = some (asid, space)) :
    s.asid = some asid := by
  unfold activeSpace? at h
  split at h
  · next found _ hasid _ =>
    obtain ⟨_, -, heq⟩ := Option.map_eq_some_iff.1 h
    cases heq
    exact hasid
  · cases h

/-- What is opened for a transaction is what the transaction asks for. -/
theorem checkOpen_opening_ok {x : Transaction} {o : Opening} (few : x.trainOutputs < 2 ^ 16)
    (declares : s.Declares x) (h : s.checkOpen x.opening = .ok o) :
    s.asid = some o.asid ∧ o.mode = x.mode ∧ o.trainOutputs = x.trainOutputs ∧
      o.outputCount = x.outputCount := by
  obtain ⟨space, config, hspace, hconfig, hmode, htrain, hcount⟩ := checkOpen_ok h
  unfold Transaction.opening at hconfig hmode htrain
  rw [Request.nnid_newTransaction] at hconfig
  rw [Request.modeCode_newTransaction, LearningMode.toNat_code, LearningMode.ofCode?_code] at hmode
  rw [Request.trainOutputs_newTransaction, BitVec.toNat_ofNat, Nat.mod_eq_of_lt few] at htrain
  refine ⟨asid_of_activeSpace? hspace, (Option.some.inj hmode).symm, htrain, ?_⟩
  rw [hcount]
  exact declares _ _ _ hspace hconfig

/-! ## Identifiers that are owed -/

/-- The identifiers that were given to opens and not handed out yet, the oldest first. -/
def owed (s : Simulator) : List Tid :=
  (along none s.undelivered).map (·.tid)

/-- A poll hands out the oldest identifier, if it hands out one. -/
theorem owed_poll (orderly : s.Orderly) (inTime : s.InTime) {r : Response} (kind : r.kind? = some .tid)
    (h : s.poll = (some r, s')) : s.owed = r.tid :: s'.owed := by
  have halong := along_poll orderly.ordered inTime h none
  unfold owed
  rw [← halong, Option.toList_some, List.singleton_append, along_cons _ (Response.lane_tid kind)]
  rfl

theorem owed_poll_none (h : s.poll = (none, s')) : s'.owed = s.owed := by
  obtain ⟨-, rfl⟩ | ⟨_, _, _, hanswer, -⟩ := poll_cases h
  · rfl
  · cases hanswer

/-- What an open gives comes after what is owed. -/
theorem owed_of_gives {r : Response} (kind : r.kind? = some .tid) (gives : Gives s s' answer [r]) :
    (along none answer.prompt.toList).map (·.tid) ++ s'.owed = s.owed ++ [r.tid] := by
  have hlanes := gives.lanes none
  unfold owed
  rw [along_append, along_append, along_cons [] (Response.lane_tid kind)] at hlanes
  rw [← List.map_append, hlanes, List.map_append]
  rfl

end Simulator

end NeuralEngine
