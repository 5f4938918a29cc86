import NeuralEngine.Proofs.Client.Session
import NeuralEngine.Proofs.Simulator.Orderly

/-!
# Which identifier an open yields

An open over the simulator yields the identifier that the simulator has owed for the longest time. The
identifiers are handed out in the order of the opens that were accepted (`openTransaction_ok`), but an open
whose wait ran out of attempts leaves its identifier behind, and the next one takes it. So an open yields the
identifier of its own transaction if, and only if, none was owed before (`opens_yield_oldest_owed`).
-/

namespace NeuralEngine

namespace Simulator

variable {s s' : Simulator} {request : Request} {answer : Response} {tid : Tid}

/-- The request adds a transaction, and the identifier is the one that it is given. -/
def Assigns (s : Simulator) (request : Request) (tid : Tid) : Prop :=
  s.find? tid = none ∧ (s.issue request).2.find? tid ≠ none

instance : Decidable (s.Assigns request tid) :=
  inferInstanceAs (Decidable (_ ∧ _))

theorem Answers.assigns_iff {given : List Response} (h : Answers s s' request answer given tid)
    (free : s.find? tid = none) (found : s'.find? tid ≠ none) (x : Tid) :
    s.Assigns request x ↔ x = tid := by
  unfold Assigns
  rw [h.issue_eq]
  constructor
  · rintro ⟨hfree, hfound⟩
    by_contra hne
    exact hfound ((h.others x hne).find?_eq_none_iff.2 hfree)
  · rintro rfl
    exact ⟨free, found⟩

end Simulator

namespace Client

open Inversion Simulator

variable {c d : Client Simulator} {nnid : Nnid} {mode : LearningMode} {trainOutputs : BitVec 16}
  {tid : Tid} {r : Response}

/-- Whatever a client does, the simulator stays bound as it is, and as orderly. -/
theorem covers_evolves : Covers fun c d : Client Simulator => Evolves c.channel d.channel := by
  apply Covers.of_issue
  · constructor
    · exact fun c => .refl _
    · exact fun h h' => h.trans h'
    · intro c d step
      cases step with
      | count channel =>
        rw [channel]
        exact .refl _
      | idle channel =>
        rw [channel]
        exact .tick _
      | poll poll => exact .poll poll
      | capability read =>
        have hsame : c.channel = d.channel := congrArg Prod.snd read
        rw [← hsame]
        exact .refl _
      | request _ asks => exact .issue asks
  · exact fun _ _ _ c => .issue rfl

/-- A wait that yields an identifier yields the one that is owed for the longest time. -/
theorem awaitWithin_ok {attempts : Nat} (orderly : c.channel.Orderly) (inTime : d.channel.InTime)
    (kind : r.kind? = some .tid) (h : awaitWithin attempts c = .ok r d) : c.channel.owed = r.tid :: d.channel.owed := by
  induction attempts generalizing c with
  | zero => exact (throw_ok_iff.1 h).elim
  | succ attempts ih =>
    obtain ⟨answer, b, hpoll, h⟩ := bind_ok_iff.1 h
    have hpoll := poll_ok hpoll
    cases answer with
    | some response =>
      obtain ⟨-, rfl, rfl⟩ := accept_ok h
      exact owed_poll orderly ((Evolves.poll hpoll).inTime inTime) kind hpoll
    | none =>
      obtain ⟨_, b', hidle, h⟩ := bind_ok_iff.1 h
      obtain rfl := modify_ok_iff.1 hidle
      have hevolves : Evolves c.channel b.channel.tick := (Evolves.poll hpoll).trans (.tick _)
      have howed := ih (hevolves.orderly orderly) h
      rw [← howed]
      exact (owed_poll_none hpoll).symm

/-- The simulator owes identifiers in the order of the opens: an open adds its own behind those owed before,
and yields the first of all. -/
theorem openTransaction_ok (orderly : c.channel.Orderly) (inTime : d.channel.InTime)
    (h : openTransaction nnid mode trainOutputs c = .ok tid d) :
    ∃ own, (∀ x, c.channel.Assigns (.newTransaction nnid mode trainOutputs) x ↔ x = own) ∧
      own ∉ c.channel.owed ∧ c.channel.owed ++ [own] = tid :: d.channel.owed := by
  rw [openTransaction_eq] at h
  obtain ⟨answer, b, hopen, h⟩ := bind_ok_iff.1 h
  obtain ⟨response, e, hresponse, h⟩ := bind_ok_iff.1 h
  obtain ⟨hasks, hok⟩ := issueOpen_ok hopen
  have hissue : c.channel.issue (.newTransaction nnid mode trainOutputs) = (answer, b.channel) := hasks
  obtain ⟨o, r, next, -, -, hr, hanswers, hfree, hunsent, hfound⟩ :=
    opened_of_issue orderly rfl hissue hok
  obtain ⟨-, hkind, -⟩ := Response.of_tidAssigned hr
  have howed := owed_of_gives hkind hanswers.gives
  have hassigns := hanswers.assigns_iff hfree (by rw [hfound]; simp)
  have hnew : r.tid ∉ c.channel.owed := by
    intro hmem
    obtain ⟨r', hr', htid⟩ := List.mem_map.1 hmem
    obtain ⟨held, hheld, rfl⟩ := List.mem_map.1 (mem_along.1 hr').1
    exact hunsent held hheld htid
  split at h
  case isFalse => exact (throw_ok_iff.1 h).elim
  case isTrue hresponseKind =>
  obtain ⟨rfl, rfl⟩ := pure_ok_iff.1 h
  refine ⟨r.tid, hassigns, hnew, ?_⟩
  rw [← howed]
  split at hresponse
  · next hstatus =>
    -- the identifier is awaited, so nothing is handed over by the answer
    have hnone : answer.prompt = none := if_pos hstatus
    rw [hnone]
    exact awaitWithin_ok ((Evolves.issue hissue).orderly orderly) inTime hresponseKind hresponse
  · next hstatus =>
    obtain ⟨rfl, rfl⟩ := pure_ok_iff.1 hresponse
    have hprompt : answer.prompt = some answer := if_neg hstatus
    rw [hprompt, Option.toList_some, along_cons _ (Response.lane_tid hresponseKind)]
    rfl

/-- Whatever blocking calls a client makes over a simulator that starts without a transaction and without
a response held back, and whatever they yield, each open among them that succeeds while the clock is in time
yields the identifier that is owed for the longest time; it is the one of the open itself exactly if none was
owed before. -/
theorem opens_yield_oldest_owed (c : Client Simulator) (entries : c.channel.entries = [])
    (deferred : c.channel.deferred = []) (calls : List Call) :
    (∃ opens, Session c opens (calls.foldl perform c)) ∧
      ∀ opens, Session c opens (calls.foldl perform c) → ∀ o ∈ opens, ∀ tid d, o.result = .ok tid d →
        d.channel.InTime → ∃ own, (∀ x, o.start.channel.Assigns o.request x ↔ x = own) ∧
          o.start.channel.owed ++ [own] = tid :: d.channel.owed ∧
          (tid = own ↔ o.start.channel.owed = []) := by
  refine ⟨covers_session.performAll c calls, fun opens session o ho tid d hresult inTime => ?_⟩
  have hevolves := (session.covered covers_evolves).2 o ho
  obtain ⟨own, hassigns, hnew, howed⟩ :=
    openTransaction_ok (hevolves.orderly (orderly_of_empty entries deferred)) inTime hresult
  refine ⟨own, hassigns, howed, ?_⟩
  cases hold : o.start.channel.owed with
  | nil =>
    rw [hold] at howed
    simp only [List.nil_append, List.cons.injEq] at howed
    exact iff_of_true howed.1.symm rfl
  | cons first rest =>
    rw [hold] at howed hnew
    simp only [List.cons_append, List.cons.injEq] at howed
    rw [← howed.1]
    refine iff_of_false ?_ (List.cons_ne_nil _ _)
    rintro rfl
    exact hnew List.mem_cons_self

/-- A client of two attempts over a simulator of four rows that holds identifiers back for two steps. -/
def impatient : Client Simulator where
  channel := { withCapacity 4 with
    options := { tidDelay := some 2 }
    table := some { spaces := [{ capacity := 1, configs := [.ofWords [0, 1]] }], configsPerSpace := 1 }
    asid := some 0 }
  retryLimit := 2

/-- The open that the client makes again and again. -/
def attempt : Call :=
  .openTransaction 0 .feedforward 0

/-- The second open of the client yields the identifier that is owed for the longest time. -/
theorem impatient_yields_oldest_owed :
    impatient.channel.entries = [] ∧ impatient.channel.deferred = [] ∧
      ∃ d own, openTransaction 0 .feedforward 0 (impatient.perform attempt) = .ok 0 d ∧
        (∀ x, (impatient.perform attempt).channel.Assigns (.newTransaction 0 .feedforward 0) x ↔ x = own) ∧
        (impatient.perform attempt).channel.owed ++ [own] = 0 :: d.channel.owed := by
  have hfirst : Session impatient [⟨impatient, 0, .feedforward, 0⟩] (impatient.perform attempt) :=
    .opened ⟨impatient, 0, .feedforward, 0⟩ (.refl impatient)
  have hsession := Session.opened ⟨impatient.perform attempt, 0, .feedforward, 0⟩ hfirst
  obtain ⟨d, hd, hinTime⟩ :
      ∃ d, openTransaction 0 .feedforward 0 (impatient.perform attempt) = .ok 0 d ∧ d.channel.InTime := by
    refine ⟨_, rfl, ?_⟩
    rintro (_ | tid) steps ⟨⟩
    exact (by decide +kernel : 4 + 2 < 2 ^ 64)
  obtain ⟨-, hopens⟩ := opens_yield_oldest_owed impatient rfl rfl [attempt, attempt]
  have hlast : (⟨impatient.perform attempt, 0, .feedforward, 0⟩ : OpenCall Simulator) ∈
      [⟨impatient, 0, .feedforward, 0⟩] ++ [⟨impatient.perform attempt, 0, .feedforward, 0⟩] :=
    List.mem_append_right _ List.mem_cons_self
  obtain ⟨own, hassigns, howed, -⟩ := hopens _ hsession _ hlast 0 d hd hinTime
  exact ⟨rfl, rfl, d, own, hd, hassigns, howed⟩

/-- The first open leaves its identifier behind, and the second one takes it. -/
theorem second_open_yields_first_identifier :
    impatient.channel.entries = [] ∧ impatient.channel.deferred = [] ∧
      (impatient.perform attempt).channel.owed = [0] ∧
      (impatient.perform attempt).channel.Assigns (.newTransaction 0 .feedforward 0) 1 ∧
      ∃ d, openTransaction 0 .feedforward 0 (impatient.perform attempt) = .ok 0 d := by
  refine ⟨rfl, rfl, by decide +kernel, by decide +kernel, _, rfl⟩

end Client

end NeuralEngine
