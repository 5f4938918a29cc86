import NeuralEngine.Client.Blocking
import NeuralEngine.Proofs.Inversion
import NeuralEngine.Proofs.Request

/-!
# What a single attempt does

Each attempt of a client presents one request. It succeeds on the codes that the request tolerates,
`ok` and for a write or a read the transient one, and fails on every other code; in both cases the
channel is left as the request left it.
-/

namespace NeuralEngine

namespace Request

variable {tid : Tid} {value : Element} {last : Bool} {code : ExitCode}

/-- The request is not refused with the code: it succeeds, or it may be presented again. -/
def tolerates (r : Request) (code : ExitCode) : Bool :=
  match code, r.op? with
  | .ok, _ => true
  | .queueBusy, some .writeData | .queueBusy, some .writeDataLast => true
  | .notDone, some .readData => true
  | _, _ => false

@[simp] theorem tolerates_ok (r : Request) : r.tolerates .ok = true := by
  simp [tolerates]

theorem tolerates_newTransaction {nnid : Nnid} {mode : LearningMode} {trainOutputs : BitVec 16}
    (h : code ≠ .ok) : (newTransaction nnid mode trainOutputs).tolerates code = false := by
  cases code <;> simp_all [tolerates]

theorem tolerates_setRegister {register : Register} {value : RegisterValue} (h : code ≠ .ok) :
    (setRegister tid register value).tolerates code = false := by
  cases code <;> simp_all [tolerates]

theorem tolerates_writeData (h : code ≠ .ok) (hb : code ≠ .queueBusy) :
    (writeData tid value last).tolerates code = false := by
  cases last <;> cases code <;> simp_all [tolerates]

theorem tolerates_writeData_busy (tid : Tid) (value : Element) (last : Bool) :
    (writeData tid value last).tolerates .queueBusy = true := by
  cases last <;> simp [tolerates]

theorem tolerates_readData (h : code ≠ .ok) (hn : code ≠ .notDone) :
    (readData tid).tolerates code = false := by
  cases code <;> simp_all [tolerates]

theorem tolerates_readData_notDone (tid : Tid) : (readData tid).tolerates .notDone = true := by
  simp [tolerates]

end Request

namespace Client

open Inversion

variable {σ α : Type} {c d : Client σ} {e : ClientError}

theorem fatal_ok {code : ExitCode} {a : α} (h : (fatal code : ClientM σ α) c = .ok a d) : False := by
  simp [fatal, count] at h

theorem fatal_error {code : ExitCode} (h : (fatal code : ClientM σ α) c = .error e d) :
    e = .engine code ∧ d.channel = c.channel := by
  simp only [fatal, count, bind_error_iff, modify_error_iff, modify_ok_iff, throw_error_iff,
    false_or] at h
  obtain ⟨-, -, rfl, rfl, rfl⟩ := h
  exact ⟨rfl, rfl⟩

theorem count_return_ok {f : Statistics → Statistics} {a b : α}
    (h : (do count f; return a : ClientM σ α) c = .ok b d) : b = a ∧ d.channel = c.channel := by
  simp only [count, bind_ok_iff, modify_ok_iff, pure_ok_iff] at h
  obtain ⟨-, _, rfl, rfl, rfl⟩ := h
  exact ⟨rfl, rfl⟩

theorem count_return_error {f : Statistics → Statistics} {a : α}
    (h : (do count f; return a : ClientM σ α) c = .error e d) : False := by
  simp only [count, bind_error_iff, modify_error_iff, pure_error_iff, and_false, exists_false,
    or_false] at h

theorem accept_of_ne {r : Response} (h : r.exitCode ≠ .ok) :
    (accept r : ClientM σ Response) = fatal r.exitCode := by
  unfold accept
  split
  · contradiction
  · rfl

theorem accept_of_ok {r : Response} (h : r.exitCode = .ok) : (accept r : ClientM σ Response) = pure r := by
  unfold accept
  rw [h]

theorem accept_ok {r a : Response} (h : accept r c = .ok a d) : r.exitCode = .ok ∧ a = r ∧ d = c := by
  by_cases hr : r.exitCode = .ok
  · rw [accept_of_ok hr, pure_ok_iff] at h
    exact ⟨hr, h.1.symm, h.2.symm⟩
  · rw [accept_of_ne hr] at h
    exact (fatal_ok h).elim

theorem accept_error {r : Response} (h : accept r c = .error e d) :
    r.exitCode ≠ .ok ∧ e = .engine r.exitCode ∧ d.channel = c.channel := by
  by_cases hr : r.exitCode = .ok
  · rw [accept_of_ok hr, pure_error_iff] at h
    exact h.elim
  · rw [accept_of_ne hr] at h
    exact ⟨hr, fatal_error h⟩

variable [Channel σ]

/-- The client presents a request and is answered; the channel goes on as the request left it. -/
def Asks (c : Client σ) (request : Request) (answer : Response) (d : Client σ) : Prop :=
  Channel.issue request c.channel = (answer, d.channel)

theorem Asks.congr {request : Request} {a : Response} {b : Client σ} (h : c.Asks request a b)
    (hd : d.channel = b.channel) : c.Asks request a d := by
  rw [Asks, hd]
  exact h

theorem asks_of_issue {request : Request} {a : Response} (h : issue request c = .ok a d) :
    c.Asks request a d := by
  simp only [issue, modifyGet_ok_iff, Prod.mk.injEq] at h
  obtain ⟨rfl, rfl⟩ := h
  rfl

theorem issue_error {request : Request} (h : issue request c = .error e d) : False := by
  simp [issue] at h

theorem issueOpen_ok {nnid : Nnid} {mode : LearningMode} {k : BitVec 16} {a : Response}
    (h : issueOpen nnid mode k c = .ok a d) :
    c.Asks (.newTransaction nnid mode k) a d ∧ a.exitCode = .ok := by
  obtain ⟨answer, b, hi, h⟩ := bind_ok_iff.1 h
  obtain ⟨hok, rfl, rfl⟩ := accept_ok h
  exact ⟨asks_of_issue hi, hok⟩

theorem issueOpen_error {nnid : Nnid} {mode : LearningMode} {k : BitVec 16}
    (h : issueOpen nnid mode k c = .error e d) :
    ∃ a, c.Asks (.newTransaction nnid mode k) a d ∧ a.exitCode ≠ .ok ∧ e = .engine a.exitCode := by
  obtain h | ⟨answer, b, hi, h⟩ := bind_error_iff.1 h
  · exact (issue_error h).elim
  obtain ⟨hne, he, hd⟩ := accept_error h
  exact ⟨answer, (asks_of_issue hi).congr hd, hne, he⟩

theorem writeRegister_ok {tid : Tid} {register : Register} {value : RegisterValue} {u : Unit}
    (h : writeRegister tid register value c = .ok u d) :
    ∃ a, c.Asks (.setRegister tid register value) a d ∧ a.exitCode = .ok := by
  obtain ⟨answer, b, hi, h⟩ := bind_ok_iff.1 h
  obtain ⟨a, b', hacc, h⟩ := bind_ok_iff.1 h
  obtain ⟨-, rfl⟩ := pure_ok_iff.1 h
  obtain ⟨hok, rfl, rfl⟩ := accept_ok hacc
  exact ⟨_, asks_of_issue hi, hok⟩

theorem writeRegister_error {tid : Tid} {register : Register} {value : RegisterValue}
    (h : writeRegister tid register value c = .error e d) :
    ∃ a, c.Asks (.setRegister tid register value) a d ∧ a.exitCode ≠ .ok ∧ e = .engine a.exitCode := by
  obtain h | ⟨answer, b, hi, h⟩ := bind_error_iff.1 h
  · exact (issue_error h).elim
  obtain h | ⟨a, b', -, h⟩ := bind_error_iff.1 h
  · obtain ⟨hne, he, hd⟩ := accept_error h
    exact ⟨answer, (asks_of_issue hi).congr hd, hne, he⟩
  · exact (pure_error_iff.1 h).elim

theorem tryWrite_ok {tid : Tid} {value : Element} {last : Bool} {w : WriteStatus}
    (h : tryWrite tid value last c = .ok w d) :
    ∃ a, c.Asks (.writeData tid value last) a d ∧
      (w = .accepted ∧ a.exitCode = .ok ∨ w = .busy ∧ a.exitCode = .queueBusy) := by
  obtain ⟨answer, b, hi, h⟩ := bind_ok_iff.1 h
  have hask := asks_of_issue hi
  cases hcode : answer.exitCode <;> simp only [hcode] at h
  case ok =>
    obtain ⟨rfl, rfl⟩ := pure_ok_iff.1 h
    exact ⟨answer, hask, .inl ⟨rfl, hcode⟩⟩
  case queueBusy =>
    obtain ⟨rfl, hd⟩ := count_return_ok h
    exact ⟨answer, hask.congr hd, .inr ⟨rfl, hcode⟩⟩
  all_goals exact (fatal_ok h).elim

theorem tryWrite_error {tid : Tid} {value : Element} {last : Bool}
    (h : tryWrite tid value last c = .error e d) :
    ∃ a, c.Asks (.writeData tid value last) a d ∧ a.exitCode ≠ .ok ∧ a.exitCode ≠ .queueBusy ∧
      e = .engine a.exitCode := by
  obtain h | ⟨answer, b, hi, h⟩ := bind_error_iff.1 h
  · exact (issue_error h).elim
  have hask := asks_of_issue hi
  cases hcode : answer.exitCode <;> simp only [hcode] at h
  case ok => exact (pure_error_iff.1 h).elim
  case queueBusy => exact (count_return_error h).elim
  all_goals
    obtain ⟨rfl, hd⟩ := fatal_error h
    exact ⟨answer, hask.congr hd, by simp [hcode], by simp [hcode], by rw [hcode]⟩

theorem tryRead_ok {tid : Tid} {w : ReadStatus} (h : tryRead tid c = .ok w d) :
    ∃ a, c.Asks (.readData tid) a d ∧
      (w = .data a ∧ a.exitCode = .ok ∧ a.kind? = some .data ∨
        w = .deferred ∧ a.exitCode = .ok ∧ a.kind? = some .status ∨
        w = .notDone ∧ a.exitCode = .notDone) := by
  obtain ⟨answer, b, hi, h⟩ := bind_ok_iff.1 h
  have hask := asks_of_issue hi
  cases hcode : answer.exitCode <;> simp only [hcode] at h
  case ok =>
    rcases hkind : answer.kind? with - | (- | - | -) <;> simp only [hkind] at h
    case some.status =>
      obtain ⟨rfl, rfl⟩ := pure_ok_iff.1 h
      exact ⟨answer, hask, .inr (.inl ⟨rfl, hcode, hkind⟩)⟩
    case some.data =>
      obtain ⟨rfl, rfl⟩ := pure_ok_iff.1 h
      exact ⟨answer, hask, .inl ⟨rfl, hcode, hkind⟩⟩
    all_goals exact (throw_ok_iff.1 h).elim
  case notDone =>
    obtain ⟨rfl, hd⟩ := count_return_ok h
    exact ⟨answer, hask.congr hd, .inr (.inr ⟨rfl, hcode⟩)⟩
  all_goals exact (fatal_ok h).elim

theorem tryRead_error {tid : Tid} (h : tryRead tid c = .error e d) :
    ∃ a, c.Asks (.readData tid) a d ∧
      (a.exitCode ≠ .ok ∧ a.exitCode ≠ .notDone ∧ e = .engine a.exitCode ∨
        a.exitCode = .ok ∧ a.kind? ≠ some .data ∧ a.kind? ≠ some .status ∧ e = .unexpectedResponse) := by
  obtain h | ⟨answer, b, hi, h⟩ := bind_error_iff.1 h
  · exact (issue_error h).elim
  have hask := asks_of_issue hi
  cases hcode : answer.exitCode <;> simp only [hcode] at h
  case ok =>
    rcases hkind : answer.kind? with - | (- | - | -) <;> simp only [hkind] at h
    case some.status => exact (pure_error_iff.1 h).elim
    case some.data => exact (pure_error_iff.1 h).elim
    all_goals
      obtain ⟨rfl, rfl⟩ := throw_error_iff.1 h
      exact ⟨answer, hask, .inr ⟨hcode, by simp [hkind], by simp [hkind], rfl⟩⟩
  case notDone => exact (count_return_error h).elim
  all_goals
    obtain ⟨rfl, hd⟩ := fatal_error h
    exact ⟨answer, hask.congr hd,
      .inl ⟨by simp [hcode], by simp [hcode], by rw [hcode]⟩⟩

/-! ## Calls that cannot fail -/

theorem poll_ok {answer : Option Response} (h : poll c = .ok answer d) :
    Channel.poll c.channel = (answer, d.channel) := by
  simp only [poll, modifyGet_ok_iff, Prod.mk.injEq] at h
  obtain ⟨rfl, rfl⟩ := h
  rfl

theorem poll_error (h : (poll : ClientM σ (Option Response)) c = .error e d) : False := by
  simp [poll] at h

theorem isDone_ok {tid : Tid} {done : Bool} (h : isDone tid c = .ok done d) :
    Channel.isDone tid c.channel = (done, d.channel) := by
  simp only [isDone, modifyGet_ok_iff, Prod.mk.injEq] at h
  obtain ⟨rfl, rfl⟩ := h
  rfl

theorem isDone_error {tid : Tid} (h : isDone tid c = .error e d) : False := by
  simp [isDone] at h

theorem pollWithin_error {limit : Nat} (h : (pollWithin limit : ClientM σ (List Response)) c = .error e d) :
    False := by
  induction limit generalizing c with
  | zero => exact (pure_error_iff.1 h).elim
  | succ limit ih =>
    obtain h | ⟨answer, b, -, h⟩ := bind_error_iff.1 h
    · exact poll_error h
    cases answer with
    | none => exact (pure_error_iff.1 h).elim
    | some response =>
      obtain h | ⟨rest, b', -, h⟩ := bind_error_iff.1 h
      · exact ih h
      · exact (pure_error_iff.1 h).elim

end Client

end NeuralEngine
