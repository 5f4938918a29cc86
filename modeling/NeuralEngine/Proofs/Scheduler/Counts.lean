import Mathlib.Algebra.BigOperators.Fin
import NeuralEngine.Proofs.Channel.Traced
import NeuralEngine.Proofs.Scheduler.Dialogue

/-!
# Counting what takes place

The requests of a run can be counted in three places: in its history, in what is said on behalf of each
transaction, and in the trace of its channel. The counts agree. What is said on behalf of a transaction
that was read to the end has one request for the open, one for each register and each element, and as
many more as writes were refused as busy and reads were answered.
-/

namespace NeuralEngine

open scoped BigOperators

namespace Request

/-- The request writes an element. -/
def isDataWrite (r : Request) : Bool :=
  r.op? == some .writeData || r.op? == some .writeDataLast

/-- The request reads an output. -/
def isRead (r : Request) : Bool :=
  r.op? == some .readData

end Request

/-- The write of an element is refused as busy. -/
def isBusyWrite (request : Request) (answer : Response) : Bool :=
  request.isDataWrite && answer.exitCode == .queueBusy

/-- A read comes too early. -/
def isEarlyRead (request : Request) (answer : Response) : Bool :=
  request.isRead && answer.exitCode == .notDone

/-- A read is taken. -/
def isTakenRead (request : Request) (answer : Response) : Bool :=
  request.isRead && answer.exitCode == .ok

/-- A request is presented that suits, with its answer. -/
def Access.issues (p : Request → Response → Bool) : Access → Bool
  | issue request answer => p request answer
  | _ => false

/-- A request is presented that suits, with its answer. -/
def Event.issues {m : Nat} (p : Request → Response → Bool) : Event m → Bool
  | issued _ request answer => p request answer
  | _ => false

/-- A request is presented that suits, with its answer. -/
def Exchange.issues (p : Request → Response → Bool) : Exchange → Bool
  | .request r answer => p r answer
  | .question _ _ => false

/-! ## The trace of a run -/

/-- What the channel is asked in an event, if anything. -/
def Event.access? {m : Nat} : Event m → Option Access
  | issued _ request answer => some (.issue request answer)
  | stepped => some .step
  | polled answer => some (.poll answer)
  | asked _ tid done => some (.isDone tid done)
  | routed _ => none

section Trace

variable {σ : Type} [Channel σ] {m : Nat} {s s' : Traced σ}

theorem Event.Passes.trace_eq {e : Event m} (h : e.Passes s s') : s'.trace = s.trace ++ e.access?.toList := by
  cases e with
  | issued =>
    cases h
    rfl
  | stepped =>
    cases h
    rfl
  | polled =>
    cases h
    rfl
  | asked =>
    cases h
    rfl
  | routed =>
    cases h
    exact (List.append_nil _).symm

/-- The trace has what took place. -/
theorem Event.Play.trace_eq {history : List (Event m)} (h : Event.Play history s s') :
    s'.trace = s.trace ++ history.filterMap Event.access? := by
  induction history generalizing s with
  | nil =>
    cases h
    exact (List.append_nil _).symm
  | cons e history ih =>
    obtain ⟨u, hpasses, hplay⟩ := h
    rw [ih hplay, hpasses.trace_eq, List.append_assoc]
    cases e <;> rfl

end Trace

theorem countP_issues_access (p : Request → Response → Bool) {m : Nat} (history : List (Event m)) :
    (history.filterMap Event.access?).countP (Access.issues p) = history.countP (Event.issues p) := by
  rw [List.countP_filterMap]
  refine List.countP_congr fun e _ => ?_
  cases e <;> simp [Event.access?, Access.issues, Event.issues]

/-- Every request of a run is on behalf of one of its transactions. -/
theorem countP_issues_dialogue (p : Request → Response → Bool) {m : Nat} (history : List (Event m)) :
    history.countP (Event.issues p) = ∑ t : Fin m, (dialogue t history).countP (Exchange.issues p) := by
  induction history with
  | nil => simp
  | cons e history ih =>
    have hsplit : ∀ t : Fin m, (dialogue t (e :: history)).countP (Exchange.issues p) =
        (dialogue t [e]).countP (Exchange.issues p) + (dialogue t history).countP (Exchange.issues p) := by
      intro t
      rw [← List.countP_append, ← dialogue_append]
      rfl
    rw [Finset.sum_congr rfl fun t _ => hsplit t, Finset.sum_add_distrib, ← ih, List.countP_cons, Nat.add_comm]
    congr 1
    cases e with
    | issued u request answer =>
      have hshare : ∀ t : Fin m, (dialogue t [Event.issued u request answer]).countP (Exchange.issues p) =
          if u = t then if p request answer then 1 else 0 else 0 := by
        intro t
        cases hp : p request answer <;> by_cases hut : u = t <;>
          simp [dialogue, Event.exchange?, Exchange.issues, hut, hp]
      rw [Finset.sum_congr rfl fun t _ => hshare t, Finset.sum_ite_eq, if_pos (Finset.mem_univ u)]
      rfl
    | asked u tid done =>
      refine (Finset.sum_eq_zero fun t _ => ?_).symm
      by_cases hut : u = t <;> simp [dialogue, Event.exchange?, Exchange.issues, hut]
    | stepped => exact (Finset.sum_eq_zero fun t _ => rfl).symm
    | polled => exact (Finset.sum_eq_zero fun t _ => rfl).symm
    | routed => exact (Finset.sum_eq_zero fun t _ => rfl).symm

/-! ## What is said on behalf of a transaction -/

/-- The word has `own` requests beside those refused as busy, reads that come too early and `reads` reads
that are taken. -/
structure Balanced (own reads : Nat) (word : List Exchange) : Prop where
  issues_eq : word.countP (Exchange.issues fun _ _ => true) =
    own + word.countP (Exchange.issues isBusyWrite) + word.countP (Exchange.issues isEarlyRead) + reads
  reads_eq : word.countP (Exchange.issues isTakenRead) = reads

namespace Balanced

variable {own own' reads reads' : Nat} {word word' : List Exchange} {request : Request} {answer : Response}

theorem nil : Balanced 0 0 [] :=
  ⟨rfl, rfl⟩

theorem append (h : Balanced own reads word) (h' : Balanced own' reads' word') :
    Balanced (own + own') (reads + reads') (word ++ word') where
  issues_eq := by
    simp only [List.countP_append, h.issues_eq, h'.issues_eq]
    omega
  reads_eq := by rw [List.countP_append, h.reads_eq, h'.reads_eq]

theorem question (tid : Tid) (done : Bool) : Balanced 0 0 [.question tid done] :=
  ⟨rfl, rfl⟩

theorem accepted (write : request.isRead = false) (ok : answer.exitCode = .ok) :
    Balanced 1 0 [.request request answer] := by
  constructor <;> simp [Exchange.issues, isBusyWrite, isEarlyRead, isTakenRead, write, ok]

theorem busy (write : request.isDataWrite = true) (read : request.isRead = false)
    (code : answer.exitCode = .queueBusy) : Balanced 0 0 [.request request answer] := by
  constructor <;> simp [Exchange.issues, isBusyWrite, isEarlyRead, isTakenRead, write, read, code]

theorem early (read : request.isRead = true) (write : request.isDataWrite = false)
    (code : answer.exitCode = .notDone) : Balanced 0 0 [.request request answer] := by
  constructor <;> simp [Exchange.issues, isBusyWrite, isEarlyRead, isTakenRead, write, read, code]

theorem taken (read : request.isRead = true) (ok : answer.exitCode = .ok) :
    Balanced 0 1 [.request request answer] := by
  constructor <;> simp [Exchange.issues, isBusyWrite, isEarlyRead, isTakenRead, read, ok]

end Balanced

/-- Requests that are no reads, each presented until it is accepted. -/
theorem Taken.balanced {again : Option ExitCode} {requests : List Request} {word : List Exchange}
    (h : Taken again requests word) (writes : ∀ r ∈ requests, r.isRead = false)
    (busy : ∀ code, again = some code → code = .queueBusy ∧ ∀ r ∈ requests, r.isDataWrite = true) :
    Balanced requests.length 0 word := by
  induction h with
  | nil => exact .nil
  | @again request requests word answer code _ ih =>
    obtain ⟨hcode, hdata⟩ := busy _ code
    have hbusy := Balanced.busy (hdata request List.mem_cons_self) (writes request List.mem_cons_self) hcode
    have hword := hbusy.append (ih writes busy)
    rwa [Nat.zero_add] at hword
  | @accepted request requests word answer ok _ ih =>
    have hfirst := Balanced.accepted (writes request List.mem_cons_self) ok
    have hrest := ih (fun r hr => writes r (List.mem_cons_of_mem _ hr)) fun code hcode =>
      (busy code hcode).imp_right fun h r hr => h r (List.mem_cons_of_mem _ hr)
    have hword := hfirst.append hrest
    rwa [Nat.add_comm, ← List.length_cons] at hword

theorem Written.balanced {x : Transaction} {tid : Tid} {word : List Exchange} (h : Written x tid word) :
    Balanced (1 + x.registers.length + x.stream.size) 0 word := by
  cases h with
  | @intro opened registers elements ok registers_taken elements_taken =>
    have hregisters : Balanced x.registers.length 0 registers := by
      rw [← x.length_registerWrites tid]
      refine registers_taken.balanced (fun r hr => ?_) fun code hcode => by cases hcode
      obtain ⟨entry, -, rfl⟩ := List.mem_map.1 hr
      rfl
    have hwrites : ∀ r ∈ x.dataWrites tid, ∃ value last, r = .writeData tid value last := by
      intro r hr
      obtain ⟨j, hj, rfl⟩ := List.mem_mapIdx.1 hr
      exact ⟨_, _, rfl⟩
    have helements : Balanced x.stream.size 0 elements := by
      rw [← x.length_dataWrites tid]
      refine elements_taken.balanced (fun r hr => ?_) fun code hcode =>
        ⟨(Option.some.inj hcode).symm, fun r hr => ?_⟩
      · obtain ⟨value, last, rfl⟩ := hwrites r hr
        cases last <;> rfl
      · obtain ⟨value, last, rfl⟩ := hwrites r hr
        cases last <;> rfl
    have hopened : Balanced 1 0 [.request x.opening opened] := .accepted rfl ok
    have hword := hopened.append (hregisters.append helements)
    rwa [← Nat.add_assoc] at hword

theorem balanced_questions {tid : Tid} {waits : List Exchange} (h : ∀ e ∈ waits, e = .question tid false) :
    Balanced 0 0 waits := by
  induction waits with
  | nil => exact .nil
  | cons e waits ih =>
    obtain rfl := h e List.mem_cons_self
    exact (Balanced.question tid false).append (ih fun e he => h e (List.mem_cons_of_mem _ he))

theorem balanced_reads {tid : Tid} {reads : List Exchange} (h : ∀ e ∈ reads, IsRead tid e) :
    Balanced 0 (reads.countP Exchange.isAccepted) reads := by
  induction reads with
  | nil => exact .nil
  | cons e reads ih =>
    have hrest := ih fun e he => h e (List.mem_cons_of_mem _ he)
    obtain ⟨answer, rfl, hok | hearly⟩ := h e List.mem_cons_self
    · have htaken : Balanced 0 1 [.request (.readData tid) answer] := .taken rfl hok
      rw [List.countP_cons_of_pos (by simp [Exchange.isAccepted, hok]), Nat.add_comm]
      exact htaken.append hrest
    · have hearly' : Balanced 0 0 [.request (.readData tid) answer] := .early rfl rfl hearly
      rw [List.countP_cons_of_neg (by simp [Exchange.isAccepted, hearly]), ← Nat.zero_add (List.countP _ _)]
      exact hearly'.append hrest

/-- The requests on behalf of a transaction that is read. -/
theorem Said.balanced {x : Transaction} {tid : Tid} {reads : Nat} {word : List Exchange}
    (h : Said x tid (.reading reads) word) :
    Balanced (1 + x.registers.length + x.stream.size) reads word ∧ reads ≤ x.outputCount := by
  cases h with
  | @reading written waits rs written_ok waits_ok reads_ok reads_le =>
    have hwaited := written_ok.balanced.append (balanced_questions waits_ok)
    have hread := (Balanced.question tid true).append (balanced_reads reads_ok)
    have hword := hwaited.append hread
    simp only [Nat.add_zero, Nat.zero_add] at hword
    exact ⟨hword, reads_le⟩

end NeuralEngine
