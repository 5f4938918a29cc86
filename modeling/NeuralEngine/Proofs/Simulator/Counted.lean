import NeuralEngine.Proofs.Simulator.Performs

/-!
# What a request counts for

A client sorts the answers to its requests by their codes: a write that is put off, a read that comes too
early, a refusal. The simulator counts where it answers. `Counted` has both sides: whatever a raw request is,
the simulator counts it as a client does that sees only its answer (`counted_of_issue`).
-/

namespace NeuralEngine

/-- The statistics of a client after the answer to a request. -/
def Client.Statistics.addAnswer (request : Request) (code : ExitCode) (t : Client.Statistics) :
    Client.Statistics :=
  match code, request.op? with
  | .ok, _ => t
  | .queueBusy, some .writeData | .queueBusy, some .writeDataLast => { t with busyRetries := t.busyRetries + 1 }
  | .notDone, some .readData => { t with notDonePolls := t.notDonePolls + 1 }
  | _, _ => { t with fatalCodes := t.fatalCodes + 1 }

theorem Client.Statistics.addAnswer_of_isFatal (request : Request) {code : ExitCode}
    (fatal : code.isFatal = true) (t : Client.Statistics) :
    t.addAnswer request code = { t with fatalCodes := t.fatalCodes + 1 } := by
  cases code with
  | ok => cases fatal
  | queueBusy => cases fatal
  | notDone => cases fatal
  | _ => rfl

namespace Simulator

variable {s s' u : Simulator} {request : Request} {answer : Response}

/-- The simulator is as it was built: it holds nothing, has nothing to hand out and has counted nothing. -/
structure Unused (s : Simulator) : Prop where
  entries : s.entries = []
  deferred : s.deferred = []
  issued : s.issued = []
  delivered : s.delivered = []
  cycle : s.cycle = 0
  statistics : s.statistics = {}

theorem unused_of_ofParams {params : EngineParams} (h : ofParams params = .ok s) : s.Unused := by
  unfold ofParams at h
  split at h
  · cases h
    exact ⟨rfl, rfl, rfl, rfl, rfl, rfl⟩
  · cases h

/-- What the simulator has counted, as a client counts it. -/
def counts (s : Simulator) : Client.Statistics where
  busyRetries := s.statistics.busyResponses
  notDonePolls := s.statistics.notDoneResponses
  fatalCodes := s.statistics.fatalResponses
  deferredResponses := s.delivered.length

/-- The request has entered the history and was counted by its code, and no response that is held back is
a refusal. -/
structure Counted (s s' : Simulator) (request : Request) (code : ExitCode) : Prop where
  issued : s'.issued = request :: s.issued
  cycle : s'.cycle = s.cycle + 1
  counts : s'.counts = s.counts.addAnswer request code
  fault : s'.fault = s.fault
  deferred : ∀ d ∈ s'.deferred, d ∈ s.deferred ∨ d.response.exitCode = .ok

/-- The response to an accepted request may be held back. -/
theorem counted_of_respond {r : Response} (ok : r.exitCode = .ok) (kind : r.kind? ≠ some .status)
    {delay : Option Nat} (issued : u.issued = request :: s.issued) (cycle : u.cycle = s.cycle + 1)
    (counts : u.counts = s.counts) (fault : u.fault = s.fault) (deferred : u.deferred = s.deferred)
    (h : u.respond (some r) delay = (answer, s')) : Counted s s' request answer.exitCode := by
  have hok := (respond_some ok kind h).1
  rw [hok]
  cases responded h with
  | prompt => exact ⟨issued, cycle, counts, fault, fun d hd => .inl (deferred ▸ hd)⟩
  | held =>
    refine ⟨issued, cycle, counts, fault, fun d hd => ?_⟩
    obtain hd | hd := List.mem_append.1 hd
    · exact .inl (deferred ▸ hd)
    · obtain rfl := List.mem_singleton.1 hd
      exact .inr ok

/-- The simulator runs out of identifiers at a request, or it counts the request by its answer. -/
theorem counted_of_issue (narrow : s.Narrow) (h : s.issue request = (answer, s')) :
    s' = ((s.record request).fail .identifiersExhausted).2 ∨ Counted s s' request answer.exitCode := by
  obtain ⟨code, hrefused, rfl, rfl⟩ | hperform := issue_cases h
  · right
    rw [Response.exitCode_status]
    refine ⟨rfl, rfl, ?_, rfl, fun d hd => .inl hd⟩
    exact (Client.Statistics.addAnswer_of_isFatal request (perform_error hrefused) s.counts).symm
  cases performs_of_ok hperform with
  | exhausted => exact .inl rfl
  | @opened o tid next _ t _ check _ respond =>
    right
    obtain ⟨r, hr⟩ := Response.exists_tidAssigned ((narrow_iff_of_checkOpen check).1 narrow) tid
    obtain ⟨hok, hkind, -⟩ := Response.of_tidAssigned hr
    rw [hr] at respond
    have hcounted : Counted s t request answer.exitCode :=
      counted_of_respond (u := (s.record request).addEntry (o.entry tid) next) hok (by simp [hkind]) rfl rfl rfl
        rfl rfl respond
    exact ⟨hcounted.issued, hcounted.cycle, hcounted.counts, hcounted.fault, hcounted.deferred⟩
  | registered => exact .inr ⟨rfl, rfl, rfl, rfl, fun d hd => .inl hd⟩
  | busy e last op =>
    right
    refine ⟨rfl, rfl, ?_, rfl, fun d hd => .inl hd⟩
    unfold Client.Statistics.addAnswer
    rw [op]
    cases last <;> rfl
  | enqueued => exact .inr ⟨rfl, rfl, rfl, rfl, fun d hd => .inl hd⟩
  | notDone e op =>
    right
    refine ⟨rfl, rfl, ?_, rfl, fun d hd => .inl hd⟩
    unfold Client.Statistics.addAnswer
    rw [op]
    rfl
  | read e value rest _ _ _ _ respond =>
    right
    have hnarrow : (s.record request).Narrow := narrow
    obtain ⟨r, hr⟩ := Response.exists_dataOut hnarrow request.tid value
    obtain ⟨hok, hkind, -⟩ := Response.of_dataOut hr
    rw [hr] at respond
    exact counted_of_respond (u := (s.record request).leaveOutputs request.tid rest) hok (by simp [hkind]) rfl rfl
      rfl rfl rfl respond

end Simulator

end NeuralEngine
