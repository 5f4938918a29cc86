import NeuralEngine.Scheduler.Run

/-!
# Routing responses

A response that is not a bare status is routed to the slot that it is for. An identifier belongs to
the slot that has stood in line for longest, since identifiers come in the order of the opens. A
data word is tagged with its identifier. A response that no slot waits for, or that finds its slot
in the wrong state, ends the run.
-/

namespace NeuralEngine.Run

variable {σ : Type} {n m : Nat}

/-- Gives an identifier to slot `i` and its transaction `t`, which can then be written; the slots
of `rest` still await one. -/
def assign (i : Fin n) (t : Fin m) (tid : Tid) (rest : List (Fin n)) (run : Run σ n m) : Run σ n m :=
  { (run.modifyTransaction t fun x => { x with tid := some tid }).modifySlot i fun s =>
      { s with tid := some tid, state := .write } with
    awaitingTid := rest
    routes := (tid, i) :: run.routes }

/-- Gives an identifier to the slot that has awaited one for longest. -/
def routeTid (tid : Tid) (run : Run σ n m) : Except SchedulerError (Run σ n m) :=
  match run.awaitingTid with
  | [] => .error .unrecognizedResponse
  | i :: rest =>
    match run.slots[i].state, run.routes.lookup tid, run.slots[i].transaction with
    | .newWriteWait, none, some t => .ok (run.assign i t tid rest)
    | _, _, _ => .error .slotStateInconsistent

/-- Frees the slot of a transaction that is complete. -/
def finish (i : Fin n) (tid : Tid) (run : Run σ n m) : Run σ n m :=
  { (run.modifySlot i fun _ => Slot.empty).tally fun r => { r with completed := r.completed + 1 } with
    routes := run.routes.filter fun route => route.1 != tid }

/-- Gives an output to the transaction that it is tagged with. The slot of a transaction that is
complete is free again. -/
def routeData (tid : Tid) (value : Element) (run : Run σ n m) : Except SchedulerError (Run σ n m) :=
  match run.routes.lookup tid with
  | none => .error .unrecognizedResponse
  | some i =>
    match run.slots[i].transaction with
    | none => .error .slotStateInconsistent
    | some t =>
      if run.slots[i].state = .read ∨ run.slots[i].state = .readWait then
        let given := run.modifyTransaction t (·.addOutput value)
        .ok (if given.transactions[t].isComplete then given.finish i tid else given)
      else .error .slotStateInconsistent

/-- Routes a response to where it is awaited. -/
def route (response : Response) (run : Run σ n m) : Except SchedulerError (Run σ n m) :=
  match response.kind? with
  | some .tid => run.routeTid response.tid
  | some .data => run.routeData response.tid response.element
  | _ => .error .unrecognizedResponse

end NeuralEngine.Run
