import NeuralEngine.Proofs.Scheduler.Turn
import NeuralEngine.Proofs.Scheduler.Update

/-!
# The steps of a run

A run goes on in small steps: it refills its slots, lets a slot have its turn, polls, asks whether
a transaction has finished, or routes the next of the responses in its inbox. `Step` has one case
for each, with what passes between the run and its channel, and `Reach` collects steps into the
history of a run. It allows more orders of steps than the cycles of a run have, which costs
nothing: what every step preserves holds at every point of every run.
-/

namespace NeuralEngine

namespace Event

variable {σ : Type} [Channel σ] {m : Nat}

/-- The events, in order, take the channel from one state to another. -/
def Play : List (Event m) → σ → σ → Prop
  | [], s, s' => s = s'
  | e :: es, s, s' => ∃ u, e.Passes s u ∧ Play es u s'

theorem play_append {es fs : List (Event m)} {s s' : σ} :
    Play (es ++ fs) s s' ↔ ∃ u, Play es s u ∧ Play fs u s' := by
  induction es generalizing s with
  | nil => simp [Play]
  | cons e es ih =>
    simp only [List.cons_append, Play, ih]
    constructor
    · rintro ⟨u, hu, v, hv, hs⟩
      exact ⟨v, ⟨u, hu, hv⟩, hs⟩
    · rintro ⟨v, ⟨u, hu, hv⟩, hs⟩
      exact ⟨u, hu, v, hv, hs⟩

/-- The answers are part of the events, and so is all that a channel can choose. -/
theorem passes_unique {e : Event m} {s u v : σ} (hu : e.Passes s u) (hv : e.Passes s v) : u = v := by
  cases e with
  | issued => exact congrArg Prod.snd (hu.symm.trans hv)
  | stepped => exact hu.symm.trans hv
  | polled => exact congrArg Prod.snd (hu.symm.trans hv)
  | asked => exact congrArg Prod.snd (hu.symm.trans hv)
  | routed => exact hu.symm.trans hv

theorem play_unique {es : List (Event m)} {s u v : σ} (hu : Play es s u) (hv : Play es s v) : u = v := by
  induction es generalizing s with
  | nil => exact hu.symm.trans hv
  | cons e es ih =>
    obtain ⟨w, hw, hu⟩ := hu
    obtain ⟨w', hw', hv⟩ := hv
    obtain rfl := passes_unique hw hw'
    exact ih hu hv

@[simp] theorem play_singleton {e : Event m} {s s' : σ} : Play [e] s s' ↔ e.Passes s s' := by
  simp [Play]

end Event

namespace Run

variable {σ : Type} {n m : Nat}

/-- The run after a poll. -/
def takeIn (answer : Option Response) (c : Client σ) (run : Run σ n m) : Run σ n m :=
  { run with client := c }.tally fun r =>
    { r with deferredResponses := r.deferredResponses + answer.toList.length }

/-- The run after the question whether the transaction of slot `i` has finished. -/
def learn (i : Fin n) (done : Bool) (c : Client σ) (run : Run σ n m) : Run σ n m :=
  if done then { run with client := c }.modifySlot i (·.transition .read)
  else { run with client := c }

theorem client_learn (run : Run σ n m) (i : Fin n) (done : Bool) (c : Client σ) :
    (run.learn i done c).client = c := by
  cases done <;> rfl

variable [Channel σ]

/-- One step of a run, between points that consist of the responses to be routed and a state. -/
inductive Step : List Response → Run σ n m → List (Event m) → List Response → Run σ n m → Prop where
  | refill {run : Run σ n m} : Step [] run [] [] run.refill
  | turn {run run' : Run σ n m} {event : Event m} {prompt : Option Response}
      (turn : Turn run event prompt run') : Step [] run [event] prompt.toList run'.countCycle
  | poll {inbox : List Response} {run : Run σ n m} {answer : Option Response} {c : Client σ}
      (poll : Channel.poll run.client.channel = (answer, c.channel)) :
      Step inbox run [.polled answer] (inbox ++ answer.toList) (run.takeIn answer c)
  | ask {inbox : List Response} {run : Run σ n m} {i : Fin n} {t : Fin m} {tid : Tid} {done : Bool}
      {c : Client σ} (state : run.slots[i].state = .executing)
      (holds : run.slots[i].transaction = some t) (tid_eq : run.slots[i].tid = some tid)
      (ask : Channel.isDone tid run.client.channel = (done, c.channel)) :
      Step inbox run [.asked t tid done] inbox (run.learn i done c)
  | route {response : Response} {inbox : List Response} {run run' : Run σ n m}
      (delivered : Delivered run response run') :
      Step (response :: inbox) run [.routed response] inbox run'

/-- The points that a run comes to, each with its history. -/
inductive Reach (start : Run σ n m) : List (Event m) → List Response → Run σ n m → Prop where
  | start : Reach start [] [] start
  | step {history events : List (Event m)} {inbox inbox' : List Response} {run run' : Run σ n m}
      (reach : Reach start history inbox run) (step : Step inbox run events inbox' run') :
      Reach start (history ++ events) inbox' run'

theorem Reach.silent {start run run' : Run σ n m} {history : List (Event m)}
    {inbox inbox' : List Response} (h : Reach start history inbox run)
    (s : Step inbox run [] inbox' run') : Reach start history inbox' run' := by
  have hstep := h.step s
  rwa [List.append_nil] at hstep

/-- What a run preserves holds wherever it comes to. -/
theorem Reach.invariant {start : Run σ n m} {P : List (Event m) → List Response → Run σ n m → Prop}
    (initial : P [] [] start)
    (preserved : ∀ {history events : List (Event m)} {inbox inbox' : List Response}
      {run run' : Run σ n m}, P history inbox run → Step inbox run events inbox' run' →
        P (history ++ events) inbox' run')
    {history : List (Event m)} {inbox : List Response} {run : Run σ n m}
    (h : Reach start history inbox run) : P history inbox run := by
  induction h with
  | start => exact initial
  | step _ step ih => exact preserved ih step

theorem Turn.passes {run run' : Run σ n m} {event : Event m} {prompt : Option Response}
    (h : Turn run event prompt run') : event.Passes run.client.channel run'.client.channel := by
  cases h with
  | idle _ step => exact step
  | opened _ _ asks => exact asks
  | registered _ _ _ asks => exact asks
  | accepted _ _ _ _ _ asks => exact asks
  | busy _ _ _ _ _ asks => exact asks
  | read _ _ asks => exact asks
  | notDone _ _ asks => exact asks

theorem FailedTurn.passes {run run' : Run σ n m} {event : Event m} {e : SchedulerError}
    (h : FailedTurn run event e run') : event.Passes run.client.channel run'.client.channel := by
  cases h with
  | refused _ asks => exact asks
  | unexpected _ asks => exact asks

theorem Step.play {inbox inbox' : List Response} {run run' : Run σ n m} {events : List (Event m)}
    (h : Step inbox run events inbox' run') :
    Event.Play events run.client.channel run'.client.channel := by
  cases h with
  | refill => rw [client_refill, Event.Play]
  | turn turn => exact Event.play_singleton.2 turn.passes
  | poll poll => exact Event.play_singleton.2 poll
  | ask _ _ _ ask =>
    rw [client_learn]
    exact Event.play_singleton.2 ask
  | route delivered =>
    rw [delivered.client_eq]
    exact Event.play_singleton.2 rfl

/-- The history of a run is what took its channel to where it is. -/
theorem Reach.play {start run : Run σ n m} {history : List (Event m)} {inbox : List Response}
    (h : Reach start history inbox run) :
    Event.Play history start.client.channel run.client.channel :=
  h.invariant (P := fun history _ run => Event.Play history start.client.channel run.client.channel)
    rfl fun hp hs => Event.play_append.2 ⟨_, hp, hs.play⟩

end Run

end NeuralEngine
