import NeuralEngine.Proofs.Scheduler.Tenancy

/-!
# A run over the simulator

What ties a run to the simulator that it drives alone. `Service` adds to the match of the two that the
simulator holds nothing but the transactions of the run: its entries and what it holds back are theirs, and
their identifiers are those that it gave to their opens. Every step of the run and every request that it
presents preserve this, so the simulator never refuses a request and no response is misrouted.
-/

namespace NeuralEngine

open Simulator

/-- The open of transaction `t` was presented in a state in which the engine gave it the identifier. -/
def Allocated {m : Nat} (engine : Simulator) (work : Vector Transaction m) (history : List (Event m))
    (t : Fin m) (tid : Tid) : Prop :=
  ∃ before answer after u next, history = before ++ .issued t work[t].opening answer :: after ∧
    Event.Play before engine u ∧ (u.record work[t].opening).allocate? = some (tid, next)

theorem Allocated.append {m : Nat} {engine : Simulator} {work : Vector Transaction m}
    {history : List (Event m)} {t : Fin m} {tid : Tid} (h : Allocated engine work history t tid)
    (events : List (Event m)) : Allocated engine work (history ++ events) t tid := by
  obtain ⟨before, answer, after, u, next, rfl, hplay, halloc⟩ := h
  exact ⟨before, answer, after ++ events, u, next, by simp, hplay, halloc⟩

namespace Run

variable {n m : Nat}

/-- The run and the engine fit together. The engine gave identifier `name i` to the transaction of
slot `i`. -/
structure Service (engine : Simulator) (work : Vector Transaction m) (history : List (Event m))
    (name : Fin n → Option Tid) (inbox : List Response) (run : Run Simulator n m) : Prop where
  alike : Alike engine run.client.channel
  ordered : run.client.channel.Ordered
  nodup : run.client.channel.tids.Nodup
  known : ∀ x ∈ run.client.channel.tids, ∃ i, name i = some x
  name_inj : ∀ {i j : Fin n} {x : Tid}, name i = some x → name j = some x → i = j
  named_iff : ∀ i, (∃ x, name i = some x) ↔ run.slots[i].state.holdsEntry = true
  told : ∀ {i : Fin n} {x : Tid}, run.slots[i].tid = some x → name i = some x
  allocated : ∀ {i : Fin n} {t : Fin m} {x : Tid}, run.slots[i].transaction = some t → name i = some x →
    Allocated engine work history t x
  /-- The slots in the line and the identifiers on their way are in the same order. -/
  line : run.awaitingTid.map name = (along none (flight inbox run)).map fun r => some r.tid
  kinds : ∀ r ∈ flight inbox run, r.kind? = some .tid ∨
    r.kind? = some .data ∧ ∃ i : Fin n, run.slots[i].tid = some r.tid
  serves : ∀ {i : Fin n} {t : Fin m} {x : Tid}, run.slots[i].transaction = some t → name i = some x →
    run.client.channel.Serves work[t] x run.slots[i].cursor run.slots[i].readsIssued
  /-- The outputs and the data words on their way are those that were read. -/
  outputs : ∀ {i : Fin n} {t : Fin m} {x : Tid}, run.slots[i].transaction = some t → name i = some x →
    run.transactions[t].outputs.toList ++ words x (flight inbox run) =
      work[t].expected.take run.slots[i].readsIssued
  done : ∀ t : Fin m, t.val < run.nextPending → (∀ i : Fin n, run.slots[i].transaction ≠ some t) →
    run.transactions[t].outputs.toList = work[t].expected ∧
      ∃ x, run.transactions[t].tid = some x ∧ Allocated engine work history t x

namespace Service

variable {engine : Simulator} {work : Vector Transaction m} {history : List (Event m)}
  {name : Fin n → Option Tid} {inbox inbox' : List Response} {run run' : Run Simulator n m}

theorem tenancy (h : Service engine work history name inbox run) : Tenancy engine work name inbox run where
  alike := h.alike
  ordered := h.ordered
  nodup := h.nodup
  name_inj := h.name_inj
  named_iff := h.named_iff
  told := h.told
  line := h.line
  serves := h.serves
  outputs := h.outputs
  collected t ht hn := (h.done t ht hn).1

/-- What the engine holds alone has to be added to the match of the two. -/
theorem of_tenancy (h : Tenancy engine work name inbox run)
    (known : ∀ x ∈ run.client.channel.tids, ∃ i, name i = some x)
    (allocated : ∀ {i : Fin n} {t : Fin m} {x : Tid}, run.slots[i].transaction = some t →
      name i = some x → Allocated engine work history t x)
    (kinds : ∀ r ∈ flight inbox run, r.kind? = some .tid ∨
      r.kind? = some .data ∧ ∃ i : Fin n, run.slots[i].tid = some r.tid)
    (identified : ∀ t : Fin m, t.val < run.nextPending →
      (∀ i : Fin n, run.slots[i].transaction ≠ some t) →
        ∃ x, run.transactions[t].tid = some x ∧ Allocated engine work history t x) :
    Service engine work history name inbox run where
  alike := h.alike
  ordered := h.ordered
  nodup := h.nodup
  known := known
  name_inj := h.name_inj
  named_iff := h.named_iff
  told := h.told
  allocated := allocated
  line := h.line
  kinds := kinds
  serves := h.serves
  outputs := h.outputs
  done t ht hn := ⟨h.collected t ht hn, identified t ht hn⟩

theorem start {client : Client Simulator} (entries : client.channel.tids = [])
    (deferred : client.channel.deferred = []) :
    Service client.channel work [] (fun _ => none) [] (Run.start client work : Run Simulator n m) := by
  have hundelivered : client.channel.undelivered = [] := by
    unfold undelivered
    rw [deferred]
    rfl
  have howed : client.channel.owed = [] := by
    unfold owed
    rw [hundelivered]
    rfl
  apply of_tenancy (.start (orderly_of_empty ((tids_eq_nil_iff _).1 entries) deferred) howed)
  case known =>
    show ∀ x ∈ client.channel.tids, _
    rw [entries]
    exact fun x hx => absurd hx List.not_mem_nil
  case allocated => exact fun _ hx => nomatch hx
  case kinds =>
    show ∀ r ∈ client.channel.undelivered, _
    rw [hundelivered]
    exact fun r hr => absurd hr List.not_mem_nil
  case identified =>
    intro t ht
    exact absurd ht (Nat.not_lt_zero _)

theorem keep (h : Service engine work history name inbox run) {events : List (Event m)}
    (u : Undisturbed inbox run inbox' run') : Service engine work (history ++ events) name inbox' run' := by
  apply of_tenancy (h.tenancy.keep u)
  case known => exact fun x hx => h.known x ((u.kept x).mem_tids_iff.1 hx)
  case allocated =>
    intro i t x ht hx
    rw [(u.slots i).transaction] at ht
    exact (h.allocated ht hx).append events
  case kinds =>
    intro r hr
    obtain hkind | ⟨hkind, i, hi⟩ := h.kinds r (mem_of_along_eq u.lanes hr)
    · exact .inl hkind
    · exact .inr ⟨hkind, i, by rw [(u.slots i).tid]; exact hi⟩
  case identified =>
    intro t ht hn
    rw [u.nextPending] at ht
    rw [u.transactions]
    obtain ⟨-, x, hx, halloc⟩ := h.done t ht fun i hi => hn i (by rw [(u.slots i).transaction]; exact hi)
    exact ⟨x, hx, halloc.append events⟩

/-- The slot of transaction `t` may go on together with the engine's entry for it. -/
theorem act (h : Service engine work history name inbox run) {events : List (Event m)} {i : Fin n}
    {x : Tid} (named : run.slots[i].tid = some x)
    (f : Slot (Fin m) → Slot (Fin m)) (slots : run'.slots = (run.modifySlot i f).slots)
    (transaction : (f run.slots[i]).transaction = run.slots[i].transaction)
    (tid : (f run.slots[i]).tid = run.slots[i].tid)
    (transactions : run'.transactions = run.transactions)
    (nextPending : run'.nextPending = run.nextPending)
    (others : ∀ y, y ≠ x → Kept run.client.channel run'.client.channel y)
    (lanes : ∀ lane, lane ≠ some x →
      along lane (flight inbox' run') = along lane (flight inbox run))
    (data : ∀ r ∈ along (some x) (flight inbox' run'), r.kind? = some .data ∧ r.tid = x)
    (tenancy : Tenancy engine work name inbox' run') :
    Service engine work (history ++ events) name inbox' run' := by
  have hmatches : ∀ {β : Type} (g : Slot (Fin m) → β), g (f run.slots[i]) = g run.slots[i] →
      ∀ j : Fin n, g run'.slots[j] = g run.slots[j] := by
    intro β g hg j
    rw [slots]
    exact apply_getElem_set g hg j
  have htrans : ∀ j : Fin n, run'.slots[j].transaction = run.slots[j].transaction :=
    hmatches Slot.transaction transaction
  have htid : ∀ j : Fin n, run'.slots[j].tid = run.slots[j].tid := hmatches Slot.tid tid
  apply of_tenancy tenancy
  case known =>
    intro y hy
    by_cases hyx : y = x
    · exact ⟨i, by rw [h.told named, hyx]⟩
    · exact h.known y ((others y hyx).mem_tids_iff.1 hy)
  case allocated =>
    intro j u y hu hy
    rw [htrans] at hu
    exact (h.allocated hu hy).append events
  case kinds =>
    intro r hr
    by_cases hlane : r.lane = some x
    · obtain ⟨hkind, hrx⟩ := data r (mem_along.2 ⟨hr, hlane⟩)
      exact .inr ⟨hkind, i, by rw [htid, named, hrx]⟩
    · have hmem : r ∈ along r.lane (flight inbox run) := by
        rw [← lanes r.lane hlane]
        exact mem_along.2 ⟨hr, rfl⟩
      obtain hkind | ⟨hkind, j, hj⟩ := h.kinds r (mem_along.1 hmem).1
      · exact .inl hkind
      · exact .inr ⟨hkind, j, by rw [htid]; exact hj⟩
  case identified =>
    intro u hu hn
    rw [nextPending] at hu
    rw [transactions]
    obtain ⟨-, y, hy, halloc⟩ := h.done u hu fun j hj => hn j (by rw [htrans]; exact hj)
    exact ⟨y, hy, halloc.append events⟩

/-! ## Refills -/

theorem hand (h : Service engine work history name inbox run) (pool : Pool work run) {i : Fin n}
    {t : Fin m} (hi : run.slots[i].state = .unused) (ht : t = run.nextPending) :
    Service engine work history name inbox (run.hand i t) := by
  have hempty : run.slots[i] = Slot.empty := (pool.stage i).of_unused hi
  have hstays : ∀ {j : Fin n} {x : Tid}, name j = some x → (run.hand i t).slots[j] = run.slots[j] := by
    intro j x hx
    rw [slots_hand, if_neg]
    rintro rfl
    exact h.tenancy.name_ne (by rw [hi]; rfl) x hx
  apply of_tenancy (h.tenancy.hand pool hi ht)
  case known => exact h.known
  case allocated =>
    intro j u x hu hx
    rw [hstays hx] at hu
    exact h.allocated hu hx
  case kinds =>
    intro r hr
    obtain hkind | ⟨hkind, j, hj⟩ := h.kinds r hr
    · exact .inl hkind
    · exact .inr ⟨hkind, j, by rw [hstays (h.told hj)]; exact hj⟩
  case identified =>
    intro u hu hn
    obtain ⟨hlt, hleft⟩ := left_of_hand (by rw [hempty]; rfl) ht hu hn
    exact (h.done u hlt hleft).2

theorem refill (ready : ∀ t : Fin m, work[t].Ready) (h : Service engine work history name inbox run)
    (pool : Pool work run) : Service engine work history name inbox run.refill :=
  pool.refill_of_hand ready h fun h pool => h.hand pool

end Service

end Run

end NeuralEngine
