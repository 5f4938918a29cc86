import NeuralEngine.Proofs.Scheduler.Stage
import NeuralEngine.Proofs.Scheduler.Step

/-!
# The slot pool

The slots, the line of those that await an identifier, the map of identifiers and the transactions
of a run fit together. `Pool work run` says how, for a run of the transactions `work`, and every
step of a run preserves it, whatever the channel answers. Most steps change the stage of one slot and
nothing that the other structures look at (`Pool.congr`); a lemma for each other update does the
rest.
-/

namespace NeuralEngine

section Lookup

variable {κ ι : Type} [BEq κ]

theorem lookup_cons_ite (routes : List (κ × ι)) (key k : κ) (i : ι) :
    ((key, i) :: routes).lookup k = if k == key then some i else routes.lookup k := by
  rw [List.lookup_cons]
  cases k == key <;> rfl

theorem lookup_filter_bne [LawfulBEq κ] (routes : List (κ × ι)) (key k : κ) :
    (routes.filter fun route => route.1 != key).lookup k = if k == key then none else routes.lookup k := by
  induction routes with
  | nil => simp
  | cons route routes ih =>
    obtain ⟨l, i⟩ := route
    by_cases hl : l = key
    · rw [List.filter_cons_of_neg (by simpa using hl), ih, List.lookup_cons, hl]
      by_cases hk : k == key <;> simp [hk]
    · rw [List.filter_cons_of_pos (by simpa using hl), List.lookup_cons, List.lookup_cons, ih]
      by_cases hk : k == l
      · rw [eq_of_beq hk]
        simp [hl]
      · simp [hk]

theorem mem_iff_lookup [LawfulBEq κ] {routes : List (κ × ι)} (h : (routes.map Prod.fst).Nodup) (k : κ)
    (i : ι) : (k, i) ∈ routes ↔ routes.lookup k = some i := by
  induction routes with
  | nil => simp
  | cons route routes ih =>
    obtain ⟨l, j⟩ := route
    rw [List.map_cons, List.nodup_cons] at h
    rw [List.mem_cons, lookup_cons_ite, ih h.2]
    by_cases hk : k = l
    · subst hk
      have hout : routes.lookup k ≠ some i := fun hi =>
        h.1 (List.mem_map.2 ⟨(k, i), (ih h.2).2 hi, rfl⟩)
      simp [hout, eq_comm]
    · simp [hk]

/-- A map of keys to the places that have them, when one more place gets a key of its own. -/
theorem lookup_cons_iff [LawfulBEq κ] [DecidableEq ι] {routes : List (κ × ι)} {key? : ι → Option κ}
    (h : ∀ k i, routes.lookup k = some i ↔ key? i = some k) {key : κ} {i : ι}
    (fresh : routes.lookup key = none) (hi : key? i = none) (k : κ) (j : ι) :
    ((key, i) :: routes).lookup k = some j ↔ (if i = j then some key else key? j) = some k := by
  rw [lookup_cons_ite]
  by_cases hk : k = key
  · rw [hk, if_pos (beq_self_eq_true key), Option.some.injEq]
    split
    · next hij => simp [hij]
    · next hij =>
      rw [← h, fresh]
      simp [hij]
  · rw [if_neg (by simpa using hk), h]
    split
    · next hij =>
      rw [← hij, hi]
      simpa using fun heq : key = k => hk heq.symm
    · exact Iff.rfl

/-- The same when a place loses its key. -/
theorem lookup_filter_iff [LawfulBEq κ] [DecidableEq ι] {routes : List (κ × ι)} {key? : ι → Option κ}
    (h : ∀ k i, routes.lookup k = some i ↔ key? i = some k) {key : κ} {i : ι} (hi : key? i = some key)
    (k : κ) (j : ι) :
    (routes.filter fun route => route.1 != key).lookup k = some j ↔
      (if i = j then none else key? j) = some k := by
  rw [lookup_filter_bne]
  by_cases hk : k = key
  · rw [if_pos (by simpa using hk), hk]
    split
    · simp
    · next hij =>
      rw [← h, (h key i).2 hi]
      simp [hij]
  · rw [if_neg (by simpa using hk), h]
    split
    · next hij =>
      rw [← hij, hi]
      simpa using fun heq : key = k => hk heq.symm
    · exact Iff.rfl

end Lookup

namespace Run

variable {σ : Type} {n m : Nat}

/-- The slots, the line, the map and the transactions fit together. -/
structure Pool (work : Vector Transaction m) (run : Run σ n m) : Prop where
  stage : ∀ i : Fin n, Slot.Stage work run.slots[i]
  same : ∀ t : Fin m, run.transactions[t].reset = work[t]
  /-- A slot holds a transaction that was handed out, -/
  held_lt : ∀ {i : Fin n} {t : Fin m}, run.slots[i].transaction = some t → t < run.nextPending
  /-- and no other slot holds it. -/
  held_inj : ∀ {i j : Fin n} {t : Fin m},
    run.slots[i].transaction = some t → run.slots[j].transaction = some t → i = j
  nextPending_le : run.nextPending ≤ m
  awaiting_nodup : run.awaitingTid.Nodup
  mem_awaiting : ∀ i : Fin n, i ∈ run.awaitingTid ↔ run.slots[i].state = .newWriteWait
  routes_nodup : (run.routes.map Prod.fst).Nodup
  lookup_iff : ∀ (tid : Tid) (i : Fin n), run.routes.lookup tid = some i ↔ run.slots[i].tid = some tid
  /-- A transaction that was not opened is as it was before the run. -/
  pending : ∀ t : Fin m, run.nextPending ≤ t → run.transactions[t] = work[t]
  unnamed : ∀ {i : Fin n} {t : Fin m}, run.slots[i].transaction = some t → run.slots[i].tid = none →
    run.transactions[t] = work[t]
  named : ∀ {i : Fin n} {t : Fin m} {tid : Tid}, run.slots[i].transaction = some t →
    run.slots[i].tid = some tid → run.transactions[t].tid = some tid
  unfinished : ∀ {i : Fin n} {t : Fin m}, run.slots[i].transaction = some t →
    run.transactions[t].outputs.size < work[t].outputCount
  /-- A transaction that was handed out and that no slot holds is complete. -/
  finished : ∀ t : Fin m, t < run.nextPending → (∀ i : Fin n, run.slots[i].transaction ≠ some t) →
    run.transactions[t].outputs.size = work[t].outputCount

namespace Pool

variable {work : Vector Transaction m} {run run' : Run σ n m}

/-- The slots may change in their stage alone. -/
theorem congr (h : Pool work run) (stage : ∀ i : Fin n, Slot.Stage work run'.slots[i])
    (transaction : ∀ i : Fin n, run'.slots[i].transaction = run.slots[i].transaction)
    (tid : ∀ i : Fin n, run'.slots[i].tid = run.slots[i].tid)
    (waiting : ∀ i : Fin n,
      run'.slots[i].state = .newWriteWait ↔ run.slots[i].state = .newWriteWait)
    (transactions : run'.transactions = run.transactions)
    (nextPending : run'.nextPending = run.nextPending) (awaiting : run'.awaitingTid = run.awaitingTid)
    (routes : run'.routes = run.routes) : Pool work run' where
  stage := stage
  same t := by rw [transactions]; exact h.same t
  held_lt hi := by rw [nextPending]; exact h.held_lt (transaction _ ▸ hi)
  held_inj hi hj := h.held_inj (transaction _ ▸ hi) (transaction _ ▸ hj)
  nextPending_le := by rw [nextPending]; exact h.nextPending_le
  awaiting_nodup := by rw [awaiting]; exact h.awaiting_nodup
  mem_awaiting i := by rw [awaiting, waiting]; exact h.mem_awaiting i
  routes_nodup := by rw [routes]; exact h.routes_nodup
  lookup_iff x i := by rw [routes, tid]; exact h.lookup_iff x i
  pending t ht := by rw [transactions]; exact h.pending t (nextPending ▸ ht)
  unnamed hi hn := by rw [transactions]; exact h.unnamed (transaction _ ▸ hi) (tid _ ▸ hn)
  named hi hx := by rw [transactions]; exact h.named (transaction _ ▸ hi) (tid _ ▸ hx)
  unfinished hi := by rw [transactions]; exact h.unfinished (transaction _ ▸ hi)
  finished t ht hn := by
    rw [transactions]
    exact h.finished t (nextPending ▸ ht) fun i => transaction i ▸ hn i

/-- What no other structure looks at may change. -/
theorem of_eq (h : Pool work run) (slots : run'.slots = run.slots)
    (transactions : run'.transactions = run.transactions)
    (nextPending : run'.nextPending = run.nextPending) (awaiting : run'.awaitingTid = run.awaitingTid)
    (routes : run'.routes = run.routes) : Pool work run' :=
  h.congr (fun i => slots ▸ h.stage i) (fun i => by rw [slots]) (fun i => by rw [slots])
    (fun i => by rw [slots]) transactions nextPending awaiting routes

/-- One slot may change in its stage alone. -/
theorem modifySlot (h : Pool work run) (i : Fin n) {f : Slot (Fin m) → Slot (Fin m)}
    (stage : Slot.Stage work (f run.slots[i]))
    (transaction : (f run.slots[i]).transaction = run.slots[i].transaction)
    (tid : (f run.slots[i]).tid = run.slots[i].tid)
    (waiting : (f run.slots[i]).state = .newWriteWait ↔ run.slots[i].state = .newWriteWait) :
    Pool work (run.modifySlot i f) := by
  apply h.congr
  case stage =>
    intro j
    rw [slots_modifySlot]
    split
    · exact stage
    · exact h.stage j
  case transaction => exact apply_getElem_set Slot.transaction transaction
  case tid => exact apply_getElem_set Slot.tid tid
  case waiting =>
    intro j
    rw [slots_modifySlot]
    split
    · next hij => rw [waiting, hij]
    · exact Iff.rfl
  all_goals rfl

/-- No slot holds a transaction that is pending, -/
theorem ne_of_pending (h : Pool work run) {i : Fin n} {t u : Fin m}
    (holds : run.slots[i].transaction = some t) (hu : run.nextPending ≤ u) : t ≠ u := by
  rintro rfl
  exact absurd (h.held_lt holds) (Nat.not_lt.2 hu)

/-- and two slots hold two transactions. -/
theorem ne_of_ne (h : Pool work run) {i j : Fin n} {t u : Fin m} (hij : i ≠ j)
    (hi : run.slots[i].transaction = some t) (hj : run.slots[j].transaction = some u) : t ≠ u := by
  rintro rfl
  exact hij (h.held_inj hi hj)

theorem reset_ite (h : Pool work run) {t : Fin m} {x : Transaction}
    (hx : x.reset = run.transactions[t].reset) (u : Fin m) :
    (if t = u then x else run.transactions[u]).reset = work[u] := by
  split
  · next htu => rw [hx, htu, h.same]
  · exact h.same u

theorem start {client : Client σ} (ready : ∀ t : Fin m, work[t].Ready) :
    Pool work (Run.start client work : Run σ n m) := by
  have hslot : ∀ i : Fin n, (Run.start client work : Run σ n m).slots[i] = Slot.empty := fun i => by
    simp [Run.start]
  refine ⟨fun i => ?_, fun t => (ready t).reset_eq, ?_, ?_, Nat.zero_le m, List.nodup_nil, fun i => ?_,
    List.nodup_nil, fun tid i => ?_, fun _ _ => rfl, fun _ _ => rfl, ?_, ?_, ?_⟩
  · rw [hslot]
    exact .unused
  · intro i t hi
    rw [hslot] at hi
    cases hi
  · intro i j t hi
    rw [hslot] at hi
    cases hi
  · rw [hslot]
    simp [Run.start, Slot.empty]
  · rw [hslot]
    simp [Run.start, Slot.empty]
  · intro i t tid hi
    rw [hslot] at hi
    cases hi
  · intro i t hi
    rw [hslot] at hi
    cases hi
  · intro t ht
    simp [Run.start] at ht

theorem hand (h : Pool work run) {i : Fin n} {t : Fin m} (ready : work[t].Ready)
    (hi : run.slots[i].state = .unused) (ht : t = run.nextPending) : Pool work (run.hand i t) := by
  have hempty : run.slots[i] = Slot.empty := (h.stage i).of_unused hi
  have hnew : run.transactions[t] = work[t] := h.pending t (Nat.le_of_eq ht.symm)
  have hfree : ∀ {j : Fin n}, run.slots[j].transaction ≠ some t := fun hj =>
    absurd (h.held_lt hj) (by omega)
  have hheld : ∀ {j : Fin n} {u : Fin m}, (run.hand i t).slots[j].transaction = some u →
      (i = j ∧ u = t) ∨ run.slots[j].transaction = some u := by
    intro j u hj
    rw [slots_hand] at hj
    split at hj
    · next hij => exact .inl ⟨hij, (Option.some.inj hj).symm⟩
    · exact .inr hj
  have hstays : ∀ {j : Fin n} {u : Fin m}, run.slots[j].transaction = some u →
      (run.hand i t).slots[j] = run.slots[j] := by
    intro j u hj
    rw [slots_hand, if_neg]
    rintro rfl
    rw [hempty] at hj
    cases hj
  constructor
  case stage =>
    intro j
    rw [slots_hand]
    split
    · exact .newWrite t
    · exact h.stage j
  case same => exact h.same
  case held_lt =>
    intro j u hj
    change u.val < t + 1
    obtain ⟨-, rfl⟩ | hj := hheld hj
    · omega
    · have := h.held_lt hj
      omega
  case held_inj =>
    intro j k u hj hk
    obtain ⟨rfl, rfl⟩ | hj := hheld hj <;> obtain ⟨rfl, hu⟩ | hk := hheld hk
    · rfl
    · exact absurd hk hfree
    · exact absurd (hu ▸ hj) hfree
    · exact h.held_inj hj hk
  case nextPending_le => exact t.isLt
  case awaiting_nodup => exact h.awaiting_nodup
  case mem_awaiting =>
    intro j
    change j ∈ run.awaitingTid ↔ _
    rw [slots_hand, h.mem_awaiting]
    split
    · next hij =>
      rw [← hij, hi]
      simp [Slot.holding]
    · exact Iff.rfl
  case routes_nodup => exact h.routes_nodup
  case lookup_iff =>
    intro tid j
    change run.routes.lookup tid = some j ↔ _
    rw [slots_hand, h.lookup_iff]
    split
    · next hij =>
      rw [← hij, hempty]
      exact Iff.rfl
    · exact Iff.rfl
  case pending =>
    intro u hu
    change t + 1 ≤ u.val at hu
    exact h.pending u (by omega)
  case unnamed =>
    intro j u hj hn
    obtain ⟨-, rfl⟩ | hj := hheld hj
    · exact hnew
    · exact h.unnamed hj (hstays hj ▸ hn)
  case named =>
    intro j u tid hj hx
    obtain ⟨rfl, rfl⟩ | hj := hheld hj
    · rw [slots_hand, if_pos rfl] at hx
      cases hx
    · exact h.named hj (hstays hj ▸ hx)
  case unfinished =>
    intro j u hj
    obtain ⟨-, rfl⟩ | hj := hheld hj
    · change run.transactions[u].outputs.size < _
      rw [hnew, ready.outputs_eq]
      exact ready.outputs_pos
    · exact h.unfinished hj
  case finished =>
    intro u hu hn
    obtain ⟨hlt, hleft⟩ := left_of_hand (by rw [hempty]; rfl) ht hu hn
    exact h.finished u hlt hleft

theorem refill (ready : ∀ t : Fin m, work[t].Ready) (h : Pool work run) : Pool work run.refill :=
  Run.refill_of_hand h fun h => h.hand (ready _)

/-- A refill keeps what is kept whenever an unused slot of a pool is handed the next transaction. -/
theorem refill_of_hand (ready : ∀ t : Fin m, work[t].Ready) (pool : Pool work run) {P : Run σ n m → Prop}
    (start : P run) (hand : ∀ {r : Run σ n m} {i : Fin n} {t : Fin m}, P r → Pool work r →
      r.slots[i].state = .unused → t = r.nextPending → P (r.hand i t)) : P run.refill := by
  have hboth : P run.refill ∧ Pool work run.refill :=
    Run.refill_of_hand (P := fun r => P r ∧ Pool work r) ⟨start, pool⟩ fun hr hi ht =>
      ⟨hand hr.1 hr.2 hi ht, hr.2.hand (ready _) hi ht⟩
  exact hboth.1

theorem awaitTid (h : Pool work run) {i : Fin n} (hi : run.slots[i].state = .newWrite) :
    Pool work (run.awaitTid i) := by
  obtain ⟨t, ht⟩ := (h.stage i).of_newWrite hi
  have hwait : i ∉ run.awaitingTid := by
    rw [h.mem_awaiting, hi]
    exact SlotState.noConfusion
  have hslot : ∀ j : Fin n, (run.awaitTid i).slots[j] =
      if i = j then run.slots[i].transition .newWriteWait else run.slots[j] := fun j =>
    slots_modifySlot ..
  have htrans : ∀ j : Fin n, (run.awaitTid i).slots[j].transaction = run.slots[j].transaction :=
    apply_getElem_set Slot.transaction rfl
  have htid : ∀ j : Fin n, (run.awaitTid i).slots[j].tid = run.slots[j].tid :=
    apply_getElem_set Slot.tid rfl
  refine ⟨fun j => ?_, h.same, fun {j t} hj => h.held_lt (htrans j ▸ hj),
    fun {j k t} hj hk => h.held_inj (htrans j ▸ hj) (htrans k ▸ hk), h.nextPending_le, ?_,
    fun j => ?_, h.routes_nodup, fun tid j => ?_, h.pending,
    fun {j t} hj hn => h.unnamed (htrans j ▸ hj) (htid j ▸ hn),
    fun {j t tid} hj hx => h.named (htrans j ▸ hj) (htid j ▸ hx),
    fun {j t} hj => h.unfinished (htrans j ▸ hj),
    fun t ht hn => h.finished t ht fun j => htrans j ▸ hn j⟩
  · rw [hslot]
    split
    · rw [ht]
      exact .newWriteWait t
    · exact h.stage j
  · change (run.awaitingTid ++ [i]).Nodup
    rw [List.nodup_append]
    refine ⟨h.awaiting_nodup, by simp, fun a ha b hb => ?_⟩
    rw [List.mem_singleton.1 hb]
    rintro rfl
    exact hwait ha
  · change j ∈ run.awaitingTid ++ [i] ↔ _
    rw [List.mem_append, List.mem_singleton, h.mem_awaiting, hslot]
    split
    · next hij => simp [hij, Slot.transition]
    · next hij =>
      simp only [or_iff_left_iff_imp]
      exact fun hji => absurd hji.symm hij
  · rw [htid]
    exact h.lookup_iff tid j

/-- A slot that reads or waits for its last output has an identifier and is not in the line. -/
theorem tid_of_reading (h : Pool work run) {i : Fin n}
    (hi : run.slots[i].state = .read ∨ run.slots[i].state = .readWait) :
    run.slots[i].tid ≠ none ∧ run.slots[i].state ≠ .newWriteWait := by
  constructor
  · rw [Ne, (h.stage i).tid_eq_none_iff]
    rcases hi with hi | hi <;> rw [hi] <;> simp
  · rcases hi with hi | hi <;> rw [hi] <;> simp

theorem assign (h : Pool work run) {i : Fin n} {t : Fin m} {tid : Tid} {rest : List (Fin n)}
    (ready : work[t].Ready) (awaiting : run.awaitingTid = i :: rest)
    (fresh : run.routes.lookup tid = none) (holds : run.slots[i].transaction = some t) :
    Pool work (run.assign i t tid rest) := by
  have hstate : run.slots[i].state = .newWriteWait := by
    rw [← h.mem_awaiting, awaiting]
    exact List.mem_cons_self
  have hnodup : i ∉ rest ∧ rest.Nodup := by
    rw [← List.nodup_cons, ← awaiting]
    exact h.awaiting_nodup
  have hnone : run.slots[i].tid = none := by
    rw [(h.stage i).tid_eq_none_iff]
    exact .inr (.inr hstate)
  have hwriting : { run.slots[i] with tid := some tid, state := .write } = Slot.writing t tid 0 0 := by
    obtain ⟨u, hu⟩ := (h.stage i).of_newWriteWait hstate
    rw [hu] at holds ⊢
    cases holds
    rfl
  have hslot : ∀ j : Fin n, (run.assign i t tid rest).slots[j] =
      if i = j then Slot.writing t tid 0 0 else run.slots[j] := fun j => by
    rw [← hwriting]
    exact slots_assign ..
  have htrans : ∀ u : Fin m, (run.assign i t tid rest).transactions[u] =
      if t = u then { run.transactions[t] with tid := some tid } else run.transactions[u] := fun u =>
    transactions_assign ..
  have hheld : ∀ j : Fin n,
      (run.assign i t tid rest).slots[j].transaction = run.slots[j].transaction :=
    apply_getElem_set Slot.transaction rfl
  constructor
  case stage =>
    intro j
    rw [hslot]
    split
    · have hpos := ready.trainOutputs_lt
      exact .write t tid 0 0 (Nat.zero_le _) (by omega) (by omega)
    · exact h.stage j
  case same =>
    intro u
    rw [htrans]
    apply h.reset_ite
    rfl
  case held_lt => exact fun {j u} hj => h.held_lt (hheld j ▸ hj)
  case held_inj => exact fun {j k u} hj hk => h.held_inj (hheld j ▸ hj) (hheld k ▸ hk)
  case nextPending_le => exact h.nextPending_le
  case awaiting_nodup => exact hnodup.2
  case mem_awaiting =>
    intro j
    change j ∈ rest ↔ _
    rw [hslot]
    split
    · next hij =>
      rw [← hij]
      simp [hnodup.1, Slot.writing]
    · next hij =>
      rw [← h.mem_awaiting, awaiting, List.mem_cons, or_iff_right fun hji => hij hji.symm]
  case routes_nodup =>
    change (((tid, i) :: run.routes).map Prod.fst).Nodup
    rw [List.map_cons, List.nodup_cons]
    refine ⟨fun hmem => ?_, h.routes_nodup⟩
    obtain ⟨⟨x, j⟩, hj, hx⟩ := List.mem_map.1 hmem
    have hne := List.lookup_eq_none_iff.1 fresh _ hj
    simp only at hx
    simp [hx] at hne
  case lookup_iff =>
    intro x j
    rw [hslot, apply_ite Slot.tid]
    exact lookup_cons_iff h.lookup_iff fresh hnone x j
  case pending =>
    intro u hu
    rw [htrans, if_neg (h.ne_of_pending holds hu)]
    exact h.pending u hu
  case unnamed =>
    intro j u hj hn
    rw [hheld] at hj
    have hij : i ≠ j := by
      rintro rfl
      rw [hslot, if_pos rfl] at hn
      cases hn
    rw [hslot, if_neg hij] at hn
    rw [htrans, if_neg (h.ne_of_ne hij holds hj)]
    exact h.unnamed hj hn
  case named =>
    intro j u x hj hx
    rw [hheld] at hj
    rw [hslot] at hx
    rw [htrans]
    split at hx
    · next hij =>
      have htu : t = u := by
        rw [← hij, holds] at hj
        exact Option.some.inj hj
      rw [if_pos htu]
      exact hx
    · next hij =>
      rw [if_neg (h.ne_of_ne hij holds hj)]
      exact h.named hj hx
  case unfinished =>
    intro j u hj
    rw [hheld] at hj
    rw [htrans]
    split
    · next htu => rw [← htu]; exact h.unfinished holds
    · exact h.unfinished hj
  case finished =>
    intro u hu hn
    have hne : t ≠ u := by
      rintro rfl
      exact hn i ((hheld i).trans holds)
    rw [htrans, if_neg hne]
    exact h.finished u hu fun j => hheld j ▸ hn j

theorem addOutput (h : Pool work run) {i : Fin n} {t : Fin m} {value : Element}
    (state : run.slots[i].state = .read ∨ run.slots[i].state = .readWait)
    (holds : run.slots[i].transaction = some t)
    (unfinished : (run.transactions[t].addOutput value).isComplete = false) :
    Pool work (run.modifyTransaction t (·.addOutput value)) := by
  have hcount : run.transactions[t].outputCount = work[t].outputCount :=
    Transaction.outputCount_of_reset (h.same t)
  have htrans : ∀ u : Fin m, (run.modifyTransaction t (·.addOutput value)).transactions[u] =
      if t = u then run.transactions[t].addOutput value else run.transactions[u] := fun u =>
    transactions_modifyTransaction ..
  have htid := (h.tid_of_reading state).1
  constructor
  case stage => exact h.stage
  case same =>
    intro u
    rw [htrans]
    apply h.reset_ite
    rfl
  case held_lt => exact h.held_lt
  case held_inj => exact h.held_inj
  case nextPending_le => exact h.nextPending_le
  case awaiting_nodup => exact h.awaiting_nodup
  case mem_awaiting => exact h.mem_awaiting
  case routes_nodup => exact h.routes_nodup
  case lookup_iff => exact h.lookup_iff
  case pending =>
    intro u hu
    rw [htrans, if_neg (h.ne_of_pending holds hu)]
    exact h.pending u hu
  case unnamed =>
    intro j u hj hn
    have hne : t ≠ u := by
      rintro rfl
      have hij := h.held_inj holds hj
      exact htid (hij ▸ hn)
    rw [htrans, if_neg hne]
    exact h.unnamed hj hn
  case named =>
    intro j u x hj hx
    rw [htrans]
    split
    · next htu =>
      subst htu
      exact h.named hj hx
    · exact h.named hj hx
  case unfinished =>
    intro j u hj
    rw [htrans]
    split
    · next htu =>
      subst htu
      have hlt := h.unfinished holds
      rw [← hcount] at hlt ⊢
      simp only [Transaction.isComplete, Array.size_push, Transaction.addOutput,
        beq_eq_false_iff_ne] at unfinished ⊢
      omega
    · exact h.unfinished hj
  case finished =>
    intro u hu hn
    have hne : t ≠ u := by
      rintro rfl
      exact hn i holds
    rw [htrans, if_neg hne]
    exact h.finished u hu hn

theorem finish (h : Pool work run) {i : Fin n} {t : Fin m} {tid : Tid} {value : Element}
    (route : run.routes.lookup tid = some i)
    (state : run.slots[i].state = .read ∨ run.slots[i].state = .readWait)
    (holds : run.slots[i].transaction = some t)
    (complete : (run.transactions[t].addOutput value).isComplete = true) :
    Pool work ((run.modifyTransaction t (·.addOutput value)).finish i tid) := by
  have hcount : run.transactions[t].outputCount = work[t].outputCount :=
    Transaction.outputCount_of_reset (h.same t)
  have htid : run.slots[i].tid = some tid := (h.lookup_iff tid i).1 route
  have htrans : ∀ u : Fin m, ((run.modifyTransaction t (·.addOutput value)).finish i tid).transactions[u] =
      if t = u then run.transactions[t].addOutput value else run.transactions[u] := fun u =>
    transactions_modifyTransaction ..
  have hslot : ∀ j : Fin n, ((run.modifyTransaction t (·.addOutput value)).finish i tid).slots[j] =
      if i = j then Slot.empty else run.slots[j] := fun j =>
    slots_finish ..
  have hheld : ∀ {j : Fin n} {u : Fin m},
      ((run.modifyTransaction t (·.addOutput value)).finish i tid).slots[j].transaction = some u →
        i ≠ j ∧ t ≠ u ∧ run.slots[j].transaction = some u := by
    intro j u hj
    rw [hslot] at hj
    split at hj
    · cases hj
    · next hij => exact ⟨hij, h.ne_of_ne hij holds hj, hj⟩
  constructor
  case stage =>
    intro j
    rw [hslot]
    split
    · exact .unused
    · exact h.stage j
  case same =>
    intro u
    rw [htrans]
    apply h.reset_ite
    rfl
  case held_lt => exact fun {j u} hj => h.held_lt (hheld hj).2.2
  case held_inj => exact fun {j k u} hj hk => h.held_inj (hheld hj).2.2 (hheld hk).2.2
  case nextPending_le => exact h.nextPending_le
  case awaiting_nodup => exact h.awaiting_nodup
  case mem_awaiting =>
    intro j
    change j ∈ run.awaitingTid ↔ _
    rw [hslot, h.mem_awaiting]
    split
    · next hij =>
      rw [← hij]
      exact iff_of_false (h.tid_of_reading state).2 (by simp [Slot.empty])
    · exact Iff.rfl
  case routes_nodup =>
    exact List.Pairwise.sublist (List.Sublist.map _ List.filter_sublist) h.routes_nodup
  case lookup_iff =>
    intro x j
    rw [hslot, apply_ite Slot.tid]
    exact lookup_filter_iff h.lookup_iff htid x j
  case pending =>
    intro u hu
    rw [htrans, if_neg (h.ne_of_pending holds hu)]
    exact h.pending u hu
  case unnamed =>
    intro j u hj hn
    obtain ⟨hij, hne, hj⟩ := hheld hj
    rw [hslot, if_neg hij] at hn
    rw [htrans, if_neg hne]
    exact h.unnamed hj hn
  case named =>
    intro j u x hj hx
    obtain ⟨hij, hne, hj⟩ := hheld hj
    rw [hslot, if_neg hij] at hx
    rw [htrans, if_neg hne]
    exact h.named hj hx
  case unfinished =>
    intro j u hj
    obtain ⟨-, hne, hj⟩ := hheld hj
    rw [htrans, if_neg hne]
    exact h.unfinished hj
  case finished =>
    intro u hu hn
    rw [htrans]
    split
    · next htu =>
      rw [← htu, ← hcount]
      exact (Transaction.isComplete_iff _).1 complete
    · next hne => exact h.finished u hu (left_of_finish tid holds hne hn)

theorem delivered (ready : ∀ t : Fin m, work[t].Ready) (h : Pool work run) {response : Response}
    (d : Delivered run response run') : Pool work run' := by
  cases d with
  | assigned _ awaiting _ fresh holds => exact h.assign (ready _) awaiting fresh holds
  | given _ _ state holds unfinished => exact h.addOutput state holds unfinished
  | finished _ route state holds complete => exact h.finish route state holds complete

/-! ## Turns -/

theorem opening_eq (h : Pool work run) (t : Fin m) : run.transactions[t].opening = work[t].opening := by
  rw [← h.same t]
  rfl

/-- A slot that writes when it has its turn. -/
theorem writing (h : Pool work run) {i : Fin n} {t : Fin m} (turn : run.HasTurn i t .write) :
    ∃ tid written cursor, run.slots[i] = Slot.writing t tid written cursor ∧
      written ≤ run.transactions[t].registers.length ∧ cursor < run.transactions[t].stream.size ∧
      (0 < cursor → written = run.transactions[t].registers.length) := by
  obtain ⟨u, tid, written, cursor, hs, hr, hc, ho⟩ := (h.stage i).of_write turn.state
  have hu := turn.holds
  rw [hs] at hu
  cases hu
  rw [Transaction.registers_of_reset (h.same t), Transaction.stream_of_reset (h.same t)]
  exact ⟨tid, written, cursor, hs, hr, hc, ho⟩

/-- A slot that reads when it has its turn. -/
theorem reading (h : Pool work run) {i : Fin n} {t : Fin m} (turn : run.HasTurn i t .read) :
    ∃ tid reads, run.slots[i] = Slot.fed work[t] t tid .read reads ∧
      reads < run.transactions[t].outputCount := by
  obtain ⟨u, tid, reads, hs, hr⟩ := (h.stage i).of_read turn.state
  have hu := turn.holds
  rw [hs] at hu
  cases hu
  rw [Transaction.outputCount_of_reset (h.same t)]
  exact ⟨tid, reads, hs, hr⟩

theorem countRegister (h : Pool work run) {i : Fin n} {t : Fin m} (turn : run.HasTurn i t .write)
    {entry : Register × RegisterValue}
    (left : run.transactions[t].registers[run.slots[i].registersWritten]? = some entry) :
    Pool work (run.countRegister i) := by
  obtain ⟨tid, written, cursor, hs, -, hc, ho⟩ := h.writing turn
  rw [hs] at left
  have hlt : written < run.transactions[t].registers.length := (List.getElem?_eq_some_iff.1 left).1
  rw [Transaction.registers_of_reset (h.same t)] at hlt ho
  rw [Transaction.stream_of_reset (h.same t)] at hc
  refine h.modifySlot i ?_ rfl rfl Iff.rfl
  rw [hs]
  exact .write t tid (written + 1) cursor hlt hc fun hpos => absurd (ho hpos) (Nat.ne_of_lt hlt)

theorem countElement (h : Pool work run) {i : Fin n} {t : Fin m} (turn : run.HasTurn i t .write)
    {last : Bool} (written : run.transactions[t].registers[run.slots[i].registersWritten]? = none)
    (last_eq : last = (run.slots[i].cursor + 1 == run.transactions[t].stream.size)) :
    Pool work (run.countElement i last) := by
  obtain ⟨tid, taken, cursor, hs, hr, hc, -⟩ := h.writing turn
  rw [hs] at written last_eq
  have hfull : taken = run.transactions[t].registers.length :=
    Nat.le_antisymm hr (List.getElem?_eq_none_iff.1 written)
  rw [Transaction.registers_of_reset (h.same t)] at hfull
  rw [Transaction.stream_of_reset (h.same t)] at hc last_eq
  subst hfull
  cases last with
  | true =>
    have hsize : cursor + 1 = work[t].stream.size := by
      simpa [Slot.writing] using last_eq.symm
    refine h.modifySlot i ?_ rfl rfl ?_
    · rw [hs]
      simp only [Slot.writing, hsize]
      exact .executing t tid
    · rw [hs]
      simp [Slot.writing]
  | false =>
    have hsize : cursor + 1 ≠ work[t].stream.size := by
      simpa [Slot.writing] using last_eq.symm
    refine h.modifySlot i ?_ rfl rfl Iff.rfl
    rw [hs]
    exact .write t tid _ (cursor + 1) (Nat.le_refl _) (by omega) fun _ => rfl

theorem countRead (h : Pool work run) {i : Fin n} {t : Fin m} (turn : run.HasTurn i t .read) :
    Pool work (run.countRead i t) := by
  obtain ⟨tid, reads, hs, hr⟩ := h.reading turn
  rw [Transaction.outputCount_of_reset (h.same t)] at hr
  have hnext : ∀ s : Slot (Fin m), s = Slot.fed work[t] t tid .read reads →
      Slot.Stage work { s with
        readsIssued := s.readsIssued + 1
        state := if s.readsIssued + 1 = run.transactions[t].outputCount then .readWait else s.state } ∧
      (if s.readsIssued + 1 = run.transactions[t].outputCount then .readWait else s.state) ≠
        SlotState.newWriteWait := by
    rintro _ rfl
    rw [Transaction.outputCount_of_reset (h.same t)]
    change Slot.Stage work (Slot.fed work[t] t tid
      (if reads + 1 = work[t].outputCount then .readWait else .read) (reads + 1)) ∧
      (if reads + 1 = work[t].outputCount then SlotState.readWait else .read) ≠ .newWriteWait
    by_cases hlast : reads + 1 = work[t].outputCount
    · rw [if_pos hlast, hlast]
      exact ⟨.readWait t tid, by simp⟩
    · rw [if_neg hlast]
      exact ⟨.read t tid (reads + 1) (by omega), by simp⟩
  obtain ⟨hstage, hwait⟩ := hnext _ hs
  refine h.modifySlot i hstage rfl rfl (iff_of_false hwait ?_)
  rw [turn.state]
  simp

theorem learn (h : Pool work run) {i : Fin n} (state : run.slots[i].state = .executing) (done : Bool)
    (c : Client σ) : Pool work (run.learn i done c) := by
  have hc : Pool work { run with client := c } := h.of_eq rfl rfl rfl rfl rfl
  cases done with
  | false => exact hc
  | true =>
    obtain ⟨t, tid, hs⟩ := (h.stage i).of_executing state
    have hpos := h.unfinished (i := i) (t := t) (by rw [hs]; rfl)
    refine hc.modifySlot i ?_ rfl rfl (iff_of_false (by simp [Slot.transition]) ?_)
    · change Slot.Stage work (run.slots[i].transition .read)
      rw [hs]
      exact .read t tid 0 (by omega)
    · change run.slots[i].state ≠ .newWriteWait
      rw [state]
      simp

/-- A slot that has its turn has what its state calls for. -/
theorem not_stuck (ready : ∀ t : Fin m, work[t].Ready) (h : Pool work run) {i : Fin n}
    (hi : next? run.slots run.cursor = some i) : ¬ Stuck run i := by
  have hact : run.slots[i].state.isActionable = true := next?_isActionable hi
  intro hs
  cases hs with
  | vacant holds =>
    rw [(h.stage i).transaction_eq_none_iff.1 holds] at hact
    cases hact
  | crowded turn many =>
    rw [Transaction.trainOutputs_of_reset (h.same _)] at many
    exact absurd (ready _).few (Nat.not_lt.2 many)
  | anonymous state tid_eq =>
    rw [(h.stage i).tid_eq_none_iff] at tid_eq
    rcases state with state | state <;> rw [state] at tid_eq <;> simp at tid_eq
  | exhausted turn entry =>
    obtain ⟨tid, written, cursor, hs, -, hc, -⟩ := h.writing turn
    rw [hs] at entry
    exact absurd hc (Nat.not_lt.2 (Array.getElem?_eq_none_iff.1 entry))

/-- When no slot holds a transaction after a refill, every transaction was handed out and has left its
slot. -/
theorem left_of_idle (h : Pool work run.refill) (room : 0 < m → 0 < n)
    (idle : run.refill.isBusy = false) (t : Fin m) :
    t.val < run.refill.nextPending ∧ ∀ i : Fin n, run.refill.slots[i].transaction ≠ some t := by
  have hall : m ≤ run.refill.nextPending :=
    le_nextPending_of_unused (unused_of_idle idle ⟨0, room (Nat.zero_lt_of_lt t.isLt)⟩)
  refine ⟨by omega, fun i hi => ?_⟩
  rw [(h.stage i).transaction_eq_none_iff.2 (unused_of_idle idle i)] at hi
  cases hi

variable [Channel σ]

theorem turn (h : Pool work run) {event : Event m} {prompt : Option Response}
    (turn : Turn run event prompt run') : Pool work run' := by
  cases turn with
  | idle => exact h.of_eq rfl rfl rfl rfl rfl
  | opened turn => exact (h.awaitTid turn.state).of_eq rfl rfl rfl rfl rfl
  | registered turn _ entry =>
    exact (h.countRegister turn entry).of_eq rfl rfl rfl rfl rfl
  | accepted turn _ written _ last_eq =>
    exact (h.countElement turn written last_eq).of_eq rfl rfl rfl rfl rfl
  | busy => exact h.of_eq rfl rfl rfl rfl rfl
  | read turn => exact (h.countRead turn).of_eq rfl rfl rfl rfl rfl
  | notDone => exact h.of_eq rfl rfl rfl rfl rfl

/-- Every step of a run keeps the pool together. -/
theorem step (ready : ∀ t : Fin m, work[t].Ready) (h : Pool work run) {inbox inbox' : List Response}
    {events : List (Event m)} (s : Step inbox run events inbox' run') : Pool work run' := by
  cases s with
  | refill => exact h.refill ready
  | turn turn => exact (h.turn turn).of_eq rfl rfl rfl rfl rfl
  | poll => exact h.of_eq rfl rfl rfl rfl rfl
  | ask state => exact h.learn state _ _
  | route delivered => exact h.delivered ready delivered

/-- The pool of a run fits together wherever the run comes to. -/
theorem of_reach (ready : ∀ t : Fin m, work[t].Ready) {client : Client σ} {history : List (Event m)}
    {inbox : List Response} (h : Reach (Run.start client work) history inbox run) : Pool work run :=
  h.invariant (P := fun _ _ run => Pool work run) (start ready) fun hp hs => hp.step ready hs

/-- What every step keeps while the pool fits together holds wherever the run comes to. -/
theorem invariant (ready : ∀ t : Fin m, work[t].Ready) {client : Client σ}
    {P : List (Event m) → List Response → Run σ n m → Prop} (initial : P [] [] (Run.start client work))
    (preserved : ∀ {history events : List (Event m)} {inbox inbox' : List Response} {run run' : Run σ n m},
      P history inbox run → Pool work run → Step inbox run events inbox' run' → P (history ++ events) inbox' run')
    {history : List (Event m)} {inbox : List Response} (h : Reach (Run.start client work) history inbox run) :
    P history inbox run := by
  have hboth := h.invariant (P := fun history inbox run => P history inbox run ∧ Pool work run)
    ⟨initial, start ready⟩ fun hp hs => ⟨preserved hp.1 hp.2 hs, hp.2.step ready hs⟩
  exact hboth.1

end Pool

end Run

end NeuralEngine
