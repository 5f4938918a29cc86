import NeuralEngine.Proofs.Capability
import NeuralEngine.Proofs.Client.Lease

/-!
# Priming changes nothing but the speed

Running samples one after another and priming as many of them as the engine holds come to the same: the outputs
of the network for each sample, in the order of the samples, unless some call runs out of attempts. Either way
the client gives back what it has opened.
-/

namespace NeuralEngine

namespace Simulator

variable {base : Simulator} {nnid : Nnid} {n : Nat}

/-- The engine has a network of `n` outputs that it can run, and identifiers for all of its rows. -/
structure Offers (base : Simulator) (nnid : Nnid) (n : Nat) : Prop where
  network : ∃ asid table config, base.asid = some asid ∧ asid.toNat < 2 ^ 10 ∧ base.table = some table ∧
    table.config? asid nnid = some config ∧ config.size ≠ 0 ∧
    config.elementsPerBlock = base.params.elementsPerBlock ∧ declaredOutputs config = n
  outputs_pos : 1 ≤ n
  capacity_pos : 1 ≤ base.capacity
  identifiers : base.capacity ≤ reach base.options.tidStride

/-- The engine has a row for a network of `n` outputs that it can run. This is enough for one transaction at a
time, as the stride reaches some identifier. -/
structure Hosts (base : Simulator) (nnid : Nnid) (n : Nat) : Prop where
  network : ∃ asid table config, base.asid = some asid ∧ asid.toNat < 2 ^ 10 ∧ base.table = some table ∧
    table.config? asid nnid = some config ∧ config.size ≠ 0 ∧
    config.elementsPerBlock = base.params.elementsPerBlock ∧ declaredOutputs config = n
  outputs_pos : 1 ≤ n
  capacity_pos : 1 ≤ base.capacity

theorem Offers.hosts (h : base.Offers nnid n) : base.Hosts nnid n :=
  ⟨h.network, h.outputs_pos, h.capacity_pos⟩

theorem Hosts.runs (h : base.Hosts nnid n) {x : Transaction} (nnid_eq : x.nnid = nnid)
    (outputCount_eq : x.outputCount = n) : base.Runs x := by
  subst nnid_eq outputCount_eq
  exact h.network

theorem Hosts.asid (h : base.Hosts nnid n) : ∃ asid, base.asid = some asid ∧ asid.toNat < 2 ^ 10 := by
  obtain ⟨asid, -, -, hasid, hnarrow, -⟩ := h.network
  exact ⟨asid, hasid, hnarrow⟩

theorem Offers.lt (h : base.Offers nnid n) : n < 2 ^ 16 := by
  obtain ⟨_, _, config, -, -, -, -, -, -, rfl⟩ := h.network
  unfold declaredOutputs
  split
  · exact BitVec.isLt _
  · decide

end Simulator

namespace Client

open Simulator

variable {base : Simulator} {c : Client Simulator} {ls : List Lease} {nnid : Nnid} {n : Nat}

theorem ready_feedforward {sample : List Element} (hsample : sample ≠ []) (pos : 1 ≤ n) :
    (Transaction.feedforward nnid sample n).Ready where
  reset_eq := rfl
  inputs_pos := by simpa [Transaction.inputCount, Transaction.feedforward, List.length_pos_iff] using hsample
  outputs_pos := pos
  few := Nat.two_pow_pos 16

/-- The outputs of a lease on a sample are read. -/
theorem attains_read (hosts : base.Hosts nnid n) {tid : Tid} {sample : List Element}
    (h : Leased base c.channel (⟨tid, .feedforward nnid sample n, sample.length, 0⟩ :: ls)) :
    Attains (read tid n) (fun outputs d => outputs = expectedOutputs sample n ∧ Leased base d.channel ls) c := by
  obtain ⟨asid, hasid, hnarrow⟩ := hosts.asid
  exact attains_readOnto h hasid hnarrow (Nat.zero_add n) []

/-- A sample is run on its own, for which one identifier is enough. -/
theorem attains_sample (hosts : base.Hosts nnid n) (h : Leased base c.channel []) {sample : List Element}
    (hsample : sample ≠ []) :
    Attains (feedforward nnid sample n) (fun outputs d =>
      outputs = expectedOutputs sample n ∧ Leased base d.channel []) c := by
  have hready : (Transaction.feedforward nnid sample n).Ready := ready_feedforward hsample hosts.outputs_pos
  unfold feedforward
  rw [if_neg hsample]
  refine .bind ((attains_openTransaction h (hosts.runs rfl rfl) hready hosts.capacity_pos (reach_pos _)).mono
    fun tid d hd => ?_)
  refine .bind ((attains_writeAll hd rfl hsample).mono fun _ e he => ?_)
  exact attains_read hosts he

theorem attains_feedforward (offers : base.Offers nnid n) (h : Leased base c.channel []) {sample : List Element}
    (hsample : sample ≠ []) :
    Attains (feedforward nnid sample n) (fun outputs d =>
      outputs = expectedOutputs sample n ∧ Leased base d.channel []) c :=
  attains_sample offers.hosts h hsample

/-! ## Priming -/

/-- A transaction is opened on a sample and written up to its last element. -/
theorem attains_prime (offers : base.Offers nnid n) (h : Leased base c.channel ls) (room : ls.length < base.capacity)
    {sample : List Element} (hsample : sample ≠ []) :
    Attains (prime nnid sample) (fun p d => sample.getLast? = some p.2 ∧
      Leased base d.channel (⟨p.1, .feedforward nnid sample n, sample.length - 1, 0⟩ :: ls)) c := by
  have hready : (Transaction.feedforward nnid sample n).Ready := ready_feedforward hsample offers.outputs_pos
  have horbit : ls.length < reach base.options.tidStride := Nat.lt_of_lt_of_le room offers.identifiers
  refine .bind ((attains_openTransaction h (offers.hosts.runs rfl rfl) hready room horbit).mono fun tid d hd => ?_)
  rw [List.getLast?_eq_some_getLast hsample]
  have hstream : (Transaction.feedforward nnid sample n).stream.toList.drop 0 =
      sample.dropLast ++ [sample.getLast hsample] := (List.dropLast_concat_getLast hsample).symm
  refine .bind ((attains_writeExceptLast hd hstream (List.cons_ne_nil _ _)).mono fun _ e he => ?_)
  refine attains_pure ⟨rfl, ?_⟩
  rw [List.length_dropLast, Nat.zero_add] at he
  exact he

/-- The leases on samples of which `fed` elements were accepted. -/
def leases (nnid : Nnid) (n : Nat) (fed : List Element → Nat) (samples : List (List Element))
    (primed : List (Tid × Element)) : List Lease :=
  List.zipWith (fun sample p => ⟨p.1, .feedforward nnid sample n, fed sample, 0⟩) samples primed

/-- Each sample was primed up to its last element. -/
def Primed (samples : List (List Element)) (primed : List (Tid × Element)) : Prop :=
  List.Forall₂ (fun sample p => sample.getLast? = some p.2) samples primed

/-- Samples are primed as long as there is room. -/
theorem attains_primeAll (offers : base.Offers nnid n) (h : Leased base c.channel ls) {samples : List (List Element)}
    (room : ls.length + samples.length ≤ base.capacity) (nonempty : [] ∉ samples) :
    Attains (samples.mapM (prime nnid)) (fun primed d => Primed samples primed ∧
      Leased base d.channel (leases nnid n (fun sample => sample.length - 1) samples primed ++ ls)) c := by
  induction samples generalizing c ls with
  | nil => exact attains_pure ⟨.nil, h⟩
  | cons sample samples ih =>
    rw [List.mem_cons, not_or] at nonempty
    rw [List.length_cons] at room
    rw [List.mapM_cons]
    refine .bind ((attains_prime offers h (by omega) (Ne.symm nonempty.1)).mono fun p d ⟨hlast, hd⟩ => ?_)
    have hroom : (⟨p.1, .feedforward nnid sample n, sample.length - 1, 0⟩ :: ls : List Lease).length +
        samples.length ≤ base.capacity := by
      rw [List.length_cons]
      omega
    refine .bind ((ih hd hroom nonempty.2).mono fun primed e ⟨hprimed, he⟩ => ?_)
    exact attains_pure ⟨.cons hlast hprimed, he.perm List.perm_middle⟩

/-- The last elements are written. -/
theorem attains_startAll {samples : List (List Element)} {primed : List (Tid × Element)} (hprimed : Primed samples primed)
    (h : Leased base c.channel (leases nnid n (fun sample => sample.length - 1) samples primed ++ ls)) :
    Attains (primed.forM fun p => write p.1 p.2 true) (fun _ d =>
      Leased base d.channel (leases nnid n List.length samples primed ++ ls)) c := by
  induction hprimed generalizing c ls with
  | nil => exact attains_pure h
  | @cons sample p samples primed hlast hprimed ih =>
    have hpos : 0 < sample.length := by
      cases sample with
      | nil => cases hlast
      | cons => exact Nat.zero_lt_succ _
    have hentry : (Transaction.feedforward nnid sample n).stream[sample.length - 1]? = some p.2 := by
      rw [← hlast, List.getLast?_eq_getElem?]
      simp [Transaction.feedforward]
    have hend : sample.length - 1 + 1 = sample.length := Nat.succ_pred_eq_of_pos hpos
    have hstop : true = (sample.length - 1 + 1 == (Transaction.feedforward nnid sample n).stream.size) :=
      (beq_iff_eq.2 hend).symm
    refine .bind ((attains_write h hentry hstop).mono fun _ d hd => ?_)
    rw [hend] at hd
    exact (ih (hd.perm List.perm_middle.symm)).mono fun _ e he => he.perm List.perm_middle

/-- The outputs of all samples are read, and all leases end. -/
theorem attains_readAll (offers : base.Offers nnid n) {samples : List (List Element)} {primed : List (Tid × Element)}
    (hprimed : Primed samples primed) (h : Leased base c.channel (leases nnid n List.length samples primed ++ ls)) :
    Attains (primed.mapM fun p => read p.1 n) (fun outputs d =>
      outputs = samples.map (expectedOutputs · n) ∧ Leased base d.channel ls) c := by
  induction hprimed generalizing c with
  | nil => exact attains_pure ⟨rfl, h⟩
  | @cons sample p samples primed hlast hprimed ih =>
    rw [List.mapM_cons]
    refine .bind ((attains_read offers.hosts h).mono fun first d ⟨hfirst, hd⟩ => ?_)
    refine .bind ((ih hd).mono fun rest e ⟨hrest, he⟩ => ?_)
    exact attains_pure ⟨by rw [hfirst, hrest]; rfl, he⟩

/-- As many samples as the engine has room for are primed, started and read. -/
theorem attains_runPrimed (offers : base.Offers nnid n) (h : Leased base c.channel []) {samples : List (List Element)}
    (room : samples.length ≤ base.capacity) (nonempty : [] ∉ samples) :
    Attains (runPrimed nnid n samples) (fun outputs d =>
      outputs = samples.map (expectedOutputs · n) ∧ Leased base d.channel []) c := by
  have hroom : ([] : List Lease).length + samples.length ≤ base.capacity := (Nat.zero_add _).trans_le room
  refine .bind ((attains_primeAll offers h hroom nonempty).mono fun primed d ⟨hprimed, hd⟩ => ?_)
  exact .bind ((attains_startAll hprimed hd).mono fun _ e he => attains_readAll offers hprimed he)

/-! ## Series -/

/-- A series of calls, each of which comes to what is said from wherever the one before has left the client. -/
theorem attains_mapM {α β : Type} {f : α → ClientM Simulator β} {g : α → β} {I : Client Simulator → Prop}
    {as : List α} (each : ∀ a ∈ as, ∀ c, I c → Attains (f a) (fun b d => b = g a ∧ I d) c) (start : I c) :
    Attains (as.mapM f) (fun bs d => bs = as.map g ∧ I d) c := by
  induction as generalizing c with
  | nil => exact attains_pure ⟨rfl, start⟩
  | cons a as ih =>
    rw [List.mapM_cons]
    refine .bind ((each a List.mem_cons_self c start).mono fun b d ⟨hb, hd⟩ => ?_)
    refine .bind ((ih (fun a' ha' => each a' (List.mem_cons_of_mem a ha')) hd).mono fun bs e ⟨hbs, he⟩ => ?_)
    exact attains_pure ⟨by rw [hb, hbs]; rfl, he⟩

theorem length_le_of_mem_blocks {α : Type} {size count : Nat} {xs b : List α} (h : b ∈ blocks size count xs) :
    b.length ≤ size := by
  induction count generalizing xs with
  | zero => cases h
  | succ count ih =>
    obtain rfl | h := List.mem_cons.1 h
    · exact List.length_take_le _ _
    · exact ih h

theorem attains_capability : Attains capability (fun k d => k = c.channel.capability ∧ d.channel = c.channel) c where
  ok k d hok := by
    cases hok
    exact ⟨rfl, rfl⟩
  error e d herror := by cases herror

/-- Priming yields the outputs of the network for each sample. -/
theorem attains_feedforwardPrimed (offers : base.Offers nnid n) (h : Leased base c.channel [])
    {samples : List (List Element)} (nonempty : [] ∉ samples) :
    Attains (feedforwardPrimed nnid samples n) (fun outputs d =>
      outputs = samples.map (expectedOutputs · n) ∧ Leased base d.channel []) c := by
  unfold feedforwardPrimed
  rw [if_neg nonempty]
  refine .bind (attains_capability.mono ?_)
  rintro _ d ⟨rfl, hd⟩
  have hrows : max c.channel.capability.tableEntries.toNat 1 = base.capacity := by
    rw [Capability.toNat_tableEntries c.channel.capability_ofParams, h.alike.params]
    exact Nat.max_eq_left offers.capacity_pos
  simp only [hrows]
  have hflatten := flatten_allBlocks offers.capacity_pos samples
  have hblocks : ∀ block ∈ allBlocks base.capacity samples, ∀ e : Client Simulator, Leased base e.channel [] →
      Attains (runPrimed nnid n block) (fun outputs e' =>
        outputs = block.map (expectedOutputs · n) ∧ Leased base e'.channel []) e := by
    intro block hblock e he
    have hnonempty : [] ∉ block := fun hnil =>
      nonempty (hflatten ▸ List.mem_flatten.2 ⟨block, hblock, hnil⟩)
    exact attains_runPrimed offers he (length_le_of_mem_blocks hblock) hnonempty
  refine .bind ((attains_mapM hblocks (hd ▸ h)).mono ?_)
  rintro _ e ⟨rfl, he⟩
  refine attains_pure ⟨?_, he⟩
  rw [← List.map_flatten, hflatten]

/-! ## Training -/

theorem ready_trainIncremental {inputs expected : List Element} (hinputs : inputs ≠ []) (pos : 1 ≤ expected.length)
    (few : expected.length < 2 ^ 16) : (Transaction.trainIncremental nnid inputs expected).Ready where
  reset_eq := rfl
  inputs_pos := by
    have hpos := List.length_pos_iff.2 hinputs
    simpa [Transaction.inputCount, Transaction.trainIncremental] using hpos
  outputs_pos := pos
  few := few

/-- A training step yields the outputs of the network for its inputs alone. -/
theorem attains_trainIncremental {expected : List Element} (offers : base.Offers nnid expected.length)
    (h : Leased base c.channel []) {inputs : List Element} (hinputs : inputs ≠ []) :
    Attains (trainIncremental nnid inputs expected) (fun outputs d =>
      outputs = expectedOutputs inputs expected.length ∧ Leased base d.channel []) c := by
  obtain ⟨asid, hasid, hnarrow⟩ := offers.hosts.asid
  have hready : (Transaction.trainIncremental nnid inputs expected).Ready :=
    ready_trainIncremental hinputs offers.outputs_pos offers.lt
  unfold trainIncremental
  rw [if_neg hinputs, if_neg (Nat.not_le.2 offers.lt)]
  refine .bind ((attains_openTransaction h (offers.hosts.runs rfl rfl) hready offers.capacity_pos (reach_pos _)).mono
    fun tid d hd => ?_)
  have hexpected : (Transaction.trainIncremental nnid inputs expected).expected =
      expectedOutputs inputs expected.length := by
    simp [Transaction.expected, Transaction.inputs, Transaction.trainIncremental]
  unfold writeTraining
  rw [if_neg hinputs]
  refine .bind (.bind ((attains_writeExceptLast hd rfl hinputs).mono fun _ e he => ?_))
  have hrest : (Transaction.trainIncremental nnid inputs expected).stream.toList.drop (0 + expected.length) = inputs := by
    simp [Transaction.trainIncremental]
  refine (attains_writeAll he hrest hinputs).mono fun _ f hf => ?_
  refine (attains_readOnto hf hasid hnarrow (Nat.zero_add _) []).mono fun outputs g hg => ?_
  rw [← hexpected]
  exact hg

/-! ## Agreement -/

/-- Whatever the sizes and delays of an engine that a client has to itself, and however often the client tries again:
running samples one after another, priming as many of them as the engine holds, and a training step all yield the
outputs that the network has for the inputs, or run out of attempts. When a call succeeds, the engine holds nothing
and owes nothing. A training step without inputs is refused before anything is presented. -/
theorem primed_agrees_with_plain {c : Client Simulator} {nnid : Nnid} {n : Nat} (entries : c.channel.entries = [])
    (deferred : c.channel.deferred = []) (offers : c.channel.Offers nnid n) :
    (∀ samples : List (List Element), [] ∉ samples →
      Attains (feedforwardPrimed nnid samples n) (fun outputs d =>
        outputs = samples.map (expectedOutputs · n) ∧ d.channel.entries = [] ∧ d.channel.deferred = []) c ∧
      Attains (samples.mapM fun sample => feedforward nnid sample n) (fun outputs d =>
        outputs = samples.map (expectedOutputs · n) ∧ d.channel.entries = [] ∧ d.channel.deferred = []) c) ∧
    (∀ inputs expected : List Element, inputs ≠ [] → expected.length = n →
      Attains (trainIncremental nnid inputs expected) (fun outputs d =>
        outputs = expectedOutputs inputs n ∧ d.channel.entries = [] ∧ d.channel.deferred = []) c) ∧
    ∀ expected : List Element, trainIncremental nnid [] expected c = .error .emptyInput c := by
  have hstart : Leased c.channel c.channel [] := .start entries deferred
  refine ⟨fun samples nonempty => ⟨?_, ?_⟩, ?_, fun _ => rfl⟩
  · exact (attains_feedforwardPrimed offers hstart nonempty).mono fun _ _ ⟨houtputs, hleased⟩ =>
      ⟨houtputs, hleased.entries_eq_nil, hleased.settled⟩
  · have heach : ∀ sample ∈ samples, ∀ d : Client Simulator, Leased c.channel d.channel [] →
        Attains (feedforward nnid sample n) (fun outputs e =>
          outputs = expectedOutputs sample n ∧ Leased c.channel e.channel []) d := fun sample hsample d hd =>
      attains_feedforward offers hd fun hnil => nonempty (hnil ▸ hsample)
    exact (attains_mapM heach hstart).mono fun _ _ ⟨houtputs, hleased⟩ =>
      ⟨houtputs, hleased.entries_eq_nil, hleased.settled⟩
  · rintro inputs expected hinputs rfl
    exact (attains_trainIncremental offers hstart hinputs).mono fun _ _ ⟨houtputs, hleased⟩ =>
      ⟨houtputs, hleased.entries_eq_nil, hleased.settled⟩

/-- A client of an engine of two rows that holds every answer back, takes one element in three steps into queues of one,
and refuses the first write. -/
def priming : Client Simulator where
  channel := { withCapacity 2 with
    options := { queueDepth := 1, drainInterval := 3, tidDelay := some 2, dataDelay := some fun _ => 4 }
    table := some { spaces := [{ capacity := 1, configs := [.ofWords [0, 2]] }], configsPerSpace := 1 }
    asid := some 0
    forcedBusy := 1 }
  retryLimit := 16

theorem offers_priming : priming.channel.Offers 0 2 where
  network := ⟨0, _, .ofWords [0, 2], rfl, by decide, rfl, rfl, by decide, by decide, by decide⟩
  outputs_pos := by decide
  capacity_pos := by decide
  identifiers := by decide

/-- The call does not fail. -/
def succeeds {σ α : Type} (call : ClientM σ α) (c : Client σ) : Bool :=
  match call c with
  | .ok _ _ => true
  | .error _ _ => false

/-- Three samples on two rows: the second round of the primed run is a partial one. -/
theorem priming_agrees :
    priming.channel.entries = [] ∧ priming.channel.deferred = [] ∧ priming.channel.Offers 0 2 ∧
      succeeds (feedforwardPrimed 0 [[1], [2, 3], [4]] 2) priming = true ∧
      Attains (feedforwardPrimed 0 [[1], [2, 3], [4]] 2)
        (fun outputs d => outputs = [[1, 2], [5, 6], [4, 5]] ∧ d.channel.entries = []) priming ∧
      Attains ([[1], [2, 3], [4]].mapM fun sample => feedforward 0 sample 2)
        (fun outputs _ => outputs = [[1, 2], [5, 6], [4, 5]]) priming ∧
      Attains (trainIncremental 0 [2, 3] [9, 9]) (fun outputs _ => outputs = [5, 6]) priming := by
  have hlist : [[1], [2, 3], [4]].map (expectedOutputs · 2) = [[1, 2], [5, 6], [4, 5]] := by decide
  have hagree := @primed_agrees_with_plain priming 0 2 rfl rfl offers_priming
  have hsamples := hagree.1 [[1], [2, 3], [4]] (by decide)
  have htrain := hagree.2.1 [2, 3] [9, 9] (by decide) rfl
  exact ⟨rfl, rfl, offers_priming, by decide +kernel,
    hsamples.1.mono fun outputs _ h => ⟨h.1.trans hlist, h.2.1⟩,
    hsamples.2.mono fun outputs _ h => h.1.trans hlist,
    htrain.mono fun outputs _ h => h.1.trans (by decide)⟩

end Client

end NeuralEngine
