import NeuralEngine.Proofs.Client.Primed

/-!
# What a comparison counts

A comparison cuts two lists into blocks of different sizes and runs a whole transaction for each pair of blocks
(`attains_compareSamples`). The blocks of a list are those at its multiples of the size (`nthBlock`), so the pairs
that are compared are the ones up to the end of the list that gives out first (`zip_wholeBlocks`), and the report
counts over their positions (`foldl_add`).
-/

namespace NeuralEngine

/-! ## Pairs of blocks -/

section Blocks

variable {α β : Type} {size count i : Nat} {xs : List α}

/-- The block of `size` elements at position `i`. -/
def nthBlock (size : Nat) (xs : List α) (i : Nat) : List α :=
  (xs.drop (i * size)).take size

theorem blocks_eq_map (size count : Nat) (xs : List α) :
    blocks size count xs = (List.range count).map (nthBlock size xs) := by
  induction count generalizing xs with
  | zero => rfl
  | succ count ih =>
    have hnext : ∀ i, nthBlock size (xs.drop size) i = nthBlock size xs (i + 1) := by
      intro i
      unfold nthBlock
      rw [List.drop_drop, Nat.add_mul, Nat.one_mul, Nat.add_comm]
    have hfirst : nthBlock size xs 0 = xs.take size := by
      unfold nthBlock
      rw [Nat.zero_mul, List.drop_zero]
    rw [blocks, ih, List.range_succ_eq_map, List.map_cons, List.map_map, hfirst]
    exact congrArg _ (List.map_congr_left fun i _ => hnext i)

theorem length_nthBlock (whole : i < xs.length / size) : (nthBlock size xs i).length = size := by
  have hle : (i + 1) * size ≤ xs.length := Nat.mul_le_of_le_div size (i + 1) xs.length whole
  rw [Nat.add_mul, Nat.one_mul] at hle
  unfold nthBlock
  rw [List.length_take, List.length_drop]
  omega

/-- A block has nothing to do with what comes after it. -/
theorem nthBlock_take (h : i < count) : nthBlock size (xs.take (count * size)) i = nthBlock size xs i := by
  have hle : (i + 1) * size ≤ count * size := Nat.mul_le_mul_right size h
  rw [Nat.add_mul, Nat.one_mul] at hle
  unfold nthBlock
  rw [List.drop_take, List.take_take, Nat.min_eq_left (by omega)]

theorem nthBlock_congr {ys : List α} (same : ys.take (count * size) = xs.take (count * size)) (h : i < count) :
    nthBlock size ys i = nthBlock size xs i := by
  rw [← nthBlock_take h, same, nthBlock_take h]

theorem zip_wholeBlocks (a b : Nat) (xs : List α) (ys : List β) :
    (wholeBlocks a xs).zip (wholeBlocks b ys) =
      (List.range (min (xs.length / a) (ys.length / b))).map fun i => (nthBlock a xs i, nthBlock b ys i) := by
  unfold wholeBlocks
  rw [blocks_eq_map, blocks_eq_map]
  refine List.ext_getElem (by simp) fun i _ _ => ?_
  simp

end Blocks

/-! ## Reports -/

/-- A report on samples that are run one after another counts them, counts those that differ and has the position of
the first one. -/
theorem CompareReport.foldl_add (agrees : Nat → Bool) (count : Nat) :
    (List.range count).foldl (fun (report : CompareReport) i => report.add (agrees i)) {} =
      { samples := count
        mismatches := (List.range count).countP fun i => !agrees i
        firstMismatch := (List.range count).find? fun i => !agrees i } := by
  induction count with
  | zero => rfl
  | succ count ih =>
    rw [List.range_succ, List.foldl_append, ih, List.countP_append, List.find?_append]
    unfold add
    cases h : agrees count <;> simp [h]

namespace Client

open Simulator

variable {base : Simulator} {c : Client Simulator} {nnid : Nnid} {n : Nat}

/-- By induction on the samples: each of them enters the report with the outputs that the network has for it. -/
theorem attains_compareSamples (hosts : base.Hosts nnid n) (h : Leased base c.channel [])
    {pairs : List (List Element × List Element)} (whole : ∀ p ∈ pairs, p.1 ≠ [] ∧ p.2.length = n)
    (report : CompareReport) :
    Attains (compareSamples nnid pairs report) (fun result _ =>
      result = pairs.foldl (fun report p => report.add (decide (expectedOutputs p.1 n = p.2))) report) c := by
  induction pairs generalizing c report with
  | nil => exact attains_pure rfl
  | cons p pairs ih =>
    obtain ⟨hsample, hlength⟩ := whole p List.mem_cons_self
    unfold compareSamples
    rw [hlength]
    refine .bind ((attains_sample hosts h hsample).mono ?_)
    rintro _ d ⟨rfl, hd⟩
    exact ih hd (fun q hq => whole q (List.mem_cons_of_mem p hq)) _

theorem attains_runCompare (hosts : base.Hosts nnid n) (h : Leased base c.channel []) {numInputs : Nat}
    (pos : 1 ≤ numInputs) (inputs expected : List Element) :
    Attains (runCompare nnid inputs expected numInputs n) (fun report _ =>
      let agrees := fun i => decide (expectedOutputs (nthBlock numInputs inputs i) n = nthBlock n expected i)
      let samples := min (inputs.length / numInputs) (expected.length / n)
      report =
        { samples := samples
          mismatches := (List.range samples).countP fun i => !agrees i
          firstMismatch := (List.range samples).find? fun i => !agrees i }) c := by
  have hpos := hosts.outputs_pos
  unfold runCompare
  rw [if_neg (by omega), zip_wholeBlocks]
  refine (attains_compareSamples hosts h (fun p hp => ?_) {}).mono fun report d hreport => ?_
  · obtain ⟨i, hi, rfl⟩ := List.mem_map.1 hp
    have hlt := List.mem_range.1 hi
    refine ⟨?_, length_nthBlock (Nat.lt_of_lt_of_le hlt (Nat.min_le_right _ _))⟩
    have hlength := length_nthBlock (Nat.lt_of_lt_of_le hlt (Nat.min_le_left _ _))
    rw [← List.length_pos_iff, hlength]
    exact pos
  · rw [hreport, List.foldl_map]
    exact CompareReport.foldl_add _ _

/-- Only the samples that have a whole counterpart have a part in a comparison. -/
theorem runCompare_congr {inputs inputs' expected expected' : List Element} {numInputs samples : Nat}
    (count : min (inputs.length / numInputs) (expected.length / n) = samples)
    (count' : min (inputs'.length / numInputs) (expected'.length / n) = samples)
    (same_inputs : inputs'.take (samples * numInputs) = inputs.take (samples * numInputs))
    (same_expected : expected'.take (samples * n) = expected.take (samples * n)) :
    (runCompare nnid inputs' expected' numInputs n : ClientM Simulator CompareReport) =
      runCompare nnid inputs expected numInputs n := by
  unfold runCompare
  rw [zip_wholeBlocks, zip_wholeBlocks, count, count']
  have hpairs : ∀ i ∈ List.range samples,
      (nthBlock numInputs inputs' i, nthBlock n expected' i) = (nthBlock numInputs inputs i, nthBlock n expected i) := by
    intro i hi
    have hlt := List.mem_range.1 hi
    rw [nthBlock_congr same_inputs hlt, nthBlock_congr same_expected hlt]
  rw [List.map_congr_left hpairs]

/-- A client that has an engine to itself, on which the network can be run, compares exactly: unless its attempts are
used up, it reports the number of samples with a whole counterpart, how many of them the network has other outputs
for than expected, and the first of these. Elements behind the last whole sample have no part in the call. -/
theorem comparison_counts_exactly {c : Client Simulator} {nnid : Nnid} {n : Nat} (entries : c.channel.entries = [])
    (deferred : c.channel.deferred = []) (hosts : c.channel.Hosts nnid n) {numInputs : Nat} (pos : 1 ≤ numInputs)
    (inputs expected : List Element) :
    let samples := min (inputs.length / numInputs) (expected.length / n)
    let Differs := fun i => expectedOutputs (nthBlock numInputs inputs i) n ≠ nthBlock n expected i
    ((∃ d, runCompare nnid inputs expected numInputs n c = .error .retryLimitExceeded d) ∨
      ∃ report d, runCompare nnid inputs expected numInputs n c = .ok report d ∧ report.samples = samples ∧
        report.mismatches = (List.range samples).countP (fun i => decide (Differs i)) ∧
        (∀ i, report.firstMismatch = some i ↔ i < samples ∧ Differs i ∧ ∀ j < i, ¬ Differs j) ∧
        (report.firstMismatch = none ↔ report.mismatches = 0)) ∧
    ∀ inputs' expected' : List Element, min (inputs'.length / numInputs) (expected'.length / n) = samples →
      inputs'.take (samples * numInputs) = inputs.take (samples * numInputs) →
      expected'.take (samples * n) = expected.take (samples * n) →
      runCompare nnid inputs' expected' numInputs n c = runCompare nnid inputs expected numInputs n c := by
  intro samples Differs
  refine ⟨?_, fun inputs' expected' count' same_inputs same_expected => ?_⟩
  · refine (attains_runCompare hosts (.start entries deferred) pos inputs expected).cases.imp_right ?_
    rintro ⟨report, d, hcall, rfl⟩
    refine ⟨_, d, hcall, rfl, ?_, fun i => ?_, ?_⟩
    · exact List.countP_congr fun i _ => by simp [Differs]
    · rw [List.find?_range_eq_some]
      simp [Differs, samples, and_left_comm]
    · rw [List.find?_eq_none, List.countP_eq_zero]
  · exact congrFun (runCompare_congr rfl count' same_inputs same_expected) c

/-- Two samples of two inputs each, with an input too many and two outputs too many; the second one differs. -/
theorem priming_compares_two :
    priming.channel.entries = [] ∧ priming.channel.deferred = [] ∧ priming.channel.Hosts 0 2 ∧
      (∃ d, runCompare 0 [1, 2, 3, 4, 5] [3, 4, 9, 9, 7, 8] 2 2 priming =
        .ok { samples := 2, mismatches := 1, firstMismatch := some 1 } d) ∧
      runCompare 0 [1, 2, 3, 4] [3, 4, 9, 9] 2 2 priming =
        runCompare 0 [1, 2, 3, 4, 5] [3, 4, 9, 9, 7, 8] 2 2 priming := by
  have hsucceeds : succeeds (runCompare 0 [1, 2, 3, 4, 5] [3, 4, 9, 9, 7, 8] 2 2) priming = true := by decide +kernel
  obtain ⟨hcall, htrailing⟩ := @comparison_counts_exactly priming 0 2 rfl rfl offers_priming.hosts 2 (by decide)
    [1, 2, 3, 4, 5] [3, 4, 9, 9, 7, 8]
  refine ⟨rfl, rfl, offers_priming.hosts, ?_, htrailing _ _ (by decide) (by decide) (by decide)⟩
  obtain ⟨d, herror⟩ | ⟨report, d, hok, hsamples, hmismatches, hfirst, -⟩ := hcall
  · unfold succeeds at hsucceeds
    rw [herror] at hsucceeds
    cases hsucceeds
  · obtain ⟨samples, mismatches, firstMismatch⟩ := report
    obtain rfl : samples = 2 := hsamples
    obtain rfl : mismatches = 1 := hmismatches.trans (by decide)
    obtain rfl : firstMismatch = some 1 := (hfirst 1).2 (by decide)
    exact ⟨d, hok⟩

end Client

end NeuralEngine
