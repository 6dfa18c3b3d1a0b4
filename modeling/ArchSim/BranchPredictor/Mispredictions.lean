import ArchSim.BranchPredictor.Reference
import ArchSim.Library.CounterMistakes

/-!
# Mispredictions

How often a predictor is wrong on a trace, whatever the trace. The comparison is with a fixed
direction for every counter: a counter starts at the weakest value that predicts `TAKEN`, and from
there it is wrong at most twice for each outcome that is not the one chosen for it.
-/

namespace ArchSim.BranchPredictor

open Library CounterTable

variable {ptype : PredictorType} {numEntries counterBits historyBits : BitVec 32}

/-- The counter that each branch of a trace reads, and the outcome of the branch. -/
def Simulation.accesses (s : Simulation) : List Branch → List (ℕ × BranchDir)
  | [] => []
  | b :: trace => match getIndex s.predictor b.pc, s.step b with
    | .ok index, .ok s' => (index.toNat, b.actual) :: s'.accesses trace
    | _, _ => []

/-- How many branches of `trace` have been predicted wrongly. -/
def Simulation.mispredicted (s : Simulation) (trace : List Branch) : ℕ :=
  (s.predicted.zip (trace.map Branch.actual)).countP fun both ↦ both.2 ≠ both.1

/-- The counters start at a value that is positive and within the bound of the code, whatever
`counterBits` is. -/
theorem weak_le_updateBound (counterBits : BitVec 32) :
    0 < (shl 1 (counterBits - 1).toNat).toNat ∧
      (shl 1 (counterBits - 1).toNat).toNat ≤
        (updateBound (shl 1 (counterBits - 1).toNat)).toNat := by
  have hmod : shl 1 (counterBits - 1).toNat = shl 1 ((counterBits - 1).toNat % 32) := by
    unfold shl
    rw [Nat.mod_mod]
  rw [hmod]
  have hall : ∀ k : Fin 32, 0 < (shl 1 k).toNat ∧
      (shl 1 k).toNat ≤ (updateBound (shl 1 k)).toNat := by decide
  exact hall ⟨_, Nat.mod_lt _ (by decide)⟩

theorem isTaken_injective : Function.Injective BranchDir.isTaken := by
  intro d d' h
  cases d <;> cases d' <;> first | rfl | cases h

/-- The counters that the code reads are those that the table reads. -/
theorem accesses_eq {s : Simulation} {t : Table Predictor ℕ} (hsized : s.predictor.Sized)
    (hrepresents : Represents s.predictor t) (trace : List Branch) :
    (s.accesses trace).map (fun a ↦ (a.1, a.2.isTaken)) =
      t.accesses scheme (updateBound s.predictor.ctrWeaklyTaken).toNat
        (trace.map Branch.event) := by
  induction trace generalizing s t with
  | nil => rfl
  | cons b trace ih =>
    obtain ⟨index, counter, hindex, hscheme, hread, hcounter⟩ := hrepresents.read_pht hsized b.pc
    obtain ⟨s', hs', hpredictor⟩ : ∃ s', s.step b = .ok s' ∧
        s'.predictor = s.predictor.next b index.toNat counter :=
      ⟨_, step_ok hsized hindex hread rfl, rfl⟩
    have hsized' : s'.predictor.Sized := by
      rw [hpredictor]
      exact hsized.record b.pc b.actual List.length_set
    have hnext : Represents s'.predictor
        (t.train scheme (updateBound s.predictor.ctrWeaklyTaken).toNat b.event) := by
      rw [hpredictor]
      exact hrepresents.next hscheme hcounter rfl
    have hweak : s'.predictor.ctrWeaklyTaken = s.predictor.ctrWeaklyTaken := by
      rw [hpredictor]
      rfl
    have hrest := ih hsized' hnext
    rw [hweak] at hrest
    simp only [Simulation.accesses, hindex, hs', List.map_cons, Table.accesses]
    rw [hrest]
    exact congrArg₂ _ (congrArg₂ _ hscheme.symm rfl) rfl

/-- Wrong predictions are those of the table. -/
theorem Agrees.mispredicted {bound weak : ℕ} {t : Table Predictor ℕ} {trace : List Branch}
    {s : Simulation} (h : Agrees bound weak t trace s) :
    s.mispredicted trace = t.mistakes scheme bound weak (trace.map Branch.event) := by
  have hactual : trace.map Branch.actual =
      ((trace.map Branch.event).map Prod.snd).map BranchDir.ofTaken := by
    rw [List.map_map, List.map_map]
    exact List.map_congr_left fun b _ ↦ (ofTaken_isTaken b.actual).symm
  rw [Simulation.mispredicted, h.predicted, hactual, List.zip_map, List.countP_map,
    Table.mistakes_eq_countP]
  refine List.countP_congr fun both _ ↦ ?_
  obtain ⟨predicted, actual⟩ := both
  cases predicted <;> cases actual <;> decide

/-- What the counts of the code say of the wrong predictions. -/
theorem Counts.mispredicted {s : Simulation} {trace : List Branch}
    (h : Counts s.stats s.predicted (trace.map Branch.actual))
    (hlength : s.predicted.length = trace.length) :
    s.stats.numBranches - s.stats.correct = BitVec.ofNat 64 (s.mispredicted trace) := by
  have hzip : (s.predicted.zip (trace.map Branch.actual)).length = s.predicted.length := by
    rw [List.length_zip, List.length_map, hlength, Nat.min_self]
  have hsum := List.length_eq_countP_add_countP (l := s.predicted.zip (trace.map Branch.actual))
    fun both ↦ decide (both.2 = both.1)
  have htotal : s.predicted.length =
      s.mispredicted trace + (s.predicted.zip (trace.map Branch.actual)).countP
        fun both ↦ decide (both.2 = both.1) := by
    rw [← hzip, hsum, Nat.add_comm, Simulation.mispredicted]
    congr 1
    exact List.countP_congr fun both _ ↦ by simp
  rw [h.numBranches, h.correct, htotal, BitVec.ofNat_add, BitVec.add_sub_cancel]

section

variable {s : Simulation} {t : Table Predictor ℕ}

/-- The mistakes of a simulation whose counters start at the weakest value that predicts `TAKEN`. -/
theorem run_mispredicted_le (hsized : s.predictor.Sized) (hrepresents : Represents s.predictor t)
    (hpredicted : s.predicted = []) (hcounts : Counts s.stats [] [])
    (hpos : 0 < s.predictor.ctrWeaklyTaken.toNat)
    (hle : s.predictor.ctrWeaklyTaken.toNat ≤ (updateBound s.predictor.ctrWeaklyTaken).toNat)
    (hstart : ∀ i, t.counters i = s.predictor.ctrWeaklyTaken.toNat) (trace : List Branch) :
    ∃ s', s.run trace = .ok s' ∧
      s'.stats.numBranches - s'.stats.correct = BitVec.ofNat 64 (s'.mispredicted trace) ∧
      ∀ direction : ℕ → BranchDir, s'.mispredicted trace ≤
        2 * ((s.accesses trace).countP fun a ↦ a.2 ≠ direction a.1) +
          ((((s.accesses trace).map Prod.fst).toFinset).filter fun i ↦
            direction i = .NOT_TAKEN).card := by
  obtain ⟨s', hs', -, -, -, hagrees⟩ := run_agrees hsized hrepresents hpredicted hcounts trace
  have hlength : s'.predicted.length = trace.length := by
    rw [hagrees.predicted, List.length_map, Table.length_predictions, List.length_map]
  refine ⟨s', hs', hagrees.counts.mispredicted hlength, fun direction ↦ ?_⟩
  have hmistakes := Table.mistakes_le scheme (trace.map Branch.event) hpos hle hstart
    fun i ↦ (direction i).isTaken
  rw [← accesses_eq hsized hrepresents, List.countP_map, List.map_map] at hmistakes
  rw [hagrees.mispredicted]
  refine hmistakes.trans_eq ?_
  congr 2
  · refine List.countP_congr fun a _ ↦ ?_
    simp [isTaken_injective.eq_iff]
  · refine Finset.filter_congr fun i _ ↦ ?_
    cases direction i <;> simp [BranchDir.isTaken]

end

theorem initialPredictor_mispredicted_le (hentries : 1 ≤ numEntries.toInt)
    (hbits : 1 ≤ counterBits.toInt) (hfits : Fits ptype numEntries counterBits historyBits)
    (storageOverhead : BitVec 64) (trace : List Branch) :
    ∃ s, Simulation.run ⟨initialPredictor ptype numEntries counterBits historyBits,
        { storageOverhead := storageOverhead }, []⟩ trace = .ok s ∧
      s.stats.numBranches - s.stats.correct = BitVec.ofNat 64 (s.mispredicted trace) ∧
      ∀ direction : ℕ → BranchDir, s.mispredicted trace ≤
        2 * ((Simulation.accesses ⟨initialPredictor ptype numEntries counterBits historyBits,
          { storageOverhead := storageOverhead }, []⟩ trace).countP fun a ↦
            a.2 ≠ direction a.1) +
          ((((Simulation.accesses ⟨initialPredictor ptype numEntries counterBits historyBits,
            { storageOverhead := storageOverhead }, []⟩ trace).map Prod.fst).toFinset).filter
              fun i ↦ direction i = .NOT_TAKEN).card := by
  obtain ⟨hpos, hle⟩ := weak_le_updateBound counterBits
  exact run_mispredicted_le
    (s := ⟨initialPredictor ptype numEntries counterBits historyBits, _, []⟩)
    (initialPredictor_sized hentries hbits hfits)
    (initialPredictor_represents ptype numEntries counterBits historyBits rfl) rfl
    ⟨rfl, rfl, rfl, rfl⟩ hpos hle (fun _ ↦ rfl) trace

/-- On every trace, the predictor is wrong at most twice for each branch whose outcome is not the
direction chosen for its counter, and once more for each counter that is read whose direction is
`NOT_TAKEN`. The directions are arbitrary. -/
theorem mispredicted_le (hentries : 1 ≤ numEntries.toInt) (hbits : 1 ≤ counterBits.toInt)
    (hfits : Fits ptype numEntries counterBits historyBits) (trace : List Branch) :
    ∃ p stats s, setupPredictor ptype numEntries counterBits historyBits {} = .ok (p, stats) ∧
      Simulation.run ⟨p, stats, []⟩ trace = .ok s ∧
      s.stats.numBranches - s.stats.correct = BitVec.ofNat 64 (s.mispredicted trace) ∧
      ∀ direction : ℕ → BranchDir, s.mispredicted trace ≤
        2 * ((Simulation.accesses ⟨p, stats, []⟩ trace).countP fun a ↦ a.2 ≠ direction a.1) +
          ((((Simulation.accesses ⟨p, stats, []⟩ trace).map Prod.fst).toFinset).filter fun i ↦
            direction i = .NOT_TAKEN).card := by
  obtain ⟨s, hs, hcounts, hbound⟩ :=
    initialPredictor_mispredicted_le hentries hbits hfits _ trace
  exact ⟨_, _, s, setupPredictor_ok hentries hbits hfits {}, hs, hcounts, hbound⟩

/-- One two-bit counter and a branch that alternates: all of the predictions may be wrong. -/
theorem mispredicted_le_alternating : ∃ p stats s,
    setupPredictor .PTYPE_BIMODAL 1 2 1 {} = .ok (p, stats) ∧
      Simulation.run ⟨p, stats, []⟩
        (List.replicate 3 [⟨0x10, .NOT_TAKEN⟩, ⟨0x10, .TAKEN⟩]).flatten = .ok s ∧
      s.mispredicted (List.replicate 3 [⟨0x10, .NOT_TAKEN⟩, ⟨0x10, .TAKEN⟩]).flatten ≤ 6 := by
  obtain ⟨p, stats, s, hsetup, hrun, -, hbound⟩ := @mispredicted_le .PTYPE_BIMODAL 1 2 1 (by decide)
    (by decide) trivial (List.replicate 3 [⟨0x10, .NOT_TAKEN⟩, ⟨0x10, .TAKEN⟩]).flatten
  refine ⟨p, stats, s, hsetup, hrun, (hbound fun _ ↦ .TAKEN).trans_eq ?_⟩
  obtain ⟨rfl, rfl⟩ : _ = p ∧ _ = stats := Prod.mk.inj (Except.ok.inj hsetup)
  decide

end ArchSim.BranchPredictor
