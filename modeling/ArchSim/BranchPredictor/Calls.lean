import ArchSim.BranchPredictor.Reference

/-!
# Sequences of calls

The functions of the predictor may be called in any order. Whatever the calls, no access is outside
an array.
-/

namespace ArchSim.BranchPredictor

/-- A call of a function of the predictor. -/
inductive Call where
  | predictBranch (pc : BitVec 64)
  | updatePredictor (pc : BitVec 64) (actual predicted : BranchDir)
  deriving DecidableEq, Repr

/-- The global variables after a call. -/
def Call.run : Predictor × BranchStats → Call → Except Fault (Predictor × BranchStats)
  | (p, stats), .predictBranch pc => do
      let (_, stats) ← BranchPredictor.predictBranch p pc stats
      return (p, stats)
  | (p, stats), .updatePredictor pc actual predicted =>
      BranchPredictor.updatePredictor p pc actual predicted stats

/-- The sizes of the arrays and the masks, which no call changes. -/
structure SameTables (p₀ p : Predictor) : Prop where
  pht : p.pht.length = p₀.pht.length
  histTable : p.histTable.length = p₀.histTable.length
  indexMask : p.indexMask = p₀.indexMask
  predType : p.predType = p₀.predType

theorem SameTables.next {p₀ p : Predictor} (h : SameTables p₀ p) (b : Branch) (index : ℕ)
    (counter : BitVec 32) : SameTables p₀ (p.next b index counter) where
  pht := List.length_set.trans h.pht
  histTable := by
    rw [← h.histTable]
    simp only [Predictor.next, Predictor.record]
    split
    · exact List.length_modify ..
    · rfl
  indexMask := h.indexMask
  predType := h.predType

/-- A call changes no size and accesses the arrays within their bounds. -/
theorem Call.run_ok {p₀ p : Predictor} (hsized : p.Sized) (hsame : SameTables p₀ p)
    (stats : BranchStats) (call : Call) :
    ∃ p' stats', call.run (p, stats) = .ok (p', stats') ∧ p'.Sized ∧ SameTables p₀ p' := by
  cases call with
  | predictBranch pc =>
    obtain ⟨index, hindex, hlt⟩ := hsized.getIndex_ok pc
    obtain ⟨counter, hread, -⟩ := read_ok hlt
    have hrun : (Call.predictBranch pc).run (p, stats) =
        BranchPredictor.predictBranch p pc stats >>= fun result ↦ pure (p, result.2) := rfl
    rw [predictBranch_ok hindex hread] at hrun
    exact ⟨p, _, hrun, hsized, hsame⟩
  | updatePredictor pc actual predicted =>
    obtain ⟨index, hindex, hlt⟩ := hsized.getIndex_ok pc
    obtain ⟨counter, hread, -⟩ := read_ok hlt
    have hrun := updatePredictor_ok (b := ⟨pc, actual⟩) hsized hindex hread predicted stats
    exact ⟨_, _, hrun, hsized.record pc actual List.length_set, hsame.next _ _ _⟩

theorem Call.runs_ok {p₀ p : Predictor} (hsized : p.Sized) (hsame : SameTables p₀ p)
    (stats : BranchStats) (calls : List Call) :
    ∃ p' stats', calls.foldlM Call.run (p, stats) = .ok (p', stats') ∧ p'.Sized ∧
      SameTables p₀ p' := by
  induction calls generalizing p stats with
  | nil => exact ⟨p, stats, rfl, hsized, hsame⟩
  | cons call calls ih =>
    obtain ⟨p₁, stats₁, hcall, hsized₁, hsame₁⟩ := call.run_ok hsized hsame stats
    obtain ⟨p₂, stats₂, hcalls, hend⟩ := ih hsized₁ hsame₁ stats₁
    refine ⟨p₂, stats₂, ?_, hend⟩
    rw [List.foldlM_cons, hcall]
    exact hcalls

/-- After any calls, every index that `get_index` and `update_predictor` use is inside its array. -/
theorem calls_inBounds {ptype : PredictorType} {numEntries counterBits historyBits : BitVec 32}
    (hentries : 1 ≤ numEntries.toInt) (hbits : 1 ≤ counterBits.toInt)
    (hfits : Fits ptype numEntries counterBits historyBits) (stats : BranchStats) :
    ∃ p stats', setupPredictor ptype numEntries counterBits historyBits stats = .ok (p, stats') ∧
      ∀ calls : List Call, ∃ p' stats'', calls.foldlM Call.run (p, stats') = .ok (p', stats'') ∧
        ∀ pc, ∃ index, getIndex p' pc = .ok index ∧ index.toNat < p'.pht.length ∧
          p'.pht.length = (sizes ptype numEntries counterBits historyBits).1.toInt ∧
          (ptype.usesHistTable → (pc &&& p'.indexMask).toNat < p'.histTable.length ∧
            p'.histTable.length = numEntries.toInt) := by
  have hsized := initialPredictor_sized hentries hbits hfits
  obtain ⟨hlt, -⟩ := allocates_of_fits hentries hbits hfits
  refine ⟨_, _, setupPredictor_ok hentries hbits hfits stats, fun calls ↦ ?_⟩
  obtain ⟨p, stats', hcalls, hsized', hsame⟩ :=
    Call.runs_ok hsized ⟨rfl, rfl, rfl, rfl⟩ _ calls
  refine ⟨p, stats', hcalls, fun pc ↦ ?_⟩
  obtain ⟨index, hindex, hindexLt⟩ := hsized'.getIndex_ok pc
  refine ⟨index, hindex, hindexLt, ?_, fun huses ↦ ⟨?_, ?_⟩⟩
  · rw [hsame.pht, (toNat_lt_of_toInt_nonneg (toInt_nonneg_of_toNat_lt hlt)).2]
    exact congrArg Nat.cast List.length_replicate
  · apply (toNat_and_le _ _).trans_lt
    exact hsized'.histTable (by rw [hsame.predType]; exact huses)
  · have htable : (initialPredictor ptype numEntries counterBits historyBits).histTable =
        List.replicate numEntries.toNat 0 := if_pos huses
    rw [hsame.histTable, htable, List.length_replicate,
      (toNat_lt_of_toInt_nonneg (x := numEntries) (by omega)).2]

/-- Three entries of local histories of two bits: the mask leaves holes, and all is in bounds. -/
theorem calls_inBounds_threeEntries : ∃ p stats',
    setupPredictor .PTYPE_LOCAL_HISTORY 3 2 2 {} = .ok (p, stats') ∧
      ∀ calls : List Call, ∃ p' stats'', calls.foldlM Call.run (p, stats') = .ok (p', stats'') ∧
        ∀ pc, ∃ index, getIndex p' pc = .ok index ∧ index.toNat < p'.pht.length ∧
          p'.pht.length = (sizes .PTYPE_LOCAL_HISTORY 3 2 2).1.toInt ∧
          (PredictorType.PTYPE_LOCAL_HISTORY.usesHistTable →
            (pc &&& p'.indexMask).toNat < p'.histTable.length ∧
              p'.histTable.length = (3 : BitVec 32).toInt) :=
  @calls_inBounds .PTYPE_LOCAL_HISTORY 3 2 2 (by decide) (by decide) ⟨by decide, by decide⟩ {}

end ArchSim.BranchPredictor
