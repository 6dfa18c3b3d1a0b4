import ArchSim.BranchPredictor.Calls
import ArchSim.BranchPredictor.Histories

/-!
# The sizes

What `setup_predictor` reports and allocates is computed with words. The size of the array of
counters is an `int`, which is widened after its factors have been multiplied; only the bimodal
predictor widens them before.
-/

namespace ArchSim.BranchPredictor

variable {ptype : PredictorType} {numEntries counterBits historyBits : BitVec 32}

/-- The storage of a predictor in bits. -/
def storage (ptype : PredictorType) (numEntries counterBits historyBits : ℕ) : ℕ :=
  match ptype with
  | .PTYPE_BIMODAL => numEntries * counterBits
  | .PTYPE_TWO_LEVEL_ADAPTIVE => historyBits * numEntries + 2 ^ historyBits * counterBits
  | .PTYPE_LOCAL_HISTORY =>
      historyBits * numEntries + numEntries * 2 ^ historyBits * counterBits
  | .PTYPE_GSHARE => numEntries * counterBits + historyBits

/-- How many indices a predictor uses. -/
def numIndices (ptype : PredictorType) (numEntries historyBits : ℕ) : ℕ :=
  match ptype with
  | .PTYPE_BIMODAL | .PTYPE_GSHARE => numEntries
  | .PTYPE_TWO_LEVEL_ADAPTIVE => 2 ^ historyBits
  | .PTYPE_LOCAL_HISTORY => numEntries * 2 ^ historyBits

/-- The storage is reported as it is, and the array has a counter for every index that can come up.
`setup_predictor` reports the storage before it allocates the array. -/
structure SizesExact (ptype : PredictorType) (numEntries counterBits historyBits : BitVec 32) :
    Prop where
  storage : (sizes ptype numEntries counterBits historyBits).2.toNat =
    storage ptype numEntries.toNat counterBits.toNat historyBits.toNat
  pht : numIndices ptype numEntries.toNat historyBits.toNat ≤
    (sizes ptype numEntries counterBits historyBits).1.toInt
  reported : ∀ stats p stats',
    setupPredictor ptype numEntries counterBits historyBits stats = .ok (p, stats') →
    stats'.storageOverhead = (sizes ptype numEntries counterBits historyBits).2
  index_lt : ∀ stats p stats',
    setupPredictor ptype numEntries counterBits historyBits stats = .ok (p, stats') →
    ∀ calls p' stats'', List.foldlM Call.run (p, stats') calls = .ok (p', stats'') →
    ∀ pc index, getIndex p' pc = .ok index →
      index.toNat < numIndices ptype numEntries.toNat historyBits.toNat

/-! ## Words that are widened -/

/-- A sum with a widened word is that of two naturals only if the word is small. -/
theorem lt_of_add_signExtend {x : BitVec 32} {a size : ℕ} (hsize : size < 2 ^ 62)
    (h : (a + (x.signExtend 64).toNat) % 2 ^ 64 = a + size) : size < 2 ^ 31 := by
  have hx := x.isLt
  have hwidth : (x.setWidth 64).toNat = x.toNat := BitVec.toNat_setWidth_of_le (by decide)
  rw [BitVec.toNat_signExtend, hwidth, BitVec.msb_eq_decide] at h
  by_cases hneg : 2 ^ 31 ≤ x.toNat
  · simp only [decide_eq_true hneg, if_true] at h
    omega
  · simp only [decide_eq_false hneg, Bool.false_eq_true, if_false] at h
    omega

/-- The product of two small words that are widened. -/
theorem toNat_signExtend_mul {x y : BitVec 32} (hx : x.toNat < 2 ^ 31) (hy : y.toNat < 2 ^ 31) :
    (x.signExtend 64 * y.signExtend 64).toNat = x.toNat * y.toNat := by
  have hlt : x.toNat * y.toNat < 2 ^ 31 * 2 ^ 31 := Nat.mul_lt_mul'' hx hy
  rw [BitVec.toNat_mul_of_lt, toNat_signExtend hx, toNat_signExtend hy]
  rw [toNat_signExtend hx, toNat_signExtend hy]
  omega

/-- What a predictor with a history table reports, from the size of its array of counters. -/
theorem add_signExtend_iff {x history entries : BitVec 32} {size : ℕ}
    (hhistory : history.toNat < 2 ^ 31) (hentries : entries.toNat < 2 ^ 31) (hsize : size < 2 ^ 62)
    (hx : size < 2 ^ 31 → x.toNat = size) :
    (history.signExtend 64 * entries.signExtend 64 + x.signExtend 64).toNat =
      history.toNat * entries.toNat + size ↔ size < 2 ^ 31 := by
  rw [BitVec.toNat_add, toNat_signExtend_mul hhistory hentries]
  constructor
  · exact lt_of_add_signExtend hsize
  · intro hlt
    have hprod : history.toNat * entries.toNat < 2 ^ 31 * 2 ^ 31 :=
      Nat.mul_lt_mul'' hhistory hentries
    have heq := hx hlt
    rw [toNat_signExtend (heq ▸ hlt), heq]
    omega

/-! ## Indices -/

/-- No call changes a mask. -/
theorem Call.run_maxIndex {p p' : Predictor} {stats stats' : BranchStats} {call : Call}
    (h : call.run (p, stats) = .ok (p', stats')) : p'.maxIndex = p.maxIndex := by
  cases call with
  | predictBranch pc =>
    have hrun : (Call.predictBranch pc).run (p, stats) =
        BranchPredictor.predictBranch p pc stats >>= fun result ↦ pure (p, result.2) := rfl
    rw [hrun] at h
    cases hpredict : BranchPredictor.predictBranch p pc stats with
    | error e => rw [hpredict] at h; cases h
    | ok result =>
      rw [hpredict] at h
      obtain ⟨rfl, -⟩ := Prod.mk.inj (Except.ok.inj h)
      rfl
  | updatePredictor pc actual predicted =>
    obtain ⟨pht, rfl⟩ := updatePredictor_record h
    rfl

theorem Call.runs_maxIndex {p p' : Predictor} {stats stats' : BranchStats} {calls : List Call}
    (h : calls.foldlM Call.run (p, stats) = .ok (p', stats')) : p'.maxIndex = p.maxIndex := by
  induction calls generalizing p stats with
  | nil =>
    obtain ⟨rfl, -⟩ := Prod.mk.inj (Except.ok.inj h)
    rfl
  | cons call calls ih =>
    rw [List.foldlM_cons] at h
    cases hcall : call.run (p, stats) with
    | error e => rw [hcall] at h; cases h
    | ok next =>
      obtain ⟨p₁, stats₁⟩ := next
      rw [hcall] at h
      exact (ih h).trans (Call.run_maxIndex hcall)

/-- The sizes are those of the integers. -/
theorem maxIndex_lt_numIndices (hentries : 1 ≤ numEntries.toInt) (hbits : 1 ≤ counterBits.toInt)
    (hfits : Fits ptype numEntries counterBits historyBits) :
    (initialPredictor ptype numEntries counterBits historyBits).maxIndex <
      numIndices ptype numEntries.toNat historyBits.toNat := by
  obtain ⟨hlt, hint⟩ := toNat_lt_of_toInt_nonneg (x := numEntries) (by omega)
  have hmask : (numEntries.signExtend 64 - 1).toNat = numEntries.toNat - 1 :=
    toNat_mask (by omega) hlt
  cases ptype with
  | PTYPE_BIMODAL | PTYPE_GSHARE =>
    change (numEntries.signExtend 64 - 1).toNat < numEntries.toNat
    omega
  | PTYPE_TWO_LEVEL_ADAPTIVE =>
    have hsize := historySize_of_fits hbits hfits.1 hfits.2
    have hpow : 0 < 2 ^ historyBits.toNat := Nat.two_pow_pos _
    change ((shl 1 historyBits.toNat).signExtend 64 - 1).toNat < 2 ^ historyBits.toNat
    rw [hsize.toNat_historyMask]
    omega
  | PTYPE_LOCAL_HISTORY =>
    obtain ⟨hhistory, hprod⟩ := hfits
    have hsize := historySize_of_fits_local hentries hbits hhistory hprod
    have hpow : 0 < 2 ^ historyBits.toNat := Nat.two_pow_pos _
    change (numEntries.signExtend 64 - 1).toNat *
        ((shl 1 (historyBits.signExtend 64).toNat).signExtend 64).toNat +
      ((shl 1 historyBits.toNat).signExtend 64 - 1).toNat < numEntries.toNat * 2 ^ historyBits.toNat
    rw [hmask, hsize.toNat_stride, hsize.toNat_historyMask]
    exact lastIndex_lt (by omega) hpow

theorem index_lt_numIndices (hentries : 1 ≤ numEntries.toInt) (hbits : 1 ≤ counterBits.toInt)
    (hfits : Fits ptype numEntries counterBits historyBits) {stats stats' stats'' : BranchStats}
    {p p' : Predictor} {calls : List Call}
    (hsetup : setupPredictor ptype numEntries counterBits historyBits stats = .ok (p, stats'))
    (hcalls : calls.foldlM Call.run (p, stats') = .ok (p', stats'')) {pc index : BitVec 64}
    (hindex : getIndex p' pc = .ok index) :
    index.toNat < numIndices ptype numEntries.toNat historyBits.toNat := by
  obtain ⟨rfl, -⟩ := Prod.mk.inj (eq_of_setupPredictor hsetup)
  obtain ⟨p₁, stats₁, hcalls₁, hsized, -⟩ := Call.runs_ok
    (initialPredictor_sized hentries hbits hfits) ⟨rfl, rfl, rfl, rfl⟩ stats' calls
  obtain ⟨rfl, -⟩ := Prod.mk.inj (Except.ok.inj (hcalls₁.symm.trans hcalls))
  obtain ⟨index', hindex', hle⟩ := hsized.getIndex_le pc
  obtain rfl := Except.ok.inj (hindex'.symm.trans hindex)
  rw [Call.runs_maxIndex hcalls] at hle
  exact hle.trans_lt (maxIndex_lt_numIndices hentries hbits hfits)

/-! ## Exactness -/

/-- The range of the parameters. -/
structure InRange (numEntries counterBits historyBits : BitVec 32) : Prop where
  entries : 1 ≤ numEntries.toInt
  entries_le : numEntries.toInt ≤ 2 ^ 20
  bits : 1 ≤ counterBits.toInt
  bits_le : counterBits.toInt ≤ 31
  history : 0 ≤ historyBits.toInt
  history_le : historyBits.toInt ≤ 31

theorem pht_of_fits (hentries : 1 ≤ numEntries.toInt) (hbits : 1 ≤ counterBits.toInt)
    (hfits : Fits ptype numEntries counterBits historyBits) :
    numIndices ptype numEntries.toNat historyBits.toNat ≤
      (sizes ptype numEntries counterBits historyBits).1.toInt := by
  obtain ⟨hlt, -⟩ := allocates_of_fits hentries hbits hfits
  rw [(toNat_lt_of_toInt_nonneg (toInt_nonneg_of_toNat_lt hlt)).2, Nat.cast_le]
  obtain ⟨hentriesLt, hentriesInt⟩ := toNat_lt_of_toInt_nonneg (x := numEntries) (by omega)
  obtain ⟨hbitsLt, hbitsInt⟩ := toNat_lt_of_toInt_nonneg (x := counterBits) (by omega)
  have hbitsPos : 1 ≤ counterBits.toNat := by omega
  cases ptype with
  | PTYPE_BIMODAL => exact le_rfl
  | PTYPE_GSHARE =>
    change numEntries.toNat ≤ (numEntries * counterBits).toNat
    simp only [Fits, hentriesInt, hbitsInt] at hfits
    have hprod : numEntries.toNat * counterBits.toNat < 2 ^ 31 := by exact_mod_cast hfits
    rw [BitVec.toNat_mul_of_lt (hprod.trans (by decide))]
    exact Nat.le_mul_of_pos_right _ hbitsPos
  | PTYPE_TWO_LEVEL_ADAPTIVE =>
    have hsize := historySize_of_fits hbits hfits.1 hfits.2
    change 2 ^ historyBits.toNat ≤ (shl 1 historyBits.toNat * counterBits).toNat
    rw [hsize.mul_eq]
    exact Nat.le_mul_of_pos_right _ hbitsPos
  | PTYPE_LOCAL_HISTORY =>
    obtain ⟨hhistory, hprod⟩ := hfits
    have hsize := historySize_of_fits_local hentries hbits hhistory hprod
    obtain ⟨-, hhistoryInt⟩ := toNat_lt_of_toInt_nonneg hhistory
    rw [hhistoryInt, Int.toNat_natCast, hbitsInt, hentriesInt] at hprod
    change numEntries.toNat * 2 ^ historyBits.toNat ≤
      (shl 1 historyBits.toNat * counterBits * numEntries).toNat
    rw [hsize.toNat_mul_entries (by exact_mod_cast hprod), Nat.mul_comm]
    exact Nat.mul_le_mul_right _ (Nat.le_mul_of_pos_right _ hbitsPos)

theorem storage_eq_iff_fits (h : InRange numEntries counterBits historyBits) :
    (sizes ptype numEntries counterBits historyBits).2.toNat =
        storage ptype numEntries.toNat counterBits.toNat historyBits.toNat ↔
      Fits ptype numEntries counterBits historyBits := by
  obtain ⟨hentries, hentries', hbits, hbits', hhistory, hhistory'⟩ := h
  obtain ⟨hentriesLt, hentriesInt⟩ := toNat_lt_of_toInt_nonneg (x := numEntries) (by omega)
  obtain ⟨hbitsLt, hbitsInt⟩ := toNat_lt_of_toInt_nonneg (x := counterBits) (by omega)
  obtain ⟨hhistoryLt, hhistoryInt⟩ := toNat_lt_of_toInt_nonneg hhistory
  have hpow : 2 ^ historyBits.toNat ≤ 2 ^ 31 := Nat.pow_le_pow_right (by decide) (by omega)
  have hcounters : 2 ^ historyBits.toNat * counterBits.toNat ≤ 2 ^ 31 * 31 :=
    Nat.mul_le_mul hpow (by omega)
  have hprod : numEntries.toNat * counterBits.toNat ≤ 2 ^ 20 * 31 :=
    Nat.mul_le_mul (by omega) (by omega)
  cases ptype with
  | PTYPE_BIMODAL =>
    simp only [Fits, iff_true]
    exact toNat_signExtend_mul hentriesLt hbitsLt
  | PTYPE_GSHARE =>
    simp only [Fits, hentriesInt, hbitsInt]
    have hmul : (numEntries * counterBits).toNat = numEntries.toNat * counterBits.toNat :=
      BitVec.toNat_mul_of_lt (by omega)
    refine iff_of_true ?_ (by exact_mod_cast hprod.trans_lt (by decide))
    change ((numEntries * counterBits).signExtend 64 + historyBits.signExtend 64).toNat =
      numEntries.toNat * counterBits.toNat + historyBits.toNat
    rw [BitVec.toNat_add, toNat_signExtend (by omega), toNat_signExtend hhistoryLt, hmul]
    omega
  | PTYPE_TWO_LEVEL_ADAPTIVE =>
    have hfits : Fits .PTYPE_TWO_LEVEL_ADAPTIVE numEntries counterBits historyBits ↔
        2 ^ historyBits.toNat * counterBits.toNat < 2 ^ 31 := by
      simp only [Fits]
      rw [and_iff_right hhistory, hhistoryInt, Int.toNat_natCast, hbitsInt]
      norm_cast
    rw [hfits]
    refine add_signExtend_iff hhistoryLt hentriesLt (by omega) fun hlt ↦ ?_
    exact (historySize_of_fits hbits (hfits.mpr hlt).1 (hfits.mpr hlt).2).mul_eq
  | PTYPE_LOCAL_HISTORY =>
    have hfits : Fits .PTYPE_LOCAL_HISTORY numEntries counterBits historyBits ↔
        2 ^ historyBits.toNat * counterBits.toNat * numEntries.toNat < 2 ^ 31 := by
      simp only [Fits]
      rw [and_iff_right hhistory, hhistoryInt, Int.toNat_natCast, hbitsInt, hentriesInt]
      norm_cast
    have hcomm : numEntries.toNat * 2 ^ historyBits.toNat * counterBits.toNat =
        2 ^ historyBits.toNat * counterBits.toNat * numEntries.toNat := by
      rw [Nat.mul_assoc, Nat.mul_comm]
    have hsize : 2 ^ historyBits.toNat * counterBits.toNat * numEntries.toNat ≤
        2 ^ 31 * 31 * 2 ^ 20 := Nat.mul_le_mul hcounters (by omega)
    rw [hfits, storage, hcomm]
    refine add_signExtend_iff hhistoryLt hentriesLt (by omega) fun hlt ↦ ?_
    have hhistorySize := historySize_of_fits_local hentries hbits hhistory (hfits.mpr hlt).2
    exact hhistorySize.toNat_mul_entries hlt

/-- The sizes are exact where no product of the parameters overflows an `int`. -/
theorem sizesExact_iff_fits (h : InRange numEntries counterBits historyBits) :
    SizesExact ptype numEntries counterBits historyBits ↔
      Fits ptype numEntries counterBits historyBits := by
  constructor
  · exact fun hexact ↦ (storage_eq_iff_fits h).mp hexact.storage
  · intro hfits
    refine ⟨(storage_eq_iff_fits h).mpr hfits, pht_of_fits h.entries h.bits hfits, ?_, ?_⟩
    · intro stats p stats' hsetup
      rw [(Prod.mk.inj (eq_of_setupPredictor hsetup)).2]
    · intro stats p stats' hsetup calls p' stats'' hcalls pc index hindex
      exact index_lt_numIndices h.entries h.bits hfits hsetup hcalls hindex

/-- The largest table of global histories of two-bit counters. -/
theorem sizesExact_largestTwoLevel : SizesExact .PTYPE_TWO_LEVEL_ADAPTIVE 1024 2 29 :=
  (sizesExact_iff_fits ⟨by decide, by decide, by decide, by decide, by decide, by decide⟩).mpr
    ⟨by decide, by decide⟩

/-- With one more bit of history the number of counters is negative. -/
theorem not_sizesExact_twoLevel : ¬ SizesExact .PTYPE_TWO_LEVEL_ADAPTIVE 1 2 30 :=
  fun hexact ↦ absurd hexact.storage (by decide)

end ArchSim.BranchPredictor
