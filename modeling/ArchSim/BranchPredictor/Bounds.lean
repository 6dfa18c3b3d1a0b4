import ArchSim.BranchPredictor.Predictor
import Mathlib.Tactic.Linarith

/-!
# The arrays of a predictor

The index into the counters is masked, so that it stays inside the array that `setup_predictor`
allocates whatever the histories hold. This needs that the products of the parameters do not
overflow an `int`.
-/

namespace ArchSim.BranchPredictor

/-! ## Words -/

theorem toNat_and_le (x mask : BitVec 64) : (x &&& mask).toNat ≤ mask.toNat := by
  rw [BitVec.toNat_and]
  exact Nat.and_le_right

theorem and_xor_and (x y mask : BitVec 64) :
    (x &&& mask) ^^^ (y &&& mask) = (x ^^^ y) &&& mask := by
  ext i
  simp only [BitVec.getElem_xor, BitVec.getElem_and]
  cases x[i] <;> cases y[i] <;> cases mask[i] <;> rfl

theorem toNat_lt_of_toInt_nonneg {x : BitVec 32} (h : 0 ≤ x.toInt) :
    x.toNat < 2 ^ 31 ∧ x.toInt = x.toNat := by
  have hlt := x.isLt
  rw [BitVec.toInt_eq_toNat_cond] at h
  rw [BitVec.toInt_eq_toNat_cond]
  by_cases hsmall : 2 * x.toNat < 2 ^ 32
  · rw [if_pos hsmall]
    omega
  · rw [if_neg hsmall] at h
    omega

theorem toInt_nonneg_of_toNat_lt {x : BitVec 32} (h : x.toNat < 2 ^ 31) : 0 ≤ x.toInt := by
  rw [BitVec.toInt_eq_toNat_cond]
  split <;> omega

theorem toNat_signExtend {x : BitVec 32} (h : x.toNat < 2 ^ 31) :
    (x.signExtend 64).toNat = x.toNat := by
  have hmsb : x.msb = false := by
    rw [BitVec.msb_eq_decide, decide_eq_false_iff_not]
    omega
  rw [BitVec.signExtend_eq_setWidth_of_msb_false hmsb, BitVec.toNat_setWidth]
  exact Nat.mod_eq_of_lt (by omega)

theorem toNat_sub_one {x : BitVec 64} (h : 1 ≤ x.toNat) : (x - 1).toNat = x.toNat - 1 := by
  have hone : (1 : BitVec 64).toNat = 1 := rfl
  rw [BitVec.toNat_sub_of_le (by rw [BitVec.le_def, hone]; exact h), hone]

/-- The mask of a size. -/
theorem toNat_mask {size : BitVec 32} (hpos : 1 ≤ size.toNat) (hlt : size.toNat < 2 ^ 31) :
    (size.signExtend 64 - 1).toNat = size.toNat - 1 := by
  rw [toNat_sub_one] <;> rw [toNat_signExtend hlt]
  exact hpos

theorem toNat_shl_one {count : ℕ} (h : count < 32) : (shl 1 count).toNat = 2 ^ count := by
  have hlt : 2 ^ count < 2 ^ 32 := Nat.pow_lt_pow_right (by decide) h
  rw [shl, Nat.mod_eq_of_lt h, BitVec.toNat_shiftLeft, Nat.shiftLeft_eq]
  change (1 * 2 ^ count) % 2 ^ 32 = _
  rw [one_mul, Nat.mod_eq_of_lt hlt]

theorem read_ok {α : Type} {a : List α} {index : BitVec 64} (h : index.toNat < a.length) :
    ∃ x, read a index = .ok x ∧ a[index.toNat]? = some x := by
  have hget := List.getElem?_eq_getElem h
  exact ⟨_, by rw [read, hget], hget⟩

/-! ## Indices -/

/-- The distance between the counters of two entries of the history table. -/
def Predictor.stride (p : Predictor) : ℕ := ((shl 1 p.historyShift.toNat).signExtend 64).toNat

/-- The largest index that the masks leave. -/
def Predictor.maxIndex (p : Predictor) : ℕ :=
  match p.predType with
  | .PTYPE_BIMODAL | .PTYPE_GSHARE => p.indexMask.toNat
  | .PTYPE_TWO_LEVEL_ADAPTIVE => p.historyMask.toNat
  | .PTYPE_LOCAL_HISTORY => p.indexMask.toNat * p.stride + p.historyMask.toNat

/-- Every index that the masks leave is inside its array. -/
structure Predictor.Sized (p : Predictor) : Prop where
  maxIndex : p.maxIndex < p.pht.length
  pht : p.pht.length < 2 ^ 64
  histTable : p.predType.usesHistTable → p.indexMask.toNat < p.histTable.length

namespace Predictor.Sized

variable {p : Predictor}

/-- The entry of the history table that `pc` selects. -/
theorem read_histTable (h : p.Sized) (huses : p.predType.usesHistTable) (pc : BitVec 64) :
    ∃ history, read p.histTable (pc &&& p.indexMask) = .ok history ∧
      p.histTable[(pc &&& p.indexMask).toNat]? = some history :=
  read_ok ((toNat_and_le _ _).trans_lt (h.histTable huses))

/-- The index for a local history does not wrap. -/
theorem toNat_local (h : p.Sized) (htype : p.predType = .PTYPE_LOCAL_HISTORY)
    (pc history : BitVec 64) :
    ((pc &&& p.indexMask) * (shl 1 p.historyShift.toNat).signExtend 64 +
        (history &&& p.historyMask)).toNat =
      (pc &&& p.indexMask).toNat * p.stride + (history &&& p.historyMask).toNat ∧
      (pc &&& p.indexMask).toNat * p.stride + (history &&& p.historyMask).toNat ≤ p.maxIndex := by
  have hpht := h.pht
  have hmax := h.maxIndex
  have hle : (pc &&& p.indexMask).toNat * p.stride + (history &&& p.historyMask).toNat ≤
      p.maxIndex := by
    simp only [Predictor.maxIndex, htype]
    exact Nat.add_le_add (Nat.mul_le_mul_right _ (toNat_and_le _ _)) (toNat_and_le _ _)
  have hmul : ((pc &&& p.indexMask) * (shl 1 p.historyShift.toNat).signExtend 64).toNat =
      (pc &&& p.indexMask).toNat * p.stride := by
    apply BitVec.toNat_mul_of_lt
    change (pc &&& p.indexMask).toNat * p.stride < _
    omega
  refine ⟨?_, hle⟩
  rw [BitVec.toNat_add_of_lt, hmul]
  rw [hmul]
  omega

theorem getIndex_le (h : p.Sized) (pc : BitVec 64) :
    ∃ index, getIndex p pc = .ok index ∧ index.toNat ≤ p.maxIndex := by
  unfold getIndex
  cases htype : p.predType with
  | PTYPE_BIMODAL =>
    refine ⟨_, rfl, ?_⟩
    simp only [Predictor.maxIndex, htype]
    exact toNat_and_le _ _
  | PTYPE_GSHARE =>
    refine ⟨_, rfl, ?_⟩
    simp only [Predictor.maxIndex, htype, and_xor_and]
    exact toNat_and_le _ _
  | PTYPE_TWO_LEVEL_ADAPTIVE =>
    obtain ⟨history, hread, -⟩ := h.read_histTable (by rw [htype]; rfl) pc
    simp only [hread, bind, Except.bind]
    refine ⟨_, rfl, ?_⟩
    simp only [Predictor.maxIndex, htype]
    exact toNat_and_le _ _
  | PTYPE_LOCAL_HISTORY =>
    obtain ⟨history, hread, -⟩ := h.read_histTable (by rw [htype]; rfl) pc
    simp only [hread, bind, Except.bind]
    obtain ⟨hindex, hle⟩ := h.toNat_local htype pc history
    exact ⟨_, rfl, hindex ▸ hle⟩

theorem getIndex_ok (h : p.Sized) (pc : BitVec 64) :
    ∃ index, getIndex p pc = .ok index ∧ index.toNat < p.pht.length := by
  obtain ⟨index, hindex, hle⟩ := h.getIndex_le pc
  exact ⟨index, hindex, hle.trans_lt h.maxIndex⟩

end Predictor.Sized

/-! ## The arrays that are allocated -/

/-- The products that `setup_predictor` computes are those of the integers. -/
def Fits (ptype : PredictorType) (numEntries counterBits historyBits : BitVec 32) : Prop :=
  match ptype with
  | .PTYPE_BIMODAL => True
  | .PTYPE_TWO_LEVEL_ADAPTIVE =>
      0 ≤ historyBits.toInt ∧ 2 ^ historyBits.toInt.toNat * counterBits.toInt < 2 ^ 31
  | .PTYPE_LOCAL_HISTORY => 0 ≤ historyBits.toInt ∧
      2 ^ historyBits.toInt.toNat * counterBits.toInt * numEntries.toInt < 2 ^ 31
  | .PTYPE_GSHARE => numEntries.toInt * counterBits.toInt < 2 ^ 31

theorem newArray_ok {α : Type} {size : BitVec 32} (h : size.toNat < 2 ^ 31) (x : α) :
    newArray size x = .ok (List.replicate size.toNat x) :=
  if_neg (not_lt.mpr (toInt_nonneg_of_toNat_lt h))

/-- The predictor that `setup_predictor` builds from a size of the array of counters. -/
def initialPredictor (ptype : PredictorType) (numEntries counterBits historyBits : BitVec 32) :
    Predictor where
  pht := List.replicate (sizes ptype numEntries counterBits historyBits).1.toNat
    (shl 1 (counterBits - 1).toNat)
  ghr := 0
  ctrMax := shl 1 counterBits.toNat - 1
  ctrWeaklyTaken := shl 1 (counterBits - 1).toNat
  indexMask := numEntries.signExtend 64 - 1
  historyShift := historyBits.signExtend 64
  historyMask := (shl 1 historyBits.toNat).signExtend 64 - 1
  predType := ptype
  histTable := if ptype.usesHistTable then List.replicate numEntries.toNat 0 else []

variable {ptype : PredictorType} {numEntries counterBits historyBits : BitVec 32}

/-- A power of two that fits is a shift that does. -/
theorem toNat_shl_of_fits {count : BitVec 32} (hcount : 0 ≤ count.toInt)
    (hlt : (2 : ℤ) ^ count.toInt.toNat < 2 ^ 31) :
    (shl 1 count.toNat).toNat = 2 ^ count.toNat ∧ 2 ^ count.toNat < 2 ^ 31 := by
  obtain ⟨-, hint⟩ := toNat_lt_of_toInt_nonneg hcount
  rw [hint, Int.toNat_natCast] at hlt
  have hpow : 2 ^ count.toNat < 2 ^ 31 := by exact_mod_cast hlt
  have hsmall : count.toNat < 31 := (Nat.pow_lt_pow_iff_right (by decide)).mp hpow
  exact ⟨toNat_shl_one (hsmall.trans (by decide)), hpow⟩

/-- What a table for one history occupies. -/
structure HistorySize (counterBits historyBits : BitVec 32) : Prop where
  lt : historyBits.toNat < 2 ^ 31
  shl_eq : (shl 1 historyBits.toNat).toNat = 2 ^ historyBits.toNat
  pow_lt : 2 ^ historyBits.toNat < 2 ^ 31
  mul_eq : (shl 1 historyBits.toNat * counterBits).toNat =
    2 ^ historyBits.toNat * counterBits.toNat
  mul_lt : 2 ^ historyBits.toNat * counterBits.toNat < 2 ^ 31

theorem historySize_of_fits (hbits : 1 ≤ counterBits.toInt) (hhistory : 0 ≤ historyBits.toInt)
    (hlt : 2 ^ historyBits.toInt.toNat * counterBits.toInt < 2 ^ 31) :
    HistorySize counterBits historyBits := by
  obtain ⟨hshl, hpow⟩ := toNat_shl_of_fits hhistory (by nlinarith [hlt, hbits])
  obtain ⟨hhistoryLt, hhistoryInt⟩ := toNat_lt_of_toInt_nonneg hhistory
  obtain ⟨-, hbitsInt⟩ := toNat_lt_of_toInt_nonneg (x := counterBits) (by omega)
  rw [hhistoryInt, Int.toNat_natCast, hbitsInt] at hlt
  have hprod : 2 ^ historyBits.toNat * counterBits.toNat < 2 ^ 31 := by exact_mod_cast hlt
  refine ⟨hhistoryLt, hshl, hpow, ?_, hprod⟩
  rw [BitVec.toNat_mul_of_lt, hshl]
  rw [hshl]
  omega

theorem historySize_of_fits_local (hentries : 1 ≤ numEntries.toInt)
    (hbits : 1 ≤ counterBits.toInt) (hhistory : 0 ≤ historyBits.toInt)
    (hlt : 2 ^ historyBits.toInt.toNat * counterBits.toInt * numEntries.toInt < 2 ^ 31) :
    HistorySize counterBits historyBits := by
  have hpos : (0 : ℤ) < 2 ^ historyBits.toInt.toNat := by positivity
  exact historySize_of_fits hbits hhistory (by nlinarith [mul_pos hpos hbits])

theorem HistorySize.toNat_historyMask (h : HistorySize counterBits historyBits) :
    ((shl 1 historyBits.toNat).signExtend 64 - 1).toNat = 2 ^ historyBits.toNat - 1 := by
  rw [toNat_mask, h.shl_eq]
  · rw [h.shl_eq]
    exact Nat.one_le_two_pow
  · rw [h.shl_eq]
    exact h.pow_lt

theorem HistorySize.toNat_stride (h : HistorySize counterBits historyBits) :
    ((shl 1 (historyBits.signExtend 64).toNat).signExtend 64).toNat = 2 ^ historyBits.toNat := by
  rw [toNat_signExtend h.lt, toNat_signExtend (h.shl_eq ▸ h.pow_lt), h.shl_eq]

theorem HistorySize.toNat_mul_entries (h : HistorySize counterBits historyBits)
    (hprod : 2 ^ historyBits.toNat * counterBits.toNat * numEntries.toNat < 2 ^ 31) :
    (shl 1 historyBits.toNat * counterBits * numEntries).toNat =
      2 ^ historyBits.toNat * counterBits.toNat * numEntries.toNat := by
  rw [BitVec.toNat_mul_of_lt, h.mul_eq]
  rw [h.mul_eq]
  omega

/-- The array of counters is large enough. -/
def Allocates (ptype : PredictorType) (numEntries counterBits historyBits : BitVec 32) : Prop :=
  (sizes ptype numEntries counterBits historyBits).1.toNat < 2 ^ 31 ∧
    (initialPredictor ptype numEntries counterBits historyBits).maxIndex <
      (sizes ptype numEntries counterBits historyBits).1.toNat

theorem allocates_bimodal (hpos : 1 ≤ numEntries.toNat) (hlt : numEntries.toNat < 2 ^ 31) :
    Allocates .PTYPE_BIMODAL numEntries counterBits historyBits := by
  refine ⟨hlt, ?_⟩
  change (numEntries.signExtend 64 - 1).toNat < numEntries.toNat
  rw [toNat_mask hpos hlt]
  omega

theorem allocates_gshare (hpos : 1 ≤ numEntries.toNat) (hlt : numEntries.toNat < 2 ^ 31)
    (hbits : 1 ≤ counterBits.toNat) (hprod : numEntries.toNat * counterBits.toNat < 2 ^ 31) :
    Allocates .PTYPE_GSHARE numEntries counterBits historyBits := by
  have hmul : (numEntries * counterBits).toNat = numEntries.toNat * counterBits.toNat :=
    BitVec.toNat_mul_of_lt (hprod.trans (by decide))
  have hle := Nat.le_mul_of_pos_right numEntries.toNat hbits
  change (numEntries * counterBits).toNat < _ ∧
    (numEntries.signExtend 64 - 1).toNat < (numEntries * counterBits).toNat
  rw [hmul, toNat_mask hpos hlt]
  exact ⟨hprod, by omega⟩

theorem allocates_twoLevelAdaptive (hbits : 1 ≤ counterBits.toNat)
    (h : HistorySize counterBits historyBits) :
    Allocates .PTYPE_TWO_LEVEL_ADAPTIVE numEntries counterBits historyBits := by
  have hpos : 0 < 2 ^ historyBits.toNat := Nat.two_pow_pos _
  have hle := Nat.le_mul_of_pos_right (2 ^ historyBits.toNat) hbits
  change (shl 1 historyBits.toNat * counterBits).toNat < _ ∧
    ((shl 1 historyBits.toNat).signExtend 64 - 1).toNat <
      (shl 1 historyBits.toNat * counterBits).toNat
  rw [h.mul_eq, h.toNat_historyMask]
  exact ⟨h.mul_lt, by omega⟩

/-- The last index of `n` tables of one size. -/
theorem lastIndex_lt {n size : ℕ} (hn : 1 ≤ n) (hsize : 0 < size) :
    (n - 1) * size + (size - 1) < n * size := by
  calc (n - 1) * size + (size - 1) < (n - 1) * size + size := by omega
    _ = (n - 1 + 1) * size := (Nat.succ_mul _ _).symm
    _ = n * size := by rw [Nat.sub_add_cancel hn]

theorem allocates_localHistory (hpos : 1 ≤ numEntries.toNat) (hlt : numEntries.toNat < 2 ^ 31)
    (hbits : 1 ≤ counterBits.toNat) (h : HistorySize counterBits historyBits)
    (hprod : 2 ^ historyBits.toNat * counterBits.toNat * numEntries.toNat < 2 ^ 31) :
    Allocates .PTYPE_LOCAL_HISTORY numEntries counterBits historyBits := by
  change (shl 1 historyBits.toNat * counterBits * numEntries).toNat < _ ∧
    (numEntries.signExtend 64 - 1).toNat *
        ((shl 1 (historyBits.signExtend 64).toNat).signExtend 64).toNat +
      ((shl 1 historyBits.toNat).signExtend 64 - 1).toNat <
        (shl 1 historyBits.toNat * counterBits * numEntries).toNat
  rw [h.toNat_mul_entries hprod, toNat_mask hpos hlt, h.toNat_stride, h.toNat_historyMask]
  refine ⟨hprod, ?_⟩
  calc (numEntries.toNat - 1) * 2 ^ historyBits.toNat + (2 ^ historyBits.toNat - 1)
      < numEntries.toNat * 2 ^ historyBits.toNat := lastIndex_lt hpos (Nat.two_pow_pos _)
    _ = 2 ^ historyBits.toNat * numEntries.toNat := Nat.mul_comm _ _
    _ ≤ 2 ^ historyBits.toNat * counterBits.toNat * numEntries.toNat := by
      apply Nat.mul_le_mul_right
      exact Nat.le_mul_of_pos_right _ hbits

theorem allocates_of_fits (hentries : 1 ≤ numEntries.toInt) (hbits : 1 ≤ counterBits.toInt)
    (hfits : Fits ptype numEntries counterBits historyBits) :
    Allocates ptype numEntries counterBits historyBits := by
  obtain ⟨hentriesLt, hentriesInt⟩ := toNat_lt_of_toInt_nonneg (x := numEntries) (by omega)
  obtain ⟨-, hbitsInt⟩ := toNat_lt_of_toInt_nonneg (x := counterBits) (by omega)
  have hentriesPos : 1 ≤ numEntries.toNat := by omega
  have hbitsPos : 1 ≤ counterBits.toNat := by omega
  cases ptype with
  | PTYPE_BIMODAL => exact allocates_bimodal hentriesPos hentriesLt
  | PTYPE_GSHARE =>
    simp only [Fits, hentriesInt, hbitsInt] at hfits
    apply allocates_gshare hentriesPos hentriesLt hbitsPos
    exact_mod_cast hfits
  | PTYPE_TWO_LEVEL_ADAPTIVE =>
    exact allocates_twoLevelAdaptive hbitsPos (historySize_of_fits hbits hfits.1 hfits.2)
  | PTYPE_LOCAL_HISTORY =>
    obtain ⟨hhistory, hlt⟩ := hfits
    have hsize := historySize_of_fits_local hentries hbits hhistory hlt
    apply allocates_localHistory hentriesPos hentriesLt hbitsPos hsize
    obtain ⟨-, hhistoryInt⟩ := toNat_lt_of_toInt_nonneg hhistory
    rw [hhistoryInt, Int.toNat_natCast, hbitsInt, hentriesInt] at hlt
    exact_mod_cast hlt

theorem Allocates.sized (h : Allocates ptype numEntries counterBits historyBits)
    (hentries : 1 ≤ numEntries.toInt) :
    (initialPredictor ptype numEntries counterBits historyBits).Sized := by
  obtain ⟨hlt, hmax⟩ := h
  obtain ⟨hentriesLt, hentriesInt⟩ := toNat_lt_of_toInt_nonneg (x := numEntries) (by omega)
  have hlength : (initialPredictor ptype numEntries counterBits historyBits).pht.length =
      (sizes ptype numEntries counterBits historyBits).1.toNat := List.length_replicate
  refine ⟨hlength ▸ hmax, hlength ▸ hlt.trans (by decide), fun huses ↦ ?_⟩
  have htable : (initialPredictor ptype numEntries counterBits historyBits).histTable =
      List.replicate numEntries.toNat 0 := if_pos huses
  rw [htable, List.length_replicate]
  change (numEntries.signExtend 64 - 1).toNat < _
  rw [toNat_mask (by omega) hentriesLt]
  omega

theorem Allocates.setupPredictor_ok (h : Allocates ptype numEntries counterBits historyBits)
    (hentries : 1 ≤ numEntries.toInt) (stats : BranchStats) :
    setupPredictor ptype numEntries counterBits historyBits stats =
      .ok (initialPredictor ptype numEntries counterBits historyBits,
        { stats with storageOverhead := (sizes ptype numEntries counterBits historyBits).2 }) := by
  obtain ⟨hlt, -⟩ := h
  obtain ⟨hentriesLt, -⟩ := toNat_lt_of_toInt_nonneg (x := numEntries) (by omega)
  simp only [setupPredictor, newArray_ok hlt, newArray_ok hentriesLt, initialPredictor]
  cases ptype.usesHistTable <;> rfl

theorem initialPredictor_sized (hentries : 1 ≤ numEntries.toInt) (hbits : 1 ≤ counterBits.toInt)
    (hfits : Fits ptype numEntries counterBits historyBits) :
    (initialPredictor ptype numEntries counterBits historyBits).Sized :=
  (allocates_of_fits hentries hbits hfits).sized hentries

theorem setupPredictor_ok (hentries : 1 ≤ numEntries.toInt) (hbits : 1 ≤ counterBits.toInt)
    (hfits : Fits ptype numEntries counterBits historyBits) (stats : BranchStats) :
    setupPredictor ptype numEntries counterBits historyBits stats =
      .ok (initialPredictor ptype numEntries counterBits historyBits,
        { stats with storageOverhead := (sizes ptype numEntries counterBits historyBits).2 }) :=
  (allocates_of_fits hentries hbits hfits).setupPredictor_ok hentries stats

theorem eq_of_newArray {α : Type} {size : BitVec 32} {x : α} {a : List α}
    (h : newArray size x = .ok a) : a = List.replicate size.toNat x := by
  unfold newArray at h
  split at h
  · cases h
  · exact (Except.ok.inj h).symm

theorem nonneg_of_setupPredictor {stats : BranchStats} {result : Predictor × BranchStats}
    (h : setupPredictor ptype numEntries counterBits historyBits stats = .ok result) :
    0 ≤ (sizes ptype numEntries counterBits historyBits).1.toInt := by
  by_contra hneg
  simp only [setupPredictor, newArray, if_pos (not_le.mp hneg), bind, Except.bind] at h
  cases h

/-- Where the arrays can be allocated, the predictor is this one. -/
theorem eq_of_setupPredictor {stats : BranchStats} {result : Predictor × BranchStats}
    (h : setupPredictor ptype numEntries counterBits historyBits stats = .ok result) :
    result = (initialPredictor ptype numEntries counterBits historyBits,
      { stats with storageOverhead := (sizes ptype numEntries counterBits historyBits).2 }) := by
  simp only [setupPredictor, bind, Except.bind] at h
  split at h
  · cases h
  · rename_i pht hpht
    obtain rfl := eq_of_newArray hpht
    by_cases huses : ptype.usesHistTable = true
    · simp only [huses, if_true] at h
      split at h
      · cases h
      · rename_i histTable hhistTable
        obtain rfl := eq_of_newArray hhistTable
        obtain rfl := Except.ok.inj h
        simp only [initialPredictor, huses, if_true]
    · rw [if_neg huses] at h
      obtain rfl := Except.ok.inj h
      simp only [initialPredictor, if_neg huses]

end ArchSim.BranchPredictor
