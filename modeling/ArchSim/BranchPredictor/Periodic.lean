import Mathlib.Algebra.BigOperators.Ring.Finset
import Mathlib.Algebra.Order.BigOperators.Group.Finset
import Mathlib.Tactic.Ring
import ArchSim.BranchPredictor.Histories
import ArchSim.BranchPredictor.Mispredictions

/-!
# Branches with a period

When the outcomes of the branches of an entry repeat after a number of them that the history
register can hold, the history says what comes next. The two predictors with a history table learn
such a sequence: on a trace of any length, they are wrong at most a fixed number of times for each
entry.
-/

namespace ArchSim.BranchPredictor

open Library ShiftRegister

variable {ptype : PredictorType} {numEntries counterBits historyBits : BitVec 32}

/-- The entries of the history table that a trace uses. -/
def entries (indexMask : BitVec 64) (trace : List Branch) : Finset (BitVec 64) :=
  (trace.map fun b ↦ b.pc &&& indexMask).toFinset

theorem outcomesOf_mono (indexMask pc : BitVec 64) {before trace : List Branch}
    (h : before <+: trace) : outcomesOf indexMask pc before <+: outcomesOf indexMask pc trace :=
  (h.filter _).map _

/-- The counter that belongs to an entry of the history table and a history. -/
def PredictorType.counterOf (ptype : PredictorType) (historyBits : ℕ) (entry : BitVec 64)
    (history : List Bool) : ℕ :=
  if ptype = .PTYPE_LOCAL_HISTORY then entry.toNat * 2 ^ historyBits + lastBits historyBits history
  else lastBits historyBits history

theorem historySize_of_usesHistTable (hentries : 1 ≤ numEntries.toInt)
    (hbits : 1 ≤ counterBits.toInt) (hfits : Fits ptype numEntries counterBits historyBits)
    (huses : ptype.usesHistTable) : HistorySize counterBits historyBits := by
  cases ptype with
  | PTYPE_BIMODAL => cases huses
  | PTYPE_GSHARE => cases huses
  | PTYPE_TWO_LEVEL_ADAPTIVE => exact historySize_of_fits hbits hfits.1 hfits.2
  | PTYPE_LOCAL_HISTORY => exact historySize_of_fits_local hentries hbits hfits.1 hfits.2

theorem Records.getIndex_eq_counterOf {p : Predictor} {trace : List Branch} {index : BitVec 64}
    (h : Records (initialPredictor ptype numEntries counterBits historyBits) trace p)
    (hsized : p.Sized) (huses : ptype.usesHistTable) (hsize : HistorySize counterBits historyBits)
    {pc : BitVec 64} (hindex : getIndex p pc = .ok index) :
    index.toNat = ptype.counterOf historyBits.toNat (pc &&& p.indexMask)
      (outcomesOf p.indexMask pc trace) := by
  have hlt : historyBits.toNat < 31 := (Nat.pow_lt_pow_iff_right (by decide)).mp hsize.pow_lt
  obtain ⟨index', hindex', hpart⟩ := h.historyPart_getIndex huses hlt pc
  obtain rfl : index' = index := Except.ok.inj (hindex'.symm.trans hindex)
  have htype : p.predType = ptype := h.predType
  cases ptype with
  | PTYPE_BIMODAL => cases huses
  | PTYPE_GSHARE => cases huses
  | PTYPE_TWO_LEVEL_ADAPTIVE => exact hpart
  | PTYPE_LOCAL_HISTORY =>
    have hstride : p.stride = 2 ^ historyBits.toNat := by
      rw [Predictor.stride, h.historyShift]
      exact hsize.toNat_stride
    have hmask : p.historyMask.toNat = 2 ^ historyBits.toNat - 1 := by
      rw [h.historyMask]
      exact hsize.toNat_historyMask
    obtain ⟨history, hread, -⟩ := hsized.read_histTable (by rw [htype]; rfl) pc
    have hhistory : (history &&& p.historyMask).toNat < 2 ^ historyBits.toNat :=
      calc (history &&& p.historyMask).toNat
          ≤ p.historyMask.toNat := toNat_and_le _ _
        _ < 2 ^ historyBits.toNat := hmask ▸ Nat.sub_one_lt_of_lt (Nat.two_pow_pos _)
    have hlocal := (hsized.toNat_local htype pc history).1
    have heq : (pc &&& p.indexMask) * (shl 1 p.historyShift.toNat).signExtend 64 +
        (history &&& p.historyMask) = index' := by
      simp only [getIndex, htype, hread, bind, Except.bind, pure, Except.pure] at hindex
      exact Except.ok.inj hindex
    rw [heq, hstride] at hlocal
    rw [PredictorType.historyPart, if_pos rfl] at hpart
    rw [PredictorType.counterOf, if_pos rfl, ← hpart, hlocal, Nat.mul_add_mod_of_lt hhistory]

/-! ## The accesses of a run -/

theorem getIndex_of_step {s s' : Simulation} {b : Branch} (h : s.step b = .ok s') :
    ∃ index, getIndex s.predictor b.pc = .ok index := by
  cases hindex : getIndex s.predictor b.pc with
  | ok index => exact ⟨index, rfl⟩
  | error e =>
    simp only [Simulation.step, predictBranch, hindex, bind, Except.bind] at h
    cases h

theorem accesses_append {s s' : Simulation} {trace : List Branch} (h : s.run trace = .ok s')
    (rest : List Branch) : s.accesses (trace ++ rest) = s.accesses trace ++ s'.accesses rest := by
  induction trace generalizing s with
  | nil =>
    obtain rfl := Except.ok.inj h
    rfl
  | cons b trace ih =>
    have hbind : s.run (b :: trace) = s.step b >>= fun s₁ ↦ s₁.run trace := List.foldlM_cons
    cases hs₁ : s.step b with
    | error e => rw [hbind, hs₁] at h; cases h
    | ok s₁ =>
      rw [hbind, hs₁] at h
      obtain ⟨index, hindex⟩ := getIndex_of_step hs₁
      simp only [List.cons_append, Simulation.accesses, hindex, hs₁, ih h]

/-- One more branch reads the counter of its entry and of the history of this entry. -/
theorem accesses_snoc (hentries : 1 ≤ numEntries.toInt) (hbits : 1 ≤ counterBits.toInt)
    (hfits : Fits ptype numEntries counterBits historyBits) (huses : ptype.usesHistTable)
    (stats : BranchStats) (before : List Branch) (b : Branch) :
    Simulation.accesses
        ⟨initialPredictor ptype numEntries counterBits historyBits, stats, []⟩ (before ++ [b]) =
      Simulation.accesses
          ⟨initialPredictor ptype numEntries counterBits historyBits, stats, []⟩ before ++
        [(ptype.counterOf historyBits.toNat (b.pc &&& (numEntries.signExtend 64 - 1))
          (outcomesOf (numEntries.signExtend 64 - 1) b.pc before), b.actual)] := by
  obtain ⟨s, hs, hsized⟩ := run_ok
    (s := ⟨initialPredictor ptype numEntries counterBits historyBits, stats, []⟩)
    (initialPredictor_sized hentries hbits hfits) before
  obtain ⟨index, hindex, hindexLt⟩ := hsized.getIndex_ok b.pc
  obtain ⟨counter, hread, -⟩ := read_ok hindexLt
  have hrecords := run_records (initialPredictor_records hentries) hs
  have hmask : s.predictor.indexMask = numEntries.signExtend 64 - 1 := hrecords.indexMask
  have hsize := historySize_of_usesHistTable hentries hbits hfits huses
  have hcounter := hrecords.getIndex_eq_counterOf hsized huses hsize hindex
  rw [hmask] at hcounter
  rw [accesses_append hs, Simulation.accesses, hindex, step_ok hsized hindex hread rfl, ← hcounter]
  rfl

/-! ## The direction that the history gives -/

/-- What the history of a counter says of the outcome: it is the one a period ago. -/
def PredictorType.periodDirection (ptype : PredictorType) (historyBits : ℕ)
    (period : BitVec 64 → ℕ) (index : ℕ) : BranchDir :=
  if ptype = .PTYPE_LOCAL_HISTORY then
    .ofTaken (index.testBit (period (BitVec.ofNat 64 (index / 2 ^ historyBits)) - 1))
  else
    .ofTaken (index.testBit (period 0 - 1))

theorem periodDirection_counterOf {n : ℕ} {period : BitVec 64 → ℕ}
    (hcommon : ptype = .PTYPE_TWO_LEVEL_ADAPTIVE → ∀ entry entry', period entry = period entry')
    (huses : ptype.usesHistTable) {entry : BitVec 64} (hpos : 1 ≤ period entry)
    (hle : period entry ≤ n) (history : List Bool) :
    ptype.periodDirection n period (ptype.counterOf n entry history) =
      .ofTaken (recent history (period entry - 1)) := by
  have hbit : (lastBits n history).testBit (period entry - 1) =
      recent history (period entry - 1) := by
    rw [testBit_lastBits, decide_eq_true (by omega), Bool.true_and]
  cases ptype with
  | PTYPE_BIMODAL => cases huses
  | PTYPE_GSHARE => cases huses
  | PTYPE_TWO_LEVEL_ADAPTIVE =>
    change BranchDir.ofTaken ((lastBits n history).testBit (period 0 - 1)) = _
    rw [hcommon rfl 0 entry, hbit]
  | PTYPE_LOCAL_HISTORY =>
    have hlast := lastBits_lt n history
    have hentry : BitVec.ofNat 64 ((entry.toNat * 2 ^ n + lastBits n history) / 2 ^ n) = entry := by
      rw [Nat.mul_comm, Nat.mul_add_div (Nat.two_pow_pos n), Nat.div_eq_of_lt hlast, Nat.add_zero,
        BitVec.ofNat_toNat, BitVec.setWidth_eq]
    change BranchDir.ofTaken ((entry.toNat * 2 ^ n + lastBits n history).testBit
      (period (BitVec.ofNat 64 ((entry.toNat * 2 ^ n + lastBits n history) / 2 ^ n)) - 1)) = _
    rw [hentry, Nat.mul_comm, Nat.testBit_two_pow_mul_add _ hlast, if_pos (by omega), hbit]

/-! ## Learning -/

/-- Every entry that `trace` uses has a period that the history register can hold. -/
structure HasPeriods (indexMask : BitVec 64) (historyBits : ℕ) (period : BitVec 64 → ℕ)
    (trace : List Branch) : Prop where
  pos : ∀ entry ∈ entries indexMask trace, 1 ≤ period entry
  le : ∀ entry ∈ entries indexMask trace, period entry ≤ historyBits
  hasPeriod : ∀ entry ∈ entries indexMask trace,
    (outcomesOf indexMask entry trace).HasPeriod (period entry)

section

variable {mask : BitVec 64} {n : ℕ} {period : BitVec 64 → ℕ} {trace before : List Branch}
  {b : Branch}

theorem outcomesOf_and (mask pc : BitVec 64) (trace : List Branch) :
    outcomesOf mask (pc &&& mask) trace = outcomesOf mask pc trace := by
  rw [outcomesOf, outcomesOf, BitVec.and_assoc, BitVec.and_self]

theorem mem_entries_of_prefix (mask : BitVec 64) (h : before ++ [b] <+: trace) :
    b.pc &&& mask ∈ entries mask trace :=
  List.mem_toFinset.mpr (List.mem_map_of_mem (h.subset (by simp)))

/-- Once an entry has seen a period, its history gives the outcome. -/
theorem HasPeriods.recent_eq (h : HasPeriods mask n period trace)
    (hbefore : before ++ [b] <+: trace)
    (hle : period (b.pc &&& mask) ≤ (outcomesOf mask b.pc before).length) :
    recent (outcomesOf mask b.pc before) (period (b.pc &&& mask) - 1) = b.actual.isTaken := by
  have hmem := mem_entries_of_prefix mask hbefore
  have hperiod := h.hasPeriod _ hmem
  rw [outcomesOf_and] at hperiod
  have hprefix := outcomesOf_mono mask b.pc hbefore
  rw [outcomesOf_snoc, if_pos rfl] at hprefix
  exact recent_of_hasPeriod hperiod hprefix (h.pos _ hmem) hle

/-- The branches that an entry has not seen a period before. -/
def warmup (mask : BitVec 64) (period : BitVec 64 → ℕ) (used : Finset (BitVec 64))
    (before : List Branch) : ℕ :=
  ∑ entry ∈ used, min (period entry) (outcomesOf mask entry before).length

theorem length_outcomesOf_le (mask entry : BitVec 64) (before : List Branch) (b : Branch) :
    (outcomesOf mask entry before).length ≤ (outcomesOf mask entry (before ++ [b])).length :=
  (outcomesOf_mono mask entry (List.prefix_append _ _)).length_le

theorem warmup_le_snoc (used : Finset (BitVec 64)) :
    warmup mask period used before ≤ warmup mask period used (before ++ [b]) :=
  Finset.sum_le_sum fun _ _ ↦ min_le_min_left _ (length_outcomesOf_le _ _ _ _)

theorem warmup_lt_snoc {used : Finset (BitVec 64)} (hmem : b.pc &&& mask ∈ used)
    (hlt : (outcomesOf mask b.pc before).length < period (b.pc &&& mask)) :
    warmup mask period used before < warmup mask period used (before ++ [b]) := by
  refine Finset.sum_lt_sum
    (fun _ _ ↦ min_le_min_left _ (length_outcomesOf_le _ _ _ _)) ⟨_, hmem, ?_⟩
  rw [outcomesOf_and, outcomesOf_and, outcomesOf_snoc, if_pos rfl, List.length_append,
    List.length_singleton]
  omega

theorem warmup_le (used : Finset (BitVec 64)) :
    warmup mask period used before ≤ ∑ entry ∈ used, period entry :=
  Finset.sum_le_sum fun _ _ ↦ min_le_left _ _

end

/-- The counters that can be read. -/
def PredictorType.countersOf (ptype : PredictorType) (mask : BitVec 64) (n : ℕ)
    (period : BitVec 64 → ℕ) (trace : List Branch) : Finset ℕ :=
  (entries mask trace).biUnion fun entry ↦ (Finset.range (n + period entry)).image fun k ↦
    ptype.counterOf n entry ((outcomesOf mask entry trace).take k)

theorem card_countersOf_le (ptype : PredictorType) (mask : BitVec 64) (n : ℕ)
    (period : BitVec 64 → ℕ) (trace : List Branch) :
    (ptype.countersOf mask n period trace).card ≤
      ∑ entry ∈ entries mask trace, (n + period entry) :=
  calc (ptype.countersOf mask n period trace).card
      ≤ ∑ entry ∈ entries mask trace, ((Finset.range (n + period entry)).image fun k ↦
          ptype.counterOf n entry ((outcomesOf mask entry trace).take k)).card :=
        Finset.card_biUnion_le
    _ ≤ ∑ entry ∈ entries mask trace, (n + period entry) :=
        Finset.sum_le_sum fun _ _ ↦ Finset.card_image_le.trans_eq (Finset.card_range _)

theorem counterOf_congr {n : ℕ} {entry : BitVec 64} {history history' : List Bool}
    (h : lastBits n history = lastBits n history') :
    ptype.counterOf n entry history = ptype.counterOf n entry history' := by
  unfold PredictorType.counterOf
  rw [h]

section

variable {period : BitVec 64 → ℕ} {trace before : List Branch} {stats : BranchStats}

theorem mem_countersOf (hentries : 1 ≤ numEntries.toInt) (hbits : 1 ≤ counterBits.toInt)
    (hfits : Fits ptype numEntries counterBits historyBits) (huses : ptype.usesHistTable)
    (hperiods : HasPeriods (numEntries.signExtend 64 - 1) historyBits.toNat period trace)
    (hbefore : before <+: trace) {a : ℕ × BranchDir}
    (ha : a ∈ Simulation.accesses
      ⟨initialPredictor ptype numEntries counterBits historyBits, stats, []⟩ before) :
    a.1 ∈ ptype.countersOf (numEntries.signExtend 64 - 1) historyBits.toNat period trace := by
  induction before using List.reverseRecOn with
  | nil => cases ha
  | append_singleton before b ih =>
    rw [accesses_snoc hentries hbits hfits huses, List.mem_append, List.mem_singleton] at ha
    cases ha with
    | inl ha => exact ih ((List.prefix_append _ _).trans hbefore) ha
    | inr ha =>
      have hmem := mem_entries_of_prefix (numEntries.signExtend 64 - 1) hbefore
      have hprefix := outcomesOf_mono (numEntries.signExtend 64 - 1)
        (b.pc &&& (numEntries.signExtend 64 - 1)) ((List.prefix_append before [b]).trans hbefore)
      obtain ⟨k, hk, hlast⟩ := exists_lastBits_eq (hperiods.hasPeriod _ hmem)
        (hperiods.pos _ hmem) historyBits.toNat hprefix
      rw [outcomesOf_and _ _ before] at hlast
      rw [ha]
      refine Finset.mem_biUnion.mpr ⟨_, hmem, Finset.mem_image.mpr ⟨k, ?_, counterOf_congr hlast⟩⟩
      exact Finset.mem_range.mpr hk

/-- The outcomes that the histories do not give are the first ones of each entry. -/
theorem countP_ne_periodDirection_le (stats : BranchStats) (hentries : 1 ≤ numEntries.toInt)
    (hbits : 1 ≤ counterBits.toInt) (hfits : Fits ptype numEntries counterBits historyBits)
    (huses : ptype.usesHistTable)
    (hcommon : ptype = .PTYPE_TWO_LEVEL_ADAPTIVE → ∀ entry entry', period entry = period entry')
    (hperiods : HasPeriods (numEntries.signExtend 64 - 1) historyBits.toNat period trace)
    (hbefore : before <+: trace) :
    ((Simulation.accesses ⟨initialPredictor ptype numEntries counterBits historyBits, stats, []⟩
        before).countP fun a ↦ a.2 ≠ ptype.periodDirection historyBits.toNat period a.1) ≤
      warmup (numEntries.signExtend 64 - 1) period
        (entries (numEntries.signExtend 64 - 1) trace) before := by
  induction before using List.reverseRecOn with
  | nil => exact Nat.zero_le _
  | append_singleton before b ih =>
    have hmem := mem_entries_of_prefix (numEntries.signExtend 64 - 1) hbefore
    have hrest := ih ((List.prefix_append _ _).trans hbefore)
    rw [accesses_snoc hentries hbits hfits huses, List.countP_append, List.countP_singleton]
    by_cases hle : period (b.pc &&& (numEntries.signExtend 64 - 1)) ≤
        (outcomesOf (numEntries.signExtend 64 - 1) b.pc before).length
    · have hright : b.actual = ptype.periodDirection historyBits.toNat period
          (ptype.counterOf historyBits.toNat (b.pc &&& (numEntries.signExtend 64 - 1))
            (outcomesOf (numEntries.signExtend 64 - 1) b.pc before)) := by
        rw [periodDirection_counterOf hcommon huses (hperiods.pos _ hmem) (hperiods.le _ hmem),
          hperiods.recent_eq hbefore hle, ofTaken_isTaken]
      have hzero : (if decide (b.actual ≠ ptype.periodDirection historyBits.toNat period
          (ptype.counterOf historyBits.toNat (b.pc &&& (numEntries.signExtend 64 - 1))
            (outcomesOf (numEntries.signExtend 64 - 1) b.pc before))) then 1 else 0) = 0 :=
        if_neg (by simpa using hright)
      rw [hzero, Nat.add_zero]
      exact hrest.trans (warmup_le_snoc _)
    · have hstep := warmup_lt_snoc hmem (not_le.mp hle)
      split <;> omega

end

/-- On a trace whose entries have periods that the history register can hold, the number of wrong
predictions has a bound that does not depend on the length of the trace. The entries of a two-level
predictor share their counters, so that their periods have to be the same. -/
theorem mispredicted_le_of_hasPeriods (huses : ptype.usesHistTable)
    (hentries : 1 ≤ numEntries.toInt) (hbits : 1 ≤ counterBits.toInt)
    (hfits : Fits ptype numEntries counterBits historyBits) {period : BitVec 64 → ℕ}
    (hcommon : ptype = .PTYPE_TWO_LEVEL_ADAPTIVE → ∀ entry entry', period entry = period entry')
    {trace : List Branch}
    (hperiods : HasPeriods (numEntries.signExtend 64 - 1) historyBits.toNat period trace) :
    ∃ p stats s, setupPredictor ptype numEntries counterBits historyBits {} = .ok (p, stats) ∧
      Simulation.run ⟨p, stats, []⟩ trace = .ok s ∧
      s.mispredicted trace ≤
        ∑ entry ∈ entries p.indexMask trace, (3 * period entry + historyBits.toNat) := by
  obtain ⟨s, hs, -, hbound⟩ := initialPredictor_mispredicted_le hentries hbits hfits
    (sizes ptype numEntries counterBits historyBits).2 trace
  refine ⟨_, _, s, setupPredictor_ok hentries hbits hfits {}, hs, ?_⟩
  have hwrong := countP_ne_periodDirection_le
    { storageOverhead := (sizes ptype numEntries counterBits historyBits).2 } hentries hbits hfits
    huses hcommon hperiods List.prefix_rfl
  calc s.mispredicted trace
      ≤ _ := hbound (ptype.periodDirection historyBits.toNat period)
    _ ≤ 2 * (∑ entry ∈ entries (numEntries.signExtend 64 - 1) trace, period entry) +
          ∑ entry ∈ entries (numEntries.signExtend 64 - 1) trace,
            (historyBits.toNat + period entry) := by
        refine Nat.add_le_add (Nat.mul_le_mul_left 2 (hwrong.trans (warmup_le _))) ?_
        refine (Finset.card_le_card fun i hi ↦ ?_).trans (card_countersOf_le ptype _ _ period trace)
        have hi' := List.mem_toFinset.mp (Finset.mem_of_mem_filter i hi)
        obtain ⟨a, ha, rfl⟩ := List.mem_map.mp hi'
        exact mem_countersOf hentries hbits hfits huses hperiods List.prefix_rfl ha
    _ = ∑ entry ∈ entries (numEntries.signExtend 64 - 1) trace,
          (3 * period entry + historyBits.toNat) := by
        rw [Finset.mul_sum, ← Finset.sum_add_distrib]
        exact Finset.sum_congr rfl fun entry _ ↦ by ring

/-- A loop that is left every third time. -/
theorem mispredicted_le_threeIterations : ∃ p stats s,
    setupPredictor .PTYPE_LOCAL_HISTORY 4 2 3 {} = .ok (p, stats) ∧
      Simulation.run ⟨p, stats, []⟩
        (List.replicate 8 [⟨0x10, .TAKEN⟩, ⟨0x10, .TAKEN⟩, ⟨0x10, .NOT_TAKEN⟩]).flatten = .ok s ∧
      s.mispredicted
        (List.replicate 8 [⟨0x10, .TAKEN⟩, ⟨0x10, .TAKEN⟩, ⟨0x10, .NOT_TAKEN⟩]).flatten ≤ 12 := by
  have hentry : entries 3
      (List.replicate 8 [⟨0x10, .TAKEN⟩, ⟨0x10, .TAKEN⟩, ⟨0x10, .NOT_TAKEN⟩]).flatten = {0} := by
    decide +kernel
  obtain ⟨p, stats, s, hsetup, hrun, hbound⟩ := @mispredicted_le_of_hasPeriods .PTYPE_LOCAL_HISTORY
    4 2 3 rfl (by decide) (by decide) ⟨by decide, by decide⟩ (fun _ ↦ 3) (fun _ _ _ ↦ rfl)
    (List.replicate 8 [⟨0x10, .TAKEN⟩, ⟨0x10, .TAKEN⟩, ⟨0x10, .NOT_TAKEN⟩]).flatten
    ⟨fun _ _ ↦ by decide, fun _ _ ↦ by decide, fun entry hmem ↦ by
      obtain rfl := Finset.mem_singleton.mp (hentry ▸ hmem)
      change outcomesOf _ _ _ <+: _
      decide +kernel⟩
  refine ⟨p, stats, s, hsetup, hrun, hbound.trans_eq ?_⟩
  obtain ⟨rfl, -⟩ := Prod.mk.inj (eq_of_setupPredictor hsetup)
  change ∑ entry ∈ entries 3 _, _ = 12
  rw [hentry]
  rfl

end ArchSim.BranchPredictor
