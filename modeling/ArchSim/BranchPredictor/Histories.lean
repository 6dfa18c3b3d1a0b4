import ArchSim.BranchPredictor.Reference
import ArchSim.Library.ShiftRegister

/-!
# The history registers

The global history and the entries of the history table are shift registers of 64 bits, which are
never cut back: only the masks of `get_index` choose how much of them is used. What they hold after
a trace does not depend on the counters.
-/

namespace ArchSim.BranchPredictor

open Library ShiftRegister

/-- The outcomes of the branches of `trace` that share an entry of the history table with `pc`. -/
def outcomesOf (indexMask pc : BitVec 64) (trace : List Branch) : List Bool :=
  (trace.filter fun b ↦ b.pc &&& indexMask = pc &&& indexMask).map fun b ↦ b.actual.isTaken

theorem outcomesOf_snoc (indexMask pc : BitVec 64) (trace : List Branch) (b : Branch) :
    outcomesOf indexMask pc (trace ++ [b]) = if b.pc &&& indexMask = pc &&& indexMask then
      outcomesOf indexMask pc trace ++ [b.actual.isTaken] else outcomesOf indexMask pc trace := by
  unfold outcomesOf
  rw [List.filter_append, List.map_append]
  split <;> rename_i h <;> simp [h]

theorem bit_eq (d : BranchDir) : d.bit = (BitVec.ofBool d.isTaken).setWidth 64 := by
  cases d <;> rfl

/-- The registers of `p`, which was `p₀` before the branches of `trace`. -/
structure Records (p₀ : Predictor) (trace : List Branch) (p : Predictor) : Prop where
  indexMask : p.indexMask = p₀.indexMask
  historyMask : p.historyMask = p₀.historyMask
  historyShift : p.historyShift = p₀.historyShift
  predType : p.predType = p₀.predType
  ghr : Holds p.ghr (trace.map fun b ↦ b.actual.isTaken)
  histTable : p.predType.usesHistTable → ∀ pc, ∃ history,
    p.histTable[(pc &&& p.indexMask).toNat]? = some history ∧
      Holds history (outcomesOf p.indexMask pc trace)

theorem updatePredictor_record {p p' : Predictor} {pc : BitVec 64} {actual predicted : BranchDir}
    {stats stats' : BranchStats}
    (h : updatePredictor p pc actual predicted stats = .ok (p', stats')) :
    ∃ pht, p' = { p.record pc actual with pht := pht } := by
  simp only [updatePredictor, bind, Except.bind] at h
  cases hindex : getIndex p pc with
  | error e => rw [hindex] at h; cases h
  | ok index =>
  cases hread : read p.pht index with
  | error e => rw [hindex] at h; simp only [hread] at h; cases h
  | ok counter =>
  simp only [hindex, hread] at h
  by_cases huses : p.predType.usesHistTable = true
  · simp only [huses, if_true] at h
    unfold read at h
    cases hget : p.histTable[(pc &&& p.indexMask).toNat]? with
    | none => simp only [hget] at h; cases h
    | some history =>
      simp only [hget] at h
      obtain ⟨rfl, -⟩ := Prod.mk.inj (Except.ok.inj h)
      refine ⟨p.pht.set index.toNat (updateCounter p.ctrWeaklyTaken counter actual), ?_⟩
      simp only [Predictor.record, huses, if_true, List.modify_eq_set_getElem?, hget]
      rfl
  · simp only [huses] at h
    obtain ⟨rfl, -⟩ := Prod.mk.inj (Except.ok.inj h)
    refine ⟨p.pht.set index.toNat (updateCounter p.ctrWeaklyTaken counter actual), ?_⟩
    simp only [Predictor.record, huses]
    rfl

theorem Records.record {p₀ p : Predictor} {trace : List Branch} (h : Records p₀ trace p)
    (b : Branch) (pht : List (BitVec 32)) :
    Records p₀ (trace ++ [b]) { p.record b.pc b.actual with pht := pht } where
  indexMask := h.indexMask
  historyMask := h.historyMask
  historyShift := h.historyShift
  predType := h.predType
  ghr := by
    rw [List.map_append]
    change Holds (p.ghr <<< 1 ||| b.actual.bit) _
    rw [bit_eq]
    exact h.ghr.push _
  histTable huses pc := by
    obtain ⟨history, hget, hholds⟩ := h.histTable huses pc
    have huses' : p.predType.usesHistTable = true := huses
    change ∃ history, (p.record b.pc b.actual).histTable[(pc &&& p.indexMask).toNat]? = some history
      ∧ Holds history (outcomesOf p.indexMask pc (trace ++ [b]))
    simp only [Predictor.record, huses', if_true, outcomesOf_snoc]
    by_cases hsame : b.pc &&& p.indexMask = pc &&& p.indexMask
    · refine ⟨history <<< 1 + b.actual.bit, ?_, ?_⟩
      · rw [hsame, List.getElem?_modify_eq, hget]
        rfl
      · rw [if_pos hsame, bit_eq, shiftLeft_add_eq_push]
        exact hholds.push _
    · refine ⟨history, ?_, by rw [if_neg hsame]; exact hholds⟩
      have hne : (b.pc &&& p.indexMask).toNat ≠ (pc &&& p.indexMask).toNat :=
        fun heq ↦ hsame (BitVec.eq_of_toNat_eq heq)
      rw [List.getElem?_modify_ne _ _ hne]
      exact hget

theorem step_record {s s' : Simulation} {b : Branch} (h : s.step b = .ok s') :
    ∃ pht, s'.predictor = { s.predictor.record b.pc b.actual with pht := pht } := by
  simp only [Simulation.step, bind, Except.bind] at h
  cases hpredict : predictBranch s.predictor b.pc s.stats with
  | error e => rw [hpredict] at h; cases h
  | ok prediction =>
  obtain ⟨predicted, stats⟩ := prediction
  cases hupdate : updatePredictor s.predictor b.pc b.actual predicted stats with
  | error e => simp only [hpredict, hupdate] at h; cases h
  | ok updated =>
  obtain ⟨p', stats'⟩ := updated
  simp only [hpredict, hupdate] at h
  obtain rfl := Except.ok.inj h
  exact updatePredictor_record hupdate

/-- Whatever the sizes of the arrays, a run that stays inside them leaves this record. -/
theorem run_records {p₀ : Predictor} {s s' : Simulation} {trace : List Branch}
    (hstart : Records p₀ [] s.predictor) (hrun : s.run trace = .ok s') :
    Records p₀ trace s'.predictor := by
  induction trace using List.reverseRecOn generalizing s' with
  | nil =>
    obtain rfl := Except.ok.inj hrun
    exact hstart
  | append_singleton trace b ih =>
    have hbind : s.run (trace ++ [b]) = s.run trace >>= fun s₁ ↦ s₁.run [b] := List.foldlM_append
    cases hs₁ : s.run trace with
    | error e => rw [hbind, hs₁] at hrun; cases hrun
    | ok s₁ =>
      rw [run_snoc hs₁] at hrun
      obtain ⟨pht, hpredictor⟩ := step_record hrun
      rw [hpredictor]
      exact (ih hs₁).record b pht

/-- Where every index is inside its array, every trace can be run. -/
theorem run_ok {s : Simulation} (hsized : s.predictor.Sized) (trace : List Branch) :
    ∃ s', s.run trace = .ok s' ∧ s'.predictor.Sized := by
  induction trace using List.reverseRecOn with
  | nil => exact ⟨s, rfl, hsized⟩
  | append_singleton trace b ih =>
    obtain ⟨s₁, hs₁, hsized₁⟩ := ih
    obtain ⟨index, hindex, hlt⟩ := hsized₁.getIndex_ok b.pc
    obtain ⟨counter, hread, -⟩ := read_ok hlt
    refine ⟨_, (run_snoc hs₁ b).trans (step_ok hsized₁ hindex hread rfl), ?_⟩
    exact hsized₁.record b.pc b.actual List.length_set

variable {ptype : PredictorType} {numEntries counterBits historyBits : BitVec 32}

theorem initialPredictor_records (hentries : 1 ≤ numEntries.toInt) :
    Records (initialPredictor ptype numEntries counterBits historyBits) []
      (initialPredictor ptype numEntries counterBits historyBits) where
  indexMask := rfl
  historyMask := rfl
  historyShift := rfl
  predType := rfl
  ghr := holds_zero
  histTable huses pc := by
    obtain ⟨hlt, hint⟩ := toNat_lt_of_toInt_nonneg (x := numEntries) (by omega)
    have hmask : (numEntries.signExtend 64 - 1).toNat = numEntries.toNat - 1 :=
      toNat_mask (by omega) hlt
    have hle : (pc &&& (numEntries.signExtend 64 - 1)).toNat ≤ numEntries.toNat - 1 :=
      hmask ▸ toNat_and_le _ _
    have htable : (initialPredictor ptype numEntries counterBits historyBits).histTable =
        List.replicate numEntries.toNat 0 := if_pos huses
    refine ⟨0, ?_, holds_zero⟩
    rw [htable, List.getElem?_replicate]
    exact if_pos (by change (pc &&& (numEntries.signExtend 64 - 1)).toNat < _; omega)

/-- What an index has of the history. -/
def PredictorType.historyPart (ptype : PredictorType) (historyBits : ℕ) (index : BitVec 64) : ℕ :=
  if ptype = .PTYPE_LOCAL_HISTORY then index.toNat % 2 ^ historyBits else index.toNat

/-- The bits of a local history, below those of the entry. -/
theorem toNat_entry_mod {entry history : BitVec 64} {size : BitVec 64} {n : ℕ} (hn : n ≤ 64)
    (hsize : size.toNat = 2 ^ n) (hhistory : history.toNat < 2 ^ n) :
    (entry * size + history).toNat % 2 ^ n = history.toNat := by
  have hdvd : 2 ^ n ∣ 2 ^ 64 := Nat.pow_dvd_pow 2 hn
  rw [BitVec.toNat_add, BitVec.toNat_mul, hsize, Nat.mod_mod_of_dvd _ hdvd, Nat.add_mod,
    Nat.mod_mod_of_dvd _ hdvd, Nat.mul_mod_left, Nat.zero_add, Nat.mod_mod,
    Nat.mod_eq_of_lt hhistory]

/-- The index holds the last outcomes of the branches with the same entry of the history table. -/
theorem Records.historyPart_getIndex {p : Predictor} {trace : List Branch}
    (h : Records (initialPredictor ptype numEntries counterBits historyBits) trace p)
    (huses : ptype.usesHistTable) (hlt : historyBits.toNat < 31) (pc : BitVec 64) :
    ∃ index, getIndex p pc = .ok index ∧
      ptype.historyPart historyBits.toNat index =
        lastBits historyBits.toNat (outcomesOf p.indexMask pc trace) := by
  have htype : p.predType = ptype := h.predType
  have hpow : 2 ^ historyBits.toNat < 2 ^ 31 := Nat.pow_lt_pow_right (by decide) hlt
  have hshl : (shl 1 historyBits.toNat).toNat = 2 ^ historyBits.toNat :=
    toNat_shl_one (hlt.trans (by decide))
  have hsize : ((shl 1 historyBits.toNat).signExtend 64).toNat = 2 ^ historyBits.toNat := by
    rw [toNat_signExtend (hshl.trans_lt hpow), hshl]
  have hmask : p.historyMask.toNat = 2 ^ historyBits.toNat - 1 := by
    rw [h.historyMask]
    change ((shl 1 historyBits.toNat).signExtend 64 - 1).toNat = _
    rw [toNat_mask (hshl ▸ Nat.one_le_two_pow) (hshl ▸ hpow), hshl]
  obtain ⟨history, hget, hholds⟩ := h.histTable (htype ▸ huses) pc
  have hread : read p.histTable (pc &&& p.indexMask) = .ok history := by rw [read, hget]
  have hand := hholds.toNat_and (n := historyBits.toNat) (by omega) hmask
  unfold getIndex
  simp only [htype, hread]
  cases ptype with
  | PTYPE_BIMODAL => cases huses
  | PTYPE_GSHARE => cases huses
  | PTYPE_TWO_LEVEL_ADAPTIVE => exact ⟨_, rfl, hand⟩
  | PTYPE_LOCAL_HISTORY =>
    refine ⟨_, rfl, ?_⟩
    have hshift : p.historyShift.toNat = historyBits.toNat := by
      rw [h.historyShift]
      exact toNat_signExtend (hlt.trans (by decide))
    rw [PredictorType.historyPart, if_pos rfl, hshift,
      toNat_entry_mod (n := historyBits.toNat) (by omega) hsize (hand ▸ lastBits_lt _ _), hand]

/-- After any trace, the history part of an index is the last `historyBits` outcomes of the branches
that `index_mask` maps to the same entry; and if the sizes do not overflow there is such a state
after every trace. -/
theorem getIndex_history (huses : ptype.usesHistTable) (hentries : 1 ≤ numEntries.toInt)
    (hpos : 1 ≤ historyBits.toInt) (hle : historyBits.toInt ≤ 30) (stats : BranchStats) :
    (∀ p stats', setupPredictor ptype numEntries counterBits historyBits stats = .ok (p, stats') →
      ∀ trace s, Simulation.run ⟨p, stats', []⟩ trace = .ok s → ∀ pc,
        ∃ index, getIndex s.predictor pc = .ok index ∧
          ptype.historyPart historyBits.toNat index =
            lastBits historyBits.toNat (outcomesOf p.indexMask pc trace)) ∧
    (1 ≤ counterBits.toInt → Fits ptype numEntries counterBits historyBits →
      ∃ p stats', setupPredictor ptype numEntries counterBits historyBits stats = .ok (p, stats') ∧
        ∀ trace, ∃ s, Simulation.run ⟨p, stats', []⟩ trace = .ok s) := by
  obtain ⟨-, hint⟩ := toNat_lt_of_toInt_nonneg (x := historyBits) (by omega)
  constructor
  · intro p stats' hsetup trace s hrun pc
    obtain ⟨rfl, -⟩ := Prod.mk.inj (eq_of_setupPredictor hsetup)
    have hrecords := run_records (s := ⟨_, stats', []⟩) (initialPredictor_records hentries) hrun
    have hmask := hrecords.indexMask
    rw [← hmask]
    exact hrecords.historyPart_getIndex huses (by omega) pc
  · intro hbits hfits
    refine ⟨_, _, setupPredictor_ok hentries hbits hfits stats, fun trace ↦ ?_⟩
    obtain ⟨s, hs, -⟩ := run_ok (s := ⟨initialPredictor ptype numEntries counterBits historyBits,
      { stats with storageOverhead := (sizes ptype numEntries counterBits historyBits).2 }, []⟩)
      (initialPredictor_sized hentries hbits hfits) trace
    exact ⟨s, hs⟩

/-- A register that has been shifted seventy times still holds the last three outcomes. -/
theorem getIndex_history_seventyBranches : ∃ p stats s,
    setupPredictor .PTYPE_TWO_LEVEL_ADAPTIVE 1 2 3 {} = .ok (p, stats) ∧
      Simulation.run ⟨p, stats, []⟩ (List.replicate 67 ⟨0x10, .TAKEN⟩ ++
        [⟨0x14, .TAKEN⟩, ⟨0x18, .NOT_TAKEN⟩, ⟨0x10, .TAKEN⟩]) = .ok s ∧
      ∃ index, getIndex s.predictor 0x10 = .ok index ∧ index.toNat = 5 := by
  obtain ⟨hhistory, hexists⟩ := @getIndex_history .PTYPE_TWO_LEVEL_ADAPTIVE 1 2 3 rfl (by decide)
    (by decide) (by decide) {}
  obtain ⟨p, stats, hsetup, hrun⟩ := hexists (by decide) ⟨by decide, by decide⟩
  obtain ⟨s, hs⟩ := hrun _
  refine ⟨p, stats, s, hsetup, hs, ?_⟩
  obtain ⟨index, hindex, hlast⟩ := hhistory p stats hsetup _ s hs 0x10
  refine ⟨index, hindex, hlast.trans ?_⟩
  obtain ⟨rfl, -⟩ := Prod.mk.inj (eq_of_setupPredictor hsetup)
  decide

end ArchSim.BranchPredictor
