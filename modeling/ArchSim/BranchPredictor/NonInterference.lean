import ArchSim.BranchPredictor.Reference

/-!
# Branches of different entries

The bimodal predictor and the one with local histories keep the branches of different entries apart:
a counter belongs to one entry, and so does a local history. What is predicted for the branches of
an entry is what would be predicted if there were no others.
-/

namespace ArchSim.BranchPredictor

open Library CounterTable

/-- The predictors whose counters are not shared between entries. -/
def PredictorType.separatesEntries : PredictorType → Bool
  | PTYPE_BIMODAL | PTYPE_LOCAL_HISTORY => true
  | _ => false

/-- Whether `pc` is mapped to the entry `i`. -/
def Predictor.selects (p : Predictor) (i : BitVec 64) (pc : BitVec 64) : Bool :=
  pc &&& p.indexMask = i

/-- A predictor with the masks of `p₀` whose entries have counters of their own. -/
structure Predictor.Separated (p₀ p : Predictor) : Prop where
  sized : p.Sized
  indexMask : p.indexMask = p₀.indexMask
  historyMask : p.historyMask = p₀.historyMask
  historyShift : p.historyShift = p₀.historyShift
  predType : p.predType = p₀.predType
  type : p.predType.separatesEntries
  history : p.predType = .PTYPE_LOCAL_HISTORY → p.historyMask.toNat < p.stride

namespace Predictor.Separated

variable {p₀ p p' : Predictor}

theorem record (h : p₀.Separated p) (pc : BitVec 64) (d : BranchDir) :
    p₀.Separated (p.record pc d) where
  sized := h.sized.record pc d rfl
  indexMask := h.indexMask
  historyMask := h.historyMask
  historyShift := h.historyShift
  predType := h.predType
  type := h.type
  history := h.history

theorem stride (h : p₀.Separated p) : p.stride = p₀.stride := by
  unfold Predictor.stride
  rw [h.historyShift]

theorem type_cases (h : p₀.Separated p) :
    p.predType = .PTYPE_BIMODAL ∨ p.predType = .PTYPE_LOCAL_HISTORY := by
  have htype := h.type
  cases hp : p.predType <;> simp_all [PredictorType.separatesEntries]

theorem index_bimodal (htype : p.predType = .PTYPE_BIMODAL) (pc : BitVec 64) :
    scheme.index p pc = (pc &&& p.indexMask).toNat := by
  simp only [scheme, getIndex, htype]

/-- The index for a local history: the entry, then the history. -/
theorem index_local (h : p₀.Separated p) (htype : p.predType = .PTYPE_LOCAL_HISTORY)
    (pc : BitVec 64) : ∃ history, p.histTable[(pc &&& p.indexMask).toNat]? = some history ∧
      scheme.index p pc =
        (pc &&& p.indexMask).toNat * p.stride + (history &&& p.historyMask).toNat ∧
      (history &&& p.historyMask).toNat < p.stride := by
  obtain ⟨history, hread, hget⟩ := h.sized.read_histTable (by rw [htype]; rfl) pc
  refine ⟨history, hget, ?_, (toNat_and_le _ _).trans_lt (h.history htype)⟩
  rw [← (h.sized.toNat_local htype pc history).1]
  simp only [scheme, getIndex, htype, hread, bind, Except.bind, pure, Except.pure]

/-- The index determines the entry. -/
theorem entry_eq (h : p₀.Separated p) (h' : p₀.Separated p') {pc pc' : BitVec 64}
    (hindex : scheme.index p pc = scheme.index p' pc') :
    pc &&& p₀.indexMask = pc' &&& p₀.indexMask := by
  apply BitVec.eq_of_toNat_eq
  have htype : p'.predType = p.predType := h'.predType.trans h.predType.symm
  cases h.type_cases with
  | inl hbimodal =>
    rw [index_bimodal hbimodal, index_bimodal (htype.trans hbimodal), h.indexMask,
      h'.indexMask] at hindex
    exact hindex
  | inr hlocal =>
    obtain ⟨history, -, heq, hlt⟩ := h.index_local hlocal pc
    obtain ⟨history', -, heq', hlt'⟩ := h'.index_local (htype.trans hlocal) pc'
    rw [heq, heq', h.indexMask, h'.indexMask, h.stride, h'.stride] at hindex
    rw [h.stride] at hlt
    rw [h'.stride] at hlt'
    have hdiv := congrArg (· / p₀.stride) hindex
    simpa only [Nat.mul_add_div (Nat.zero_lt_of_lt hlt), Nat.mul_comm _ p₀.stride,
      Nat.div_eq_of_lt hlt, Nat.div_eq_of_lt hlt', Nat.add_zero] using hdiv

end Predictor.Separated

/-- What the branches of the entry `i` can see of the histories: their own. -/
def Predictor.view (i : BitVec 64) (p : Predictor) : Option (BitVec 64) := p.histTable[i.toNat]?

theorem Predictor.view_record (p : Predictor) (i pc : BitVec 64) (d : BranchDir) :
    (p.record pc d).view i = if p.predType.usesHistTable ∧ pc &&& p.indexMask = i then
      (p.view i).map (fun history : BitVec 64 ↦ history <<< 1 + d.bit) else p.view i := by
  unfold Predictor.view Predictor.record
  by_cases huses : p.predType.usesHistTable = true
  · simp only [huses, if_true, true_and]
    by_cases hi : pc &&& p.indexMask = i
    · rw [if_pos hi, hi, List.getElem?_modify_eq]
      rfl
    · rw [if_neg hi, List.getElem?_modify_ne]
      exact fun heq ↦ hi (BitVec.eq_of_toNat_eq heq)
  · simp only [huses, Bool.false_eq_true, false_and, if_false]

/-- The entries of a predictor are separate classes of inputs. -/
theorem separates_entries (p₀ : Predictor) (i : BitVec 64) :
    Table.Separates scheme p₀.Separated (Predictor.view i) (p₀.selects i) where
  valid_record h := h.record _ _
  index_ne {p p' pc pc'} h h' hpc hpc' hindex := by
    have hentry := h.entry_eq h' hindex
    simp only [Predictor.selects, decide_eq_true_eq, decide_eq_false_iff_not] at hpc hpc'
    exact hpc' (hentry.symm.trans hpc)
  index_eq {p p' pc} h h' hpc hview := by
    simp only [Predictor.selects, decide_eq_true_eq] at hpc
    have htype : p'.predType = p.predType := h'.predType.trans h.predType.symm
    cases h.type_cases with
    | inl hbimodal =>
      rw [Predictor.Separated.index_bimodal hbimodal,
        Predictor.Separated.index_bimodal (htype.trans hbimodal), h.indexMask, h'.indexMask]
    | inr hlocal =>
      obtain ⟨history, hget, heq, -⟩ := h.index_local hlocal pc
      obtain ⟨history', hget', heq', -⟩ := h'.index_local (htype.trans hlocal) pc
      rw [h.indexMask, hpc] at hget
      rw [h'.indexMask, hpc] at hget'
      obtain rfl : history = history' := by
        have hsome : some history = some history' := hget.symm.trans (hview.trans hget')
        exact Option.some.inj hsome
      rw [heq, heq', h.indexMask, h'.indexMask, h.stride, h'.stride, h.historyMask, h'.historyMask]
  view_eq {p p' pc taken} h h' _ hview := by
    change (p.record pc _).view i = (p'.record pc _).view i
    rw [Predictor.view_record, Predictor.view_record, hview, h.predType, h'.predType, h.indexMask,
      h'.indexMask]
  view_other {p pc taken} h hpc := by
    simp only [Predictor.selects, decide_eq_false_iff_not] at hpc
    change (p.record pc _).view i = _
    rw [Predictor.view_record, h.indexMask]
    exact if_neg fun hboth ↦ hpc hboth.2

/-- What was predicted for the branches of the entry `i`, of all that was predicted for `trace`. -/
def predictionsOf (p : Predictor) (i : BitVec 64) (trace : List Branch)
    (predicted : List BranchDir) : List BranchDir :=
  ((trace.zip predicted).filter fun e ↦ p.selects i e.1.pc).map Prod.snd

theorem predictionsOf_map (p : Predictor) (i : BitVec 64) (trace : List Branch)
    (outcomes : List Bool) :
    predictionsOf p i trace (outcomes.map .ofTaken) =
      ((((trace.map Branch.event).zip outcomes).filter fun e ↦ p.selects i e.1.1).map
        Prod.snd).map .ofTaken := by
  unfold predictionsOf
  rw [List.zip_map_right, List.zip_map_left, List.filter_map, List.filter_map, List.map_map,
    List.map_map, List.map_map]
  rfl

variable {ptype : PredictorType} {numEntries counterBits historyBits : BitVec 32}

theorem initialPredictor_separated (htype : ptype.separatesEntries)
    (hentries : 1 ≤ numEntries.toInt) (hbits : 1 ≤ counterBits.toInt)
    (hfits : Fits ptype numEntries counterBits historyBits) :
    (initialPredictor ptype numEntries counterBits historyBits).Separated
      (initialPredictor ptype numEntries counterBits historyBits) where
  sized := initialPredictor_sized hentries hbits hfits
  indexMask := rfl
  historyMask := rfl
  historyShift := rfl
  predType := rfl
  type := htype
  history hlocal := by
    obtain rfl : ptype = .PTYPE_LOCAL_HISTORY := hlocal
    obtain ⟨hhistory, hlt⟩ := hfits
    have hsize := historySize_of_fits_local hentries hbits hhistory hlt
    change ((shl 1 historyBits.toNat).signExtend 64 - 1).toNat <
      ((shl 1 (historyBits.signExtend 64).toNat).signExtend 64).toNat
    have hpow : 0 < 2 ^ historyBits.toNat := Nat.two_pow_pos _
    rw [hsize.toNat_historyMask, hsize.toNat_stride]
    omega

/-- The predictions for the branches of an entry are those of a run that has no others. -/
theorem predictions_noninterference (htype : ptype.separatesEntries)
    (hentries : 1 ≤ numEntries.toInt) (hbits : 1 ≤ counterBits.toInt)
    (hfits : Fits ptype numEntries counterBits historyBits) (trace : List Branch)
    (i : BitVec 64) :
    ∃ p stats, setupPredictor ptype numEntries counterBits historyBits {} = .ok (p, stats) ∧
      ∃ s s', Simulation.run ⟨p, stats, []⟩ trace = .ok s ∧
        Simulation.run ⟨p, stats, []⟩ (trace.filter fun b ↦ b.pc &&& p.indexMask = i) = .ok s' ∧
        s.predicted.length = trace.length ∧
        predictionsOf p i trace s.predicted = s'.predicted := by
  refine ⟨_, _, setupPredictor_ok hentries hbits hfits {}, ?_⟩
  have hseparated := initialPredictor_separated htype hentries hbits hfits
  have hrun := run_agrees (s := ⟨initialPredictor ptype numEntries counterBits historyBits, _, []⟩)
    hseparated.sized
    (initialPredictor_represents ptype numEntries counterBits historyBits rfl) rfl
    (⟨rfl, rfl, rfl, rfl⟩ : Counts { storageOverhead :=
      (sizes ptype numEntries counterBits historyBits).2 } [] [])
  obtain ⟨s, hs, -, -, -, hagrees⟩ := hrun trace
  obtain ⟨s', hs', -, -, -, hagrees'⟩ := hrun (trace.filter fun b ↦
    b.pc &&& (initialPredictor ptype numEntries counterBits historyBits).indexMask = i)
  refine ⟨s, s', hs, hs', ?_, ?_⟩
  · rw [hagrees.predicted, List.length_map, Table.length_predictions, List.length_map]
  · have hsep := separates_entries (initialPredictor ptype numEntries counterBits historyBits) i
    rw [hagrees.predicted, hagrees'.predicted, predictionsOf_map,
      (Table.SameView.refl hseparated).predictions_filter hsep, List.filter_map]
    rfl

/-- Two entries of local histories of one bit, whose branches alternate. -/
theorem predictions_noninterference_twoEntries : ∃ p stats,
    setupPredictor .PTYPE_LOCAL_HISTORY 2 2 1 {} = .ok (p, stats) ∧
      ∃ s s', Simulation.run ⟨p, stats, []⟩
          [⟨0x10, .NOT_TAKEN⟩, ⟨0x11, .TAKEN⟩, ⟨0x10, .TAKEN⟩, ⟨0x11, .NOT_TAKEN⟩] = .ok s ∧
        Simulation.run ⟨p, stats, []⟩ ([⟨0x10, .NOT_TAKEN⟩, ⟨0x11, .TAKEN⟩, ⟨0x10, .TAKEN⟩,
          ⟨0x11, .NOT_TAKEN⟩].filter fun b : Branch ↦ b.pc &&& p.indexMask = 1) = .ok s' ∧
        s.predicted.length = 4 ∧
        predictionsOf p 1 [⟨0x10, .NOT_TAKEN⟩, ⟨0x11, .TAKEN⟩, ⟨0x10, .TAKEN⟩,
          ⟨0x11, .NOT_TAKEN⟩] s.predicted = s'.predicted :=
  @predictions_noninterference .PTYPE_LOCAL_HISTORY 2 2 1 (by decide) (by decide) (by decide)
    ⟨by decide, by decide⟩ _ 1

end ArchSim.BranchPredictor
