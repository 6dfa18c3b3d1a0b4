import ArchSim.BranchPredictor.Bounds
import ArchSim.Library.CounterTable

/-!
# The predictors as counter tables

The code counts up to the bound that `update_predictor` computes from `ctr_weakly_taken`. With that
bound a predictor is a table of saturating counters whose indices are those of `get_index`. The
counters that the documentation asks for have `counter_bits` bits, so that they stop at
`2 ^ counter_bits - 1`. The two bounds are the same for one and two bits only.
-/

namespace ArchSim.BranchPredictor

open Library CounterTable

/-! ## The scheme -/

def BranchDir.isTaken : BranchDir → Bool
  | TAKEN => true
  | NOT_TAKEN => false

def BranchDir.ofTaken : Bool → BranchDir
  | true => TAKEN
  | false => NOT_TAKEN

/-- The histories after a branch at `pc`. -/
def Predictor.record (p : Predictor) (pc : BitVec 64) (actual : BranchDir) : Predictor :=
  { p with
    ghr := p.ghr <<< 1 ||| actual.bit
    histTable :=
      if p.predType.usesHistTable then
        p.histTable.modify (pc &&& p.indexMask).toNat fun history ↦ history <<< 1 + actual.bit
      else
        p.histTable }

/-- A predictor as the record of the branches so far; its counters play no part in this. -/
def scheme : Scheme Predictor (BitVec 64) ℕ where
  index p pc := match getIndex p pc with
    | .ok index => index.toNat
    | .error _ => 0
  record p pc taken := p.record pc (.ofTaken taken)

def Branch.event (b : Branch) : BitVec 64 × Bool := (b.pc, b.actual.isTaken)

@[simp] theorem ofTaken_isTaken (d : BranchDir) : BranchDir.ofTaken d.isTaken = d := by
  cases d <;> rfl

theorem getIndex_pht (p : Predictor) (pht : List (BitVec 32)) (pc : BitVec 64) :
    getIndex { p with pht := pht } pc = getIndex p pc := rfl

theorem Predictor.Sized.record {p : Predictor} (h : p.Sized) (pc : BitVec 64) (d : BranchDir)
    {pht : List (BitVec 32)} (hlength : pht.length = p.pht.length) :
    { p.record pc d with pht := pht }.Sized where
  maxIndex := by
    change p.maxIndex < pht.length
    rw [hlength]
    exact h.maxIndex
  pht := by
    change pht.length < _
    rw [hlength]
    exact h.pht
  histTable huses := by
    have hlt := h.histTable huses
    simp only [Predictor.record]
    split
    · rw [List.length_modify]
      exact hlt
    · exact hlt

/-! ## One branch -/

theorem updateCounter_toNat (weak counter : BitVec 32) (d : BranchDir) :
    (updateCounter weak counter d).toNat =
      count (updateBound weak).toNat d.isTaken counter.toNat := by
  have hbound := (updateBound weak).isLt
  cases d with
  | TAKEN =>
    simp only [updateCounter, count, BranchDir.isTaken, if_true, BitVec.lt_def]
    split
    · rw [BitVec.toNat_add]
      change (counter.toNat + 1) % _ = _
      omega
    · rfl
  | NOT_TAKEN =>
    simp only [updateCounter, count, BranchDir.isTaken, BitVec.lt_def]
    split
    · rename_i hpos
      rw [BitVec.toNat_sub_of_le (by rw [BitVec.le_def]; exact hpos)]
      rfl
    · rename_i hzero
      have h0 : counter.toNat = 0 := Nat.eq_zero_of_not_pos hzero
      rw [h0]
      rfl

/-- The predictor has the histories and the counters of the table. -/
structure Represents (p : Predictor) (t : Table Predictor ℕ) : Prop where
  history : t.history = { p with pht := t.history.pht }
  counters : ∀ i x, p.pht[i]? = some x → x.toNat = t.counters i

/-- The index of a branch, and its counter. -/
theorem Represents.read_pht {p : Predictor} {t : Table Predictor ℕ} (h : Represents p t)
    (hsized : p.Sized) (pc : BitVec 64) :
    ∃ index counter, getIndex p pc = .ok index ∧ scheme.index t.history pc = index.toNat ∧
      read p.pht index = .ok counter ∧ counter.toNat = t.counters index.toNat := by
  obtain ⟨index, hindex, hlt⟩ := hsized.getIndex_ok pc
  obtain ⟨counter, hread, hget⟩ := read_ok hlt
  refine ⟨index, counter, hindex, ?_, hread, h.counters _ _ hget⟩
  have hsame : getIndex t.history pc = .ok index := by
    rw [h.history, getIndex_pht, hindex]
  simp only [scheme, hsame]

/-- The predictor after a branch. -/
def Predictor.next (p : Predictor) (b : Branch) (index : ℕ) (counter : BitVec 32) : Predictor :=
  { p.record b.pc b.actual with
    pht := p.pht.set index (updateCounter p.ctrWeaklyTaken counter b.actual) }

theorem updatePredictor_ok {p : Predictor} (hsized : p.Sized) {b : Branch} {index : BitVec 64}
    {counter : BitVec 32} (hindex : getIndex p b.pc = .ok index)
    (hread : read p.pht index = .ok counter) (predicted : BranchDir) (stats : BranchStats) :
    updatePredictor p b.pc b.actual predicted stats = .ok (p.next b index.toNat counter,
      if b.actual = predicted then { stats with correct := stats.correct + 1 } else stats) := by
  simp only [updatePredictor, hindex, hread, Predictor.next, Predictor.record, bind, Except.bind]
  by_cases huses : p.predType.usesHistTable = true
  · obtain ⟨history, hhistory, hget⟩ := hsized.read_histTable huses b.pc
    simp only [huses, if_true, hhistory, List.modify_eq_set_getElem?, hget]
    rfl
  · simp only [huses]
    rfl

/-- The counts for a prediction. -/
def BranchStats.predict (stats : BranchStats) : BranchDir → BranchStats
  | .TAKEN => { stats with
      numBranches := stats.numBranches + 1, predTaken := stats.predTaken + 1 }
  | .NOT_TAKEN => { stats with
      numBranches := stats.numBranches + 1, predNotTaken := stats.predNotTaken + 1 }

theorem predictBranch_ok {p : Predictor} {pc index : BitVec 64} {counter : BitVec 32}
    (hindex : getIndex p pc = .ok index) (hread : read p.pht index = .ok counter)
    (stats : BranchStats) :
    predictBranch p pc stats =
      .ok (.ofTaken (p.ctrWeaklyTaken.toNat ≤ counter.toNat),
        stats.predict (.ofTaken (p.ctrWeaklyTaken.toNat ≤ counter.toNat))) := by
  simp only [predictBranch, hindex, hread, bind, Except.bind, BitVec.le_def]
  by_cases hle : p.ctrWeaklyTaken.toNat ≤ counter.toNat
  · simp only [hle, if_true, decide_true]
    rfl
  · simp only [hle, if_false, decide_false]
    rfl

/-- The counts of a run that starts with none. -/
structure Counts (stats : BranchStats) (predicted actual : List BranchDir) : Prop where
  numBranches : stats.numBranches = BitVec.ofNat 64 predicted.length
  predTaken : stats.predTaken = BitVec.ofNat 64 (predicted.count .TAKEN)
  predNotTaken : stats.predNotTaken = BitVec.ofNat 64 (predicted.count .NOT_TAKEN)
  correct : stats.correct =
    BitVec.ofNat 64 ((predicted.zip actual).countP fun both ↦ both.2 = both.1)

theorem Counts.snoc {stats : BranchStats} {predicted actual : List BranchDir}
    (h : Counts stats predicted actual) (hlength : predicted.length = actual.length)
    (d a : BranchDir) :
    Counts (if a = d then { stats.predict d with correct := (stats.predict d).correct + 1 }
      else stats.predict d) (predicted ++ [d]) (actual ++ [a]) := by
  have hzip : (predicted ++ [d]).zip (actual ++ [a]) = predicted.zip actual ++ [(d, a)] :=
    List.zip_append hlength
  refine ⟨?_, ?_, ?_, ?_⟩
  · rw [List.length_append, BitVec.ofNat_add, ← h.numBranches]
    cases d <;> split <;> rfl
  · rw [List.count_append, BitVec.ofNat_add, ← h.predTaken]
    cases d <;> split <;> simp [BranchStats.predict]
  · rw [List.count_append, BitVec.ofNat_add, ← h.predNotTaken]
    cases d <;> split <;> simp [BranchStats.predict]
  · rw [hzip, List.countP_append, BitVec.ofNat_add, ← h.correct]
    by_cases hcorrect : a = d
    · cases d <;> simp [hcorrect, BranchStats.predict]
    · cases d <;> simp [hcorrect, BranchStats.predict]

/-! ## Runs -/

/-- After the branches of `trace` the simulation `s` shows what the table `t` shows whose counters
stop at `bound`, and predicts `TAKEN` from `weak` on. -/
structure Agrees (bound weak : ℕ) (t : Table Predictor ℕ) (trace : List Branch)
    (s : Simulation) : Prop where
  represents : Represents s.predictor (t.run scheme bound (trace.map Branch.event))
  predicted : s.predicted =
    (t.predictions scheme bound weak (trace.map Branch.event)).map BranchDir.ofTaken
  counts : Counts s.stats s.predicted (trace.map Branch.actual)

theorem Represents.next {p : Predictor} {t : Table Predictor ℕ} (h : Represents p t)
    {b : Branch} {index bound : ℕ} {counter : BitVec 32}
    (hindex : scheme.index t.history b.pc = index) (hcounter : counter.toNat = t.counters index)
    (hbound : bound = (updateBound p.ctrWeaklyTaken).toNat) :
    Represents (p.next b index counter) (t.train scheme bound b.event) := by
  have hdir : BranchDir.ofTaken b.event.2 = b.actual := ofTaken_isTaken b.actual
  refine ⟨?_, fun i x hx ↦ ?_⟩
  · change t.history.record b.pc (.ofTaken b.event.2) = _
    rw [hdir, h.history]
    rfl
  · change (p.pht.set index _)[i]? = some x at hx
    rw [Table.train_counters, Branch.event, hindex, ← hcounter, hbound, ← updateCounter_toNat]
    rw [List.getElem?_set] at hx
    by_cases hi : index = i
    · subst hi
      rw [Function.update_self]
      rw [if_pos rfl] at hx
      split at hx
      · exact congrArg BitVec.toNat (Option.some.inj hx).symm
      · cases hx
    · rw [if_neg hi] at hx
      rw [Function.update_of_ne (Ne.symm hi)]
      exact h.counters i x hx

theorem step_ok {s : Simulation} (hsized : s.predictor.Sized) {b : Branch} {index : BitVec 64}
    {counter : BitVec 32} (hindex : getIndex s.predictor b.pc = .ok index)
    (hread : read s.predictor.pht index = .ok counter) {d : BranchDir}
    (hd : d = .ofTaken (s.predictor.ctrWeaklyTaken.toNat ≤ counter.toNat)) :
    s.step b = .ok {
      predictor := s.predictor.next b index.toNat counter
      stats := if b.actual = d then
          { s.stats.predict d with correct := (s.stats.predict d).correct + 1 }
        else s.stats.predict d
      predicted := s.predicted ++ [d] } := by
  simp only [Simulation.step, predictBranch_ok hindex hread, ← hd, bind, Except.bind,
    updatePredictor_ok hsized hindex hread]
  rfl

theorem run_snoc {s s' : Simulation} {trace : List Branch} (h : s.run trace = .ok s')
    (b : Branch) : s.run (trace ++ [b]) = s'.step b := by
  have hbind : s.run (trace ++ [b]) = s.run trace >>= fun s' ↦ s'.run [b] :=
    List.foldlM_append
  rw [hbind, h]
  change s'.step b >>= pure = _
  exact bind_pure _

/-- Every run of the code is one of the table that counts up to the bound of the code. -/
theorem run_agrees {s : Simulation} {t : Table Predictor ℕ} (hsized : s.predictor.Sized)
    (hrepresents : Represents s.predictor t) (hpredicted : s.predicted = [])
    (hcounts : Counts s.stats [] []) (trace : List Branch) :
    ∃ s', s.run trace = .ok s' ∧ s'.predictor.Sized ∧
      s'.predictor.pht.length = s.predictor.pht.length ∧
      s'.predictor.ctrWeaklyTaken = s.predictor.ctrWeaklyTaken ∧
      Agrees (updateBound s.predictor.ctrWeaklyTaken).toNat s.predictor.ctrWeaklyTaken.toNat t
        trace s' := by
  induction trace using List.reverseRecOn with
  | nil => exact ⟨s, rfl, hsized, rfl, rfl, hrepresents, hpredicted, hpredicted.symm ▸ hcounts⟩
  | append_singleton trace b ih =>
    obtain ⟨s', hrun, hsized', hlengthPht, hweak, hagrees⟩ := ih
    obtain ⟨index, counter, hindex, hscheme, hread, hcounter⟩ :=
      hagrees.represents.read_pht hsized' b.pc
    obtain ⟨d, hd⟩ : ∃ d, d = BranchDir.ofTaken
      (s'.predictor.ctrWeaklyTaken.toNat ≤ counter.toNat) := ⟨_, rfl⟩
    have hstep := step_ok hsized' hindex hread hd
    have hlength : s'.predicted.length = (trace.map Branch.actual).length := by
      rw [hagrees.predicted, List.length_map, Table.length_predictions, List.length_map,
        List.length_map]
    refine ⟨_, (run_snoc hrun b).trans hstep, hsized'.record b.pc b.actual List.length_set,
      List.length_set.trans hlengthPht, hweak, ?_, ?_, ?_⟩
    · rw [List.map_append, Table.run_append]
      exact hagrees.represents.next hscheme hcounter (by rw [hweak])
    · have hpredict : Table.predict scheme s.predictor.ctrWeaklyTaken.toNat
          (t.run scheme (updateBound s.predictor.ctrWeaklyTaken).toNat (trace.map Branch.event))
          b.pc = decide (s'.predictor.ctrWeaklyTaken.toNat ≤ counter.toNat) := by
        rw [Table.predict, hscheme, hcounter, hweak]
      rw [List.map_append, Table.predictions_append, List.map_append, ← hagrees.predicted, hd,
        ← hpredict]
      rfl
    · rw [List.map_append]
      exact hagrees.counts.snoc hlength d b.actual

/-! ## The documented counters -/

/-- In every state of the run on `trace`, the simulation shows what the counters of the
documentation show: they have `bits` bits and start at `2 ^ (bits - 1)`. -/
def FollowsReference (bits : ℕ) (s : Simulation) (trace : List Branch) : Prop :=
  ∀ before, before <+: trace → ∃ s', s.run before = .ok s' ∧
    Agrees (2 ^ bits - 1) (2 ^ (bits - 1)) ⟨s.predictor, fun _ ↦ 2 ^ (bits - 1)⟩ before s'

/-- No branch is taken whose documented counter stands at its maximum. -/
def StaysBelowMax (bits : ℕ) (p : Predictor) (trace : List Branch) : Prop :=
  Table.Unsaturated scheme (2 ^ bits - 1) ⟨p, fun _ ↦ 2 ^ (bits - 1)⟩ (trace.map Branch.event)

/-- The bound of the code is the documented one for one and two bits, and larger for more. -/
theorem updateBound_spec {bits : BitVec 32} (hpos : 1 ≤ bits.toNat) (hle : bits.toNat ≤ 16) :
    (shl 1 (bits - 1).toNat).toNat = 2 ^ (bits.toNat - 1) ∧
      if bits.toNat ≤ 2 then (updateBound (shl 1 (bits - 1).toNat)).toNat = 2 ^ bits.toNat - 1
      else 2 ^ bits.toNat - 1 < (updateBound (shl 1 (bits - 1).toNat)).toNat := by
  obtain ⟨k, rfl⟩ : ∃ k : Fin 17, bits = BitVec.ofNat 32 k :=
    ⟨⟨bits.toNat, by omega⟩, by simp⟩
  revert hpos hle
  revert k
  decide

section

variable {s : Simulation} {bits : ℕ} {trace : List Branch}

/-- With a larger bound, the code follows the documentation as long as no counter tells the two
bounds apart. -/
theorem followsReference_iff_staysBelowMax {bound : ℕ} (hpos : 1 ≤ bits)
    (hlt : 2 ^ bits - 1 < bound)
    (hrun : ∀ before, ∃ s', s.run before = .ok s' ∧ s'.predictor.Sized ∧
      s'.predictor.pht.length = s.predictor.pht.length ∧
      Agrees bound (2 ^ (bits - 1)) ⟨s.predictor, fun _ ↦ 2 ^ (bits - 1)⟩ before s') :
    FollowsReference bits s trace ↔ StaysBelowMax bits s.predictor trace := by
  have hstart : ∀ _ : ℕ, 2 ^ (bits - 1) ≤ 2 ^ bits - 1 := fun _ ↦ by
    have hpow : 2 ^ (bits - 1) < 2 ^ bits := Nat.pow_lt_pow_right (by decide) (by omega)
    omega
  constructor
  · intro hfollows
    apply Table.unsaturated_of_agree hlt hstart
    intro events e hbefore
    obtain ⟨lines, hlines, hevents⟩ := List.prefix_map_iff.mp hbefore
    obtain ⟨before, last, rfl, rfl, hlast⟩ := List.map_eq_append_iff.mp hevents.symm
    obtain ⟨b, rfl, rfl⟩ := List.map_eq_singleton_iff.mp hlast
    obtain ⟨s₁, hrun₁, hagrees₁⟩ := hfollows before ((List.prefix_append _ _).trans hlines)
    obtain ⟨s₁', hrun₁', hsized₁, hlength₁, -⟩ := hrun before
    obtain rfl : s₁' = s₁ := Except.ok.inj (hrun₁'.symm.trans hrun₁)
    obtain ⟨s₂, hrun₂, hagrees₂⟩ := hfollows _ hlines
    obtain ⟨s₂', hrun₂', -, hlength₂, hbound₂⟩ := hrun (before ++ [b])
    obtain rfl : s₂' = s₂ := Except.ok.inj (hrun₂'.symm.trans hrun₂)
    obtain ⟨index, counter, hindex, hscheme, -, -⟩ := hagrees₁.represents.read_pht hsized₁ b.pc
    obtain ⟨index', hindex', hlt'⟩ := hsized₁.getIndex_ok b.pc
    obtain rfl : index' = index := Except.ok.inj (hindex'.symm.trans hindex)
    have hget := List.getElem?_eq_getElem (hlt'.trans_eq (hlength₁.trans hlength₂.symm))
    have hmax := hagrees₂.represents.counters _ _ hget
    have hcode := hbound₂.represents.counters _ _ hget
    rw [List.map_append] at hmax hcode
    have hindexOf : scheme.index _ b.event.1 = index'.toNat := hscheme
    rw [hindexOf]
    exact hcode.symm.trans hmax
  · intro hbelow before hbefore
    obtain ⟨s', hs', -, -, hagrees⟩ := hrun before
    obtain ⟨hsame, hpredictions⟩ := Table.run_congr hlt.le hstart
      (Table.Unsaturated.of_append hbelow (hbefore.map Branch.event))
    refine ⟨s', hs', hsame ▸ hagrees.represents, ?_, hagrees.counts⟩
    rw [hagrees.predicted, hpredictions]

end

theorem initialPredictor_represents (ptype : PredictorType)
    (numEntries counterBits historyBits : BitVec 32) {start : ℕ}
    (hstart : (shl 1 (counterBits - 1).toNat).toNat = start) :
    Represents (initialPredictor ptype numEntries counterBits historyBits)
      ⟨initialPredictor ptype numEntries counterBits historyBits, fun _ ↦ start⟩ where
  history := rfl
  counters i x hx := by
    obtain rfl := List.eq_of_mem_replicate (List.mem_of_getElem? hx)
    exact hstart

/-- The code follows the documented counters if these have one or two bits, or if no branch is taken
whose counter stands at its maximum; else it does not. -/
theorem followsReference_iff {ptype : PredictorType}
    {numEntries counterBits historyBits : BitVec 32} (hentries : 1 ≤ numEntries.toInt)
    (hbits : 1 ≤ counterBits.toInt) (hbits' : counterBits.toInt ≤ 16)
    (hfits : Fits ptype numEntries counterBits historyBits) (trace : List Branch) :
    ∃ p stats, setupPredictor ptype numEntries counterBits historyBits {} = .ok (p, stats) ∧
      (FollowsReference counterBits.toNat ⟨p, stats, []⟩ trace ↔
        counterBits.toNat ≤ 2 ∨ StaysBelowMax counterBits.toNat p trace) := by
  refine ⟨_, _, setupPredictor_ok hentries hbits hfits {}, ?_⟩
  obtain ⟨-, hbitsInt⟩ := toNat_lt_of_toInt_nonneg (x := counterBits) (by omega)
  have hpos : 1 ≤ counterBits.toNat := by omega
  obtain ⟨hweak, hbound⟩ := updateBound_spec hpos (by omega)
  have hrun := run_agrees (s := ⟨initialPredictor ptype numEntries counterBits historyBits, _, []⟩)
    (initialPredictor_sized hentries hbits hfits)
    (initialPredictor_represents ptype numEntries counterBits historyBits hweak) rfl
    (⟨rfl, rfl, rfl, rfl⟩ : Counts { storageOverhead :=
      (sizes ptype numEntries counterBits historyBits).2 } [] [])
  have hsame : (initialPredictor ptype numEntries counterBits historyBits).ctrWeaklyTaken =
    shl 1 (counterBits - 1).toNat := rfl
  simp only [hsame, hweak] at hrun
  by_cases hsmall : counterBits.toNat ≤ 2
  · rw [if_pos hsmall] at hbound
    simp only [hsmall, true_or, iff_true]
    intro before _
    obtain ⟨s', hs', -, -, -, hagrees⟩ := hrun before
    exact ⟨s', hs', hbound ▸ hagrees⟩
  · rw [if_neg hsmall] at hbound
    simp only [hsmall, false_or]
    refine followsReference_iff_staysBelowMax hpos hbound fun before ↦ ?_
    obtain ⟨s', hs', hsized, hlength, -, hagrees⟩ := hrun before
    exact ⟨s', hs', hsized, hlength, hagrees⟩

/-- Three bits and one branch that is taken three times. -/
theorem followsReference_threeBits : ∃ p stats,
    setupPredictor .PTYPE_BIMODAL 1 3 1 {} = .ok (p, stats) ∧
      FollowsReference 3 ⟨p, stats, []⟩ (List.replicate 3 ⟨0x10, .TAKEN⟩) := by
  obtain ⟨p, stats, hsetup, hiff⟩ := @followsReference_iff .PTYPE_BIMODAL 1 3 1 (by decide)
    (by decide) (by decide) trivial (List.replicate 3 ⟨0x10, .TAKEN⟩)
  refine ⟨p, stats, hsetup, hiff.mpr (.inr ?_)⟩
  obtain ⟨rfl, -⟩ : _ = p ∧ _ = stats := Prod.mk.inj (Except.ok.inj hsetup)
  exact ⟨by decide, by decide, by decide, trivial⟩

/-- When it is taken once more, the code counts up to eight. -/
theorem not_followsReference_threeBits : ∃ p stats,
    setupPredictor .PTYPE_BIMODAL 1 3 1 {} = .ok (p, stats) ∧
      ¬ FollowsReference 3 ⟨p, stats, []⟩ (List.replicate 4 ⟨0x10, .TAKEN⟩) := by
  refine ⟨_, _, rfl, fun hfollows ↦ ?_⟩
  obtain ⟨s, hs, hagrees⟩ := hfollows _ List.prefix_rfl
  obtain rfl := Except.ok.inj hs
  exact absurd (hagrees.represents.counters 0 8 rfl) (by decide)

end ArchSim.BranchPredictor
