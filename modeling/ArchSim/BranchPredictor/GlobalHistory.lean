import ArchSim.BranchPredictor.Histories

/-!
# The global history

The index of gshare is the exclusive or of an address and the global history, both under the mask of
the table. It thus depends on as many outcomes as the table has index bits, whatever the length of
history that has been asked for.
-/

namespace ArchSim.BranchPredictor

open Library ShiftRegister

variable {numEntries counterBits historyBits : BitVec 32} {m : ℕ}

def outcomes (trace : List Branch) : List Bool := trace.map fun b ↦ b.actual.isTaken

/-- After two traces with the same last `historyBits` outcomes, every branch has the same index. -/
def DependsOnHistoryBits (numEntries counterBits historyBits : BitVec 32) : Prop :=
  ∀ stats p stats',
    setupPredictor .PTYPE_GSHARE numEntries counterBits historyBits stats = .ok (p, stats') →
    ∀ trace trace' s s', Simulation.run ⟨p, stats', []⟩ trace = .ok s →
      Simulation.run ⟨p, stats', []⟩ trace' = .ok s' →
      lastBits historyBits.toNat (outcomes trace) = lastBits historyBits.toNat (outcomes trace') →
      ∀ pc, getIndex s.predictor pc = getIndex s'.predictor pc

/-- A table of `2 ^ m` entries. -/
theorem toNat_eq_two_pow (hentries : numEntries.toInt = 2 ^ m) :
    numEntries.toNat = 2 ^ m ∧ m < 31 := by
  have hpos : (0 : ℤ) < 2 ^ m := by positivity
  obtain ⟨hlt, hint⟩ := toNat_lt_of_toInt_nonneg (x := numEntries) (by omega)
  have heq : numEntries.toNat = 2 ^ m := by
    have hcast : (numEntries.toNat : ℤ) = (2 ^ m : ℕ) := by
      rw [← hint, hentries]
      norm_num
    exact_mod_cast hcast
  exact ⟨heq, (Nat.pow_lt_pow_iff_right (by decide)).mp (heq ▸ hlt)⟩

/-- The index is determined by the last `m` outcomes, and it is these for the address zero. -/
theorem Records.getIndex_gshare {p : Predictor} {trace : List Branch}
    (h : Records (initialPredictor .PTYPE_GSHARE numEntries counterBits historyBits) trace p)
    (hentries : numEntries.toInt = 2 ^ m) (pc : BitVec 64) :
    getIndex p pc = .ok ((pc &&& p.indexMask) ^^^ (p.ghr &&& p.indexMask)) ∧
      (p.ghr &&& p.indexMask).toNat = lastBits m (outcomes trace) := by
  obtain ⟨heq, hm⟩ := toNat_eq_two_pow hentries
  have htype : p.predType = .PTYPE_GSHARE := h.predType
  have hmask : p.indexMask.toNat = 2 ^ m - 1 := by
    rw [h.indexMask]
    change (numEntries.signExtend 64 - 1).toNat = _
    rw [toNat_mask (heq ▸ Nat.one_le_two_pow) (heq ▸ Nat.pow_lt_pow_right (by decide) hm), heq]
  refine ⟨?_, h.ghr.toNat_and (by omega) hmask⟩
  simp only [getIndex, htype]

/-- As the number of entries divides the modulus, the array of counters has an entry for every index
as soon as it is not empty. -/
theorem allocates_gshare_of_pos (hentries : numEntries.toInt = 2 ^ m)
    (hpos : 0 < (numEntries * counterBits).toInt) :
    Allocates .PTYPE_GSHARE numEntries counterBits historyBits := by
  obtain ⟨heq, hm⟩ := toNat_eq_two_pow hentries
  obtain ⟨hlt, hint⟩ := toNat_lt_of_toInt_nonneg (x := numEntries * counterBits) (by omega)
  have hdvd : 2 ^ m ∣ (numEntries * counterBits).toNat := by
    rw [BitVec.toNat_mul, heq, Nat.dvd_mod_iff (Nat.pow_dvd_pow 2 (by omega))]
    exact Nat.dvd_mul_right _ _
  have hle : 2 ^ m ≤ (numEntries * counterBits).toNat := Nat.le_of_dvd (by omega) hdvd
  refine ⟨hlt, ?_⟩
  change (numEntries.signExtend 64 - 1).toNat < (numEntries * counterBits).toNat
  have hone : 1 ≤ 2 ^ m := Nat.one_le_two_pow
  rw [toNat_mask (heq ▸ hone) (heq ▸ Nat.pow_lt_pow_right (by decide) hm), heq]
  omega

/-- Without counters no branch can be predicted. -/
theorem eq_nil_of_run {s s' : Simulation} {trace : List Branch} (hpht : s.predictor.pht = [])
    (hrun : s.run trace = .ok s') : trace = [] := by
  cases trace with
  | nil => rfl
  | cons b trace =>
    have hread (index : BitVec 64) : read s.predictor.pht index = .error .outOfBounds := by
      rw [read, hpht]
      rfl
    have hbind : s.run (b :: trace) = s.step b >>= fun s₁ ↦ s₁.run trace := List.foldlM_cons
    rw [hbind, Simulation.step, predictBranch] at hrun
    cases hindex : getIndex s.predictor b.pc with
    | error e => rw [hindex] at hrun; cases hrun
    | ok index =>
      simp only [hindex, hread, bind, Except.bind] at hrun
      cases hrun

/-- The indices are the same if and only if the last `m` outcomes are. -/
theorem Records.getIndex_eq_iff {p p' : Predictor} {trace trace' : List Branch}
    (h : Records (initialPredictor .PTYPE_GSHARE numEntries counterBits historyBits) trace p)
    (h' : Records (initialPredictor .PTYPE_GSHARE numEntries counterBits historyBits) trace' p')
    (hentries : numEntries.toInt = 2 ^ m) (pc : BitVec 64) :
    getIndex p pc = getIndex p' pc ↔
      lastBits m (outcomes trace) = lastBits m (outcomes trace') := by
  obtain ⟨hindex, hghr⟩ := h.getIndex_gshare hentries pc
  obtain ⟨hindex', hghr'⟩ := h'.getIndex_gshare hentries pc
  have hmask : p'.indexMask = p.indexMask := h'.indexMask.trans h.indexMask.symm
  rw [hmask] at hindex' hghr'
  rw [hindex, hindex', Except.ok.injEq, BitVec.xor_right_inj, ← hghr, ← hghr', BitVec.toNat_inj]

/-- Traces that differ in the outcome before the last `historyBits` ones. -/
theorem le_of_dependsOnHistoryBits (hentries : numEntries.toInt = 2 ^ m)
    (hallocates : Allocates .PTYPE_GSHARE numEntries counterBits historyBits)
    (h : DependsOnHistoryBits numEntries counterBits historyBits) : m ≤ historyBits.toNat := by
  by_contra hlt
  have hone : 1 ≤ numEntries.toInt := by
    rw [hentries]
    exact one_le_pow₀ (by norm_num)
  let trace (d : BranchDir) : List Branch :=
    [⟨0, d⟩] ++ List.replicate historyBits.toNat ⟨0, .NOT_TAKEN⟩
  have houtcomes (d : BranchDir) :
      outcomes (trace d) = [d.isTaken] ++ List.replicate historyBits.toNat false := by
    simp [outcomes, trace, BranchDir.isTaken]
  have hlength : (List.replicate historyBits.toNat false).length = historyBits.toNat :=
    List.length_replicate
  have hsized := hallocates.sized hone
  have hsetup := hallocates.setupPredictor_ok hone {}
  obtain ⟨s, hs, -⟩ := run_ok (s := ⟨_, _, []⟩) hsized (trace .TAKEN)
  obtain ⟨s', hs', -⟩ := run_ok (s := ⟨_, _, []⟩) hsized (trace .NOT_TAKEN)
  have hlast : lastBits historyBits.toNat (outcomes (trace .TAKEN)) =
      lastBits historyBits.toNat (outcomes (trace .NOT_TAKEN)) := by
    rw [lastBits_eq_iff, houtcomes, houtcomes]
    intro k hk
    rw [recent_append_of_lt _ (hlength.symm ▸ hk), recent_append_of_lt _ (hlength.symm ▸ hk)]
  have hindex := h {} _ _ hsetup _ _ s s' hs hs' hlast 0
  have hrecords := run_records (initialPredictor_records hone) hs
  have hrecords' := run_records (initialPredictor_records hone) hs'
  rw [hrecords.getIndex_eq_iff hrecords' hentries] at hindex
  have hbit := lastBits_eq_iff.mp hindex historyBits.toNat (by omega)
  rw [houtcomes, houtcomes, recent_append_of_le _ hlength.le, recent_append_of_le _ hlength.le,
    hlength, Nat.sub_self] at hbit
  cases hbit

/-- The index depends on the last `historyBits` outcomes only if the table has no more index bits,
or if the product of the sizes leaves no counters. -/
theorem dependsOnHistoryBits_iff (hentries : numEntries.toInt = 2 ^ m)
    (hhistory : 0 ≤ historyBits.toInt) :
    DependsOnHistoryBits numEntries counterBits historyBits ↔
      numEntries.toInt ≤ 2 ^ historyBits.toInt.toNat ∨ (numEntries * counterBits).toInt ≤ 0 := by
  obtain ⟨-, hint⟩ := toNat_lt_of_toInt_nonneg hhistory
  have hone : 1 ≤ numEntries.toInt := by
    rw [hentries]
    exact one_le_pow₀ (by norm_num)
  have hcond : numEntries.toInt ≤ 2 ^ historyBits.toInt.toNat ↔ m ≤ historyBits.toNat := by
    rw [hentries, hint, Int.toNat_natCast]
    exact pow_le_pow_iff_right₀ (by norm_num)
  rw [hcond]
  constructor
  · intro hdepends
    by_cases hprod : (numEntries * counterBits).toInt ≤ 0
    · exact .inr hprod
    · have hallocates : Allocates .PTYPE_GSHARE numEntries counterBits historyBits :=
        allocates_gshare_of_pos hentries (not_le.mp hprod)
      exact .inl (le_of_dependsOnHistoryBits hentries hallocates hdepends)
  · rintro hor stats p stats' hsetup trace trace' s s' hrun hrun' hlast pc
    obtain ⟨rfl, -⟩ := Prod.mk.inj (eq_of_setupPredictor hsetup)
    cases hor with
    | inl hm =>
      have hrecords := run_records (s := ⟨_, stats', []⟩) (initialPredictor_records hone) hrun
      have hrecords' := run_records (s := ⟨_, stats', []⟩) (initialPredictor_records hone) hrun'
      rw [hrecords.getIndex_eq_iff hrecords' hentries]
      rw [lastBits_eq_iff] at hlast ⊢
      exact fun k hk ↦ hlast k (by omega)
    | inr hprod =>
      have hnonneg : 0 ≤ (numEntries * counterBits).toInt := nonneg_of_setupPredictor hsetup
      obtain ⟨-, hprodInt⟩ := toNat_lt_of_toInt_nonneg hnonneg
      have hpht : (initialPredictor .PTYPE_GSHARE numEntries counterBits historyBits).pht = [] := by
        apply List.eq_nil_of_length_eq_zero
        change (List.replicate (numEntries * counterBits).toNat _).length = 0
        rw [List.length_replicate]
        omega
      -- no branch has been simulated
      obtain rfl := eq_nil_of_run (s := ⟨_, stats', []⟩) hpht hrun
      obtain rfl := eq_nil_of_run (s := ⟨_, stats', []⟩) hpht hrun'
      rw [Except.ok.inj (hrun.symm.trans hrun')]

/-- Four entries and two bits of history. -/
theorem dependsOnHistoryBits_fourEntries : DependsOnHistoryBits 4 2 2 :=
  (dependsOnHistoryBits_iff (m := 2) rfl (by decide)).mpr (.inl (by decide))

/-- With one bit of history, the outcome before the last one still selects the counter. -/
theorem not_dependsOnHistoryBits_oneBit : ¬ DependsOnHistoryBits 4 2 1 := by
  intro hdepends
  have hindex := hdepends {} _ _ rfl [⟨0, .TAKEN⟩, ⟨0, .NOT_TAKEN⟩]
    [⟨0, .NOT_TAKEN⟩, ⟨0, .NOT_TAKEN⟩] _ _ rfl rfl (by decide) 0
  exact absurd hindex (by decide)

end ArchSim.BranchPredictor
