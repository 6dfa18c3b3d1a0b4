import ArchSim.Tomasulo.Termination
import Mathlib.Order.Interval.Finset.Nat

/-!
# One functional unit for each operation

A functional unit is pipelined: in every cycle it may start one instruction. So no two instructions
with the same operation have started in the same cycle, and from this it follows how many can be
started, cleared and executing at once.
-/

namespace ArchSim.Tomasulo

open Library

variable {n : ℕ} {cfg : Config}

/-- No two executing entries with the same operation have started in the same cycle. -/
def Scheduler.DistinctStarts (s : Scheduler n) : Prop :=
  ∀ slot slot' e e', s.table slot = some e → s.table slot' = some e' → e.startCycle ≠ 0 →
    e.op = e'.op → e.startCycle = e'.startCycle → slot = slot'

/-- Every valid entry is in the station of its operation. -/
def Scheduler.Placed (cfg : Config) (s : Scheduler n) : Prop :=
  ∀ slot e, s.table slot = some e → slot ∈ cfg.slots ∧ cfg.stationOf e.op = some slot.1

section Narrows

variable {s s' : Scheduler n}

theorem Scheduler.Placed.narrows (h : s.Placed cfg)
    (hnarrows : ∀ slot e, s'.table slot = some e → ∃ e₀, s.table slot = some e₀ ∧ e₀.Narrows e) :
    s'.Placed cfg := by
  intro slot e he
  obtain ⟨e₀, he₀, hnarrow⟩ := hnarrows slot e he
  rw [hnarrow.op]
  exact h slot e₀ he₀

theorem Scheduler.DistinctStarts.narrows (h : s.DistinctStarts)
    (hnarrows : ∀ slot e, s'.table slot = some e → ∃ e₀, s.table slot = some e₀ ∧ e₀.Narrows e) :
    s'.DistinctStarts := by
  intro slot slot' e e' he he' hstart hop heq
  obtain ⟨e₀, he₀, hnarrow⟩ := hnarrows slot e he
  obtain ⟨e₀', he₀', hnarrow'⟩ := hnarrows slot' e' he'
  rw [hnarrow.startCycle] at hstart heq
  rw [hnarrow'.startCycle] at heq
  rw [hnarrow.op, hnarrow'.op] at hop
  exact h slot slot' e₀ e₀' he₀ he₀' hstart hop heq

end Narrows

/-- The operation that a valid entry holds. -/
def Scheduler.opAt (s : Scheduler n) (slot : Slot) : OpType :=
  match s.table slot with
  | none => .OP_INVALID
  | some entry => entry.op

theorem opAt_of_some {s : Scheduler n} {slot : Slot} {e : RESTEntry n}
    (he : s.table slot = some e) : s.opAt slot = e.op := by
  rw [Scheduler.opAt, he]

/-- Entries of different operations are at most three. -/
theorem countP_le_three {s : Scheduler n} (hops : s.OpsValid) {p : Slot → Bool}
    (hp : ∀ slot, p slot = true → s.table slot ≠ none)
    (hinj : ∀ slot slot', p slot = true → p slot' = true → s.opAt slot = s.opAt slot' →
      slot = slot') : cfg.slots.countP p ≤ 3 := by
  have hcard := countP_le_card (p := p) (nodup_slots cfg)
    ({.OP_ADD, .OP_DIV, .OP_MEM} : Finset OpType) s.opAt (fun slot _ hslot ↦ ?_)
    fun slot _ slot' _ hslot hslot' ↦ hinj slot slot' hslot hslot'
  · exact hcard.trans Finset.card_le_three
  · obtain ⟨e, he⟩ := Option.ne_none_iff_exists'.mp (hp slot hslot)
    have hop := hops slot e he
    rw [opAt_of_some he]
    cases hcase : e.op <;> simp_all

/-! ## Completion -/

section Completion

variable {s s₀ : Scheduler n} {slot : Slot} {k : ℕ}

/-- The entry of a slot is due to be cleared in the cycle `c`. -/
def isDue (c : ℕ) (o : Option (RESTEntry n)) : Bool :=
  o.any fun e ↦ decide (e.startCycle ≠ 0 ∧ e.due = c)

theorem isDue_eq_true_iff {c : ℕ} {o : Option (RESTEntry n)} :
    isDue c o = true ↔ ∃ e, o = some e ∧ e.startCycle ≠ 0 ∧ e.due = c := by
  simp [isDue, Option.any_eq_true]

theorem isDue_updateSources (c ratIndex : ℕ) (o : Option (RESTEntry n)) :
    isDue c (o.map (·.updateSources ratIndex)) = isDue c o := by
  cases o <;> rfl

/-- What the loop of `complete_insts` has done so far: of the entries that were due it has cleared
`k`. -/
structure CompletingFrom (cfg : Config) (s₀ s : Scheduler n) (k : ℕ) : Prop where
  completing : Completing s₀ s
  narrows : ∀ slot e, s.table slot = some e → ∃ e₀, s₀.table slot = some e₀ ∧ e₀.Narrows e
  stats : s.stats = s₀.stats
  count : k + cfg.slots.countP (fun slot ↦ isDue s₀.currentCycle (s.table slot)) =
    cfg.slots.countP fun slot ↦ isDue s₀.currentCycle (s₀.table slot)

theorem CompletingFrom.completeEntry (h : CompletingFrom cfg s₀ s k) (hslot : slot ∈ cfg.slots) :
    Yields False (Scheduler.completeEntry cfg (s, k) slot) fun acc ↦
      CompletingFrom cfg s₀ acc.1 acc.2 := by
  rcases completeEntry_spec cfg h.completing.opsValid slot k with
    ⟨e, he, hstart, hdue, hspec⟩ | ⟨-, hspec⟩
  · rw [hspec]
    rw [h.completing.same.currentCycle] at hdue
    refine ⟨h.completing.cleared slot e, fun slot' e' he' ↦ ?_, h.stats, ?_⟩
    · by_cases hne : slot' = slot
      · subst hne
        cases table_cleared_self.symm.trans he'
      · rw [table_cleared_of_ne hne] at he'
        obtain ⟨e₁, he₁, rfl⟩ := Option.map_eq_some_iff.mp he'
        obtain ⟨e₀, he₀, hnarrows⟩ := h.narrows slot' e₁ he₁
        exact ⟨e₀, he₀, hnarrows.trans (.updateSources _ _)⟩
    · have hcount := countP_of_eq (p := fun slot' ↦ isDue s₀.currentCycle (s.table slot'))
        (q := fun slot' ↦ isDue s₀.currentCycle ((cleared cfg s slot e).table slot')) hslot
        (nodup_slots cfg) fun slot' _ hne ↦ by rw [table_cleared_of_ne hne, isDue_updateSources]
      have htrue : isDue s₀.currentCycle (s.table slot) = true :=
        isDue_eq_true_iff.mpr ⟨e, he, hstart, hdue⟩
      have hfalse : isDue s₀.currentCycle ((cleared cfg s slot e).table slot) = false := by
        rw [table_cleared_self]
        rfl
      simp only [htrue, hfalse, Bool.toNat_true, Bool.toNat_false] at hcount
      have hold := h.count
      change k + 1 + cfg.slots.countP (fun slot' ↦
        isDue s₀.currentCycle ((cleared cfg s slot e).table slot')) = _
      omega
  · rw [hspec]
    exact h

/-- What `scheduler_clear_completed` has done, and that it has cleared three entries at most. -/
theorem clearCompleted_pipelined (cfg : Config) (hops : s.OpsValid) (hdistinct : s.DistinctStarts) :
    ∃ s' k, s.clearCompleted cfg = .ok s' ∧ k ≤ 3 ∧ Completing s s' ∧
      (∀ slot e, s'.table slot = some e → ∃ e₀, s.table slot = some e₀ ∧ e₀.Narrows e) ∧
      s'.stats = { s.stats with maxCompleted := max s.stats.maxCompleted k } := by
  have hloop : Yields False (cfg.slots.foldlM (Scheduler.completeEntry cfg) (s, 0))
      fun acc : Scheduler n × ℕ ↦ CompletingFrom cfg s acc.1 acc.2 :=
    .foldlM (I := fun acc : Scheduler n × ℕ ↦ CompletingFrom cfg s acc.1 acc.2)
      (fun slot hslot acc hacc ↦ hacc.completeEntry hslot)
      ⟨⟨.refl s, hops⟩, fun slot e he ↦ ⟨e, he, .refl e⟩, rfl, Nat.zero_add _⟩
  obtain ⟨⟨s', k⟩, hs', hfrom⟩ := hloop.exists_of_not not_false
  refine ⟨{ s' with stats := { s'.stats with maxCompleted := max s'.stats.maxCompleted k } }, k, ?_,
    ?_, ⟨⟨hfrom.completing.same.numInsts, hfrom.completing.same.issueStall,
      hfrom.completing.same.currentCycle⟩, hfrom.completing.opsValid⟩, hfrom.narrows,
    by rw [hfrom.stats]⟩
  · simp only [Scheduler.clearCompleted, Scheduler.completeInsts, hs', bind, Except.bind]
    rfl
  · have hcount : cfg.slots.countP (fun slot ↦ isDue s.currentCycle (s.table slot)) ≤ 3 := by
      refine countP_le_three hops (fun slot hdue ↦ ?_) fun slot slot' hdue hdue' hop ↦ ?_
      · obtain ⟨e, he, -⟩ := isDue_eq_true_iff.mp hdue
        rw [he]
        exact Option.some_ne_none e
      · -- the same operation takes the same time
        obtain ⟨e, he, hstart, hcycle⟩ := isDue_eq_true_iff.mp hdue
        obtain ⟨e', he', -, hcycle'⟩ := isDue_eq_true_iff.mp hdue'
        rw [opAt_of_some he, opAt_of_some he'] at hop
        refine hdistinct slot slot' e e' he he' hstart hop ?_
        rw [← hcycle', RESTEntry.due, RESTEntry.due, hop] at hcycle
        exact Nat.add_right_cancel hcycle
    have hfinal := hfrom.count
    omega

end Completion

/-! ## Firing -/

section Firing

variable {s s₀ : Scheduler n} {f : Scheduler.Firing n} {slot : Slot} {station : Station}
  {visited : List Station}

/-- The body of `fire_ready` fires an entry if its flag is not raised yet. -/
theorem fireEntry_spec (f : Scheduler.Firing n) (slot : Slot) :
    Scheduler.fireEntry f slot = f ∨
      ∃ e, f.sched.table slot = some e ∧ e.startCycle = 0 ∧ f.fired e.op = false ∧
        Scheduler.fireEntry f slot = {
          sched := fired f.sched slot e
          fired := Function.update f.fired e.op true
          numFired := f.numFired + 1 } := by
  cases he : f.sched.table slot with
  | none =>
    left
    simp only [Scheduler.fireEntry, he]
  | some e =>
    by_cases hready : e.src1 = none ∧ e.src2 = none ∧ e.startCycle = 0 ∧ e.op ≠ .OP_INVALID ∧
      f.fired e.op = false
    · refine .inr ⟨e, rfl, hready.2.2.1, hready.2.2.2.2, ?_⟩
      simp only [Scheduler.fireEntry, he, if_pos hready, fired]
    · left
      simp only [Scheduler.fireEntry, he, if_neg hready]

/-- What the loops of `fire_ready` have done so far: the entries that have been fired are in the
stations that have been visited, or there is a flag for them. -/
structure PipeliningFrom (cfg : Config) (s₀ : Scheduler n) (visited : List Station)
    (current : Option Station) (f : Scheduler.Firing n) : Prop where
  currentCycle : f.sched.currentCycle = s₀.currentCycle
  stats : f.sched.stats = s₀.stats
  opsValid : f.sched.OpsValid
  placed : f.sched.Placed cfg
  distinct : f.sched.DistinctStarts
  flags : ∀ slot e, f.sched.table slot = some e → e.startCycle = s₀.currentCycle →
    slot.1 ∈ visited ∨ some slot.1 = current ∧ f.fired e.op = true
  count : f.numFired =
    cfg.slots.countP fun slot ↦ decide (f.sched.startCycle slot = s₀.currentCycle)

theorem table_fired_self {e : RESTEntry n} :
    (fired s slot e).table slot = some { e with startCycle := s.currentCycle } :=
  Function.update_self _ _ _

theorem table_fired_of_ne {slot' : Slot} {e : RESTEntry n} (h : slot' ≠ slot) :
    (fired s slot e).table slot' = s.table slot' := Function.update_of_ne h _ _

/-- The entries after an instruction has been fired. -/
theorem table_fired_cases {slot' : Slot} {e e' : RESTEntry n}
    (h : (fired s slot e).table slot' = some e') :
    slot' = slot ∧ e' = { e with startCycle := s.currentCycle } ∨
      slot' ≠ slot ∧ s.table slot' = some e' := by
  by_cases hne : slot' = slot
  · subst hne
    exact .inl ⟨rfl, (Option.some.inj (table_fired_self.symm.trans h)).symm⟩
  · exact .inr ⟨hne, (table_fired_of_ne hne).symm.trans h⟩

/-- An entry whose flag is not raised is the first of its operation. -/
theorem PipeliningFrom.ne_startCycle (h : PipeliningFrom cfg s₀ visited (some station) f)
    (hnot : station ∉ visited) (hstation : slot.1 = station) {e : RESTEntry n}
    (he : f.sched.table slot = some e) (hflag : f.fired e.op = false) {slot' : Slot}
    {e' : RESTEntry n} (he' : f.sched.table slot' = some e') (hop : e'.op = e.op) :
    e'.startCycle ≠ s₀.currentCycle := by
  intro hstart
  have hsame : slot'.1 = station := by
    have hplace := (h.placed slot' e' he').2
    rw [hop, (h.placed slot e he).2] at hplace
    rw [← hstation]
    exact (Option.some.inj hplace).symm
  rcases h.flags slot' e' he' hstart with hvisited | ⟨-, hraised⟩
  · exact hnot (hsame ▸ hvisited)
  · rw [hop, hflag] at hraised
    cases hraised

/-- One entry more starts in this cycle. -/
theorem countP_fired {e : RESTEntry n} (hslot : slot ∈ cfg.slots) (he : s.table slot = some e)
    (hstart : e.startCycle = 0) (hpos : 0 < s.currentCycle) :
    cfg.slots.countP (fun slot' ↦ decide ((fired s slot e).startCycle slot' = s.currentCycle)) =
      cfg.slots.countP (fun slot' ↦ decide (s.startCycle slot' = s.currentCycle)) + 1 := by
  have hcount := countP_of_eq
    (p := fun slot' ↦ decide (s.startCycle slot' = s.currentCycle))
    (q := fun slot' ↦ decide ((fired s slot e).startCycle slot' = s.currentCycle)) hslot
    (nodup_slots cfg) fun slot' _ hne ↦ by
      rw [Scheduler.startCycle, Scheduler.startCycle, table_fired_of_ne hne]
  have hfalse : decide (s.startCycle slot = s.currentCycle) = false := by
    rw [startCycle_of_some he, hstart]
    exact decide_eq_false hpos.ne
  have htrue : decide ((fired s slot e).startCycle slot = s.currentCycle) = true := by
    rw [startCycle_of_some table_fired_self]
    exact decide_eq_true rfl
  simp only [htrue, hfalse, Bool.toNat_true, Bool.toNat_false] at hcount
  omega

theorem PipeliningFrom.fireEntry (hpos : 0 < s₀.currentCycle)
    (h : PipeliningFrom cfg s₀ visited (some station) f) (hnot : station ∉ visited)
    (hstation : slot.1 = station) :
    PipeliningFrom cfg s₀ visited (some station) (Scheduler.fireEntry f slot) := by
  rcases fireEntry_spec f slot with hsame | ⟨e, he, hstart, hflag, hspec⟩
  · rw [hsame]
    exact h
  · have hfirst {slot' : Slot} {e' : RESTEntry n} (he' : f.sched.table slot' = some e')
        (hop : e'.op = e.op) := h.ne_startCycle hnot hstation he hflag he' hop
    have hslot := (h.placed slot e he).1
    rw [hspec]
    refine ⟨h.currentCycle, h.stats, fun slot' e' he' ↦ ?_, fun slot' e' he' ↦ ?_,
      fun slot₁ slot₂ e₁ e₂ he₁ he₂ hstart₁ hop heq ↦ ?_, fun slot' e' he' hcycle ↦ ?_, ?_⟩
    · rcases table_fired_cases he' with ⟨rfl, rfl⟩ | ⟨-, hold⟩
      · exact h.opsValid slot' e he
      · exact h.opsValid slot' e' hold
    · rcases table_fired_cases he' with ⟨rfl, rfl⟩ | ⟨-, hold⟩
      · exact h.placed slot' e he
      · exact h.placed slot' e' hold
    · rcases table_fired_cases he₁ with ⟨rfl, rfl⟩ | ⟨-, hold₁⟩ <;>
        rcases table_fired_cases he₂ with ⟨rfl, rfl⟩ | ⟨-, hold₂⟩
      · rfl
      · exact absurd (heq.symm.trans h.currentCycle) (hfirst hold₂ hop.symm)
      · exact absurd (heq.trans h.currentCycle) (hfirst hold₁ hop)
      · exact h.distinct slot₁ slot₂ e₁ e₂ hold₁ hold₂ hstart₁ hop heq
    · rcases table_fired_cases he' with ⟨rfl, rfl⟩ | ⟨-, hold⟩
      · exact .inr ⟨congrArg some hstation, Function.update_self _ _ _⟩
      · rcases h.flags slot' e' hold hcycle with hvisited | ⟨hcurrent, hraised⟩
        · exact .inl hvisited
        · refine .inr ⟨hcurrent, ?_⟩
          by_cases hop : e'.op = e.op
          · rw [hop]
            exact Function.update_self _ _ _
          · rw [← hraised]
            exact Function.update_of_ne hop _ _
    · change f.numFired + 1 = cfg.slots.countP fun slot' ↦
        decide ((fired f.sched slot e).startCycle slot' = s₀.currentCycle)
      rw [h.count, ← h.currentCycle]
      exact (countP_fired hslot he hstart (h.currentCycle ▸ hpos)).symm

/-- `fire_ready` in one station, which begins with its flags cleared. -/
theorem PipeliningFrom.fireReady (hpos : 0 < s₀.currentCycle)
    (h : PipeliningFrom cfg s₀ visited none f) (hnot : station ∉ visited) :
    PipeliningFrom cfg s₀ (visited ++ [station]) none (Scheduler.fireReady cfg f station) := by
  have hstart : PipeliningFrom cfg s₀ visited (some station) { f with fired := fun _ ↦ false } :=
    { h with
      flags := fun slot e he hcycle ↦ by
        rcases h.flags slot e he hcycle with hvisited | ⟨hnone, -⟩
        · exact .inl hvisited
        · cases hnone }
  have hscan : PipeliningFrom cfg s₀ visited (some station) (Scheduler.fireReady cfg f station) :=
    List.foldlRecOn (motive := PipeliningFrom cfg s₀ visited (some station)) (cfg.entries station) _
      hstart fun f' hf' slot hslot ↦ hf'.fireEntry hpos hnot (fst_of_mem_entries hslot)
  exact { hscan with
    flags := fun slot e he hcycle ↦ by
      left
      rw [List.mem_append, List.mem_singleton]
      rcases hscan.flags slot e he hcycle with hvisited | ⟨hcurrent, -⟩
      · exact .inl hvisited
      · exact .inr (Option.some.inj hcurrent) }

/-- All stations together. -/
theorem firing_pipelined (hpos : 0 < s.currentCycle) (hops : s.OpsValid) (hplaced : s.Placed cfg)
    (hdistinct : s.DistinctStarts) (hearlier : ∀ slot, s.startCycle slot < s.currentCycle) :
    PipeliningFrom cfg s cfg.stations none
      (cfg.stations.foldl (Scheduler.fireReady cfg) { sched := s }) := by
  refine foldl_visited (I := fun visited f ↦ PipeliningFrom cfg s visited none f)
    (fun before station after hsplit f hf ↦ hf.fireReady hpos ?_) ?_
  · have hnodup := nodup_stations cfg
    rw [hsplit, List.nodup_append] at hnodup
    exact fun hmem ↦ hnodup.2.2 station hmem station List.mem_cons_self rfl
  · refine ⟨rfl, rfl, hops, hplaced, hdistinct, fun slot e he hcycle ↦ ?_, ?_⟩
    · have hlt := hearlier slot
      rw [startCycle_of_some he] at hlt
      exact absurd hcycle hlt.ne
    · symm
      rw [List.countP_eq_zero]
      intro slot _ heq
      exact (hearlier slot).ne (of_decide_eq_true heq)

theorem PipeliningFrom.numFired_le (hpos : 0 < s₀.currentCycle)
    (h : PipeliningFrom cfg s₀ visited none f) : f.numFired ≤ 3 := by
  have hexists {slot : Slot} (hslot : f.sched.startCycle slot = s₀.currentCycle) :
      ∃ e, f.sched.table slot = some e ∧ e.startCycle = s₀.currentCycle := by
    cases he : f.sched.table slot with
    | none =>
      rw [Scheduler.startCycle, he] at hslot
      exact absurd hslot hpos.ne
    | some e => exact ⟨e, rfl, (startCycle_of_some he).symm.trans hslot⟩
  rw [h.count]
  refine countP_le_three h.opsValid (fun slot hslot ↦ ?_) fun slot slot' hslot hslot' hop ↦ ?_
  · obtain ⟨e, he, -⟩ := hexists (of_decide_eq_true hslot)
    rw [he]
    exact Option.some_ne_none e
  · obtain ⟨e, he, hstart⟩ := hexists (of_decide_eq_true hslot)
    obtain ⟨e', he', hstart'⟩ := hexists (of_decide_eq_true hslot')
    rw [opAt_of_some he, opAt_of_some he'] at hop
    exact h.distinct slot slot' e e' he he' (hstart ▸ hpos.ne') hop (hstart.trans hstart'.symm)

end Firing

/-! ## Executing -/

section Executing

variable {s : Scheduler n} {slot : Slot} {op : OpType} {latency : ℕ} {station : Station}

/-- In the per-unit layout every station has an operation of its own. -/
theorem op_eq_of_stationOf {addSize divSize memSize : ℕ} {op op' : OpType}
    (h : (Config.perFu addSize divSize memSize).stationOf op = some station)
    (h' : (Config.perFu addSize divSize memSize).stationOf op' = some station) : op = op' := by
  cases op <;> cases op' <;> cases h <;> first | rfl | cases h'

/-- What counts as active for an operation has this operation and is executing. -/
theorem exists_of_isActive (hplaced : s.Placed cfg) (h : s.isActive cfg op slot = true) :
    ∃ e, s.table slot = some e ∧ e.startCycle ≠ 0 ∧ e.op = op := by
  unfold Scheduler.isActive at h
  cases he : s.table slot with
  | none =>
    rw [he] at h
    cases h
  | some e =>
    rw [he, Bool.and_eq_true, decide_eq_true_eq] at h
    obtain ⟨hstart, hactive⟩ := h
    refine ⟨e, rfl, hstart.ne', ?_⟩
    cases cfg with
    | unified rsSize => exact of_decide_eq_true hactive
    | perFu addSize divSize memSize =>
      exact op_eq_of_stationOf (hplaced slot e he).2 (of_decide_eq_true hactive)

/-- Entries that have started in different cycles of the last `latency` ones. -/
theorem countActive_le (hplaced : s.Placed cfg) (hdistinct : s.DistinctStarts)
    (hexecuting : ∀ slot ∈ cfg.slots, ∀ e, s.table slot = some e → e.startCycle ≠ 0 →
      e.sources = [] ∧ e.startCycle ≤ s.currentCycle ∧ s.currentCycle < e.due)
    (hlatency : getInstLatency op = .ok latency) (hstation : cfg.stationOf op = some station) :
    s.countActive cfg op ≤ min latency (cfg.size station) := by
  have heq : op.latency = latency := by
    rw [OpType.latency, hlatency]
    rfl
  apply le_min
  · have hcard : (Finset.Ioc (s.currentCycle - latency) s.currentCycle).card ≤ latency := by
      rw [Nat.card_Ioc]
      omega
    refine (countP_le_card (nodup_slots cfg) _ s.startCycle (fun slot hslot hactive ↦ ?_)
      fun slot _ slot' _ hactive hactive' hsame ↦ ?_).trans hcard
    · obtain ⟨e, he, hstart, rfl⟩ := exists_of_isActive hplaced hactive
      obtain ⟨-, hle, hlt⟩ := hexecuting slot hslot e he hstart
      rw [startCycle_of_some he, Finset.mem_Ioc]
      rw [RESTEntry.due, heq] at hlt
      omega
    · obtain ⟨e, he, hstart, hop⟩ := exists_of_isActive hplaced hactive
      obtain ⟨e', he', -, hop'⟩ := exists_of_isActive hplaced hactive'
      rw [startCycle_of_some he, startCycle_of_some he'] at hsame
      exact hdistinct slot slot' e e' he he' hstart (hop.trans hop'.symm) hsame
  · have hcard : (cfg.entries station).toFinset.card = cfg.size station := by
      rw [List.toFinset_card_of_nodup (nodup_entries cfg station), Config.entries, List.length_map,
        List.length_range]
    refine (countP_le_card (nodup_slots cfg) _ id (fun slot hslot hactive ↦ ?_)
      fun _ _ _ _ _ _ hsame ↦ hsame).trans hcard.le
    obtain ⟨e, he, -, rfl⟩ := exists_of_isActive hplaced hactive
    have hsame := (hplaced slot e he).2.symm.trans hstation
    rw [id, List.mem_toFinset, ← Option.some.inj hsame]
    exact (mem_entries_of_mem_slots hslot).2

end Executing

/-! ## Steps -/

/-- What holds in every state: the entries, and the largest counts so far. -/
structure Pipelined (cfg : Config) (s : Scheduler n) : Prop where
  opsValid : s.OpsValid
  placed : s.Placed cfg
  distinct : s.DistinctStarts
  executing : ∀ slot ∈ cfg.slots, ∀ e, s.table slot = some e → e.startCycle ≠ 0 →
    e.sources = [] ∧ e.startCycle ≤ s.currentCycle ∧ s.currentCycle < e.due
  maxFired : s.stats.maxFired ≤ 3
  maxCompleted : s.stats.maxCompleted ≤ 3
  maxActive : ∀ op latency station, getInstLatency op = .ok latency →
    cfg.stationOf op = some station → s.stats.maxActive op ≤ min latency (cfg.size station)

theorem Pipelined.step {s : Scheduler n} (h : Pipelined cfg s) :
    ∃ s', s.step cfg = .ok s' ∧ Pipelined cfg s' := by
  obtain ⟨s', hs', hadvances⟩ := step_spec cfg h.opsValid
  refine ⟨s', hs', ?_⟩
  have hexecuting := executing_of_advances hadvances h.executing
  obtain ⟨s₁, k, hs₁, hk, hcompleting, hnarrows, hstats⟩ := clearCompleted_pipelined cfg
    (s := { s with currentCycle := s.currentCycle + 1 }) h.opsValid h.distinct
  have hcycle : s₁.currentCycle = s.currentCycle + 1 := hcompleting.same.currentCycle
  have hpos : 0 < s₁.currentCycle := by omega
  have hearlier (slot : Slot) : s₁.startCycle slot < s₁.currentCycle := by
    cases he : s₁.table slot with
    | none =>
      rw [Scheduler.startCycle, he]
      exact hpos
    | some e =>
      obtain ⟨e₀, he₀, hnarrow⟩ := hnarrows slot e he
      rw [startCycle_of_some he, hnarrow.startCycle, hcycle]
      by_cases hstart : e₀.startCycle = 0
      · omega
      · obtain ⟨-, hle, -⟩ := h.executing slot (h.placed slot e₀ he₀).1 e₀ he₀ hstart
        omega
  have hplaced₁ : s₁.Placed cfg := Scheduler.Placed.narrows h.placed hnarrows
  have hdistinct₁ : s₁.DistinctStarts := Scheduler.DistinctStarts.narrows h.distinct hnarrows
  have hfiring := firing_pipelined hpos hcompleting.opsValid hplaced₁ hdistinct₁ hearlier
  have hstep : s.step cfg = .ok (s₁.startReady cfg) := by
    simp only [Scheduler.step, hs₁, bind, Except.bind]
    rfl
  obtain rfl := Except.ok.inj (hs'.symm.trans hstep)
  refine ⟨hadvances.opsValid, hfiring.placed, hfiring.distinct, hexecuting, ?_, ?_,
    fun op latency station hlatency hstation ↦ ?_⟩
  · refine max_le ?_ (hfiring.numFired_le hpos)
    rw [hfiring.stats, hstats]
    exact h.maxFired
  · change (cfg.stations.foldl (Scheduler.fireReady cfg)
      { sched := s₁ }).sched.stats.maxCompleted ≤ 3
    rw [hfiring.stats, hstats]
    exact max_le h.maxCompleted hk
  · refine max_le ?_
      (countActive_le hfiring.placed hfiring.distinct hexecuting hlatency hstation)
    rw [hfiring.stats, hstats]
    exact h.maxActive op latency station hlatency hstation

/-- An instruction is issued to the station of its operation. -/
theorem stationOf_of_tryIssue (cfg : Config) (s : Scheduler n) {inst : Inst n}
    (hop : inst.op ≠ .OP_INVALID) :
    (s.tryIssue cfg inst).2 = stalled s ∨ ∃ slot ∈ cfg.slots, s.table slot = none ∧
      cfg.stationOf inst.op = some slot.1 ∧
      (s.tryIssue cfg inst).2 = issued cfg s slot inst := by
  obtain ⟨station, hstation, -⟩ := exists_stationOf cfg hop
  cases hfree : s.freeSlot cfg station with
  | none =>
    left
    simp only [Scheduler.tryIssue, hstation, Scheduler.addEntry, hfree, stalled]
  | some slot =>
    have hslot := List.mem_of_find?_eq_some hfree
    have hnone : (s.table slot).isNone = true :=
      List.find?_some (p := fun slot ↦ (s.table slot).isNone) hfree
    refine .inr ⟨slot, mem_slots_of_stationOf hstation hslot, Option.isNone_iff_eq_none.mp hnone,
      by rw [hstation, fst_of_mem_entries hslot], ?_⟩
    simp only [Scheduler.tryIssue, hstation, Scheduler.addEntry, hfree, issued]

theorem Pipelined.tryIssue {s : Scheduler n} (h : Pipelined cfg s) {inst : Inst n}
    (hop : inst.op ≠ .OP_INVALID) : Pipelined cfg (s.tryIssue cfg inst).2 := by
  rcases stationOf_of_tryIssue cfg s hop with hstalled | ⟨slot, hslot, hfree, hstation, hissued⟩
  · rw [hstalled]
    exact { h with }
  · rw [hissued]
    refine { h with
      opsValid := opsValid_issued h.opsValid hop
      placed := fun slot' e he ↦ ?_
      distinct := fun slot₁ slot₂ e₁ e₂ he₁ he₂ hstart hsame heq ↦ ?_
      executing := executing_issued h.executing }
    · by_cases hne : slot' = slot
      · subst hne
        obtain rfl := Option.some.inj (table_issued_self.symm.trans he)
        exact ⟨hslot, hstation⟩
      · exact h.placed slot' e ((table_issued_of_ne hne).symm.trans he)
    · -- the new entry has not started
      have hold {slot' : Slot} {e : RESTEntry n}
          (he : (issued cfg s slot inst).table slot' = some e) (hstart : e.startCycle ≠ 0) :
          s.table slot' = some e := by
        by_cases hne : slot' = slot
        · subst hne
          obtain rfl := Option.some.inj (table_issued_self.symm.trans he)
          exact absurd rfl hstart
        · exact (table_issued_of_ne hne).symm.trans he
      exact h.distinct slot₁ slot₂ e₁ e₂ (hold he₁ hstart) (hold he₂ (heq ▸ hstart)) hstart hsame
        heq

/-! ## Runs -/

theorem initial_pipelined (cfg : Config) : Pipelined cfg ({} : Scheduler n) := by
  have hfree (slot : Slot) (e : RESTEntry n) : ({} : Scheduler n).table slot ≠ some e :=
    (Option.some_ne_none e).symm
  constructor
  case opsValid => exact fun slot e he ↦ absurd he (hfree slot e)
  case placed => exact fun slot e he ↦ absurd he (hfree slot e)
  case distinct => exact fun slot _ e _ he ↦ absurd he (hfree slot e)
  case executing => exact fun slot _ e he ↦ absurd he (hfree slot e)
  case maxFired => exact Nat.zero_le 3
  case maxCompleted => exact Nat.zero_le 3
  case maxActive => exact fun _ _ _ _ _ ↦ Nat.zero_le _

theorem Driver.body_pipelined {d : Driver n} (h : Pipelined cfg d.sched)
    (htrace : Executable d.trace) :
    ∃ d', d.body cfg = .ok d' ∧ Pipelined cfg d'.sched ∧ Executable d'.trace := by
  unfold Driver.body
  cases hrest : d.trace with
  | nil =>
    obtain ⟨s', hs', hpipelined⟩ := h.step
    refine ⟨⟨s', []⟩, ?_, hpipelined, nofun⟩
    simp only [hs', bind, Except.bind]
    rfl
  | cons inst rest =>
    rw [hrest] at htrace
    obtain ⟨s', hs', hpipelined⟩ := (h.tryIssue (htrace inst List.mem_cons_self)).step
    refine ⟨⟨s', if (d.sched.tryIssue cfg inst).1 then rest else inst :: rest⟩, ?_, hpipelined, ?_⟩
    · simp only [hs', bind, Except.bind]
      rfl
    · change Executable (if (d.sched.tryIssue cfg inst).1 then rest else inst :: rest)
      split
      · exact fun inst' hinst' ↦ htrace inst' (List.mem_cons_of_mem _ hinst')
      · exact htrace

theorem Driver.after_pipelined {insts : List (Inst n)} (hops : Executable insts) {k : ℕ}
    {d : Driver n} (h : (Driver.loop cfg n).after k (.initial insts) = some d) :
    Pipelined cfg d.sched := by
  have hinv : Pipelined cfg d.sched ∧ Executable d.trace := by
    refine Loop.after_invariant (I := fun d ↦ Pipelined cfg d.sched ∧ Executable d.trace)
      ⟨initial_pipelined cfg, hops⟩ (fun d d' hd _ hbody ↦ ?_) h
    obtain ⟨d₁, hd₁, hpipelined⟩ := body_pipelined hd.1 hd.2
    obtain rfl : d₁ = d' := Except.ok.inj (hd₁.symm.trans hbody)
    exact hpipelined
  exact hinv.1

/-- An instruction with the operation `op` is fired in the iteration that ends with `d'`. -/
def Driver.Fires (d' : Driver n) (op : OpType) (slot : Slot) : Prop :=
  ∃ e, d'.sched.table slot = some e ∧ e.op = op ∧ e.startCycle = d'.sched.currentCycle

/-- An instruction with the operation `op` is cleared in the iteration from `d` to `d'`. -/
def Driver.Completes (d d' : Driver n) (op : OpType) (slot : Slot) : Prop :=
  ∃ e, d.sched.table slot = some e ∧ e.op = op ∧ d'.sched.table slot = none

/-- What the units do in a state and in the iteration after it. -/
structure OneUnitEach (cfg : Config) (insts : List (Inst n)) (k : ℕ) (d : Driver n) : Prop where
  distinct : d.sched.DistinctStarts
  fires : ∀ op slot slot', d.Fires op slot → d.Fires op slot' → slot = slot'
  completes : ∀ d', (Driver.loop cfg n).after (k + 1) (.initial insts) = some d' →
    ∀ op slot slot', d.Completes d' op slot → d.Completes d' op slot' → slot = slot'
  maxFired : d.sched.stats.maxFired ≤ 3
  maxCompleted : d.sched.stats.maxCompleted ≤ 3
  maxActive : ∀ op latency station, getInstLatency op = .ok latency →
    cfg.stationOf op = some station →
    d.sched.stats.maxActive op ≤ min latency (cfg.size station)

/-- In every state of every run, no functional unit has been used twice in one cycle. -/
theorem one_unit_each (cfg : Config) (insts : List (Inst n)) (hops : Executable insts) (k : ℕ)
    (d : Driver n) (h : (Driver.loop cfg n).after k (.initial insts) = some d) :
    OneUnitEach cfg insts k d := by
  have hpipelined := Driver.after_pipelined hops h
  have hruns := Driver.after_runs hops h
  refine ⟨hpipelined.distinct, ?_, fun d' hd' op slot slot' hslot hslot' ↦ ?_,
    hpipelined.maxFired, hpipelined.maxCompleted, hpipelined.maxActive⟩
  · rintro op slot slot' ⟨e, he, rfl, hstart⟩ ⟨e', he', hop, hstart'⟩
    have hpos : e.startCycle ≠ 0 := hstart ▸ hruns.1.cycle_pos.ne'
    exact hpipelined.distinct slot slot' e e' he he' hpos hop.symm (hstart.trans hstart'.symm)
  · obtain ⟨e, he, rfl, hnone⟩ := hslot
    obtain ⟨e', he', hop, hnone'⟩ := hslot'
    obtain ⟨d₁, hd₁, -, hmoves⟩ := Driver.exists_moves hops hd'
    obtain rfl := Option.some.inj (hd₁.symm.trans h)
    have hpasses := hmoves.passes (hpipelined.placed slot e he).1 he
    have hpasses' := hmoves.passes (hpipelined.placed slot' e' he').1 he'
    rw [hnone] at hpasses
    rw [hnone'] at hpasses'
    cases hpasses with
    | clears hstart hdue =>
    cases hpasses' with
    | clears hstart' hdue' =>
    -- what is due in the same cycle has started in the same cycle
    rw [← hdue', RESTEntry.due, RESTEntry.due, hop] at hdue
    exact hpipelined.distinct slot slot' e e' he he' hstart hop.symm (Nat.add_right_cancel hdue)

theorem one_unit_each_additionsAndLoad :
    ∃ d, (Driver.loop (.unified 3) 2).after 3 (.initial additionsAndLoad) = some d ∧
      OneUnitEach (.unified 3) additionsAndLoad 3 d :=
  ⟨_, rfl, one_unit_each _ _ (by decide) 3 _ rfl⟩

end ArchSim.Tomasulo
