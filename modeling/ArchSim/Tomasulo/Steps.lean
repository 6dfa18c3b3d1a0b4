import ArchSim.Tomasulo.Simulation

/-!
# What a step does to an entry

`scheduler_step` visits every entry of the stations in use twice. An entry that is not valid stays
so, one whose time has come is cleared, one whose sources are ready may be fired, and every other
entry keeps what it holds but for sources that become ready.
-/

namespace ArchSim.Tomasulo

open Library

variable {n : ℕ} {cfg : Config}

/-! ## Stations -/

theorem nodup_stations (cfg : Config) : cfg.stations.Nodup := by
  cases cfg <;> simp [Config.stations]

theorem nodup_entries (cfg : Config) (station : Station) : (cfg.entries station).Nodup :=
  List.nodup_range.map fun _ _ h ↦ (Prod.mk.inj h).2

theorem fst_of_mem_entries {slot : Slot} {station : Station} (h : slot ∈ cfg.entries station) :
    slot.1 = station := by
  obtain ⟨_, -, rfl⟩ := List.mem_map.mp h
  rfl

theorem nodup_slots (cfg : Config) : cfg.slots.Nodup := by
  refine List.nodup_flatMap.mpr ⟨fun station _ ↦ nodup_entries cfg station, ?_⟩
  apply (nodup_stations cfg).imp
  intro station station' hne slot hslot hslot'
  exact hne ((fst_of_mem_entries hslot).symm.trans (fst_of_mem_entries hslot'))

theorem mem_entries_of_mem_slots {slot : Slot} (h : slot ∈ cfg.slots) :
    slot.1 ∈ cfg.stations ∧ slot ∈ cfg.entries slot.1 := by
  obtain ⟨station, hstation, hslot⟩ := List.mem_flatMap.mp h
  obtain rfl := fst_of_mem_entries hslot
  exact ⟨hstation, hslot⟩

/-! ## Entries -/

/-- `get_inst_latency`, for the operations that have one. -/
def OpType.latency (op : OpType) : ℕ := (getInstLatency op).toOption.getD 0

theorem getInstLatency_eq {op : OpType} (h : op ≠ .OP_INVALID) :
    getInstLatency op = .ok op.latency := by
  cases op with
  | OP_INVALID => exact absurd rfl h
  | _ => rfl

theorem OpType.latency_pos {op : OpType} (h : op ≠ .OP_INVALID) : 0 < op.latency := by
  cases op with
  | OP_INVALID => exact absurd rfl h
  | _ => decide

theorem OpType.latency_le (op : OpType) : op.latency ≤ 20 := by
  cases op <;> decide

namespace RESTEntry

/-- The cycle in which a started instruction is cleared. -/
def due (e : RESTEntry n) : ℕ := e.startCycle + e.op.latency

/-- The entry `e'` is `e`, but for sources that have become ready. -/
structure Narrows (e e' : RESTEntry n) : Prop where
  op : e'.op = e.op
  dest : e'.dest = e.dest
  startCycle : e'.startCycle = e.startCycle
  src1 : e'.src1 = e.src1 ∨ e'.src1 = none
  src2 : e'.src2 = e.src2 ∨ e'.src2 = none

namespace Narrows

variable {e e' e'' : RESTEntry n}

theorem refl (e : RESTEntry n) : e.Narrows e := ⟨rfl, rfl, rfl, .inl rfl, .inl rfl⟩

theorem trans (h : e.Narrows e') (h' : e'.Narrows e'') : e.Narrows e'' where
  op := h'.op.trans h.op
  dest := h'.dest.trans h.dest
  startCycle := h'.startCycle.trans h.startCycle
  src1 := by
    cases h'.src1 with
    | inl heq => rw [heq]; exact h.src1
    | inr hnone => exact .inr hnone
  src2 := by
    cases h'.src2 with
    | inl heq => rw [heq]; exact h.src2
    | inr hnone => exact .inr hnone

theorem updateSources (e : RESTEntry n) (ratIndex : ℕ) : e.Narrows (e.updateSources ratIndex) where
  op := rfl
  dest := rfl
  startCycle := rfl
  src1 := by
    by_cases h : e.src1 = some ratIndex <;> simp [RESTEntry.updateSources, h]
  src2 := by
    by_cases h : e.src2 = some ratIndex <;> simp [RESTEntry.updateSources, h]

theorem due (h : e.Narrows e') : e'.due = e.due := by
  unfold RESTEntry.due
  rw [h.startCycle, h.op]

/-- Ready sources stay ready. -/
theorem sources_eq_nil (h : e.Narrows e') (hready : e.sources = []) : e'.sources = [] := by
  obtain ⟨h₁, h₂⟩ := ArchSim.Tomasulo.sources_eq_nil.mp hready
  have hsrc₁ := h.src1
  have hsrc₂ := h.src2
  rw [h₁, or_self] at hsrc₁
  rw [h₂, or_self] at hsrc₂
  exact ArchSim.Tomasulo.sources_eq_nil.mpr ⟨hsrc₁, hsrc₂⟩

/-- An entry whose sources are ready does not change. -/
theorem eq_of_ready (h : e.Narrows e') (hready : e.sources = []) : e' = e := by
  obtain ⟨h₁, h₂⟩ := ArchSim.Tomasulo.sources_eq_nil.mp hready
  obtain ⟨h₁', h₂'⟩ := ArchSim.Tomasulo.sources_eq_nil.mp (h.sources_eq_nil hready)
  obtain ⟨hop, hdest, hstart, -, -⟩ := h
  cases e
  cases e'
  simp_all

end Narrows

end RESTEntry

/-- What happens to a place in a table in the cycle `c`. -/
inductive Passes (c : ℕ) : Option (RESTEntry n) → Option (RESTEntry n) → Prop where
  | free : Passes c none none
  | clears {e : RESTEntry n} : e.startCycle ≠ 0 → e.due = c → Passes c (some e) none
  | keeps {e e' : RESTEntry n} : (e.startCycle ≠ 0 → e.due ≠ c) → e.Narrows e' →
      Passes c (some e) (some e')
  | fires {e e' : RESTEntry n} : e.startCycle = 0 → e.Narrows e' → e'.sources = [] →
      Passes c (some e) (some { e' with startCycle := c })

/-- Every valid entry has an operation that a functional unit executes. -/
def Scheduler.OpsValid (s : Scheduler n) : Prop :=
  ∀ slot e, s.table slot = some e → e.op ≠ .OP_INVALID

/-- The counts of `scheduler_try_issue` and the cycle are the same. -/
structure SameIssue (s s' : Scheduler n) : Prop where
  numInsts : s'.stats.numInsts = s.stats.numInsts
  issueStall : s'.stats.issueStall = s.stats.issueStall
  currentCycle : s'.currentCycle = s.currentCycle

theorem SameIssue.refl (s : Scheduler n) : SameIssue s s := ⟨rfl, rfl, rfl⟩

/-! ## Completion -/

section Completion

variable {s s₀ : Scheduler n} {slot slot' : Slot} {e : RESTEntry n} {k : ℕ}

theorem table_cleared_self : (cleared cfg s slot e).table slot = none := by
  simp [cleared, Scheduler.broadcastComplete]

theorem table_cleared_of_ne (h : slot' ≠ slot) : (cleared cfg s slot e).table slot' =
    (s.table slot').map (·.updateSources (cfg.ratIndex slot)) := by
  simp [cleared, Scheduler.broadcastComplete, h]

/-- The body of `complete_insts` clears an entry whose time has come, and no other. -/
theorem completeEntry_spec (cfg : Config) (hops : s.OpsValid) (slot : Slot) (k : ℕ) :
    (∃ e, s.table slot = some e ∧ e.startCycle ≠ 0 ∧ e.due = s.currentCycle ∧
      Scheduler.completeEntry cfg (s, k) slot = .ok (cleared cfg s slot e, k + 1)) ∨
    (∀ e, s.table slot = some e → e.startCycle ≠ 0 → e.due ≠ s.currentCycle) ∧
      Scheduler.completeEntry cfg (s, k) slot = .ok (s, k) := by
  cases he : s.table slot with
  | none =>
    refine .inr ⟨nofun, ?_⟩
    simp only [Scheduler.completeEntry, he]
  | some e =>
    by_cases hstart : e.startCycle = 0
    · refine .inr ⟨fun e' he' hstart' ↦ ?_, ?_⟩
      · obtain rfl := Option.some.inj he'
        exact absurd hstart hstart'
      · simp only [Scheduler.completeEntry, he, hstart, if_true]
    · simp only [Scheduler.completeEntry, he, hstart, if_false,
        getInstLatency_eq (hops slot e he), bind, Except.bind]
      by_cases hdue : s.currentCycle = e.startCycle + e.op.latency
      · exact .inl ⟨e, rfl, hstart, hdue.symm, if_pos hdue⟩
      · refine .inr ⟨fun e' he' _ hdue' ↦ ?_, if_neg hdue⟩
        obtain rfl := Option.some.inj he'
        exact hdue hdue'.symm

/-- What the loop of `complete_insts` has kept so far. -/
structure Completing (s₀ s : Scheduler n) : Prop where
  same : SameIssue s₀ s
  opsValid : s.OpsValid

theorem Completing.cleared (h : Completing s₀ s) (slot : Slot) (e : RESTEntry n) :
    Completing s₀ (cleared cfg s slot e) where
  same := ⟨h.same.numInsts, h.same.issueStall, h.same.currentCycle⟩
  opsValid := by
    intro slot' e' he'
    by_cases hne : slot' = slot
    · subst hne
      cases table_cleared_self.symm.trans he'
    · rw [table_cleared_of_ne hne] at he'
      obtain ⟨e₀, he₀, rfl⟩ := Option.map_eq_some_iff.mp he'
      exact h.opsValid slot' e₀ he₀

/-- An entry before the loop comes to it: its sources may have become ready. -/
def NarrowsTo (o o' : Option (RESTEntry n)) : Prop :=
  match o with
  | none => o' = none
  | some e => ∃ e', o' = some e' ∧ e.Narrows e'

theorem NarrowsTo.refl (o : Option (RESTEntry n)) : NarrowsTo o o := by
  cases o with
  | none => rfl
  | some e => exact ⟨e, rfl, .refl e⟩

theorem NarrowsTo.trans {o o' o'' : Option (RESTEntry n)} (h : NarrowsTo o o')
    (h' : NarrowsTo o' o'') : NarrowsTo o o'' := by
  cases o with
  | none =>
    obtain rfl : o' = none := h
    exact h'
  | some e =>
    obtain ⟨e', rfl, he'⟩ := h
    obtain ⟨e'', rfl, he''⟩ := h'
    exact ⟨e'', rfl, he'.trans he''⟩

/-- The other entries of the table keep what they hold but for their sources. -/
theorem completeEntry_others (hops : s.OpsValid) (hne : slot' ≠ slot) {s' : Scheduler n} {k' : ℕ}
    (h : Scheduler.completeEntry cfg (s, k) slot = .ok (s', k')) :
    NarrowsTo (s.table slot') (s'.table slot') := by
  rcases completeEntry_spec cfg hops slot k with ⟨e, -, -, -, hspec⟩ | ⟨-, hspec⟩
  · obtain ⟨rfl, -⟩ := Prod.mk.inj (Except.ok.inj (hspec.symm.trans h))
    rw [table_cleared_of_ne hne]
    cases s.table slot' with
    | none => rfl
    | some e' => exact ⟨_, rfl, .updateSources _ _⟩
  · obtain ⟨rfl, -⟩ := Prod.mk.inj (Except.ok.inj (hspec.symm.trans h))
    exact .refl _

theorem completeEntry_completing (cfg : Config) (h : Completing s₀ s) (slot : Slot) (k : ℕ) :
    ∃ s' k', Scheduler.completeEntry cfg (s, k) slot = .ok (s', k') ∧ Completing s₀ s' := by
  rcases completeEntry_spec cfg h.opsValid slot k with ⟨e, -, -, -, hspec⟩ | ⟨-, hspec⟩
  · exact ⟨_, _, hspec, h.cleared slot e⟩
  · exact ⟨_, _, hspec, h⟩

/-- What `scheduler_clear_completed` does to an entry. -/
def ClearsTo (c : ℕ) (o o' : Option (RESTEntry n)) : Prop :=
  o' = none ∧ (∃ e, o = some e ∧ e.startCycle ≠ 0 ∧ e.due = c) ∨
    NarrowsTo o o' ∧ ∀ e, o = some e → e.startCycle ≠ 0 → e.due ≠ c

/-- What has been done to an entry is not changed when only its sources are. -/
theorem ClearsTo.trans {c : ℕ} {o o' o'' : Option (RESTEntry n)} (h : ClearsTo c o o')
    (hnarrows : NarrowsTo o' o'') : ClearsTo c o o'' := by
  rcases h with ⟨rfl, hdue⟩ | ⟨hnarrows', hnotDue⟩
  · exact .inl ⟨hnarrows, hdue⟩
  · exact .inr ⟨hnarrows'.trans hnarrows, hnotDue⟩

/-- When the loop comes to an entry, it clears it if its time has come. -/
theorem completeEntry_clearsTo (cfg : Config) (h : Completing s₀ s)
    (hnarrows : NarrowsTo (s₀.table slot) (s.table slot)) (k : ℕ) :
    ∃ s' k', Scheduler.completeEntry cfg (s, k) slot = .ok (s', k') ∧ Completing s₀ s' ∧
      ClearsTo s₀.currentCycle (s₀.table slot) (s'.table slot) := by
  have hcycle : s.currentCycle = s₀.currentCycle := h.same.currentCycle
  rcases completeEntry_spec cfg h.opsValid slot k with
    ⟨e, he, hstart, hdue, hspec⟩ | ⟨hnotDue, hspec⟩
  · refine ⟨_, _, hspec, h.cleared slot e, .inl ⟨table_cleared_self, ?_⟩⟩
    cases ho : s₀.table slot with
    | none =>
      rw [ho] at hnarrows
      cases hnarrows.symm.trans he
    | some e₀ =>
      rw [ho] at hnarrows
      obtain ⟨e₁, he₁, hnarrow⟩ := hnarrows
      obtain rfl := Option.some.inj (he₁.symm.trans he)
      exact ⟨e₀, rfl, hnarrow.startCycle ▸ hstart, by rw [← hnarrow.due, hdue, hcycle]⟩
  · refine ⟨_, _, hspec, h, .inr ⟨hnarrows, fun e₀ he₀ hstart hdue ↦ ?_⟩⟩
    rw [he₀] at hnarrows
    obtain ⟨e₁, he₁, hnarrow⟩ := hnarrows
    apply hnotDue e₁ he₁ (by rw [hnarrow.startCycle]; exact hstart)
    rw [hnarrow.due, hdue, hcycle]

theorem clearCompleted_spec (cfg : Config) (hops : s.OpsValid) :
    ∃ s', s.clearCompleted cfg = .ok s' ∧ Completing s s' ∧
    ∀ slot ∈ cfg.slots, ClearsTo s.currentCycle (s.table slot) (s'.table slot) := by
  have hloop : Yields False (cfg.slots.foldlM (Scheduler.completeEntry cfg) (s, 0))
      fun acc : Scheduler n × ℕ ↦ Completing s acc.1 := by
    refine .foldlM (I := fun acc : Scheduler n × ℕ ↦ Completing s acc.1) (fun slot _ acc hacc ↦ ?_)
      ⟨.refl s, hops⟩
    obtain ⟨s', k', hs', hcompleting⟩ := completeEntry_completing cfg hacc slot acc.2
    rw [hs']
    exact hcompleting
  obtain ⟨⟨s', k⟩, hs', hcompleting⟩ := hloop.exists_of_not not_false
  refine ⟨{ s' with stats := { s'.stats with maxCompleted := max s'.stats.maxCompleted k } }, ?_,
    ⟨⟨hcompleting.same.numInsts, hcompleting.same.issueStall, hcompleting.same.currentCycle⟩,
      hcompleting.opsValid⟩, fun slot hslot ↦ ?_⟩
  · simp only [Scheduler.clearCompleted, Scheduler.completeInsts, hs', bind, Except.bind]
    rfl
  -- the loop follows one entry: before it comes to `slot`, there, and after it
  have hfollow : Yields False (cfg.slots.foldlM (Scheduler.completeEntry cfg) (s, 0))
      fun acc : Scheduler n × ℕ ↦ Completing s acc.1 ∧
        ClearsTo s.currentCycle (s.table slot) (acc.1.table slot) := by
    refine .foldlM_at (I := fun acc : Scheduler n × ℕ ↦ Completing s acc.1 ∧
      NarrowsTo (s.table slot) (acc.1.table slot)) hslot (nodup_slots cfg) ?before ?there ?after
      ⟨⟨.refl s, hops⟩, .refl _⟩
    case before =>
      rintro other - hne acc ⟨hacc, hnarrows⟩
      obtain ⟨s₁, k₁, hs₁, hcompleting₁⟩ := completeEntry_completing cfg hacc other acc.2
      rw [hs₁]
      exact ⟨hcompleting₁, hnarrows.trans (completeEntry_others hacc.opsValid hne.symm hs₁)⟩
    case there =>
      rintro acc ⟨hacc, hnarrows⟩
      obtain ⟨s₁, k₁, hs₁, hcompleting₁, hclears⟩ :=
        completeEntry_clearsTo cfg hacc hnarrows acc.2
      rw [hs₁]
      exact ⟨hcompleting₁, hclears⟩
    case after =>
      rintro other - hne acc ⟨hacc, hclears⟩
      obtain ⟨s₁, k₁, hs₁, hcompleting₁⟩ := completeEntry_completing cfg hacc other acc.2
      rw [hs₁]
      exact ⟨hcompleting₁, hclears.trans (completeEntry_others hacc.opsValid hne.symm hs₁)⟩
  exact (hfollow.of_ok hs').2

end Completion

/-! ## Firing -/

section Firing

variable {s s₀ : Scheduler n} {f : Scheduler.Firing n} {slot slot' : Slot} {e : RESTEntry n}

/-- What `scheduler_start_ready` does to an entry. -/
def FiresTo (c : ℕ) (o o' : Option (RESTEntry n)) : Prop :=
  o' = o ∨ ∃ e, o = some e ∧ e.sources = [] ∧ e.startCycle = 0 ∧
    o' = some { e with startCycle := c }

/-- An entry that can be fired. -/
def Scheduler.Ready (s : Scheduler n) (slot : Slot) : Prop :=
  ∃ e, s.table slot = some e ∧ e.sources = [] ∧ e.startCycle = 0

/-- The entry `slot` has been fired between `s₀` and `s`. -/
def Started (s₀ s : Scheduler n) (slot : Slot) : Prop :=
  ∃ e, s₀.table slot = some e ∧ e.startCycle = 0 ∧
    s.table slot = some { e with startCycle := s₀.currentCycle }

/-- What the loops of `fire_ready` have done so far. A flag is raised for an entry that has been
fired. -/
structure FiringFrom (cfg : Config) (s₀ : Scheduler n) (f : Scheduler.Firing n) : Prop where
  same : SameIssue s₀ f.sched
  table : ∀ slot, FiresTo s₀.currentCycle (s₀.table slot) (f.sched.table slot)
  flags : ∀ op, f.fired op = true → ∃ slot ∈ cfg.slots, Started s₀ f.sched slot

/-- An entry that has been fired is not fired again. -/
theorem Started.fireEntry (hpos : 0 < s₀.currentCycle) (h : Started s₀ f.sched slot') :
    Started s₀ (Scheduler.fireEntry f slot).sched slot' := by
  obtain ⟨e, he, hstart, he'⟩ := h
  refine ⟨e, he, hstart, ?_⟩
  rcases fireEntry_cases f slot with hsame | ⟨e₁, he₁, -, hstart₁, -, hfired⟩
  · rw [hsame]
    exact he'
  · rw [hfired]
    by_cases hne : slot' = slot
    · subst hne
      obtain rfl := Option.some.inj (he'.symm.trans he₁)
      exact absurd hstart₁ hpos.ne'
    · exact (Function.update_of_ne hne _ _).trans he'

/-- The body of `fire_ready` raises no flag but that of the entry it fires. -/
theorem fired_fireEntry {op : OpType} (h : (Scheduler.fireEntry f slot).fired op = true) :
    f.fired op = true ∨ ∃ e, f.sched.table slot = some e ∧ e.startCycle = 0 ∧
      (Scheduler.fireEntry f slot).sched = fired f.sched slot e := by
  cases he : f.sched.table slot with
  | none => simp only [Scheduler.fireEntry, he] at h; exact .inl h
  | some e =>
    by_cases hready : e.src1 = none ∧ e.src2 = none ∧ e.startCycle = 0 ∧ e.op ≠ .OP_INVALID ∧
      f.fired e.op = false
    · refine .inr ⟨e, rfl, hready.2.2.1, ?_⟩
      simp only [Scheduler.fireEntry, he, if_pos hready, fired]
    · simp only [Scheduler.fireEntry, he, if_neg hready] at h
      exact .inl h

theorem FiringFrom.fireEntry (hpos : 0 < s₀.currentCycle) (h : FiringFrom cfg s₀ f)
    (hslot : slot ∈ cfg.slots) : FiringFrom cfg s₀ (Scheduler.fireEntry f slot) := by
  refine ⟨?_, fun slot' ↦ ?_, fun op hop ↦ ?_⟩
  · rcases fireEntry_cases f slot with hsame | ⟨e, -, -, -, -, hfired⟩
    · rw [hsame]
      exact h.same
    · rw [hfired]
      exact ⟨h.same.numInsts, h.same.issueStall, h.same.currentCycle⟩
  · rcases fireEntry_cases f slot with hsame | ⟨e, he, hsources, hstart, -, hfired⟩
    · rw [hsame]
      exact h.table slot'
    · rw [hfired]
      by_cases hne : slot' = slot
      · subst hne
        rcases h.table slot' with hsame | ⟨e₀, -, -, -, he₀'⟩
        · refine .inr ⟨e, hsame.symm.trans he, hsources, hstart, ?_⟩
          rw [← h.same.currentCycle]
          exact Function.update_self _ _ _
        · obtain rfl := Option.some.inj (he₀'.symm.trans he)
          exact absurd hstart hpos.ne'
      · have hother : (fired f.sched slot e).table slot' = f.sched.table slot' :=
          Function.update_of_ne hne _ _
        rw [hother]
        exact h.table slot'
  · rcases fired_fireEntry hop with hold | ⟨e, he, hstart, hfired⟩
    · obtain ⟨slot', hslot', hstarted⟩ := h.flags op hold
      exact ⟨slot', hslot', hstarted.fireEntry hpos⟩
    · refine ⟨slot, hslot, ?_⟩
      rcases h.table slot with hsame | ⟨e₀, -, -, -, he₀'⟩
      · refine ⟨e, hsame.symm.trans he, hstart, ?_⟩
        rw [hfired, ← h.same.currentCycle]
        exact Function.update_self _ _ _
      · obtain rfl := Option.some.inj (he₀'.symm.trans he)
        exact absurd hstart hpos.ne'

/-- `fire_ready` begins with its flags cleared. -/
theorem FiringFrom.reset (h : FiringFrom cfg s₀ f) :
    FiringFrom cfg s₀ { f with fired := fun _ ↦ false } := ⟨h.same, h.table, nofun⟩

theorem FiringFrom.fireReady (hpos : 0 < s₀.currentCycle) (h : FiringFrom cfg s₀ f)
    {station : Station} (hstation : station ∈ cfg.stations) :
    FiringFrom cfg s₀ (Scheduler.fireReady cfg f station) := by
  refine List.foldlRecOn (motive := FiringFrom cfg s₀) (cfg.entries station) _ h.reset
    fun f' hf' slot hslot ↦ ?_
  exact hf'.fireEntry hpos (List.mem_flatMap.mpr ⟨station, hstation, hslot⟩)

/-- An entry is ready or some entry has been fired. -/
def ReadyOrFired (cfg : Config) (s₀ : Scheduler n) (slot : Slot) (s : Scheduler n) : Prop :=
  s.table slot = s₀.table slot ∨ ∃ slot' ∈ cfg.slots, Started s₀ s slot'

theorem ReadyOrFired.fireEntry (hpos : 0 < s₀.currentCycle)
    (h : ReadyOrFired cfg s₀ slot f.sched) (hne : slot' ≠ slot) :
    ReadyOrFired cfg s₀ slot (Scheduler.fireEntry f slot').sched := by
  rcases h with hsame | ⟨slot₁, hslot₁, hstarted⟩
  · refine .inl (Eq.trans ?_ hsame)
    rcases fireEntry_cases f slot' with hold | ⟨e, -, -, -, -, hfired⟩
    · rw [hold]
    · rw [hfired]
      exact Function.update_of_ne hne.symm _ _
  · exact .inr ⟨slot₁, hslot₁, hstarted.fireEntry hpos⟩

/-- At a ready entry the loop fires it, unless it has fired another one before. -/
theorem FiringFrom.fires (hpos : 0 < s₀.currentCycle) (hops : s₀.OpsValid)
    (h : FiringFrom cfg s₀ f) (hslot : slot ∈ cfg.slots) (hready : s₀.Ready slot)
    (hor : ReadyOrFired cfg s₀ slot f.sched) :
    ∃ slot' ∈ cfg.slots, Started s₀ (Scheduler.fireEntry f slot).sched slot' := by
  rcases hor with hsame | ⟨slot₁, hslot₁, hstarted⟩
  · obtain ⟨e, he, hsources, hstart⟩ := hready
    obtain ⟨hsrc₁, hsrc₂⟩ := sources_eq_nil.mp hsources
    cases hflag : f.fired e.op with
    | true =>
      obtain ⟨slot₁, hslot₁, hstarted⟩ := h.flags e.op hflag
      exact ⟨slot₁, hslot₁, hstarted.fireEntry hpos⟩
    | false =>
      refine ⟨slot, hslot, e, he, hstart, ?_⟩
      have hcan : e.src1 = none ∧ e.src2 = none ∧ e.startCycle = 0 ∧ e.op ≠ .OP_INVALID ∧
        f.fired e.op = false := ⟨hsrc₁, hsrc₂, hstart, hops slot e he, hflag⟩
      simp only [Scheduler.fireEntry, hsame, he, if_pos hcan, Function.update_self,
        h.same.currentCycle]
  · exact ⟨slot₁, hslot₁, hstarted.fireEntry hpos⟩

theorem startReady_spec (cfg : Config) (hpos : 0 < s.currentCycle) (hops : s.OpsValid) :
    SameIssue s (s.startReady cfg) ∧
    (∀ slot, FiresTo s.currentCycle (s.table slot) ((s.startReady cfg).table slot)) ∧
    ∀ slot ∈ cfg.slots, s.Ready slot →
      ∃ slot' ∈ cfg.slots, Started s (s.startReady cfg) slot' := by
  have hstart : FiringFrom cfg s ({ sched := s } : Scheduler.Firing n) :=
    ⟨.refl s, fun _ ↦ .inl rfl, nofun⟩
  have hall : FiringFrom cfg s (cfg.stations.foldl (Scheduler.fireReady cfg) { sched := s }) :=
    List.foldlRecOn (motive := FiringFrom cfg s) cfg.stations _ hstart
      fun f hf station hstation ↦ hf.fireReady hpos hstation
  refine ⟨⟨hall.same.numInsts, hall.same.issueStall, hall.same.currentCycle⟩, hall.table,
    fun slot hslot hready ↦ ?_⟩
  obtain ⟨hstation, hentry⟩ := mem_entries_of_mem_slots hslot
  let Before (f : Scheduler.Firing n) : Prop :=
    FiringFrom cfg s f ∧ ReadyOrFired cfg s slot f.sched
  let After (f : Scheduler.Firing n) : Prop :=
    FiringFrom cfg s f ∧ ∃ slot' ∈ cfg.slots, Started s f.sched slot'
  have hbefore (f : Scheduler.Firing n) (hf : Before f) (slot' : Slot) (hslot' : slot' ∈ cfg.slots)
      (hne : slot' ≠ slot) : Before (Scheduler.fireEntry f slot') :=
    ⟨hf.1.fireEntry hpos hslot', hf.2.fireEntry hpos hne⟩
  have hafter (f : Scheduler.Firing n) (hf : After f) (slot' : Slot) (hslot' : slot' ∈ cfg.slots) :
      After (Scheduler.fireEntry f slot') := by
    obtain ⟨hfiring, slot₁, hslot₁, hstarted⟩ := hf
    exact ⟨hfiring.fireEntry hpos hslot', slot₁, hslot₁, hstarted.fireEntry hpos⟩
  have hloop : After (cfg.stations.foldl (Scheduler.fireReady cfg) { sched := s }) := by
    refine foldl_at (I := Before) hstation (nodup_stations cfg) ?before ?there ?after
      ⟨hstart, .inl rfl⟩
    case before =>
      intro station hmem hne f hf
      refine List.foldlRecOn (motive := Before) (cfg.entries station) _ ⟨hf.1.reset, hf.2⟩
        fun f' hf' slot' hslot' ↦ ?_
      apply hbefore f' hf' slot' (List.mem_flatMap.mpr ⟨station, hmem, hslot'⟩)
      rintro rfl
      exact hne (fst_of_mem_entries hslot').symm
    case there =>
      intro f hf
      have hmem {slot' : Slot} (hslot' : slot' ∈ cfg.entries slot.1) : slot' ∈ cfg.slots :=
        List.mem_flatMap.mpr ⟨slot.1, hstation, hslot'⟩
      refine foldl_at (I := Before) hentry (nodup_entries cfg slot.1)
        (fun slot' hslot' hne f' hf' ↦ hbefore f' hf' slot' (hmem hslot') hne) (fun f' hf' ↦ ?_)
        (fun slot' hslot' _ f' hf' ↦ hafter f' hf' slot' (hmem hslot')) ⟨hf.1.reset, hf.2⟩
      exact ⟨hf'.1.fireEntry hpos hslot, hf'.1.fires hpos hops hslot hready hf'.2⟩
    case after =>
      intro station hmem _ f hf
      refine List.foldlRecOn (motive := After) (cfg.entries station) _ ⟨hf.1.reset, hf.2⟩
        fun f' hf' slot' hslot' ↦ ?_
      exact hafter f' hf' slot' (List.mem_flatMap.mpr ⟨station, hmem, hslot'⟩)
  exact hloop.2

end Firing

/-! ## A whole step -/

/-- What `scheduler_step` makes of `s`. -/
structure Advances (cfg : Config) (s s' : Scheduler n) : Prop where
  numInsts : s'.stats.numInsts = s.stats.numInsts
  issueStall : s'.stats.issueStall = s.stats.issueStall
  currentCycle : s'.currentCycle = s.currentCycle + 1
  opsValid : s'.OpsValid
  passes : ∀ slot ∈ cfg.slots, Passes (s.currentCycle + 1) (s.table slot) (s'.table slot)
  /-- If an entry is ready, one is fired. -/
  fires : ∀ slot ∈ cfg.slots, s.Ready slot → ∃ slot' ∈ cfg.slots, ∃ e e',
    s.table slot' = some e ∧ e.startCycle = 0 ∧ s'.table slot' = some e' ∧ e'.startCycle ≠ 0

theorem passes_of_clearsTo {c : ℕ} {o o₁ o' : Option (RESTEntry n)} (hclears : ClearsTo c o o₁)
    (hfires : FiresTo c o₁ o') : Passes c o o' := by
  rcases hclears with ⟨rfl, e, rfl, hstart, hdue⟩ | ⟨hnarrows, hnotDue⟩
  · rcases hfires with rfl | ⟨e', he', -⟩
    · exact .clears hstart hdue
    · cases he'
  · cases o with
    | none =>
      obtain rfl : o₁ = none := hnarrows
      rcases hfires with rfl | ⟨e', he', -⟩
      · exact .free
      · cases he'
    | some e =>
      obtain ⟨e₁, rfl, hnarrow⟩ := hnarrows
      rcases hfires with rfl | ⟨e', he', hsources, hstart, rfl⟩
      · exact .keeps (hnotDue e rfl) hnarrow
      · obtain rfl := Option.some.inj he'
        exact .fires (hnarrow.startCycle ▸ hstart) hnarrow hsources

theorem step_spec (cfg : Config) {s : Scheduler n} (hops : s.OpsValid) :
    ∃ s', s.step cfg = .ok s' ∧ Advances cfg s s' := by
  obtain ⟨s₁, hs₁, ⟨hsame₁, hops₁⟩, hclears⟩ := clearCompleted_spec cfg
    (s := { s with currentCycle := s.currentCycle + 1 }) hops
  have hcycle : s₁.currentCycle = s.currentCycle + 1 := hsame₁.currentCycle
  have hpos : 0 < s₁.currentCycle := by omega
  obtain ⟨hsame₂, hfires, hready⟩ := startReady_spec cfg hpos hops₁
  refine ⟨s₁.startReady cfg, ?_, ?_⟩
  · simp only [Scheduler.step, hs₁, bind, Except.bind]
    rfl
  · refine ⟨hsame₂.numInsts.trans hsame₁.numInsts, hsame₂.issueStall.trans hsame₁.issueStall,
      hsame₂.currentCycle.trans hcycle, fun slot e he ↦ ?_, fun slot hslot ↦ ?_,
      fun slot hslot hslotReady ↦ ?_⟩
    · rcases hfires slot with hsame | ⟨e₁, he₁, -, -, he'⟩
      · exact hops₁ slot e (hsame.symm.trans he)
      · obtain rfl := Option.some.inj (he'.symm.trans he)
        exact hops₁ slot e₁ he₁
    · have hfiresTo := hfires slot
      rw [hcycle] at hfiresTo
      exact passes_of_clearsTo (hclears slot hslot) hfiresTo
    · obtain ⟨e, he, hsources, hstart⟩ := hslotReady
      have hready₁ : s₁.Ready slot := by
        rcases hclears slot hslot with ⟨-, e', he', hstart', -⟩ | ⟨hnarrows, -⟩
        · obtain rfl := Option.some.inj (he.symm.trans he')
          exact absurd hstart hstart'
        · rw [he] at hnarrows
          obtain ⟨e', he', hnarrow⟩ := hnarrows
          exact ⟨e', he', hnarrow.sources_eq_nil hsources, hnarrow.startCycle.trans hstart⟩
      obtain ⟨slot', hslot', e₁, he₁, hstart₁, hfired⟩ := hready slot hslot hready₁
      rcases hclears slot' hslot' with ⟨hnone, -⟩ | ⟨hnarrows, -⟩
      · cases hnone.symm.trans he₁
      · cases he' : s.table slot' with
        | none =>
          rw [he'] at hnarrows
          cases hnarrows.symm.trans he₁
        | some e' =>
          rw [he'] at hnarrows
          obtain ⟨e₁', he₁', hnarrow⟩ := hnarrows
          obtain rfl := Option.some.inj (he₁'.symm.trans he₁)
          exact ⟨slot', hslot', e', _, he', hnarrow.startCycle ▸ hstart₁, hfired, hpos.ne'⟩

end ArchSim.Tomasulo
