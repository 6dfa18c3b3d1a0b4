import ArchSim.Tomasulo.RunTime
import ArchSim.Tomasulo.TrueDependence

/-!
# When dependences are respected

An alias is lost when two instructions in flight write the same register. If no instruction is
issued while another one in flight has its destination, then each entry in flight is the alias of
its destination, and every instruction waits for its writers. In particular this is so when no
register is written twice; then the latencies along every chain of dependences add up, and a run is
no shorter.
-/

namespace ArchSim.Tomasulo

open Library Renaming

variable {n : ℕ} {cfg : Config}

/-- The instruction that is about to be issued, if there is room for it, writes a register that no
instruction in flight writes. -/
abbrev Tracked.WritesFresh (cfg : Config) (t : Tracked n) : Prop :=
  ∀ inst ∈ t.driver.trace.head?, t.driver.sched.hasRoom cfg inst →
    ∀ slot ∈ cfg.slots, ∀ e ∈ t.driver.sched.table slot, e.dest ≠ inst.dest

/-- Every valid entry is the alias of its destination. -/
structure Renamed (cfg : Config) (s : Scheduler n) : Prop where
  distinct : ∀ slot slot' e e', s.table slot = some e → s.table slot' = some e' →
    e.dest = e'.dest → slot = slot'
  aliases : ∀ slot e, s.table slot = some e → s.rat e.dest = some (cfg.ratIndex slot)

/-- The history says when the instructions have started, and each has been cleared when its latency
had passed. -/
structure Timed (insts : List (Inst n)) (s : Scheduler n) (h : History) : Prop where
  opsValid : s.OpsValid
  occupant : ∀ slot e, s.table slot = some e →
    ∃ inst, insts[h.occupant slot]? = some inst ∧ e.op = inst.op
  started : ∀ slot e, s.table slot = some e → e.startCycle ≠ 0 →
    h.started (h.occupant slot) = some e.startCycle
  started_gt : ∀ j start, h.started j = some start → 1 < start
  completed : ∀ j c, h.completed j = some c → ∃ inst start, insts[j]? = some inst ∧
    h.started j = some start ∧ c = start + inst.op.latency

/-! ## Completion -/

section Completion

variable {s : Scheduler n} {h : History} {slot : Slot} {e : RESTEntry n} {insts : List (Inst n)}

/-- The entries after one has been cleared. -/
theorem table_cleared_cases {slot' : Slot} {e' : RESTEntry n}
    (he' : (cleared cfg s slot e).table slot' = some e') :
    slot' ≠ slot ∧ ∃ e₀, s.table slot' = some e₀ ∧ e' = e₀.updateSources (cfg.ratIndex slot) := by
  by_cases hne : slot' = slot
  · subst hne
    cases table_cleared_self.symm.trans he'
  · rw [table_cleared_of_ne hne] at he'
    obtain ⟨e₀, he₀, rfl⟩ := Option.map_eq_some_iff.mp he'
    exact ⟨hne, e₀, he₀, rfl⟩

/-- The entry that is cleared takes away no alias but its own. -/
theorem Renamed.cleared (hr : Renamed cfg s) (he : s.table slot = some e) :
    Renamed cfg (cleared cfg s slot e) where
  distinct slot₁ slot₂ e₁ e₂ he₁ he₂ hdest := by
    obtain ⟨-, e₁', he₁', rfl⟩ := table_cleared_cases he₁
    obtain ⟨-, e₂', he₂', rfl⟩ := table_cleared_cases he₂
    exact hr.distinct slot₁ slot₂ e₁' e₂' he₁' he₂' hdest
  aliases slot₁ e₁ he₁ := by
    obtain ⟨hne, e₁', he₁', rfl⟩ := table_cleared_cases he₁
    have hdest : e₁'.dest ≠ e.dest := fun heq ↦ hne (hr.distinct slot₁ slot e₁' e he₁' he heq)
    change Function.update s.rat e.dest none e₁'.dest = _
    rw [Function.update_of_ne hdest]
    exact hr.aliases slot₁ e₁' he₁'

theorem Timed.cleared (ht : Timed insts s h) (he : s.table slot = some e)
    (hstart : e.startCycle ≠ 0) (hdue : e.due = s.currentCycle) :
    Timed insts (cleared cfg s slot e)
      (h.observe s (ArchSim.Tomasulo.cleared cfg s slot e) slot) := by
  rw [observe_cleared he hstart]
  refine ⟨?_, ?_, ?_, ht.started_gt, ?_⟩
  · intro slot' e' he'
    obtain ⟨-, e₀, he₀, rfl⟩ := table_cleared_cases he'
    exact ht.opsValid slot' e₀ he₀
  · intro slot' e' he'
    obtain ⟨-, e₀, he₀, rfl⟩ := table_cleared_cases he'
    exact ht.occupant slot' e₀ he₀
  · intro slot' e' he' hstart'
    obtain ⟨-, e₀, he₀, rfl⟩ := table_cleared_cases he'
    exact ht.started slot' e₀ he₀ hstart'
  · intro j c hc
    by_cases hj : j = h.occupant slot
    · subst hj
      obtain ⟨inst, hinst, hop⟩ := ht.occupant slot e he
      change Function.update h.completed _ _ _ = _ at hc
      rw [Function.update_self] at hc
      refine ⟨inst, e.startCycle, hinst, ht.started slot e he hstart, ?_⟩
      rw [← Option.some.inj hc, ← hdue, RESTEntry.due, hop]
    · change Function.update h.completed _ _ _ = _ at hc
      rw [Function.update_of_ne hj] at hc
      exact ht.completed j c hc

end Completion

/-! ## Firing -/

section Firing

variable {s : Scheduler n} {h : History} {m : Machine Slot (Fin n)} {slot : Slot}
  {e : RESTEntry n} {insts : List (Inst n)}

theorem Renamed.fired (hr : Renamed cfg s) (he : s.table slot = some e) :
    Renamed cfg (fired s slot e) := by
  have hold {slot' : Slot} {e' : RESTEntry n}
      (he' : (ArchSim.Tomasulo.fired s slot e).table slot' = some e') :
      ∃ e₀, s.table slot' = some e₀ ∧ e'.dest = e₀.dest := by
    rcases table_fired_cases he' with ⟨rfl, rfl⟩ | ⟨-, hold⟩
    · exact ⟨e, he, rfl⟩
    · exact ⟨e', hold, rfl⟩
  constructor
  · intro slot₁ slot₂ e₁ e₂ he₁ he₂ hdest
    obtain ⟨e₁', he₁', hdest₁⟩ := hold he₁
    obtain ⟨e₂', he₂', hdest₂⟩ := hold he₂
    exact hr.distinct slot₁ slot₂ e₁' e₂' he₁' he₂' (hdest₁.symm.trans (hdest.trans hdest₂))
  · intro slot₁ e₁ he₁
    obtain ⟨e₁', he₁', hdest₁⟩ := hold he₁
    rw [hdest₁]
    exact hr.aliases slot₁ e₁' he₁'

theorem Timed.fired (ht : Timed insts s h) (hsim : Sim cfg s h m) (hinv : Inv m)
    (hcycle : 1 < s.currentCycle) (he : s.table slot = some e) (hstart : e.startCycle = 0) :
    Timed insts (fired s slot e) (h.observe s (ArchSim.Tomasulo.fired s slot e) slot) := by
  obtain ⟨em, hem, hmatches⟩ := hsim.exists_entry he
  rw [observe_fired hsim.cycle_pos he hstart]
  refine ⟨?_, ?_, ?_, ?_, ?_⟩
  · intro slot' e' he'
    rcases table_fired_cases he' with ⟨rfl, rfl⟩ | ⟨-, hold⟩
    · exact ht.opsValid slot' e he
    · exact ht.opsValid slot' e' hold
  · intro slot' e' he'
    rcases table_fired_cases he' with ⟨rfl, rfl⟩ | ⟨-, hold⟩
    · exact ht.occupant slot' e he
    · exact ht.occupant slot' e' hold
  · intro slot' e' he' hstart'
    rcases table_fired_cases he' with ⟨rfl, rfl⟩ | ⟨hne, hold⟩
    · exact Function.update_self _ _ _
    · -- two entries hold two instructions
      obtain ⟨em', hem', hmatches'⟩ := hsim.exists_entry hold
      have hoccupant : h.occupant slot' ≠ h.occupant slot := by
        rw [← hmatches.num, ← hmatches'.num]
        exact fun heq ↦ hne (hinv.unique hem' hem heq)
      exact (Function.update_of_ne hoccupant _ _).trans (ht.started slot' e' hold hstart')
  · intro j start hj
    change Function.update h.started _ _ _ = _ at hj
    by_cases hne : j = h.occupant slot
    · rw [hne, Function.update_self] at hj
      exact hcycle.trans_eq (Option.some.inj hj)
    · rw [Function.update_of_ne hne] at hj
      exact ht.started_gt j start hj
  · intro j c hc
    have hj : j ≠ h.occupant slot := by
      rintro rfl
      have hpending := hinv.pending hem
      rw [hmatches.num, hsim.completed] at hpending
      cases hpending.symm.trans hc
    obtain ⟨inst, start, hinst, hstarted, heq⟩ := ht.completed j c hc
    exact ⟨inst, start, hinst, (Function.update_of_ne hj _ _).trans hstarted, heq⟩

end Firing

/-! ## Issue -/

section Issue

variable {s : Scheduler n} {h : History} {slot : Slot} {inst : Inst n} {insts : List (Inst n)}

/-- The entries after an issue. -/
theorem table_issued_cases {slot' : Slot} {e' : RESTEntry n}
    (he' : (issued cfg s slot inst).table slot' = some e') :
    slot' = slot ∧ e' = {
        op := inst.op, dest := inst.dest, src1 := inst.src1.bind s.rat,
        src2 := inst.src2.bind s.rat } ∨ slot' ≠ slot ∧ s.table slot' = some e' := by
  by_cases hne : slot' = slot
  · subst hne
    exact .inl ⟨rfl, (Option.some.inj (table_issued_self.symm.trans he')).symm⟩
  · exact .inr ⟨hne, (table_issued_of_ne hne).symm.trans he'⟩

theorem Renamed.issued (hr : Renamed cfg s)
    (hfresh : ∀ slot' e, s.table slot' = some e → e.dest ≠ inst.dest) :
    Renamed cfg (issued cfg s slot inst) := by
  constructor
  · intro slot₁ slot₂ e₁ e₂ he₁ he₂ hdest
    rcases table_issued_cases he₁ with ⟨rfl, rfl⟩ | ⟨-, hold₁⟩ <;>
      rcases table_issued_cases he₂ with ⟨rfl, rfl⟩ | ⟨-, hold₂⟩
    · rfl
    · exact absurd hdest.symm (hfresh slot₂ e₂ hold₂)
    · exact absurd hdest (hfresh slot₁ e₁ hold₁)
    · exact hr.distinct slot₁ slot₂ e₁ e₂ hold₁ hold₂ hdest
  · intro slot₁ e₁ he₁
    rcases table_issued_cases he₁ with ⟨rfl, rfl⟩ | ⟨-, hold₁⟩
    · exact Function.update_self _ _ _
    · exact (Function.update_of_ne (hfresh slot₁ e₁ hold₁) _ _).trans (hr.aliases slot₁ e₁ hold₁)

theorem Timed.issued (ht : Timed insts s h) (hop : inst.op ≠ .OP_INVALID)
    (hinst : insts[s.stats.numInsts]? = some inst) :
    Timed insts (issued cfg s slot inst) (h.occupy slot s.stats.numInsts) := by
  refine ⟨opsValid_issued ht.opsValid hop, ?_, ?_, ht.started_gt, ht.completed⟩
  · intro slot' e' he'
    rcases table_issued_cases he' with ⟨rfl, rfl⟩ | ⟨hne, hold⟩
    · refine ⟨inst, ?_, rfl⟩
      change insts[Function.update h.occupant slot' s.stats.numInsts slot']? = some inst
      rw [Function.update_self]
      exact hinst
    · have hoccupant : (h.occupy slot s.stats.numInsts).occupant slot' = h.occupant slot' :=
        Function.update_of_ne hne _ _
      rw [hoccupant]
      exact ht.occupant slot' e' hold
  · intro slot' e' he' hstart
    rcases table_issued_cases he' with ⟨rfl, rfl⟩ | ⟨hne, hold⟩
    · exact absurd rfl hstart
    · have hoccupant : (h.occupy slot s.stats.numInsts).occupant slot' = h.occupant slot' :=
        Function.update_of_ne hne _ _
      rw [hoccupant]
      exact ht.started slot' e' hold hstart

end Issue

/-! ## Loops -/

/-- What holds throughout a run in which no alias is lost. -/
structure Scheduled (cfg : Config) (insts before : List (Inst n)) (s : Scheduler n)
    (h : History) : Prop where
  simulates : Simulates cfg True s h (before.map Inst.renaming)
  renamed : Renamed cfg s
  timed : Timed insts s h

section

variable {s : Scheduler n} {h : History} {insts before : List (Inst n)} {slot : Slot}

/-- The statistics play no part but for the number of instructions. -/
theorem Scheduled.stats (hs : Scheduled cfg insts before s h) (stats : SchedulerStats)
    (hnum : stats.numInsts = s.stats.numInsts) :
    Scheduled cfg insts before { s with stats := stats } h := by
  obtain ⟨⟨m, hreach, hm, hprogram⟩, hrenamed, htimed⟩ := hs
  exact ⟨⟨m, hreach, { hm with numInsts := hm.numInsts.trans hnum.symm }, hprogram⟩,
    ⟨hrenamed.distinct, hrenamed.aliases⟩,
    ⟨htimed.opsValid, htimed.occupant, htimed.started, htimed.started_gt, htimed.completed⟩⟩

/-- Nothing is cleared or fired before the cycle 2. -/
def Scheduled.InStep (cfg : Config) (insts before : List (Inst n)) (s : Scheduler n)
    (h : History) : Prop := Scheduled cfg insts before s h ∧ 1 < s.currentCycle

namespace Scheduled.InStep

theorem completeEntry (hs : InStep cfg insts before s h) (k : ℕ) :
    Yields False (Tracked.completeEntry cfg ((s, k), h) slot) fun acc ↦
      InStep cfg insts before acc.1.1 acc.2 := by
  obtain ⟨⟨hsimulates, hrenamed, htimed⟩, hcycle⟩ := hs
  have hsimulates' : Yields False (Tracked.completeEntry cfg ((s, k), h) slot) fun acc ↦
      Simulates cfg True acc.1.1 acc.2 (before.map Inst.renaming) :=
    completeEntry_simulates hsimulates
  unfold Tracked.completeEntry at hsimulates' ⊢
  rcases completeEntry_spec cfg htimed.opsValid slot k with
    ⟨e, he, hstart, hdue, hspec⟩ | ⟨-, hspec⟩
  · rw [hspec] at hsimulates' ⊢
    exact ⟨⟨hsimulates', hrenamed.cleared he, htimed.cleared he hstart hdue⟩, hcycle⟩
  · rw [hspec]
    change InStep cfg insts before s (h.observe s s slot)
    rw [observe_self]
    exact ⟨⟨hsimulates, hrenamed, htimed⟩, hcycle⟩

theorem clearCompleted (hs : InStep cfg insts before s h) :
    Yields False (Tracked.clearCompleted cfg s h) fun acc ↦
      InStep cfg insts before acc.1 acc.2 := by
  have hloop : Yields False (cfg.slots.foldlM (Tracked.completeEntry cfg) ((s, 0), h))
      fun acc ↦ InStep cfg insts before acc.1.1 acc.2 :=
    .foldlM (I := fun acc : (Scheduler n × ℕ) × History ↦ InStep cfg insts before acc.1.1 acc.2)
      (fun _ _ acc hacc ↦ hacc.completeEntry acc.1.2) hs
  exact hloop.bind fun acc hacc ↦ ⟨hacc.1.stats _ rfl, hacc.2⟩

theorem fireEntry {f : Scheduler.Firing n} (hs : InStep cfg insts before f.sched h) (slot : Slot) :
    InStep cfg insts before (Tracked.fireEntry (f, h) slot).1.sched
      (Tracked.fireEntry (f, h) slot).2 := by
  obtain ⟨⟨hsimulates, hrenamed, htimed⟩, hcycle⟩ := hs
  have hsimulates' := fireEntry_simulates hsimulates slot
  obtain ⟨m, hreach, hm, -⟩ := hsimulates
  change InStep cfg insts before (Scheduler.fireEntry f slot).sched
    (h.observe f.sched (Scheduler.fireEntry f slot).sched slot)
  change Simulates cfg True (Scheduler.fireEntry f slot).sched
    (h.observe f.sched (Scheduler.fireEntry f slot).sched slot) _ at hsimulates'
  rcases fireEntry_cases f slot with hsame | ⟨e, he, -, hstart, -, hfired⟩
  · rw [hsame, observe_self] at hsimulates' ⊢
    exact ⟨⟨hsimulates', hrenamed, htimed⟩, hcycle⟩
  · rw [hfired] at hsimulates' ⊢
    exact ⟨⟨hsimulates', hrenamed.fired he, htimed.fired hm hreach.inv hcycle he hstart⟩, hcycle⟩

theorem startReady (hs : InStep cfg insts before s h) :
    Scheduled cfg insts before (Tracked.startReady cfg s h).1 (Tracked.startReady cfg s h).2 := by
  have hstations : InStep cfg insts before
      (cfg.stations.foldl (Tracked.fireReady cfg) ({ sched := s }, h)).1.sched
      (cfg.stations.foldl (Tracked.fireReady cfg) ({ sched := s }, h)).2 := by
    refine List.foldlRecOn
      (motive := fun acc : Scheduler.Firing n × History ↦
        InStep cfg insts before acc.1.sched acc.2) cfg.stations _ hs fun acc hacc station _ ↦ ?_
    exact List.foldlRecOn
      (motive := fun acc : Scheduler.Firing n × History ↦
        InStep cfg insts before acc.1.sched acc.2) (cfg.entries station) _ hacc
      fun acc' hacc' slot _ ↦ hacc'.fireEntry slot
  have hfst : (cfg.stations.foldl (Tracked.fireReady cfg) ({ sched := s }, h)).1 =
      cfg.stations.foldl (Scheduler.fireReady cfg) { sched := s } :=
    (List.foldl_hom Prod.fst fun acc station ↦ (fireReady_fst acc station).symm).symm
  rw [hfst] at hstations
  exact hstations.1.stats _ rfl

end Scheduled.InStep

theorem Scheduled.step (hs : Scheduled cfg insts before s h) :
    Yields False (Tracked.step cfg s h) fun acc ↦ Scheduled cfg insts before acc.1 acc.2 := by
  obtain ⟨⟨m, hreach, hm, hprogram⟩, hrenamed, htimed⟩ := hs
  have htick : InStep cfg insts before { s with currentCycle := s.currentCycle + 1 } h :=
    ⟨⟨⟨_, hreach.step .tick, { hm with
      now := congrArg (· + 1) hm.now
      cycle_pos := Nat.succ_pos _ }, hprogram⟩,
      ⟨hrenamed.distinct, hrenamed.aliases⟩,
      ⟨htimed.opsValid, htimed.occupant, htimed.started, htimed.started_gt, htimed.completed⟩⟩,
      Nat.succ_lt_succ hm.cycle_pos⟩
  exact htick.clearCompleted.bind fun acc hacc ↦ hacc.startReady

/-- As every entry is the alias of its destination, the writers that are in flight are known. -/
theorem Scheduled.knowsWriters (hs : Scheduled cfg insts before s h) {inst : Inst n} :
    s.KnowsWriters cfg ((before.map Inst.renaming).map Renaming.Inst.dest) h inst := by
  obtain ⟨m, hreach, hm, hprogram⟩ := hs.simulates
  intro r _ hnone slot hslot hsome hlast
  obtain ⟨e, he⟩ := Option.isSome_iff_exists.mp hsome
  obtain ⟨em, hem, hmatches⟩ := hm.exists_entry he
  have hdest := hreach.inv.dest hem
  rw [Machine.dests, hprogram, hmatches.num, hlast.2.1] at hdest
  have halias := hs.renamed.aliases slot e he
  rw [← hmatches.dest, ← Option.some.inj hdest, hnone] at halias
  cases halias

end

/-! ## Runs -/

/-- A state of the driver in such a run. -/
def Dataflow (cfg : Config) (insts : List (Inst n)) (t : Tracked n) : Prop :=
  ∃ before, insts = before ++ t.driver.trace ∧
    Scheduled cfg insts before t.driver.sched t.history

section

variable {insts : List (Inst n)} {t : Tracked n}

theorem initial_dataflow (cfg : Config) (insts : List (Inst n)) :
    Dataflow cfg insts ⟨.initial insts, {}⟩ := by
  obtain ⟨before, hinsts, hsimulates⟩ : Follows cfg True insts ⟨.initial insts, {}⟩ :=
    initial_follows insts
  have hfree (slot : Slot) (e : RESTEntry n) : (Driver.initial insts).sched.table slot ≠ some e :=
    (Option.some_ne_none e).symm
  refine ⟨before, hinsts, hsimulates, ⟨?_, ?_⟩, ⟨?_, ?_, ?_, ?_, ?_⟩⟩
  · exact fun slot _ e _ he ↦ absurd he (hfree slot e)
  · exact fun slot e he ↦ absurd he (hfree slot e)
  · exact fun slot e he ↦ absurd he (hfree slot e)
  · exact fun slot e he ↦ absurd he (hfree slot e)
  · exact fun slot e he ↦ absurd he (hfree slot e)
  · exact fun _ start hstart ↦ absurd hstart (Option.some_ne_none start).symm
  · exact fun _ c hc ↦ absurd hc (Option.some_ne_none c).symm

theorem Dataflow.follows (h : Dataflow cfg insts t) : Follows cfg True insts t := by
  obtain ⟨before, hinsts, hscheduled⟩ := h
  exact ⟨before, hinsts, hscheduled.simulates⟩

theorem Dataflow.body (h : Dataflow cfg insts t) (hops : Executable insts)
    (hfresh : t.WritesFresh cfg) : Yields False (t.body cfg) (Dataflow cfg insts) := by
  obtain ⟨before, hinsts, hscheduled⟩ := h
  unfold Tracked.body
  cases hrest : t.driver.trace with
  | nil =>
    refine hscheduled.step.bind fun acc hacc ↦ ?_
    exact ⟨before, by rw [hinsts, hrest], hacc⟩
  | cons inst rest =>
    have hsplit : insts = before ++ inst :: rest := by rw [hinsts, hrest]
    have hop : inst.op ≠ .OP_INVALID := hops inst (hsplit ▸ by simp)
    have hsimulates : Simulates cfg True (t.driver.sched.tryIssue cfg inst).2
        (Tracked.issue cfg t.driver.sched t.history inst)
        (if (t.driver.sched.tryIssue cfg inst).1 then
          before.map Inst.renaming ++ [inst.renaming] else before.map Inst.renaming) :=
      issue_simulates hscheduled.simulates fun _ _ ↦ hscheduled.knowsWriters
    rcases tryIssue_cases cfg t.driver.sched t.history inst with ⟨stats, hnum, htry, hissue⟩ |
      ⟨slot, hslot, hfree, htry, hissue⟩
    · simp only [htry, hissue]
      refine (hscheduled.stats stats hnum).step.bind fun acc hacc ↦ ?_
      exact ⟨before, hsplit, hacc⟩
    · obtain ⟨m, -, hm, hprogram⟩ := hscheduled.simulates
      have hnum : t.driver.sched.stats.numInsts = before.length := by
        rw [← hm.numInsts, hprogram, List.length_map]
      have hinst : insts[t.driver.sched.stats.numInsts]? = some inst := by
        rw [hsplit, hnum, List.getElem?_append_right le_rfl, Nat.sub_self]
        rfl
      have hroom : t.driver.sched.hasRoom cfg inst = true := by
        rw [← fst_tryIssue, htry]
      have hdests : ∀ slot' e, t.driver.sched.table slot' = some e → e.dest ≠ inst.dest := by
        intro slot' e he
        obtain ⟨em, hem, -⟩ := hm.exists_entry he
        exact hfresh inst (by rw [hrest]; rfl) hroom slot' (hm.inUse hem) e he
      rw [htry, hissue] at hsimulates
      have hissued : Scheduled cfg insts (before ++ [inst]) (issued cfg t.driver.sched slot inst)
          (t.history.occupy slot t.driver.sched.stats.numInsts) :=
        ⟨by rw [List.map_append]; exact hsimulates, hscheduled.renamed.issued hdests,
          hscheduled.timed.issued hop hinst⟩
      simp only [htry, hissue]
      refine hissued.step.bind fun acc hacc ↦ ?_
      exact ⟨before ++ [inst], by rw [List.append_assoc]; exact hsplit, hacc⟩

theorem dataflow_of_visits (hops : Executable insts)
    (h : (Tracked.loop cfg n).Visits ⟨.initial insts, {}⟩ (Tracked.WritesFresh cfg) t) :
    Dataflow cfg insts t :=
  h.invariant (initial_dataflow cfg insts) fun _ ht hfresh ↦ ht.body hops hfresh

end

/-- As long as no instruction is issued while another one in flight has its destination, no
instruction starts before the last writers of its sources have been cleared. -/
theorem starts_after_writers_of_writesFresh {n : ℕ} (cfg : Config) (insts : List (Inst n))
    (hops : Executable insts) (t : Tracked n)
    (h : (Tracked.loop cfg n).Visits ⟨.initial insts, {}⟩ (Tracked.WritesFresh cfg) t) :
    TrueDependences insts t.history :=
  trueDependences_of_follows (dataflow_of_visits hops h).follows

/-- The addition writes a register that the load does not write. -/
theorem starts_after_writers_of_writesFresh_loadUse :
    ∃ t : Tracked 2, (Tracked.loop (.unified 4) 2).Visits ⟨.initial loadUse, {}⟩
      (Tracked.WritesFresh (.unified 4)) t ∧ t.history.started 1 = some 22 ∧
        TrueDependences loadUse t.history := by
  obtain ⟨t, ht, hstarted⟩ : ∃ t : Tracked 2,
      (Tracked.loop (.unified 4) 2).Visits ⟨.initial loadUse, {}⟩
        (Tracked.WritesFresh (.unified 4)) t ∧ t.history.started 1 = some 22 :=
    Loop.exists_visits 21 (by decide +kernel)
  exact ⟨t, ht, hstarted, starts_after_writers_of_writesFresh _ _ (by decide) t ht⟩

/-! ## Programs that write no register twice -/

section

variable {insts : List (Inst n)} {t : Tracked n}

/-- What has been issued before has other destinations. -/
theorem Dataflow.writesFresh (h : Dataflow cfg insts t) (hnodup : (insts.map Inst.dest).Nodup) :
    t.WritesFresh cfg := by
  obtain ⟨before, hinsts, ⟨m, hreach, hm, hprogram⟩, -, -⟩ := h
  intro inst hhead _ slot _ e he hdest
  obtain ⟨rest, hrest⟩ : ∃ rest, t.driver.trace = inst :: rest := by
    cases htrace : t.driver.trace with
    | nil => rw [htrace] at hhead; cases hhead
    | cons inst' rest =>
      rw [htrace] at hhead
      obtain rfl := Option.some.inj hhead
      exact ⟨rest, rfl⟩
  obtain ⟨em, hem, hmatches⟩ := hm.exists_entry he
  have hdestm : (before.map Inst.dest)[em.num]? = some inst.dest := by
    rw [← hdest, ← hmatches.dest, ← hreach.inv.dest hem, Machine.dests, hprogram,
      map_dest_renaming]
  have hmem : inst.dest ∈ before.map Inst.dest := List.mem_of_getElem? hdestm
  rw [hinsts, hrest, List.map_append] at hnodup
  exact (List.nodup_append.mp hnodup).2.2 _ hmem _ List.mem_cons_self rfl

theorem dataflow_of_nodup (hops : Executable insts) (hnodup : (insts.map Inst.dest).Nodup)
    (h : (Tracked.loop cfg n).Visits ⟨.initial insts, {}⟩ (fun _ ↦ True) t) :
    Dataflow cfg insts t :=
  h.invariant (initial_dataflow cfg insts) fun _ ht _ ↦ ht.body hops (ht.writesFresh hnodup)

/-- Instruction `j` reads what instruction `i` writes. -/
def DependsOn (insts : List (Inst n)) (j i : ℕ) : Prop :=
  ∃ inst r, insts[j]? = some inst ∧ r ∈ inst.sources ∧ LastWriter (insts.map Inst.dest) j r i

def latencyAt (insts : List (Inst n)) (j : ℕ) : ℕ :=
  match insts[j]? with
  | some inst => inst.op.latency
  | none => 0

/-- When all entries are free, every instruction has been cleared. -/
theorem Dataflow.exists_completed (h : Dataflow cfg insts t) (hnil : t.driver.trace = [])
    (hfree : ∀ slot ∈ cfg.slots, t.driver.sched.table slot = none) {j : ℕ}
    (hj : j < insts.length) : ∃ start, 1 < start ∧ t.history.started j = some start ∧
      t.history.completed j = some (start + latencyAt insts j) ∧
      start + latencyAt insts j ≤ t.driver.sched.currentCycle := by
  obtain ⟨before, hinsts, ⟨m, hreach, hm, hprogram⟩, -, htimed⟩ := h
  rw [hnil, List.append_nil] at hinsts
  cases hc : t.history.completed j with
  | none =>
    have hlt : j < m.program.length := by rwa [hprogram, List.length_map, ← hinsts]
    obtain ⟨slot, em, hem, -⟩ := hreach.inv.inFlight hlt (hm.completed ▸ hc)
    rw [(hm.free slot).mp (hfree slot (hm.inUse hem))] at hem
    cases hem
  | some c =>
    obtain ⟨inst, start, hinst, hstarted, heq⟩ := htimed.completed j c hc
    have hlatency : latencyAt insts j = inst.op.latency := by rw [latencyAt, hinst]
    rw [hlatency]
    refine ⟨start, htimed.started_gt j start hstarted, hstarted, congrArg some heq, ?_⟩
    rw [← heq, ← hm.now]
    exact (hreach.inv.past (hm.completed ▸ hc)).2

/-- Along a chain of dependences the latencies add up. -/
theorem Dataflow.chain_le (h : Dataflow cfg insts t) (hnil : t.driver.trace = [])
    (hfree : ∀ slot ∈ cfg.slots, t.driver.sched.table slot = none) {j : ℕ} {chain : List ℕ}
    (hchain : (j :: chain).IsChain (DependsOn insts)) (hlt : ∀ i ∈ j :: chain, i < insts.length)
    {start : ℕ} (hstart : t.history.started j = some start) :
    (chain.map (latencyAt insts)).sum + 2 ≤ start := by
  induction chain generalizing j start with
  | nil =>
    obtain ⟨start', hgt, hstart', -⟩ := h.exists_completed hnil hfree (hlt j List.mem_cons_self)
    obtain rfl := Option.some.inj (hstart'.symm.trans hstart)
    exact hgt
  | cons i chain ih =>
    obtain ⟨⟨inst, r, hinst, hr, hlast⟩, hrest⟩ := List.isChain_cons_cons.mp hchain
    obtain ⟨c, hc, hle⟩ :=
      trueDependences_of_follows h.follows j inst r i start hinst hr hlast hstart
    have hi : ∀ i' ∈ i :: chain, i' < insts.length :=
      fun i' hi' ↦ hlt i' (List.mem_cons_of_mem _ hi')
    obtain ⟨start', -, hstart', hcompleted, -⟩ :=
      h.exists_completed hnil hfree (hi i List.mem_cons_self)
    obtain rfl := Option.some.inj (hc.symm.trans hcompleted)
    have hearlier := ih hrest hi hstart'
    rw [List.map_cons, List.sum_cons]
    omega

end

/-- If no register is written twice, a run takes at least as long as the latencies of any chain of
instructions each of which reads what the next one writes. -/
theorem chain_le_numCycles (cfg : Config) (hsizes : cfg.Nonempty) (insts : List (Inst n))
    (hops : Executable insts) (hnodup : (insts.map Inst.dest).Nodup) :
    ∃ k d, (Driver.loop cfg n).after k (.initial insts) = some d ∧ d.done cfg = true ∧
      ∀ j chain, (j :: chain).IsChain (DependsOn insts) → (∀ i ∈ j :: chain, i < insts.length) →
        ((j :: chain).map (latencyAt insts)).sum + 2 ≤ d.sched.complete.numCycles := by
  obtain ⟨k, d, hk, hnil, hcompleted⟩ := Driver.exists_end hsizes hops
  have hdone : d.done cfg = true := by
    rw [Driver.done, hnil, hcompleted]
    rfl
  obtain ⟨t, ht, rfl⟩ := Tracked.exists_of_visits cfg (Loop.Visits.start.visit hk)
  have hdataflow := dataflow_of_nodup hops hnodup ht
  have hfree : ∀ slot ∈ cfg.slots, t.driver.sched.table slot = none := fun slot hslot ↦
    Option.isNone_iff_eq_none.mp (List.all_eq_true.mp hcompleted slot hslot)
  refine ⟨k, t.driver, hk, hdone, fun j chain hchain hlt ↦ ?_⟩
  obtain ⟨start, -, hstart, -, hle⟩ :=
    hdataflow.exists_completed hnil hfree (hlt j List.mem_cons_self)
  have hearlier := hdataflow.chain_le hnil hfree hchain hlt hstart
  calc ((j :: chain).map (latencyAt insts)).sum + 2
      = latencyAt insts j + ((chain.map (latencyAt insts)).sum + 2) := by
        rw [List.map_cons, List.sum_cons, Nat.add_assoc]
    _ ≤ latencyAt insts j + start := Nat.add_le_add_left hearlier _
    _ ≤ t.driver.sched.currentCycle := by omega

/-- The addition waits for the load. -/
theorem chain_le_numCycles_loadUse :
    ∃ k d, (Driver.loop (.unified 4) 2).after k (.initial loadUse) = some d ∧
      d.done (.unified 4) = true ∧ 24 ≤ d.sched.complete.numCycles := by
  obtain ⟨k, d, hk, hdone, hchain⟩ :=
    chain_le_numCycles (.unified 4) (by decide) loadUse (by decide) (by decide)
  have hdepends : DependsOn loadUse 1 0 := ⟨_, 0, rfl, by decide, by decide⟩
  exact ⟨k, d, hk, hdone, hchain 1 [0] (by simpa using hdepends) (by decide)⟩

end ArchSim.Tomasulo
