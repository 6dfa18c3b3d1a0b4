import ArchSim.Library.Renaming
import ArchSim.Tomasulo.History

/-!
# The scheduler as a renaming machine

The tags of the machine are the entries of the stations in use; the code names them by their
`rat_index`, which no two of them share. Every iteration of the loops of `complete_insts` and
`fire_ready` is at most one step of the machine, and an issue that succeeds is one.
-/

namespace ArchSim.Tomasulo

open Library Renaming

variable {n : ℕ} {cfg : Config}

/-! ## Entries -/

theorem mem_slots {slot : Slot} :
    slot ∈ cfg.slots ↔ slot.1 ∈ cfg.stations ∧ slot.2 < cfg.size slot.1 := by
  obtain ⟨station, i⟩ := slot
  simp only [Config.slots, Config.entries, List.mem_flatMap, List.mem_map, List.mem_range,
    Prod.mk.injEq]
  constructor
  · rintro ⟨_, hmem, _, hlt, rfl, rfl⟩
    exact ⟨hmem, hlt⟩
  · rintro ⟨hmem, hlt⟩
    exact ⟨station, hmem, i, hlt, rfl, rfl⟩

/-- No two entries of the stations in use have the same `rat_index`. -/
theorem ratIndex_injective {slot slot' : Slot} (h : slot ∈ cfg.slots) (h' : slot' ∈ cfg.slots)
    (heq : cfg.ratIndex slot = cfg.ratIndex slot') : slot = slot' := by
  obtain ⟨hstation, hlt⟩ := mem_slots.mp h
  obtain ⟨hstation', hlt'⟩ := mem_slots.mp h'
  obtain ⟨station, i⟩ := slot
  obtain ⟨station', i'⟩ := slot'
  cases cfg <;> cases station <;> cases station' <;>
    simp_all [Config.stations, Config.size, Config.ratIndex, Config.indexStart] <;> omega

def RESTEntry.sources (e : RESTEntry n) : List ℕ := e.src1.toList ++ e.src2.toList

def Inst.sources (inst : Inst n) : List (Fin n) := inst.src1.toList ++ inst.src2.toList

def Inst.renaming (inst : Inst n) : Renaming.Inst (Fin n) := ⟨inst.dest, inst.sources⟩

theorem sources_updateSources (e : RESTEntry n) (ratIndex : ℕ) :
    (e.updateSources ratIndex).sources = e.sources.filter (· ≠ ratIndex) := by
  have htoList (src : Option ℕ) : (if src = some ratIndex then none else src).toList =
      src.toList.filter (· ≠ ratIndex) := by
    cases src with
    | none => rfl
    | some tag => by_cases htag : tag = ratIndex <;> simp [htag]
  simp only [RESTEntry.sources, RESTEntry.updateSources, htoList, List.filter_append]

theorem sources_eq_nil {e : RESTEntry n} : e.sources = [] ↔ e.src1 = none ∧ e.src2 = none := by
  simp [RESTEntry.sources]

/-! ## The relation -/

/-- The entry `e` of the code is the entry `e'` of the machine. -/
structure Matches (cfg : Config) (num : ℕ) (e : RESTEntry n) (e' : Renaming.Entry Slot (Fin n)) :
    Prop where
  num : e'.num = num
  dest : e'.dest = e.dest
  waits : e'.waits.map cfg.ratIndex = e.sources
  started : e'.started = decide (e.startCycle ≠ 0)
  op : e.startCycle ≠ 0 → e.op ≠ .OP_INVALID

/-- The scheduler with its history stands for a state of the machine. -/
structure Sim (cfg : Config) (s : Scheduler n) (h : History) (m : Machine Slot (Fin n)) :
    Prop where
  rat : ∀ r, s.rat r = (m.aliasOf r).map cfg.ratIndex
  free : ∀ slot, s.table slot = none ↔ m.entry slot = none
  held : ∀ {slot e e'}, s.table slot = some e → m.entry slot = some e' →
    Matches cfg (h.occupant slot) e e'
  inUse : ∀ {slot e'}, m.entry slot = some e' → slot ∈ cfg.slots
  now : m.now = s.currentCycle
  started : m.started = h.started
  completed : m.completed = h.completed
  numInsts : m.program.length = s.stats.numInsts
  cycle_pos : 0 < s.currentCycle

/-- The machine's state is reachable. -/
def Simulates (cfg : Config) (exact : Prop) (s : Scheduler n) (h : History)
    (program : List (Renaming.Inst (Fin n))) : Prop :=
  ∃ m, Reachable exact m ∧ Sim cfg s h m ∧ m.program = program

variable {exact : Prop} {s : Scheduler n} {h : History} {m : Machine Slot (Fin n)} {slot : Slot}
  {e : RESTEntry n}

theorem Sim.exists_entry (hsim : Sim cfg s h m) (he : s.table slot = some e) :
    ∃ e', m.entry slot = some e' ∧ Matches cfg (h.occupant slot) e e' := by
  cases he' : m.entry slot with
  | none =>
    rw [(hsim.free slot).mpr he'] at he
    cases he
  | some e' => exact ⟨e', rfl, hsim.held he he'⟩

theorem startCycle_of_some (he : s.table slot = some e) : s.startCycle slot = e.startCycle := by
  rw [Scheduler.startCycle, he]

/-- Nothing has happened to an entry. -/
theorem observe_self (h : History) (s : Scheduler n) (slot : Slot) : h.observe s s slot = h := by
  have hstart : ¬ (s.startCycle slot = 0 ∧ s.startCycle slot ≠ 0) := fun hboth ↦ hboth.2 hboth.1
  have hclear : ¬ ((s.table slot).isSome ∧ (s.table slot).isNone) := by
    cases s.table slot <;> simp
  simp only [History.observe, hstart, hclear, if_false]

/-! ## Completion -/

section Completion

theorem getInstLatency_ok {op : OpType} (hop : op ≠ .OP_INVALID) :
    ∃ latency, getInstLatency op = .ok latency := by
  cases op with
  | OP_INVALID => exact absurd rfl hop
  | _ => exact ⟨_, rfl⟩

/-- The scheduler after the instruction in `slot` has been cleared. -/
def cleared (cfg : Config) (s : Scheduler n) (slot : Slot) (e : RESTEntry n) : Scheduler n :=
  { s with
    rat := Function.update s.rat e.dest none
    table := Function.update s.table slot none }.broadcastComplete (cfg.ratIndex slot)

/-- The two cases of the body of `complete_insts`. -/
theorem completeEntry_cases (hop : ∀ e, s.table slot = some e → e.startCycle ≠ 0 →
    e.op ≠ .OP_INVALID) (k : ℕ) :
    Scheduler.completeEntry cfg (s, k) slot = .ok (s, k) ∨
      ∃ e, s.table slot = some e ∧ e.startCycle ≠ 0 ∧
        Scheduler.completeEntry cfg (s, k) slot = .ok (cleared cfg s slot e, k + 1) := by
  cases he : s.table slot with
  | none =>
    left
    simp only [Scheduler.completeEntry, he]
  | some e =>
    by_cases hstart : e.startCycle = 0
    · left
      simp only [Scheduler.completeEntry, he, hstart, if_true]
    · obtain ⟨latency, hlatency⟩ := getInstLatency_ok (hop e he hstart)
      simp only [Scheduler.completeEntry, he, hstart, if_false, hlatency, bind, Except.bind]
      by_cases hdue : s.currentCycle = e.startCycle + latency
      · exact .inr ⟨e, rfl, hstart, if_pos hdue⟩
      · exact .inl (if_neg hdue)

theorem observe_cleared (he : s.table slot = some e) (hstart : e.startCycle ≠ 0) :
    h.observe s (cleared cfg s slot e) slot = { h with
      completed := Function.update h.completed (h.occupant slot) (some s.currentCycle) } := by
  have hnone : (cleared cfg s slot e).table slot = none := by
    simp [cleared, Scheduler.broadcastComplete]
  have hstarted : ¬ (s.startCycle slot = 0 ∧ (cleared cfg s slot e).startCycle slot ≠ 0) := by
    rw [startCycle_of_some he]
    exact fun hboth ↦ hstart hboth.1
  simp only [History.observe, hstarted, if_false, he, hnone, Option.isSome_some,
    Option.isNone_none, and_self, if_true]
  rfl

theorem Matches.updateSources {num : ℕ} {e' : Renaming.Entry Slot (Fin n)}
    (hmatches : Matches cfg num e e') (hslot : slot ∈ cfg.slots)
    (hwaits : ∀ t ∈ e'.waits, t ∈ cfg.slots) :
    Matches cfg num (e.updateSources (cfg.ratIndex slot)) (e'.forget slot) where
  num := hmatches.num
  dest := hmatches.dest
  waits := by
    rw [sources_updateSources, ← hmatches.waits, List.filter_map, Entry.forget]
    congr 1
    apply List.filter_congr
    intro t ht
    have hiff : cfg.ratIndex t ≠ cfg.ratIndex slot ↔ t ≠ slot := by
      rw [not_iff_not]
      exact ⟨ratIndex_injective (hwaits t ht) hslot, congrArg _⟩
    simp only [Function.comp_apply, hiff]
  started := hmatches.started
  op := hmatches.op

/-- An instruction that is cleared completes in the machine. -/
theorem Sim.cleared (hsim : Sim cfg s h m) (hinv : Inv m) (he : s.table slot = some e)
    (hstart : e.startCycle ≠ 0) :
    ∃ m', Step exact m m' ∧ m'.program = m.program ∧
      Sim cfg (cleared cfg s slot e) (h.observe s (ArchSim.Tomasulo.cleared cfg s slot e) slot)
        m' := by
  obtain ⟨e', he', hmatches⟩ := hsim.exists_entry he
  let aliases : Fin n → Option Slot := fun r ↦ if r = e.dest then none else m.aliasOf r
  have hkeeps (r : Fin n) : aliases r = m.aliasOf r ∨ aliases r = none := by
    by_cases hr : r = e.dest <;> simp [aliases, hr]
  have hforgets (r : Fin n) : aliases r ≠ some slot := by
    by_cases hr : r = e.dest
    · simp [aliases, hr]
    · simp only [aliases, hr, if_false]
      intro halias
      obtain ⟨e'', he'', hlast⟩ := hinv.aliasOf halias
      obtain rfl := Option.some.inj (he'.symm.trans he'')
      have hdest := hlast.2.1.symm.trans (hinv.dest he')
      exact hr ((Option.some.inj hdest).trans hmatches.dest)
  have hstarted : e'.started = true := hmatches.started.trans (decide_eq_true hstart)
  refine ⟨m.complete slot e' aliases, .complete he' hstarted hkeeps hforgets, rfl, ?_⟩
  have htable (slot' : Slot) : (ArchSim.Tomasulo.cleared cfg s slot e).table slot' =
      (Function.update s.table slot none slot').map (·.updateSources (cfg.ratIndex slot)) := rfl
  rw [observe_cleared he hstart]
  refine { hsim with
    rat := ?rat, free := ?free, held := ?held, inUse := ?inUse, completed := ?completed }
  case rat =>
    intro r
    change Function.update s.rat e.dest none r = (aliases r).map cfg.ratIndex
    by_cases hr : r = e.dest
    · simp [aliases, hr]
    · rw [Function.update_of_ne hr, hsim.rat]
      simp only [aliases, hr, if_false]
  case free =>
    intro slot'
    by_cases hslot : slot' = slot
    · simp [htable, hslot, Machine.complete]
    · simp [htable, hslot, Machine.complete, hsim.free]
  case held =>
    intro slot' e₁ e₁' he₁ he₁'
    obtain ⟨hne, e₀', he₀', rfl⟩ := entry_complete he₁'
    rw [htable, Function.update_of_ne hne] at he₁
    obtain ⟨e₀, he₀, rfl⟩ := Option.map_eq_some_iff.mp he₁
    refine (hsim.held he₀ he₀').updateSources (hsim.inUse he') fun t ht ↦ ?_
    obtain ⟨et, het, -⟩ := hinv.waits he₀' ht
    exact hsim.inUse het
  case inUse =>
    intro slot' e₁' he₁'
    obtain ⟨-, e₀', he₀', -⟩ := entry_complete he₁'
    exact hsim.inUse he₀'
  case completed =>
    change Function.update m.completed e'.num (some m.now) = _
    rw [hmatches.num, hsim.now, hsim.completed]

theorem completeEntry_simulates {program : List (Renaming.Inst (Fin n))} {k : ℕ}
    (hsim : Simulates cfg exact s h program) :
    Yields False (Tracked.completeEntry cfg ((s, k), h) slot) fun acc ↦
      Simulates cfg exact acc.1.1 acc.2 program := by
  obtain ⟨m, hreach, hm, rfl⟩ := hsim
  have hop (e : RESTEntry n) (he : s.table slot = some e) (hstart : e.startCycle ≠ 0) :
      e.op ≠ .OP_INVALID := by
    obtain ⟨e', -, hmatches⟩ := hm.exists_entry he
    exact hmatches.op hstart
  unfold Tracked.completeEntry
  rcases completeEntry_cases hop k with hsame | ⟨e, he, hstart, hcleared⟩
  · rw [hsame]
    change Simulates cfg exact s (h.observe s s slot) m.program
    rw [observe_self]
    exact ⟨m, hreach, hm, rfl⟩
  · rw [hcleared]
    obtain ⟨m', hstep, hprogram, hm'⟩ := hm.cleared hreach.inv he hstart
    exact ⟨m', hreach.step hstep, hm', hprogram⟩

theorem clearCompleted_simulates {program : List (Renaming.Inst (Fin n))}
    (hsim : Simulates cfg exact s h program) :
    Yields False (Tracked.clearCompleted cfg s h) fun acc ↦
      Simulates cfg exact acc.1 acc.2 program := by
  have hloop : Yields False (cfg.slots.foldlM (Tracked.completeEntry cfg) ((s, 0), h))
      fun acc ↦ Simulates cfg exact acc.1.1 acc.2 program :=
    .foldlM (fun slot _ acc hacc ↦ completeEntry_simulates hacc) hsim
  refine hloop.bind fun acc ⟨m, hreach, hm, hprogram⟩ ↦ ?_
  exact ⟨m, hreach, { hm with }, hprogram⟩

end Completion

/-! ## Firing -/

section Firing

/-- The scheduler after the instruction in `slot` has been fired. -/
def fired (s : Scheduler n) (slot : Slot) (e : RESTEntry n) : Scheduler n :=
  { s with table := Function.update s.table slot (some { e with startCycle := s.currentCycle }) }

/-- The two cases of the body of `fire_ready`. -/
theorem fireEntry_cases (f : Scheduler.Firing n) (slot : Slot) :
    Scheduler.fireEntry f slot = f ∨
      ∃ e, f.sched.table slot = some e ∧ e.sources = [] ∧ e.startCycle = 0 ∧
        e.op ≠ .OP_INVALID ∧ (Scheduler.fireEntry f slot).sched = fired f.sched slot e := by
  cases he : f.sched.table slot with
  | none =>
    left
    simp only [Scheduler.fireEntry, he]
  | some e =>
    by_cases hready : e.src1 = none ∧ e.src2 = none ∧ e.startCycle = 0 ∧ e.op ≠ .OP_INVALID ∧
      f.fired e.op = false
    · refine .inr ⟨e, rfl, sources_eq_nil.mpr ⟨hready.1, hready.2.1⟩, hready.2.2.1,
        hready.2.2.2.1, ?_⟩
      simp only [Scheduler.fireEntry, he, if_pos hready, fired]
    · left
      simp only [Scheduler.fireEntry, he, if_neg hready]

theorem observe_fired (hpos : 0 < s.currentCycle) (he : s.table slot = some e)
    (hstart : e.startCycle = 0) :
    h.observe s (fired s slot e) slot = { h with
      started := Function.update h.started (h.occupant slot) (some s.currentCycle) } := by
  have hsome : (fired s slot e).table slot = some { e with startCycle := s.currentCycle } :=
    Function.update_self _ _ _
  have hstarted : s.startCycle slot = 0 ∧ (fired s slot e).startCycle slot ≠ 0 := by
    rw [startCycle_of_some he, startCycle_of_some hsome]
    exact ⟨hstart, hpos.ne'⟩
  have hclear : ¬ ((s.table slot).isSome ∧ ((fired s slot e).table slot).isNone) := by
    rw [hsome]
    exact fun hboth ↦ nomatch hboth.2
  simp only [History.observe, if_neg hclear]
  rw [if_pos hstarted, startCycle_of_some hsome]

/-- An instruction that is fired starts in the machine. -/
theorem Sim.fired (hsim : Sim cfg s h m) (he : s.table slot = some e) (hsources : e.sources = [])
    (hstart : e.startCycle = 0) (hop : e.op ≠ .OP_INVALID) :
    ∃ m', Step exact m m' ∧ m'.program = m.program ∧
      Sim cfg (fired s slot e) (h.observe s (ArchSim.Tomasulo.fired s slot e) slot) m' := by
  obtain ⟨e', he', hmatches⟩ := hsim.exists_entry he
  have hwaits : e'.waits = [] := List.map_eq_nil_iff.mp (hmatches.waits.trans hsources)
  have hstarted : e'.started = false := by
    rw [hmatches.started, hstart]
    rfl
  refine ⟨m.start slot e', .start he' hwaits hstarted, rfl, ?_⟩
  rw [observe_fired hsim.cycle_pos he hstart]
  refine { hsim with free := ?free, held := ?held, inUse := ?inUse, started := ?started }
  case free =>
    intro slot'
    by_cases hslot : slot' = slot
    · simp [ArchSim.Tomasulo.fired, Machine.start, hslot]
    · simp [ArchSim.Tomasulo.fired, Machine.start, hslot, hsim.free]
  case held =>
    intro slot' e₁ e₁' he₁ he₁'
    by_cases hslot : slot' = slot
    · subst hslot
      have hself : (ArchSim.Tomasulo.fired s slot' e).table slot' =
          some { e with startCycle := s.currentCycle } := Function.update_self _ _ _
      have hself' : (m.start slot' e').entry slot' = some { e' with started := true } :=
        Function.update_self _ _ _
      obtain rfl := Option.some.inj (hself.symm.trans he₁)
      obtain rfl := Option.some.inj (hself'.symm.trans he₁')
      exact { hmatches with
        started := (decide_eq_true hsim.cycle_pos.ne').symm
        op := fun _ ↦ hop }
    · exact hsim.held ((Function.update_of_ne hslot _ _).symm.trans he₁)
        ((Function.update_of_ne hslot _ _).symm.trans he₁')
  case inUse =>
    intro slot' e₁' he₁'
    obtain ⟨e₀, he₀, -⟩ := entry_start he' he₁'
    exact hsim.inUse he₀
  case started =>
    change Function.update m.started e'.num (some m.now) = _
    rw [hmatches.num, hsim.now, hsim.started]

theorem fireEntry_simulates {program : List (Renaming.Inst (Fin n))} {f : Scheduler.Firing n}
    (hsim : Simulates cfg exact f.sched h program) (slot : Slot) :
    Simulates cfg exact (Tracked.fireEntry (f, h) slot).1.sched (Tracked.fireEntry (f, h) slot).2
      program := by
  obtain ⟨m, hreach, hm, rfl⟩ := hsim
  change Simulates cfg exact (Scheduler.fireEntry f slot).sched
    (h.observe f.sched (Scheduler.fireEntry f slot).sched slot) m.program
  rcases fireEntry_cases f slot with hsame | ⟨e, he, hsources, hstart, hop, hfired⟩
  · rw [hsame, observe_self]
    exact ⟨m, hreach, hm, rfl⟩
  · rw [hfired]
    obtain ⟨m', hstep, hprogram, hm'⟩ := hm.fired he hsources hstart hop
    exact ⟨m', hreach.step hstep, hm', hprogram⟩

/-- The observed loops of `fire_ready` fire what the loops fire. -/
theorem fireReady_fst (acc : Scheduler.Firing n × History) (station : Station) :
    (Tracked.fireReady cfg acc station).1 = Scheduler.fireReady cfg acc.1 station :=
  (List.foldl_hom Prod.fst fun _ _ ↦ rfl).symm

theorem startReady_simulates {program : List (Renaming.Inst (Fin n))}
    (hsim : Simulates cfg exact s h program) :
    Simulates cfg exact (Tracked.startReady cfg s h).1 (Tracked.startReady cfg s h).2 program := by
  have hstations : Simulates cfg exact
      (cfg.stations.foldl (Tracked.fireReady cfg) ({ sched := s }, h)).1.sched
      (cfg.stations.foldl (Tracked.fireReady cfg) ({ sched := s }, h)).2 program := by
    refine List.foldlRecOn
      (motive := fun acc : Scheduler.Firing n × History ↦
        Simulates cfg exact acc.1.sched acc.2 program) cfg.stations _ hsim
      fun acc hacc station _ ↦ ?_
    exact List.foldlRecOn
      (motive := fun acc : Scheduler.Firing n × History ↦
        Simulates cfg exact acc.1.sched acc.2 program) (cfg.entries station) _ hacc
      fun acc' hacc' slot _ ↦ fireEntry_simulates hacc' slot
  have hfst : (cfg.stations.foldl (Tracked.fireReady cfg) ({ sched := s }, h)).1 =
      cfg.stations.foldl (Scheduler.fireReady cfg) { sched := s } :=
    (List.foldl_hom Prod.fst fun acc station ↦ (fireReady_fst acc station).symm).symm
  rw [hfst] at hstations
  obtain ⟨m, hreach, hm, hprogram⟩ := hstations
  exact ⟨m, hreach, { hm with }, hprogram⟩

end Firing

theorem step_simulates {program : List (Renaming.Inst (Fin n))}
    (hsim : Simulates cfg exact s h program) :
    Yields False (Tracked.step cfg s h) fun acc ↦ Simulates cfg exact acc.1 acc.2 program := by
  obtain ⟨m, hreach, hm, rfl⟩ := hsim
  have htick : Simulates cfg exact { s with currentCycle := s.currentCycle + 1 } h m.program :=
    ⟨_, hreach.step .tick, { hm with
      now := congrArg (· + 1) hm.now
      cycle_pos := Nat.succ_pos _ }, rfl⟩
  exact (clearCompleted_simulates htick).bind fun acc hacc ↦ startReady_simulates hacc

/-! ## Issue -/

section Issue

variable {inst : Inst n}

/-- No valid entry holds the last writer of a source without alias; `dests` are the destinations of
the trace. -/
abbrev Scheduler.KnowsWriters (cfg : Config) (dests : List (Fin n)) (s : Scheduler n) (h : History)
    (inst : Inst n) : Prop :=
  ∀ r ∈ inst.sources, s.rat r = none → ∀ slot ∈ cfg.slots, (s.table slot).isSome →
    ¬ LastWriter dests s.stats.numInsts r (h.occupant slot)

/-- The scheduler after `inst` has been put into `slot`. -/
def issued (cfg : Config) (s : Scheduler n) (slot : Slot) (inst : Inst n) : Scheduler n :=
  { s with
    table := Function.update s.table slot (some {
      op := inst.op, dest := inst.dest, src1 := inst.src1.bind s.rat,
      src2 := inst.src2.bind s.rat })
    rat := Function.update s.rat inst.dest (some (cfg.ratIndex slot))
    stats := { s.stats with numInsts := s.stats.numInsts + 1 } }

theorem table_issued_self : (issued cfg s slot inst).table slot = some {
    op := inst.op, dest := inst.dest, src1 := inst.src1.bind s.rat,
    src2 := inst.src2.bind s.rat } := Function.update_self _ _ _

theorem mem_slots_of_stationOf {op : OpType} {station : Station}
    (hstation : cfg.stationOf op = some station) (hslot : slot ∈ cfg.entries station) :
    slot ∈ cfg.slots := by
  refine List.mem_flatMap.mpr ⟨station, ?_, hslot⟩
  cases cfg <;> cases op <;> cases hstation <;> simp [Config.stations]

/-- The station of the instruction has a free entry. -/
def Scheduler.hasRoom (cfg : Config) (s : Scheduler n) (inst : Inst n) : Bool :=
  ((cfg.stationOf inst.op).bind (s.freeSlot cfg)).isSome

theorem fst_tryIssue (s : Scheduler n) (inst : Inst n) :
    (s.tryIssue cfg inst).1 = s.hasRoom cfg inst := by
  unfold Scheduler.tryIssue Scheduler.hasRoom
  cases cfg.stationOf inst.op with
  | none => rfl
  | some station =>
    simp only [Scheduler.addEntry, Option.bind_some]
    cases s.freeSlot cfg station <;> rfl

/-- An issue that fails changes the count of stalls at most, and one that succeeds fills a free
entry. -/
theorem tryIssue_cases (cfg : Config) (s : Scheduler n) (h : History) (inst : Inst n) :
    (∃ stats, stats.numInsts = s.stats.numInsts ∧
      s.tryIssue cfg inst = (false, { s with stats := stats }) ∧
      Tracked.issue cfg s h inst = h) ∨
    ∃ slot ∈ cfg.slots, s.table slot = none ∧
      s.tryIssue cfg inst = (true, issued cfg s slot inst) ∧
      Tracked.issue cfg s h inst = h.occupy slot s.stats.numInsts := by
  cases hstation : cfg.stationOf inst.op with
  | none =>
    have htry : s.tryIssue cfg inst = (false, s) := by simp only [Scheduler.tryIssue, hstation]
    exact .inl ⟨s.stats, rfl, htry,
      by simp only [Tracked.issue, htry, Bool.false_eq_true, if_false]⟩
  | some station =>
    cases hfree : s.freeSlot cfg station with
    | none =>
      have htry : s.tryIssue cfg inst = (false, { s with
          stats := { s.stats with issueStall := s.stats.issueStall + 1 } }) := by
        simp only [Scheduler.tryIssue, hstation, Scheduler.addEntry, hfree]
      exact .inl ⟨{ s.stats with issueStall := s.stats.issueStall + 1 }, rfl, htry,
        by simp only [Tracked.issue, htry, Bool.false_eq_true, if_false]⟩
    | some slot =>
      have htry : s.tryIssue cfg inst = (true, issued cfg s slot inst) := by
        simp only [Scheduler.tryIssue, hstation, Scheduler.addEntry, hfree, issued]
      have hslot := mem_slots_of_stationOf hstation (List.mem_of_find?_eq_some hfree)
      have hnone : (s.table slot).isNone = true :=
        List.find?_some (p := fun slot ↦ (s.table slot).isNone) hfree
      refine .inr ⟨slot, hslot, Option.isNone_iff_eq_none.mp hnone, htry, ?_⟩
      simp only [Tracked.issue, htry, if_true, hstation, Option.bind_some, hfree]

/-- The entries that an instruction waits for have the aliases of its sources. -/
theorem Sim.map_waits (hsim : Sim cfg s h m) (inst : Inst n) :
    (inst.sources.filterMap m.aliasOf).map cfg.ratIndex =
      (inst.src1.bind s.rat).toList ++ (inst.src2.bind s.rat).toList := by
  have hsource (src : Option (Fin n)) : (src.toList.filterMap m.aliasOf).map cfg.ratIndex =
      (src.bind s.rat).toList := by
    cases src with
    | none => rfl
    | some r =>
      rw [Option.bind_some, hsim.rat]
      cases hr : m.aliasOf r <;> simp [hr]
  rw [Inst.sources, List.filterMap_append, List.map_append, hsource, hsource]

/-- An instruction that is issued is issued in the machine. -/
theorem Sim.issued (hsim : Sim cfg s h m) (hslot : slot ∈ cfg.slots) (hfree : s.table slot = none)
    (hknows : exact → s.KnowsWriters cfg m.dests h inst) :
    Step exact m (m.issue slot inst.renaming) ∧
      Sim cfg (issued cfg s slot inst) (h.occupy slot s.stats.numInsts)
        (m.issue slot inst.renaming) := by
  have hfree' : m.entry slot = none := (hsim.free slot).mp hfree
  constructor
  · refine .issue hfree' fun hexact r hr hnone t e' he' ↦ ?_
    have hrat : s.rat r = none := by rw [hsim.rat, hnone]; rfl
    cases he : s.table t with
    | none =>
      rw [(hsim.free t).mp he] at he'
      cases he'
    | some e =>
      rw [(hsim.held he he').num, length_dests, hsim.numInsts]
      exact hknows hexact r hr hrat t (hsim.inUse he') (by rw [he]; rfl)
  · refine { hsim with
      rat := ?rat, free := ?free, held := ?held, inUse := ?inUse, numInsts := ?numInsts }
    case rat =>
      intro r
      by_cases hr : r = inst.dest
      · simp [ArchSim.Tomasulo.issued, Machine.issue, Inst.renaming, hr]
      · simp [ArchSim.Tomasulo.issued, Machine.issue, Inst.renaming, hr, hsim.rat]
    case free =>
      intro slot'
      by_cases hne : slot' = slot
      · simp [ArchSim.Tomasulo.issued, Machine.issue, hne]
      · simp [ArchSim.Tomasulo.issued, Machine.issue, hne, hsim.free]
    case held =>
      intro slot' e e' he he'
      rcases entry_issue he' with ⟨rfl, rfl⟩ | ⟨hne, hold⟩
      · obtain rfl := Option.some.inj (table_issued_self.symm.trans he)
        refine ⟨?_, rfl, hsim.map_waits inst, rfl, fun hstart ↦ absurd rfl hstart⟩
        exact hsim.numInsts.trans (Function.update_self slot' _ h.occupant).symm
      · have hoccupant : (h.occupy slot s.stats.numInsts).occupant slot' = h.occupant slot' :=
          Function.update_of_ne hne _ _
        rw [hoccupant]
        exact hsim.held ((Function.update_of_ne hne _ _).symm.trans he) hold
    case inUse =>
      intro slot' e' he'
      rcases entry_issue he' with ⟨rfl, -⟩ | ⟨-, hold⟩
      · exact hslot
      · exact hsim.inUse hold
    case numInsts => exact length_issue.trans (congrArg (· + 1) hsim.numInsts)

theorem issue_simulates {program : List (Renaming.Inst (Fin n))}
    (hsim : Simulates cfg exact s h program)
    (hknows : exact → (s.tryIssue cfg inst).1 = true →
      s.KnowsWriters cfg (program.map Renaming.Inst.dest) h inst) :
    Simulates cfg exact (s.tryIssue cfg inst).2 (Tracked.issue cfg s h inst)
      (if (s.tryIssue cfg inst).1 then program ++ [inst.renaming] else program) := by
  obtain ⟨m, hreach, hm, rfl⟩ := hsim
  rcases tryIssue_cases cfg s h inst with ⟨stats, hnum, htry, hissue⟩ |
    ⟨slot, hslot, hfree, htry, hissue⟩
  · rw [htry, hissue]
    exact ⟨m, hreach, { hm with numInsts := hm.numInsts.trans hnum.symm }, rfl⟩
  · rw [hissue]
    obtain ⟨hstep, hm'⟩ := hm.issued hslot hfree fun hexact ↦ hknows hexact (by rw [htry])
    rw [htry]
    exact ⟨_, hreach.step hstep, hm', rfl⟩

end Issue

/-! ## Runs -/

/-- A state of the driver: what has been issued and what has not are the trace. -/
def Follows (cfg : Config) (exact : Prop) (trace : List (Inst n)) (t : Tracked n) : Prop :=
  ∃ before, trace = before ++ t.driver.trace ∧
    Simulates cfg exact t.driver.sched t.history (before.map Inst.renaming)

theorem initial_follows (trace : List (Inst n)) :
    Follows cfg exact trace ⟨.initial trace, {}⟩ := by
  refine ⟨[], rfl, ⟨[], fun _ ↦ none, fun _ ↦ none, 1, fun _ ↦ none, fun _ ↦ none⟩, ?_, ?_, rfl⟩
  · exact .initial ⟨rfl, fun _ ↦ rfl, fun _ ↦ rfl, fun _ ↦ rfl, fun _ ↦ rfl⟩
  · exact ⟨fun _ ↦ rfl, fun _ ↦ ⟨fun _ ↦ rfl, fun _ ↦ rfl⟩, nofun, nofun, rfl, rfl, rfl, rfl,
      Nat.one_pos⟩

/-- The instruction that is about to be issued, if there is room for it, waits for those last
writers of its sources that are in flight. -/
abbrev Tracked.KnowsWriters (cfg : Config) (trace : List (Inst n)) (t : Tracked n) : Prop :=
  ∀ inst ∈ t.driver.trace.head?, t.driver.sched.hasRoom cfg inst →
    t.driver.sched.KnowsWriters cfg (trace.map Inst.dest) t.history inst

theorem map_dest_renaming (insts : List (Inst n)) :
    (insts.map Inst.renaming).map Renaming.Inst.dest = insts.map Inst.dest := List.map_map

/-- What is not issued yet does not change who is the last writer. -/
theorem Scheduler.KnowsWriters.of_append {before rest : List (Inst n)} {inst : Inst n}
    (hsim : Simulates cfg exact s h (before.map Inst.renaming))
    (hknows : s.KnowsWriters cfg ((before ++ rest).map Inst.dest) h inst) :
    s.KnowsWriters cfg ((before.map Inst.renaming).map Renaming.Inst.dest) h inst := by
  obtain ⟨m, -, hm, hprogram⟩ := hsim
  have hlength : s.stats.numInsts ≤ (before.map Inst.dest).length := by
    rw [← hm.numInsts, hprogram, List.length_map, List.length_map]
  intro r hr hnone slot hslot hsome
  rw [map_dest_renaming, ← LastWriter.append_iff hlength, ← List.map_append]
  exact hknows r hr hnone slot hslot hsome

theorem body_follows {trace : List (Inst n)} {t : Tracked n} (ht : Follows cfg exact trace t)
    (hknows : exact → t.KnowsWriters cfg trace) :
    Yields False (t.body cfg) (Follows cfg exact trace) := by
  obtain ⟨before, htrace, hsim⟩ := ht
  unfold Tracked.body
  cases hrest : t.driver.trace with
  | nil =>
    refine (step_simulates hsim).bind fun acc hacc ↦ ?_
    exact ⟨before, by rw [htrace, hrest], hacc⟩
  | cons inst rest =>
    have hsplit : trace = before ++ inst :: rest := by rw [htrace, hrest]
    have hissue := issue_simulates hsim fun hexact hsuccess ↦
      .of_append hsim (hsplit ▸ hknows hexact inst (by rw [hrest]; rfl)
        (fst_tryIssue t.driver.sched inst ▸ hsuccess))
    refine (step_simulates hissue).bind fun acc hacc ↦ ?_
    cases hsuccess : (t.driver.sched.tryIssue cfg inst).1 with
    | false =>
      rw [hsuccess] at hacc
      refine ⟨before, ?_, hacc⟩
      change trace = before ++ if (t.driver.sched.tryIssue cfg inst).1 then rest else inst :: rest
      rw [hsuccess]
      exact hsplit
    | true =>
      rw [hsuccess] at hacc
      refine ⟨before ++ [inst], ?_, by rw [List.map_append]; exact hacc⟩
      change trace = before ++ [inst] ++
        if (t.driver.sched.tryIssue cfg inst).1 then rest else inst :: rest
      rw [hsuccess, List.append_assoc]
      exact hsplit

end ArchSim.Tomasulo
