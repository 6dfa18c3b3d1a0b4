import ArchSim.Library.Counting
import ArchSim.Tomasulo.Steps
import Mathlib.Algebra.Order.BigOperators.Group.List
import Mathlib.Algebra.Order.Group.Nat

/-!
# The loops of the driver end

Every instruction has a weight: what it may still take to be issued, to be fired, or to be cleared.
No iteration makes a weight larger, and each makes one smaller: it issues an instruction, or an
instruction that is executing comes nearer to its end, or, when none is executing, the oldest
instruction in flight waits for nothing, so that some instruction is fired.
-/

namespace ArchSim.Tomasulo

open Library Renaming

variable {n : ℕ} {cfg : Config}

/-- Every station in use has an entry. -/
def Config.Nonempty (cfg : Config) : Prop := ∀ station ∈ cfg.stations, 1 ≤ cfg.size station

instance : Decidable cfg.Nonempty := inferInstanceAs (Decidable (∀ station ∈ cfg.stations, _))

/-- Every line of the trace is one of the three instructions. -/
def Executable (insts : List (Inst n)) : Prop := ∀ inst ∈ insts, inst.op ≠ .OP_INVALID

instance {insts : List (Inst n)} : Decidable (Executable insts) :=
  inferInstanceAs (Decidable (∀ inst ∈ insts, _))

/-! ## One iteration -/

/-- The scheduler after an issue that has failed. -/
def stalled (s : Scheduler n) : Scheduler n :=
  { s with stats := { s.stats with issueStall := s.stats.issueStall + 1 } }

/-- The station of an instruction. -/
theorem exists_stationOf (cfg : Config) {op : OpType} (hop : op ≠ .OP_INVALID) :
    ∃ station, cfg.stationOf op = some station ∧ station ∈ cfg.stations := by
  cases cfg <;> cases op <;> simp_all [Config.stationOf, Config.stations]

/-- An issue fails if the station is full. -/
theorem tryIssue_spec (cfg : Config) (s : Scheduler n) {inst : Inst n}
    (hop : inst.op ≠ .OP_INVALID) :
    (∃ station ∈ cfg.stations, (∀ slot ∈ cfg.entries station, s.table slot ≠ none) ∧
      s.tryIssue cfg inst = (false, stalled s)) ∨
    ∃ slot ∈ cfg.slots, s.table slot = none ∧
      s.tryIssue cfg inst = (true, issued cfg s slot inst) := by
  obtain ⟨station, hstation, hmem⟩ := exists_stationOf cfg hop
  cases hfree : s.freeSlot cfg station with
  | none =>
    refine .inl ⟨station, hmem, fun slot hslot ↦ ?_, ?_⟩
    · have hnot := List.find?_eq_none.mp hfree slot hslot
      simpa using hnot
    · simp only [Scheduler.tryIssue, hstation, Scheduler.addEntry, hfree, stalled]
  | some slot =>
    refine .inr ⟨slot, mem_slots_of_stationOf hstation (List.mem_of_find?_eq_some hfree), ?_, ?_⟩
    · have hnone : (s.table slot).isNone = true :=
        List.find?_some (p := fun slot ↦ (s.table slot).isNone) hfree
      exact Option.isNone_iff_eq_none.mp hnone
    · simp only [Scheduler.tryIssue, hstation, Scheduler.addEntry, hfree, issued]

/-- What an iteration of the loops of the driver does. -/
inductive Driver.Moves (cfg : Config) (d d' : Driver n) : Prop where
  | issues {inst : Inst n} {slot : Slot} : d.trace = inst :: d'.trace → slot ∈ cfg.slots →
      d.sched.table slot = none → d.sched.tryIssue cfg inst = (true, issued cfg d.sched slot inst) →
      Advances cfg (issued cfg d.sched slot inst) d'.sched → Moves cfg d d'
  | stalls {inst : Inst n} {rest : List (Inst n)} {station : Station} : d.trace = inst :: rest →
      d'.trace = d.trace → station ∈ cfg.stations →
      (∀ slot ∈ cfg.entries station, d.sched.table slot ≠ none) →
      d.sched.tryIssue cfg inst = (false, stalled d.sched) →
      Advances cfg (stalled d.sched) d'.sched → Moves cfg d d'
  | drains : d.trace = [] → d'.trace = [] → Advances cfg d.sched d'.sched → Moves cfg d d'

theorem table_issued_of_ne {s : Scheduler n} {slot slot' : Slot} {inst : Inst n}
    (h : slot' ≠ slot) : (issued cfg s slot inst).table slot' = s.table slot' :=
  Function.update_of_ne h _ _

theorem opsValid_issued {s : Scheduler n} {slot : Slot} {inst : Inst n} (hops : s.OpsValid)
    (hop : inst.op ≠ .OP_INVALID) : (issued cfg s slot inst).OpsValid := by
  intro slot' e he
  by_cases hne : slot' = slot
  · subst hne
    obtain rfl := Option.some.inj (table_issued_self.symm.trans he)
    exact hop
  · exact hops slot' e ((table_issued_of_ne hne).symm.trans he)

theorem Driver.body_moves (cfg : Config) {d : Driver n} (hops : d.sched.OpsValid)
    (htrace : Executable d.trace) : ∃ d', d.body cfg = .ok d' ∧ d.Moves cfg d' := by
  unfold Driver.body
  cases hrest : d.trace with
  | nil =>
    obtain ⟨s', hs', hadvances⟩ := step_spec cfg hops
    refine ⟨⟨s', []⟩, ?_, .drains hrest rfl hadvances⟩
    simp only [hs', bind, Except.bind]
    rfl
  | cons inst rest =>
    have hop : inst.op ≠ .OP_INVALID := htrace inst (by rw [hrest]; exact List.mem_cons_self)
    rcases tryIssue_spec cfg d.sched hop with ⟨station, hmem, hfull, htry⟩ |
      ⟨slot, hslot, hfree, htry⟩
    · obtain ⟨s', hs', hadvances⟩ := step_spec cfg (s := stalled d.sched) hops
      refine ⟨⟨s', inst :: rest⟩, ?_, .stalls hrest hrest.symm hmem hfull htry hadvances⟩
      simp only [htry, hs', bind, Except.bind]
      rfl
    · have hissued : (issued cfg d.sched slot inst).OpsValid := opsValid_issued hops hop
      obtain ⟨s', hs', hadvances⟩ := step_spec cfg hissued
      refine ⟨⟨s', rest⟩, ?_, .issues hrest hslot hfree htry hadvances⟩
      simp only [htry, hs', bind, Except.bind]
      rfl

/-! ## What always holds -/

/-- What is executing has its sources, and its time is still to come. -/
structure Driver.Sound (cfg : Config) (d : Driver n) : Prop where
  opsValid : d.sched.OpsValid
  trace : Executable d.trace
  cycle_pos : 0 < d.sched.currentCycle
  executing : ∀ slot ∈ cfg.slots, ∀ e, d.sched.table slot = some e → e.startCycle ≠ 0 →
    e.sources = [] ∧ e.startCycle ≤ d.sched.currentCycle ∧ d.sched.currentCycle < e.due

theorem Driver.initial_sound {insts : List (Inst n)} (hops : Executable insts) :
    (Driver.initial insts).Sound cfg :=
  ⟨nofun, hops, Nat.one_pos, nofun⟩

/-- The step that `d'` ends with, and the table before it. -/
theorem Driver.Moves.passes {d d' : Driver n} (h : d.Moves cfg d') {slot : Slot}
    (hslot : slot ∈ cfg.slots) {e : RESTEntry n} (he : d.sched.table slot = some e) :
    Passes (d.sched.currentCycle + 1) (some e) (d'.sched.table slot) := by
  cases h with
  | issues _ _ hfree _ hadvances =>
    have hpasses := hadvances.passes slot hslot
    have hne : slot ≠ _ := fun heq ↦ by
      rw [heq, hfree] at he
      cases he
    rwa [table_issued_of_ne hne, he] at hpasses
  | stalls _ _ _ _ _ hadvances => exact he ▸ hadvances.passes slot hslot
  | drains _ _ hadvances => exact he ▸ hadvances.passes slot hslot

theorem Driver.Moves.currentCycle {d d' : Driver n} (h : d.Moves cfg d') :
    d'.sched.currentCycle = d.sched.currentCycle + 1 := by
  cases h with
  | issues _ _ _ _ hadvances => exact hadvances.currentCycle
  | stalls _ _ _ _ _ hadvances => exact hadvances.currentCycle
  | drains _ _ hadvances => exact hadvances.currentCycle

/-- The executing entries after a step. -/
theorem executing_of_advances {s s' : Scheduler n} (h : Advances cfg s s')
    (hexecuting : ∀ slot ∈ cfg.slots, ∀ e, s.table slot = some e → e.startCycle ≠ 0 →
      e.sources = [] ∧ e.startCycle ≤ s.currentCycle ∧ s.currentCycle < e.due) :
    ∀ slot ∈ cfg.slots, ∀ e, s'.table slot = some e → e.startCycle ≠ 0 →
      e.sources = [] ∧ e.startCycle ≤ s'.currentCycle ∧ s'.currentCycle < e.due := by
  intro slot hslot e he hstart
  rw [h.currentCycle]
  have hpasses := h.passes slot hslot
  have hop := h.opsValid slot e he
  rw [he] at hpasses
  generalize hold : s.table slot = old at hpasses
  cases hpasses with
  | @keeps e₀ _ hnotDue hnarrow =>
    have hstart₀ : e₀.startCycle ≠ 0 := hnarrow.startCycle ▸ hstart
    obtain ⟨hsources, hle, hlt⟩ := hexecuting slot hslot e₀ hold hstart₀
    have hdue := hnotDue hstart₀
    rw [hnarrow.due, hnarrow.startCycle]
    exact ⟨hnarrow.sources_eq_nil hsources, by omega, by omega⟩
  | @fires _ e₁ _ _ hsources =>
    exact ⟨hsources, le_rfl, Nat.lt_add_of_pos_right (OpType.latency_pos hop)⟩

/-- An instruction that is issued is not executing yet. -/
theorem executing_issued {s : Scheduler n} {slot : Slot} {inst : Inst n}
    (hexecuting : ∀ slot ∈ cfg.slots, ∀ e, s.table slot = some e → e.startCycle ≠ 0 →
      e.sources = [] ∧ e.startCycle ≤ s.currentCycle ∧ s.currentCycle < e.due) :
    ∀ slot' ∈ cfg.slots, ∀ e, (issued cfg s slot inst).table slot' = some e → e.startCycle ≠ 0 →
      e.sources = [] ∧ e.startCycle ≤ s.currentCycle ∧ s.currentCycle < e.due := by
  intro slot' hslot' e he hstart
  by_cases hne : slot' = slot
  · subst hne
    obtain rfl := Option.some.inj (table_issued_self.symm.trans he)
    exact absurd rfl hstart
  · exact hexecuting slot' hslot' e ((table_issued_of_ne hne).symm.trans he) hstart

theorem Driver.Moves.sound {d d' : Driver n} (h : d.Moves cfg d') (hsound : d.Sound cfg) :
    d'.Sound cfg := by
  have hcycle : 0 < d'.sched.currentCycle := by
    rw [h.currentCycle]
    exact Nat.succ_pos _
  cases h with
  | @issues inst slot htrace hslot hfree _ hadvances =>
    refine ⟨hadvances.opsValid, fun inst' hinst' ↦ ?_, hcycle,
      executing_of_advances hadvances (executing_issued hsound.executing)⟩
    exact hsound.trace inst' (htrace ▸ List.mem_cons_of_mem _ hinst')
  | stalls _ hsame _ _ _ hadvances =>
    exact ⟨hadvances.opsValid, hsame.symm ▸ hsound.trace, hcycle,
      executing_of_advances hadvances hsound.executing⟩
  | drains _ hnil hadvances =>
    exact ⟨hadvances.opsValid, hnil.symm ▸ nofun, hcycle,
      executing_of_advances hadvances hsound.executing⟩

/-! ## Weights -/

/-- What the instruction in an entry may still take in the cycle `c`. -/
def weight (c : ℕ) : Option (RESTEntry n) → ℕ
  | none => 0
  | some e => if e.startCycle = 0 then 21 else e.due - c

theorem weight_le {c : ℕ} {o o' : Option (RESTEntry n)} (h : Passes (c + 1) o o') :
    weight (c + 1) o' ≤ weight c o := by
  cases h with
  | free => exact le_rfl
  | clears => exact Nat.zero_le _
  | keeps _ hnarrow =>
    simp only [weight, hnarrow.startCycle, hnarrow.due]
    split <;> omega
  | @fires e e' hstart =>
    have hle := e'.op.latency_le
    simp only [weight, hstart, if_true, RESTEntry.due]
    split <;> omega

/-- An instruction that has been executing, or is now, comes nearer to its end. -/
theorem weight_lt {c : ℕ} {e : RESTEntry n} {o' : Option (RESTEntry n)}
    (h : Passes (c + 1) (some e) o') (hdue : e.startCycle ≠ 0 → c < e.due)
    (hstarted : e.startCycle ≠ 0 ∨ ∃ e', o' = some e' ∧ e'.startCycle ≠ 0) :
    weight (c + 1) o' < weight c (some e) := by
  cases h with
  | clears hstart =>
    have hlt := hdue hstart
    simp only [weight, hstart, if_false]
    omega
  | keeps _ hnarrow =>
    have hstart : e.startCycle ≠ 0 := by
      rcases hstarted with hstart | ⟨e', he', hstart⟩
      · exact hstart
      · obtain rfl := Option.some.inj he'
        rwa [hnarrow.startCycle] at hstart
    have hlt := hdue hstart
    simp only [weight, hnarrow.startCycle, hnarrow.due, hstart, if_false]
    omega
  | @fires _ e' hstart =>
    have hle := e'.op.latency_le
    simp only [weight, hstart, if_true, RESTEntry.due]
    split <;> omega

/-- What the instructions in flight may still take. -/
def Scheduler.load (cfg : Config) (s : Scheduler n) : ℕ :=
  (cfg.slots.map fun slot ↦ weight s.currentCycle (s.table slot)).sum

theorem Advances.load_le {s s' : Scheduler n} (h : Advances cfg s s') :
    s'.load cfg ≤ s.load cfg := by
  apply List.sum_le_sum
  intro slot hslot
  rw [h.currentCycle]
  exact weight_le (h.passes slot hslot)

/-- An instruction is executing, or one has been fired. -/
theorem Advances.load_lt {s s' : Scheduler n} (h : Advances cfg s s')
    (hdue : ∀ slot ∈ cfg.slots, ∀ e, s.table slot = some e → e.startCycle ≠ 0 →
      s.currentCycle < e.due)
    (hmoves : (∃ slot ∈ cfg.slots, ∃ e, s.table slot = some e ∧ e.startCycle ≠ 0) ∨
      ∃ slot ∈ cfg.slots, s.Ready slot) : s'.load cfg < s.load cfg := by
  obtain ⟨slot, hslot, e, he, hstarted⟩ : ∃ slot ∈ cfg.slots, ∃ e, s.table slot = some e ∧
      (e.startCycle ≠ 0 ∨ ∃ e', s'.table slot = some e' ∧ e'.startCycle ≠ 0) := by
    rcases hmoves with ⟨slot, hslot, e, he, hstart⟩ | ⟨slot, hslot, hready⟩
    · exact ⟨slot, hslot, e, he, .inl hstart⟩
    · obtain ⟨slot', hslot', e, e', he, -, he', hstart'⟩ := h.fires slot hslot hready
      exact ⟨slot', hslot', e, he, .inr ⟨e', he', hstart'⟩⟩
  apply List.sum_lt_sum
  · intro slot' hslot'
    rw [h.currentCycle]
    exact weight_le (h.passes slot' hslot')
  · refine ⟨slot, hslot, ?_⟩
    have hpasses := h.passes slot hslot
    rw [he] at hpasses
    rw [h.currentCycle, he]
    exact weight_lt hpasses (hdue slot hslot e he) hstarted

theorem load_issued {s : Scheduler n} {slot : Slot} {inst : Inst n} (hslot : slot ∈ cfg.slots)
    (hfree : s.table slot = none) :
    (issued cfg s slot inst).load cfg = s.load cfg + 21 := by
  have hsum := sum_map_of_eq (f := fun slot' ↦ weight s.currentCycle (s.table slot'))
    (g := fun slot' ↦ weight s.currentCycle ((issued cfg s slot inst).table slot')) hslot
    (nodup_slots cfg) fun slot' _ hne ↦ by rw [table_issued_of_ne hne]
  rw [hfree, table_issued_self] at hsum
  exact hsum

/-- What the trace and the instructions in flight may still take. -/
def Driver.measure (cfg : Config) (d : Driver n) : ℕ := 22 * d.trace.length + d.sched.load cfg

/-! ## Progress -/

/-- The oldest instruction in flight waits for nothing. -/
theorem Sim.executing_or_ready {s : Scheduler n} {h : History} {m : Machine Slot (Fin n)}
    (hsim : Sim cfg s h m) (hinv : Inv m) {slot : Slot} (hsome : s.table slot ≠ none) :
    (∃ slot ∈ cfg.slots, ∃ e, s.table slot = some e ∧ e.startCycle ≠ 0) ∨
      ∃ slot ∈ cfg.slots, s.Ready slot := by
  obtain ⟨e₀, he₀⟩ := Option.ne_none_iff_exists'.mp hsome
  obtain ⟨e₀', he₀', -⟩ := hsim.exists_entry he₀
  obtain ⟨slot', e', he', hwaits⟩ := hinv.exists_waits_eq_nil he₀'
  have hslot' := hsim.inUse he'
  cases he : s.table slot' with
  | none =>
    rw [(hsim.free slot').mp he] at he'
    cases he'
  | some e =>
    have hsources : e.sources = [] := by
      rw [← (hsim.held he he').waits, hwaits]
      rfl
    by_cases hstart : e.startCycle = 0
    · exact .inr ⟨slot', hslot', e, he, hsources, hstart⟩
    · exact .inl ⟨slot', hslot', e, he, hstart⟩

/-- The state of the driver is one of its runs. -/
def Driver.Runs (cfg : Config) (insts : List (Inst n)) (d : Driver n) : Prop :=
  d.Sound cfg ∧ ∃ h, Follows cfg False insts ⟨d, h⟩

theorem Driver.initial_runs {insts : List (Inst n)} (hops : Executable insts) :
    (Driver.initial insts).Runs cfg insts :=
  ⟨initial_sound hops, {}, initial_follows insts⟩

theorem Driver.Runs.body {insts : List (Inst n)} {d : Driver n} (h : d.Runs cfg insts) :
    ∃ d', d.body cfg = .ok d' ∧ d.Moves cfg d' ∧ d'.Runs cfg insts := by
  obtain ⟨hsound, history, hfollows⟩ := h
  obtain ⟨d', hd', hmoves⟩ := Driver.body_moves cfg hsound.opsValid hsound.trace
  obtain ⟨t, ht, hfollows'⟩ := (body_follows hfollows False.elim).exists_of_not not_false
  have herases := Tracked.body_erases cfg (⟨d, history⟩ : Tracked n)
  rw [ht] at herases
  obtain rfl : t.driver = d' := Except.ok.inj (herases.trans hd')
  exact ⟨t.driver, hd', hmoves, hmoves.sound hsound, t.history, hfollows'⟩

/-- An iteration makes the measure smaller, unless the loops have ended. -/
theorem Driver.Moves.measure_lt {insts : List (Inst n)} {d d' : Driver n} (hsizes : cfg.Nonempty)
    (h : d.Moves cfg d') (hruns : d.Runs cfg insts) (hdone : d.done cfg = false) :
    d'.measure cfg < d.measure cfg := by
  obtain ⟨hsound, history, before, -, m, hreach, hsim, -⟩ := hruns
  have hdue : ∀ slot ∈ cfg.slots, ∀ e, d.sched.table slot = some e → e.startCycle ≠ 0 →
      d.sched.currentCycle < e.due :=
    fun slot hslot e he hstart ↦ (hsound.executing slot hslot e he hstart).2.2
  cases h with
  | issues htrace hslot hfree _ hadvances =>
    have hle := hadvances.load_le
    rw [load_issued hslot hfree] at hle
    simp only [Driver.measure, htrace, List.length_cons]
    omega
  | @stalls _ _ station _ hsame hstation hfull _ hadvances =>
    obtain ⟨slot, hslot⟩ : ∃ slot, slot ∈ cfg.entries station :=
      ⟨(station, 0), List.mem_map.mpr ⟨0, List.mem_range.mpr (hsizes station hstation), rfl⟩⟩
    have hlt := hadvances.load_lt hdue
      (hsim.executing_or_ready hreach.inv (hfull slot hslot))
    have hload : (stalled d.sched).load cfg = d.sched.load cfg := rfl
    simp only [Driver.measure, hsame]
    omega
  | drains hnil hnil' hadvances =>
    have hnot : d.sched.completed cfg = false := by
      simpa only [Driver.done, hnil, List.isEmpty_nil, Bool.true_and] using hdone
    obtain ⟨slot, -, hsome⟩ : ∃ slot ∈ cfg.slots, ¬ (d.sched.table slot).isNone = true := by
      simpa only [Scheduler.completed, List.all_eq_false] using hnot
    have hlt := hadvances.load_lt hdue
      (hsim.executing_or_ready hreach.inv fun hnone ↦ hsome (by rw [hnone]; rfl))
    simp only [Driver.measure, hnil, hnil', List.length_nil]
    omega

/-! ## Runs -/

theorem Driver.after_runs {insts : List (Inst n)} {d : Driver n} {k : ℕ} (hops : Executable insts)
    (h : (Driver.loop cfg n).after k (.initial insts) = some d) : d.Runs cfg insts := by
  refine Loop.after_invariant (initial_runs hops) (fun d d' hd _ hbody ↦ ?_) h
  obtain ⟨d₁, hd₁, -, hruns⟩ := hd.body
  obtain rfl : d₁ = d' := Except.ok.inj (hd₁.symm.trans hbody)
  exact hruns

/-- The last iteration of a run. -/
theorem Driver.exists_moves {insts : List (Inst n)} {d' : Driver n} {k : ℕ}
    (hops : Executable insts)
    (h : (Driver.loop cfg n).after (k + 1) (.initial insts) = some d') :
    ∃ d, (Driver.loop cfg n).after k (.initial insts) = some d ∧ d.Runs cfg insts ∧
      d.Moves cfg d' := by
  obtain ⟨d, hk, -, hbody⟩ := Loop.exists_of_after_succ h
  have hruns := after_runs hops hk
  obtain ⟨d₁, hd₁, hmoves, -⟩ := hruns.body
  obtain rfl : d₁ = d' := Except.ok.inj (hd₁.symm.trans hbody)
  exact ⟨d, hk, hruns, hmoves⟩

theorem Driver.Moves.trace_eq {d d' : Driver n} (h : d.Moves cfg d') :
    d'.trace = d.trace ∨ ∃ inst, d.trace = inst :: d'.trace := by
  cases h with
  | issues htrace => exact .inr ⟨_, htrace⟩
  | stalls _ hsame => exact .inl hsame
  | drains hnil hnil' => exact .inl (hnil'.trans hnil.symm)

/-- The instructions leave the trace one after the other. -/
theorem Driver.exists_issue {insts : List (Inst n)} (hops : Executable insts) {k : ℕ}
    {d : Driver n} (h : (Driver.loop cfg n).after k (.initial insts) = some d) :
    ∃ p, d.trace = insts.drop p ∧ p ≤ insts.length ∧ ∀ j < p, ∃ i < k, ∃ d₁ d₂,
      (Driver.loop cfg n).after i (.initial insts) = some d₁ ∧
      (Driver.loop cfg n).after (i + 1) (.initial insts) = some d₂ ∧ d₁.Moves cfg d₂ ∧
      d₁.trace = insts.drop j ∧ d₂.trace = insts.drop (j + 1) := by
  induction k generalizing d with
  | zero =>
    obtain rfl := Option.some.inj h
    exact ⟨0, rfl, Nat.zero_le _, fun j hj ↦ absurd hj (Nat.not_lt_zero j)⟩
  | succ k ih =>
    obtain ⟨d₁, hk, -, hmoves⟩ := exists_moves hops h
    obtain ⟨p, htrace, hle, hissues⟩ := ih hk
    have hbefore (j : ℕ) (hj : j < p) : ∃ i < k + 1, ∃ d₁ d₂,
        (Driver.loop cfg n).after i (.initial insts) = some d₁ ∧
        (Driver.loop cfg n).after (i + 1) (.initial insts) = some d₂ ∧ d₁.Moves cfg d₂ ∧
        d₁.trace = insts.drop j ∧ d₂.trace = insts.drop (j + 1) := by
      obtain ⟨i, hi, hissue⟩ := hissues j hj
      exact ⟨i, hi.trans (Nat.lt_succ_self k), hissue⟩
    rcases hmoves.trace_eq with hsame | ⟨inst, hcons⟩
    · exact ⟨p, hsame.trans htrace, hle, hbefore⟩
    · have hlt : p < insts.length := by
        by_contra hge
        rw [htrace, List.drop_eq_nil_of_le (by omega)] at hcons
        cases hcons
      have hnext : d.trace = insts.drop (p + 1) := by
        rw [htrace, List.drop_eq_getElem_cons hlt] at hcons
        exact (List.cons.inj hcons).2.symm
      refine ⟨p + 1, hnext, hlt, fun j hj ↦ ?_⟩
      rcases Nat.lt_succ_iff_lt_or_eq.mp hj with hlt' | rfl
      · exact hbefore j hlt'
      · exact ⟨k, Nat.lt_succ_self k, d₁, d, hk, h, hmoves, htrace, hnext⟩

theorem Driver.exists_end (hsizes : cfg.Nonempty) {insts : List (Inst n)}
    (hops : Executable insts) : ∃ k d, (Driver.loop cfg n).after k (.initial insts) = some d ∧
      d.trace = [] ∧ d.sched.completed cfg = true := by
  obtain ⟨k, d, hk, -, hdone⟩ := (Driver.loop cfg n).after_terminates (I := Driver.Runs cfg insts)
    (Driver.measure cfg) (fun d hd hnot ↦ by
      obtain ⟨d', hd', hmoves, hruns⟩ := hd.body
      exact ⟨d', hd', hruns, hmoves.measure_lt hsizes hd hnot⟩)
    (Driver.initial_runs hops)
  have hdone' : (d.trace.isEmpty && d.sched.completed cfg) = true := hdone
  rw [Bool.and_eq_true, List.isEmpty_iff] at hdone'
  exact ⟨k, d, hk, hdone'⟩

/-- The loop that retries an instruction ends for every instruction, and so does the one that lets
the pipeline drain. -/
theorem driver_terminates (cfg : Config) (hsizes : cfg.Nonempty) (insts : List (Inst n))
    (hops : Executable insts) :
    (∀ j ≤ insts.length, ∃ k d, (Driver.loop cfg n).after k (.initial insts) = some d ∧
      d.trace = insts.drop j) ∧
    ∃ k d, (Driver.loop cfg n).after k (.initial insts) = some d ∧ d.trace = [] ∧
      d.sched.completed cfg = true := by
  obtain ⟨k, d, hk, htrace, hcompleted⟩ := Driver.exists_end hsizes hops
  refine ⟨fun j hj ↦ ?_, k, d, hk, htrace, hcompleted⟩
  cases j with
  | zero => exact ⟨0, _, rfl, rfl⟩
  | succ j =>
    obtain ⟨p, hdrop, hp, hissues⟩ := Driver.exists_issue hops hk
    have hlt : j < p := by
      have hlength := List.drop_eq_nil_iff.mp (hdrop.symm.trans htrace)
      omega
    obtain ⟨i, -, -, d₂, -, hi, -, -, hdrop₂⟩ := hissues j hlt
    exact ⟨i + 1, d₂, hi, hdrop₂⟩

theorem driver_terminates_twoDivisions :
    (∀ j ≤ twoDivisions.length, ∃ k d,
      (Driver.loop (.perFu 1 1 1) 2).after k (.initial twoDivisions) = some d ∧
        d.trace = twoDivisions.drop j) ∧
    ∃ k d, (Driver.loop (.perFu 1 1 1) 2).after k (.initial twoDivisions) = some d ∧
      d.trace = [] ∧ d.sched.completed (.perFu 1 1 1) = true :=
  driver_terminates _ (by decide) _ (by decide)

end ArchSim.Tomasulo
