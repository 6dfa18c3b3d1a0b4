import ArchSim.Tomasulo.Lifetime
import ArchSim.Tomasulo.Pipelined

/-!
# How long a run takes

An instruction occupies its entry for one cycle more than its latency at least. While anything is in
flight, something is executing or is fired, so that a run is not longer than it would be if the
instructions followed one another; and it is not shorter than the entries of a station, the
functional units and the issue of one instruction in every cycle allow.
-/

namespace ArchSim.Tomasulo

open Library Renaming

variable {n : ℕ} {cfg : Config}

/-- The cycles that the instructions take one after the other. -/
def serialTime (insts : List (Inst n)) : ℕ := (insts.map fun inst ↦ inst.op.latency + 1).sum

@[simp] theorem serialTime_nil : serialTime ([] : List (Inst n)) = 0 := rfl

@[simp] theorem serialTime_cons (inst : Inst n) (insts : List (Inst n)) :
    serialTime (inst :: insts) = inst.op.latency + 1 + serialTime insts := List.sum_cons

/-! ## One entry -/

/-- What the instruction in an entry takes from the cycle `c` on, when it waits for nothing. -/
def remaining (c : ℕ) : Option (RESTEntry n) → ℕ
  | none => 0
  | some e => if e.startCycle = 0 then e.op.latency + 1 else e.due - c

/-- In one cycle this becomes smaller by one at most. -/
theorem Passes.remaining_le {c : ℕ} {o o' : Option (RESTEntry n)} (h : Passes (c + 1) o o') :
    remaining (c + 1) o' ≤ remaining c o ∧ remaining c o ≤ remaining (c + 1) o' + 1 := by
  cases h with
  | free => exact ⟨le_rfl, Nat.zero_le _⟩
  | clears hstart hdue =>
    simp only [remaining, hstart, if_false]
    omega
  | keeps _ hnarrow =>
    simp only [remaining, hnarrow.startCycle, hnarrow.due, hnarrow.op]
    split <;> omega
  | @fires e e' hstart hnarrow =>
    simp only [remaining, hstart, if_true, RESTEntry.due, hnarrow.op, Nat.succ_ne_zero, if_false]
    omega

/-- It does so when the instruction is executing or is fired. -/
theorem Passes.remaining_lt {c : ℕ} {e : RESTEntry n} {o' : Option (RESTEntry n)}
    (h : Passes (c + 1) (some e) o') (hdue : e.startCycle ≠ 0 → c < e.due)
    (hstarted : e.startCycle ≠ 0 ∨ ∃ e', o' = some e' ∧ e'.startCycle ≠ 0) :
    remaining (c + 1) o' < remaining c (some e) := by
  cases h with
  | clears hstart =>
    have hlt := hdue hstart
    simp only [remaining, hstart, if_false]
    omega
  | keeps _ hnarrow =>
    have hstart : e.startCycle ≠ 0 := by
      rcases hstarted with hstart | ⟨e', he', hstart⟩
      · exact hstart
      · obtain rfl := Option.some.inj he'
        rwa [hnarrow.startCycle] at hstart
    have hlt := hdue hstart
    simp only [remaining, hnarrow.startCycle, hnarrow.due, hstart, if_false]
    omega
  | @fires _ e' hstart hnarrow =>
    simp only [remaining, hstart, if_true, RESTEntry.due, hnarrow.op, Nat.succ_ne_zero, if_false]
    omega

/-! ## A list of entries -/

/-- What the instructions in `slots` take from now on, one after the other. -/
def Scheduler.work (s : Scheduler n) (slots : List Slot) : ℕ :=
  (slots.map fun slot ↦ remaining s.currentCycle (s.table slot)).sum

section

variable {s s' : Scheduler n} {slots : List Slot} {slot : Slot} {inst : Inst n}

/-- In one cycle the work becomes smaller by the number of entries at most. -/
theorem Advances.le_work (h : Advances cfg s s') (hslots : slots ⊆ cfg.slots) :
    s.work slots ≤ s'.work slots + slots.length :=
  calc s.work slots
      ≤ (slots.map fun slot ↦ remaining s'.currentCycle (s'.table slot) + 1).sum := by
        apply List.sum_le_sum
        intro slot hslot
        rw [h.currentCycle]
        exact (h.passes slot (hslots hslot)).remaining_le.2
    _ = s'.work slots + slots.length := by
        rw [List.sum_map_add, List.map_const', List.sum_replicate_nat, Nat.mul_one]
        rfl

theorem Advances.work_lt (h : Advances cfg s s')
    (hdue : ∀ slot ∈ cfg.slots, ∀ e, s.table slot = some e → e.startCycle ≠ 0 →
      s.currentCycle < e.due)
    (hmoves : (∃ slot ∈ cfg.slots, ∃ e, s.table slot = some e ∧ e.startCycle ≠ 0) ∨
      ∃ slot ∈ cfg.slots, s.Ready slot) : s'.work cfg.slots < s.work cfg.slots := by
  obtain ⟨slot, hslot, e, he, hstarted⟩ : ∃ slot ∈ cfg.slots, ∃ e, s.table slot = some e ∧
      (e.startCycle ≠ 0 ∨ ∃ e', s'.table slot = some e' ∧ e'.startCycle ≠ 0) := by
    rcases hmoves with ⟨slot, hslot, e, he, hstart⟩ | ⟨slot, hslot, hready⟩
    · exact ⟨slot, hslot, e, he, .inl hstart⟩
    · obtain ⟨slot', hslot', e, e', he, -, he', hstart'⟩ := h.fires slot hslot hready
      exact ⟨slot', hslot', e, he, .inr ⟨e', he', hstart'⟩⟩
  have hpasses := h.passes slot hslot
  rw [he] at hpasses
  apply List.sum_lt_sum
  · intro slot' hslot'
    rw [h.currentCycle]
    exact (h.passes slot' hslot').remaining_le.1
  · refine ⟨slot, hslot, ?_⟩
    rw [h.currentCycle, he]
    exact hpasses.remaining_lt (hdue slot hslot e he) hstarted

/-- When all entries are free there is no work. -/
theorem work_eq_zero (hfree : ∀ slot ∈ slots, s.table slot = none) : s.work slots = 0 := by
  refine List.sum_eq_zero fun x hx ↦ ?_
  obtain ⟨slot, hslot, rfl⟩ := List.mem_map.mp hx
  rw [hfree slot hslot]
  rfl

/-- An instruction that is issued adds its time. -/
theorem work_issued (hnodup : slots.Nodup) (hslot : slot ∈ slots) (hfree : s.table slot = none) :
    (issued cfg s slot inst).work slots = s.work slots + (inst.op.latency + 1) := by
  have hsum := sum_map_of_eq (f := fun slot' ↦ remaining s.currentCycle (s.table slot'))
    (g := fun slot' ↦ remaining s.currentCycle ((issued cfg s slot inst).table slot')) hslot hnodup
    fun slot' _ hne ↦ by rw [table_issued_of_ne hne]
  rw [hfree, table_issued_self] at hsum
  exact hsum

theorem work_issued_of_notMem (hslot : slot ∉ slots) :
    (issued cfg s slot inst).work slots = s.work slots := by
  refine congrArg List.sum (List.map_congr_left fun slot' hslot' ↦ ?_)
  have hne : slot' ≠ slot := fun heq ↦ hslot (heq ▸ hslot')
  rw [table_issued_of_ne hne]
  rfl

end

/-! ## One iteration -/

/-- The instructions of a trace that are issued to `station`. -/
def instsOf (cfg : Config) (station : Station) (insts : List (Inst n)) : List (Inst n) :=
  insts.filter fun inst ↦ cfg.stationOf inst.op = some station

@[simp] theorem instsOf_nil (station : Station) : instsOf cfg station ([] : List (Inst n)) = [] :=
  rfl

/-- An issue that succeeds fills an entry of the station of the instruction. -/
theorem stationOf_of_issued {s : Scheduler n} {slot : Slot} {inst : Inst n}
    (hop : inst.op ≠ .OP_INVALID)
    (htry : s.tryIssue cfg inst = (true, issued cfg s slot inst)) :
    cfg.stationOf inst.op = some slot.1 := by
  rcases stationOf_of_tryIssue cfg s hop with hstalled | ⟨slot', -, hfree', hstation, hissued⟩
  · rw [htry] at hstalled
    have hnum := congrArg (fun s ↦ s.stats.numInsts) hstalled
    exact absurd hnum (Nat.succ_ne_self _)
  · rw [htry] at hissued
    by_cases hne : slot' = slot
    · exact hne ▸ hstation
    · have htable := congrFun (congrArg Scheduler.table hissued) slot'
      change (issued cfg s slot inst).table slot' = (issued cfg s slot' inst).table slot' at htable
      rw [table_issued_of_ne hne, table_issued_self, hfree'] at htable
      cases htable

theorem entries_subset_slots {station : Station} (hstation : station ∈ cfg.stations) :
    cfg.entries station ⊆ cfg.slots :=
  fun _ hslot ↦ List.mem_flatMap.mpr ⟨station, hstation, hslot⟩

/-- What the trace and the instructions in flight take, one after the other. -/
def Driver.work (cfg : Config) (d : Driver n) : ℕ := serialTime d.trace + d.sched.work cfg.slots

/-- What those of `station` take. -/
def Driver.stationWork (cfg : Config) (station : Station) (d : Driver n) : ℕ :=
  serialTime (instsOf cfg station d.trace) + d.sched.work (cfg.entries station)

section

variable {d d' : Driver n} {insts : List (Inst n)} {station : Station}

/-- In every iteration something is executing or is fired. -/
theorem Driver.Moves.work_lt (hsizes : cfg.Nonempty) (h : d.Moves cfg d') (hruns : d.Runs cfg insts)
    (hdone : d.done cfg = false) : d'.work cfg < d.work cfg := by
  obtain ⟨hsound, history, before, -, m, hreach, hsim, -⟩ := hruns
  have hdue : ∀ slot ∈ cfg.slots, ∀ e, d.sched.table slot = some e → e.startCycle ≠ 0 →
      d.sched.currentCycle < e.due :=
    fun slot hslot e he hstart ↦ (hsound.executing slot hslot e he hstart).2.2
  cases h with
  | @issues inst slot htrace hslot hfree _ hadvances =>
    obtain ⟨hstep, hsim'⟩ : Step False m (m.issue slot inst.renaming) ∧
        Sim cfg (issued cfg d.sched slot inst)
          (history.occupy slot d.sched.stats.numInsts) (m.issue slot inst.renaming) :=
      hsim.issued hslot hfree False.elim
    have hsome : (issued cfg d.sched slot inst).table slot ≠ none := by
      rw [table_issued_self]
      exact Option.some_ne_none _
    have hlt := hadvances.work_lt
      (fun slot' hslot' e he hstart ↦
        (executing_issued hsound.executing slot' hslot' e he hstart).2.2)
      (hsim'.executing_or_ready (hreach.step hstep).inv hsome)
    rw [work_issued (nodup_slots cfg) hslot hfree] at hlt
    calc d'.work cfg
        = serialTime d'.trace + d'.sched.work cfg.slots := rfl
      _ < serialTime d'.trace + (d.sched.work cfg.slots + (inst.op.latency + 1)) :=
          Nat.add_lt_add_left hlt _
      _ = d.work cfg := by rw [Driver.work, htrace, serialTime_cons]; omega
  | @stalls _ _ station _ hsame hstation hfull _ hadvances =>
    obtain ⟨slot, hslot⟩ : ∃ slot, slot ∈ cfg.entries station :=
      ⟨(station, 0), List.mem_map.mpr ⟨0, List.mem_range.mpr (hsizes station hstation), rfl⟩⟩
    have hlt := hadvances.work_lt hdue
      (hsim.executing_or_ready hreach.inv (hfull slot hslot))
    rw [Driver.work, Driver.work, hsame]
    exact Nat.add_lt_add_left hlt _
  | drains hnil hnil' hadvances =>
    have hnot : d.sched.completed cfg = false := by
      simpa only [Driver.done, hnil, List.isEmpty_nil, Bool.true_and] using hdone
    obtain ⟨slot, -, hsome⟩ : ∃ slot ∈ cfg.slots, ¬ (d.sched.table slot).isNone = true := by
      simpa only [Scheduler.completed, List.all_eq_false] using hnot
    have hlt := hadvances.work_lt hdue
      (hsim.executing_or_ready hreach.inv fun hnone ↦ hsome (by rw [hnone]; rfl))
    rw [Driver.work, Driver.work, hnil, hnil']
    exact Nat.add_lt_add_left hlt _

/-- In every iteration an entry is occupied for one cycle at most. -/
theorem Driver.Moves.stationWork_le (h : d.Moves cfg d') (hops : Executable d.trace)
    (hstation : station ∈ cfg.stations) :
    d.stationWork cfg station ≤ d'.stationWork cfg station + cfg.size station := by
  have hlength : (cfg.entries station).length = cfg.size station := by
    rw [Config.entries, List.length_map, List.length_range]
  cases h with
  | @issues inst slot htrace hslot hfree htry hadvances =>
    have hle := hadvances.le_work (entries_subset_slots hstation)
    have hplace := stationOf_of_issued (hops inst (htrace ▸ List.mem_cons_self)) htry
    rw [hlength] at hle
    rw [Driver.stationWork, Driver.stationWork, htrace, instsOf, List.filter_cons]
    by_cases hsame : slot.1 = station
    · have hmem : slot ∈ cfg.entries station := hsame ▸ (mem_entries_of_mem_slots hslot).2
      rw [work_issued (nodup_entries cfg station) hmem hfree] at hle
      rw [hplace, hsame, if_pos (decide_eq_true rfl), serialTime_cons, instsOf]
      omega
    · have hnotMem : slot ∉ cfg.entries station := fun hmem ↦ hsame (fst_of_mem_entries hmem)
      rw [work_issued_of_notMem hnotMem] at hle
      rw [hplace, if_neg (by simpa using hsame), instsOf]
      omega
  | stalls _ hsame _ _ _ hadvances =>
    have hle := hadvances.le_work (entries_subset_slots hstation)
    rw [hlength] at hle
    rw [Driver.stationWork, Driver.stationWork, hsame]
    exact (Nat.add_le_add_left hle _).trans_eq (Nat.add_assoc _ _ _).symm
  | drains hnil hnil' hadvances =>
    have hle := hadvances.le_work (entries_subset_slots hstation)
    rw [hlength] at hle
    rw [Driver.stationWork, Driver.stationWork, hnil, hnil']
    exact (Nat.add_le_add_left hle _).trans_eq (Nat.add_assoc _ _ _).symm

end

/-! ## Runs -/

section

variable {insts : List (Inst n)} {k : ℕ} {d : Driver n}

theorem Driver.add_work_le (hsizes : cfg.Nonempty) (hops : Executable insts)
    (h : (Driver.loop cfg n).after k (.initial insts) = some d) :
    k + d.work cfg ≤ serialTime insts := by
  induction k generalizing d with
  | zero =>
    obtain rfl := Option.some.inj h
    have hnone : (Driver.initial insts).sched.work cfg.slots = 0 := work_eq_zero fun _ _ ↦ rfl
    rw [Driver.work, hnone]
    exact (Nat.zero_add _).le
  | succ k ih =>
    obtain ⟨d₁, hk, hdone, -⟩ := Loop.exists_of_after_succ h
    obtain ⟨d₁', hk', hruns, hmoves⟩ := Driver.exists_moves hops h
    obtain rfl := Option.some.inj (hk'.symm.trans hk)
    have hlt := hmoves.work_lt hsizes hruns hdone
    have hle := ih hk
    omega

theorem Driver.stationWork_le (hops : Executable insts) {station : Station}
    (hstation : station ∈ cfg.stations)
    (h : (Driver.loop cfg n).after k (.initial insts) = some d) :
    serialTime (instsOf cfg station insts) ≤
      cfg.size station * k + d.stationWork cfg station := by
  induction k generalizing d with
  | zero =>
    obtain rfl := Option.some.inj h
    exact (Nat.le_add_right _ _).trans_eq (Nat.zero_add _).symm
  | succ k ih =>
    obtain ⟨d₁, hk, hruns, hmoves⟩ := Driver.exists_moves hops h
    have hle := hmoves.stationWork_le hruns.1.trace hstation
    calc serialTime (instsOf cfg station insts)
        ≤ cfg.size station * k + d₁.stationWork cfg station := ih hk
      _ ≤ cfg.size station * k + (d.stationWork cfg station + cfg.size station) :=
          Nat.add_le_add_left hle _
      _ = cfg.size station * (k + 1) + d.stationWork cfg station := by
          rw [Nat.mul_succ]
          omega

end

/-- A run takes no more cycles than its instructions do one after the other, and it takes as many
as the instructions of any station need in the entries of this station. -/
theorem numCycles_le_serialTime (cfg : Config) (hsizes : cfg.Nonempty) (insts : List (Inst n))
    (hops : Executable insts) :
    ∃ k d, (Driver.loop cfg n).after k (.initial insts) = some d ∧ d.done cfg = true ∧
      d.sched.complete.numCycles ≤ 1 + serialTime insts ∧
      ∀ station ∈ cfg.stations, serialTime (instsOf cfg station insts) ≤
        cfg.size station * (d.sched.complete.numCycles - 1) := by
  obtain ⟨k, d, hk, hnil, hcompleted⟩ := Driver.exists_end hsizes hops
  have hdone : d.done cfg = true := by
    rw [Driver.done, hnil, hcompleted]
    rfl
  have hcycle : d.sched.complete.numCycles = k + 1 := Driver.currentCycle_eq hops hk
  have hfree : ∀ slot ∈ cfg.slots, d.sched.table slot = none := fun slot hslot ↦
    Option.isNone_iff_eq_none.mp (List.all_eq_true.mp hcompleted slot hslot)
  refine ⟨k, d, hk, hdone, ?_, fun station hstation ↦ ?_⟩
  · have hle := Driver.add_work_le hsizes hops hk
    omega
  · have hle := Driver.stationWork_le hops hstation hk
    have hzero : d.sched.work (cfg.entries station) = 0 :=
      work_eq_zero fun slot hslot ↦ hfree slot (entries_subset_slots hstation hslot)
    rw [Driver.stationWork, hnil, instsOf_nil, serialTime_nil, hzero] at hle
    rw [hcycle, Nat.add_sub_cancel]
    exact hle

/-- With one entry for all of them, the three additions follow one another. -/
theorem numCycles_le_serialTime_oneEntry :
    ∃ k d, (Driver.loop (.unified 1) 2).after k (.initial threeAdditions) = some d ∧
      d.done (.unified 1) = true ∧ d.sched.complete.numCycles ≤ 10 ∧
      ∀ station ∈ (Config.unified 1).stations,
        serialTime (instsOf (.unified 1) station threeAdditions) ≤
          (Config.unified 1).size station * (d.sched.complete.numCycles - 1) :=
  numCycles_le_serialTime (.unified 1) (by decide) threeAdditions (by decide)

/-! ## Functional units -/

section

variable {insts : List (Inst n)} {k : ℕ} {d : Driver n}

/-- In a run that ends in the cycle `last`, instruction `j` is fired in the cycle `start`. -/
def StartsAt (cfg : Config) (insts : List (Inst n)) (last j start : ℕ) : Prop :=
  ∃ inst slot issue, insts[j]? = some inst ∧ slot ∈ cfg.slots ∧
    Lifetime cfg insts j inst slot issue start inst.op.latency ∧ start + inst.op.latency ≤ last

theorem exists_startsAt (hops : Executable insts)
    (h : (Driver.loop cfg n).after k (.initial insts) = some d) (hdone : d.done cfg = true)
    {j : ℕ} (hj : j < insts.length) : ∃ start, StartsAt cfg insts (k + 1) j start := by
  have hget : insts[j]? = some insts[j] := List.getElem?_eq_getElem hj
  obtain ⟨slot, hslot, issue, start, latency, hlife, hle⟩ := exists_lifetime hops h hdone hget
  obtain rfl : insts[j].op.latency = latency := by
    rw [OpType.latency, hlife.latency_eq]
    rfl
  exact ⟨start, _, slot, issue, hget, hslot, hlife, (Driver.currentCycle_eq hops h) ▸ hle⟩

/-- Instructions leave the trace in its order, one in a cycle at most. -/
theorem Lifetime.le_issue (hops : Executable insts) {j : ℕ} {inst : Inst n} {slot : Slot}
    {issue start latency : ℕ} (hj : j < insts.length)
    (h : Lifetime cfg insts j inst slot issue start latency) : j + 1 ≤ issue := by
  obtain ⟨i, d₁, h₁, hcycle, htrace, -⟩ := h.issued
  obtain ⟨hinsts, hcount⟩ := Driver.counts hops h₁
  rw [htrace, List.length_drop] at hinsts
  have hi := Driver.currentCycle_eq hops h₁
  omega

theorem Lifetime.issue_lt_of_lt {j j' : ℕ} {inst inst' : Inst n}
    {slot slot' : Slot} {issue start latency issue' start' latency' : ℕ}
    (hj' : j' < insts.length) (hlt : j < j')
    (h : Lifetime cfg insts j inst slot issue start latency)
    (h' : Lifetime cfg insts j' inst' slot' issue' start' latency') : issue < issue' := by
  obtain ⟨i', d₁', h₁', hcycle', htrace', -⟩ := h'.issued
  by_contra hge
  obtain ⟨p, hp, hdrop⟩ := (h.unissued i' d₁' h₁').mp (by omega)
  have hlength := congrArg List.length (htrace'.symm.trans hdrop)
  rw [List.length_drop, List.length_drop] at hlength
  omega

/-- The state in the cycle in which an instruction is fired. -/
theorem Lifetime.exists_fired (hk : (Driver.loop cfg n).after k (.initial insts) = some d)
    {j start issue : ℕ} {inst : Inst n} {slot : Slot}
    (hlife : Lifetime cfg insts j inst slot issue start inst.op.latency)
    (hop : inst.op ≠ .OP_INVALID) (hcycle : d.sched.currentCycle = start) :
    ∃ e, d.sched.table slot = some e ∧ e.op = inst.op ∧ e.startCycle = start := by
  obtain ⟨i, d₁, h₁, hissue, -⟩ := hlife.issued
  have hlt := hlife.issue_lt
  have hpos := OpType.latency_pos hop
  obtain ⟨e, he, hnarrow, -⟩ := hlife.held i d₁ k d h₁ hissue hk (by omega) (by omega)
  refine ⟨e, he, hnarrow.op, ?_⟩
  rw [hnarrow.startCycle, if_neg (by omega)]

/-- No two instructions with the same operation are fired in the same cycle. -/
theorem StartsAt.injective (hops : Executable insts)
    (hk : (Driver.loop cfg n).after k (.initial insts) = some d) {j j' start : ℕ}
    {inst inst' : Inst n} (hinst : insts[j]? = some inst) (hinst' : insts[j']? = some inst')
    (hop : inst.op = inst'.op) (h : StartsAt cfg insts (k + 1) j start)
    (h' : StartsAt cfg insts (k + 1) j' start) : j = j' := by
  -- of two such instructions the second would have been issued into the entry of the first
  have hnot {j j' : ℕ} {inst inst' : Inst n} (hinst : insts[j]? = some inst)
      (hinst' : insts[j']? = some inst') (hop : inst.op = inst'.op)
      (h : StartsAt cfg insts (k + 1) j start) (h' : StartsAt cfg insts (k + 1) j' start) :
      ¬ j < j' := by
    intro hlt
    obtain ⟨inst₁, slot, issue, hinst₁, hslot, hlife, hle⟩ := h
    obtain ⟨inst₁', slot', issue', hinst₁', hslot', hlife', -⟩ := h'
    obtain rfl := Option.some.inj (hinst.symm.trans hinst₁)
    obtain rfl := Option.some.inj (hinst'.symm.trans hinst₁')
    have hj' : j' < insts.length := (List.getElem?_eq_some_iff.mp hinst').1
    have hvalid : inst.op ≠ .OP_INVALID := hops inst (List.mem_of_getElem? hinst)
    have hpos := OpType.latency_pos hvalid
    have hstart := hlife.issue_lt
    obtain ⟨d₀, hd₀⟩ := Loop.exists_after_of_le hk (show start - 1 ≤ k by omega)
    have hcycle : d₀.sched.currentCycle = start := by
      rw [Driver.currentCycle_eq hops hd₀]
      omega
    obtain ⟨e, he, heop, hestart⟩ := hlife.exists_fired hd₀ hvalid hcycle
    obtain ⟨e', he', heop', hestart'⟩ := hlife'.exists_fired hd₀ (hop ▸ hvalid) hcycle
    have hsame : slot = slot' := (Driver.after_pipelined hops hd₀).distinct slot slot' e e' he he'
      (by omega) ((heop.trans hop).trans heop'.symm) (hestart.trans hestart'.symm)
    subst hsame
    have hissue := hlife.issue_lt_of_lt hj' hlt hlife'
    have hissue' := hlife'.issue_lt
    obtain ⟨i, d₁, h₁, hcycle₁, -⟩ := hlife.issued
    obtain ⟨i', d₁', h₁', hcycle₁', -, hnone, -⟩ := hlife'.issued
    obtain ⟨e₁, he₁, -⟩ := hlife.held i d₁ i' d₁' h₁ hcycle₁ h₁' (by omega) (by omega)
    cases hnone.symm.trans he₁
  rcases Nat.lt_trichotomy j j' with hlt | heq | hgt
  · exact absurd hlt (hnot hinst hinst' hop h h')
  · exact heq
  · exact absurd hgt (hnot hinst' hinst hop.symm h' h)

/-- The instructions with one operation are fired in different cycles of the run. -/
theorem countP_op_le (hops : Executable insts)
    (hk : (Driver.loop cfg n).after k (.initial insts) = some d) (hdone : d.done cfg = true)
    (op : OpType) : (insts.countP fun inst ↦ inst.op = op) ≤ k - op.latency := by
  have hstarts (j : Fin insts.length) : ∃ start, StartsAt cfg insts (k + 1) j start :=
    exists_startsAt hops hk hdone j.isLt
  choose start hstart using hstarts
  have hcount : (insts.countP fun inst ↦ inst.op = op) =
      (List.finRange insts.length).countP fun j ↦ (insts.get j).op = op := by
    conv_lhs => rw [← List.map_get_finRange insts, List.countP_map]
    rfl
  have hcard : (Finset.Icc 2 (k + 1 - op.latency)).card ≤ k - op.latency := by
    rw [Nat.card_Icc]
    omega
  rw [hcount]
  refine (countP_le_card (List.nodup_finRange _) (Finset.Icc 2 (k + 1 - op.latency)) start
    (fun j _ hj ↦ ?_) fun j _ j' _ hj hj' heq ↦ ?_).trans hcard
  · obtain ⟨inst, slot, issue, hinst, -, hlife, hle⟩ := hstart j
    have hget : insts[(j : ℕ)]? = some (insts.get j) := List.getElem?_eq_getElem j.isLt
    obtain rfl := Option.some.inj (hget.symm.trans hinst)
    have hissue := hlife.le_issue hops j.isLt
    have hlt := hlife.issue_lt
    have hop : (insts.get j).op = op := of_decide_eq_true hj
    rw [hop] at hle
    exact Finset.mem_Icc.mpr ⟨by omega, by omega⟩
  · have hop : (insts.get j).op = (insts.get j').op :=
      (of_decide_eq_true hj).trans (of_decide_eq_true hj').symm
    exact Fin.ext (StartsAt.injective hops hk (List.getElem?_eq_getElem j.isLt)
      (List.getElem?_eq_getElem j'.isLt) hop (hstart j) (heq ▸ hstart j'))

end

/-- A unit starts one instruction in a cycle, and one instruction is issued in a cycle: a run is no
shorter than these allow. -/
theorem le_numCycles (cfg : Config) (hsizes : cfg.Nonempty) (insts : List (Inst n))
    (hops : Executable insts) :
    ∃ k d, (Driver.loop cfg n).after k (.initial insts) = some d ∧ d.done cfg = true ∧
      (∀ op latency, getInstLatency op = .ok latency →
        0 < insts.countP (fun inst ↦ inst.op = op) →
        (insts.countP fun inst ↦ inst.op = op) + latency + 1 ≤ d.sched.complete.numCycles) ∧
      ∀ j inst latency, insts[j]? = some inst → getInstLatency inst.op = .ok latency →
        j + latency + 2 ≤ d.sched.complete.numCycles := by
  obtain ⟨k, d, hk, hnil, hcompleted⟩ := Driver.exists_end hsizes hops
  have hdone : d.done cfg = true := by
    rw [Driver.done, hnil, hcompleted]
    rfl
  have hcycle : d.sched.complete.numCycles = k + 1 := Driver.currentCycle_eq hops hk
  have heq {op : OpType} {latency : ℕ} (h : getInstLatency op = .ok latency) :
      op.latency = latency := by
    rw [OpType.latency, h]
    rfl
  refine ⟨k, d, hk, hdone, fun op latency hlatency hpos ↦ ?_,
    fun j inst latency hinst hlatency ↦ ?_⟩
  · have hle := countP_op_le hops hk hdone op
    rw [heq hlatency] at hle
    omega
  · have hj : j < insts.length := (List.getElem?_eq_some_iff.mp hinst).1
    obtain ⟨start, inst', slot, issue, hinst', -, hlife, hle⟩ := exists_startsAt hops hk hdone hj
    obtain rfl := Option.some.inj (hinst.symm.trans hinst')
    have hissue := hlife.le_issue hops hj
    have hlt := hlife.issue_lt
    rw [heq hlatency] at hle
    omega

/-- Three additions and the adder: they are fired in three different cycles. -/
theorem le_numCycles_threeAdditions :
    ∃ k d, (Driver.loop (.unified 3) 2).after k (.initial threeAdditions) = some d ∧
      d.done (.unified 3) = true ∧ 6 ≤ d.sched.complete.numCycles := by
  obtain ⟨k, d, hk, hdone, hunit, -⟩ :=
    le_numCycles (.unified 3) (by decide) threeAdditions (by decide)
  exact ⟨k, d, hk, hdone, hunit .OP_ADD 2 rfl (by decide)⟩

end ArchSim.Tomasulo
