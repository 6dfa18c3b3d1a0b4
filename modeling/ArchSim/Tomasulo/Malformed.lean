import ArchSim.Tomasulo.Simulation

/-!
# Lines with an unknown operation

`process_trace` makes an instruction of every line with four fields, and gives it the operation
`OP_INVALID` if it does not know its name. In the unified layout such an instruction is issued, but
no functional unit ever starts it; in the per-unit layout there is no station to issue it to. Either
way a loop of the driver waits for it forever.
-/

namespace ArchSim.Tomasulo

open Library

variable {n : ℕ} {cfg : Config}

/-- A line of a trace with four fields. -/
structure TraceLine (n : ℕ) where
  op : String
  dest : Fin n
  src1 : Option (Fin n)
  src2 : Option (Fin n)
  deriving DecidableEq, Repr

/-- `process_trace`. -/
def processTrace (line : TraceLine n) : Inst n where
  op :=
    if line.op = "ADD" then .OP_ADD
    else if line.op = "DIV" then .OP_DIV
    else if line.op = "MEM" then .OP_MEM
    else .OP_INVALID
  dest := line.dest
  src1 := line.src1
  src2 := line.src2

def TraceLine.Malformed (line : TraceLine n) : Prop :=
  line.op ≠ "ADD" ∧ line.op ≠ "DIV" ∧ line.op ≠ "MEM"

instance (line : TraceLine n) : Decidable line.Malformed :=
  inferInstanceAs (Decidable (_ ∧ _ ∧ _))

theorem op_processTrace_iff {line : TraceLine n} :
    (processTrace line).op = .OP_INVALID ↔ line.Malformed := by
  unfold processTrace TraceLine.Malformed
  by_cases hadd : line.op = "ADD"
  · simp [hadd]
  · by_cases hdiv : line.op = "DIV"
    · simp [hdiv]
    · by_cases hmem : line.op = "MEM" <;> simp [hadd, hdiv, hmem]

/-- The loops of the driver end. -/
def Driver.Ends (cfg : Config) (lines : List (TraceLine n)) : Prop :=
  ∃ k d, (Driver.loop cfg n).after k (.initial (lines.map processTrace)) = some d ∧
    d.done cfg = true

/-! ## Entries that never start -/

/-- The entry `slot` holds an instruction that no functional unit starts. -/
def Scheduler.Blocked (s : Scheduler n) (slot : Slot) : Prop :=
  ∃ e, s.table slot = some e ∧ e.op = .OP_INVALID ∧ e.startCycle = 0

/-- What has started has an operation. -/
def Scheduler.StartedValid (s : Scheduler n) : Prop :=
  ∀ slot e, s.table slot = some e → e.startCycle ≠ 0 → e.op ≠ .OP_INVALID

variable {s : Scheduler n} {slot slot' : Slot} {e : RESTEntry n}

theorem startedValid_cleared (h : s.StartedValid) : (cleared cfg s slot' e).StartedValid := by
  intro slot₁ e₁ he₁ hstart
  have htable : (cleared cfg s slot' e).table slot₁ =
      (Function.update s.table slot' none slot₁).map (·.updateSources (cfg.ratIndex slot')) := rfl
  rw [htable] at he₁
  obtain ⟨e₀, he₀, rfl⟩ := Option.map_eq_some_iff.mp he₁
  by_cases hne : slot₁ = slot'
  · subst hne
    rw [Function.update_self] at he₀
    cases he₀
  · rw [Function.update_of_ne hne] at he₀
    exact h slot₁ e₀ he₀ hstart

/-- Nothing that is cleared was blocked. -/
theorem blocked_cleared (h : s.Blocked slot) (he : s.table slot' = some e)
    (hstart : e.startCycle ≠ 0) : (cleared cfg s slot' e).Blocked slot := by
  obtain ⟨e₀, he₀, hop, hstart₀⟩ := h
  have hne : slot ≠ slot' := by
    rintro rfl
    obtain rfl := Option.some.inj (he₀.symm.trans he)
    exact hstart hstart₀
  refine ⟨e₀.updateSources (cfg.ratIndex slot'), ?_, hop, hstart₀⟩
  change (Function.update s.table slot' none slot).map _ = _
  rw [Function.update_of_ne hne, he₀]
  rfl

theorem startedValid_fired (h : s.StartedValid) (hop : e.op ≠ .OP_INVALID) :
    (fired s slot' e).StartedValid := by
  intro slot₁ e₁ he₁ hstart
  by_cases hne : slot₁ = slot'
  · subst hne
    obtain rfl := Option.some.inj ((Function.update_self slot₁ _ s.table).symm.trans he₁)
    exact hop
  · exact h slot₁ e₁ ((Function.update_of_ne hne _ _).symm.trans he₁) hstart

/-- Nothing that is fired was blocked. -/
theorem blocked_fired (h : s.Blocked slot) (he : s.table slot' = some e)
    (hop : e.op ≠ .OP_INVALID) : (fired s slot' e).Blocked slot := by
  obtain ⟨e₀, he₀, hop₀, hstart₀⟩ := h
  have hne : slot ≠ slot' := by
    rintro rfl
    obtain rfl := Option.some.inj (he₀.symm.trans he)
    exact hop hop₀
  exact ⟨e₀, (Function.update_of_ne hne _ _).trans he₀, hop₀, hstart₀⟩

/-- Between `s` and `s'` nothing without an operation has started. -/
structure KeepsBlocked (s s' : Scheduler n) : Prop where
  startedValid : s'.StartedValid
  blocked : ∀ slot, s.Blocked slot → s'.Blocked slot

theorem clearCompleted_keepsBlocked (cfg : Config) (h : s.StartedValid) :
    ∃ s', s.clearCompleted cfg = .ok s' ∧ KeepsBlocked s s' := by
  have hloop : Yields False (cfg.slots.foldlM (Scheduler.completeEntry cfg) (s, 0))
      fun acc : Scheduler n × ℕ ↦ KeepsBlocked s acc.1 := by
    refine .foldlM (I := fun acc : Scheduler n × ℕ ↦ KeepsBlocked s acc.1) ?_ ⟨h, fun _ hb ↦ hb⟩
    rintro slot - ⟨s₁, k⟩ hkeeps
    rcases completeEntry_cases (fun e he ↦ hkeeps.startedValid slot e he) k with
      hsame | ⟨e, he, hstart, hcleared⟩
    · rw [hsame]
      exact hkeeps
    · rw [hcleared]
      exact ⟨startedValid_cleared hkeeps.startedValid,
        fun slot₁ hblocked ↦ blocked_cleared (hkeeps.blocked slot₁ hblocked) he hstart⟩
  obtain ⟨⟨s', k⟩, hs', hkeeps⟩ := hloop.exists_of_not not_false
  refine ⟨{ s' with stats := { s'.stats with maxCompleted := max s'.stats.maxCompleted k } }, ?_,
    ⟨hkeeps.startedValid, hkeeps.blocked⟩⟩
  simp only [Scheduler.clearCompleted, Scheduler.completeInsts, hs', bind, Except.bind]
  rfl

theorem startReady_keepsBlocked (cfg : Config) (h : s.StartedValid) :
    KeepsBlocked s (s.startReady cfg) := by
  have hentry (f : Scheduler.Firing n) (hf : KeepsBlocked s f.sched) (slot : Slot) :
      KeepsBlocked s (Scheduler.fireEntry f slot).sched := by
    rcases fireEntry_cases f slot with hsame | ⟨e, he, -, -, hop, hfired⟩
    · rw [hsame]
      exact hf
    · rw [hfired]
      exact ⟨startedValid_fired hf.startedValid hop,
        fun slot₁ hblocked ↦ blocked_fired (hf.blocked slot₁ hblocked) he hop⟩
  have hall :
      KeepsBlocked s (cfg.stations.foldl (Scheduler.fireReady cfg) { sched := s }).sched := by
    refine List.foldlRecOn (motive := fun f : Scheduler.Firing n ↦ KeepsBlocked s f.sched)
      cfg.stations _ ⟨h, fun _ hb ↦ hb⟩ fun f hf station _ ↦ ?_
    exact List.foldlRecOn (motive := fun f : Scheduler.Firing n ↦ KeepsBlocked s f.sched)
      (cfg.entries station) _ hf fun f' hf' slot _ ↦ hentry f' hf' slot
  exact ⟨hall.startedValid, hall.blocked⟩

/-- A step never exits, and an entry that is blocked stays so. -/
theorem step_keepsBlocked (cfg : Config) (h : s.StartedValid) :
    ∃ s', s.step cfg = .ok s' ∧ KeepsBlocked s s' := by
  obtain ⟨s₁, hs₁, hkeeps₁⟩ := clearCompleted_keepsBlocked cfg
    (s := { s with currentCycle := s.currentCycle + 1 }) h
  have hkeeps₂ := startReady_keepsBlocked cfg hkeeps₁.startedValid
  refine ⟨s₁.startReady cfg, ?_, hkeeps₂.startedValid,
    fun slot hblocked ↦ hkeeps₂.blocked slot (hkeeps₁.blocked slot hblocked)⟩
  simp only [Scheduler.step, hs₁, bind, Except.bind]
  rfl

/-! ## Runs -/

/-- An instruction without an operation is waiting to be issued, or has been. -/
structure Driver.Stuck (cfg : Config) (d : Driver n) : Prop where
  startedValid : d.sched.StartedValid
  waits : (∃ inst ∈ d.trace, inst.op = .OP_INVALID) ∨ ∃ slot ∈ cfg.slots, d.sched.Blocked slot

theorem Driver.Stuck.not_done {d : Driver n} (h : d.Stuck cfg) : d.done cfg = false := by
  rw [Driver.done, Bool.and_eq_false_iff]
  rcases h.waits with ⟨inst, hinst, -⟩ | ⟨slot, hslot, e, he, -⟩
  · exact .inl (List.isEmpty_eq_false_iff.mpr (List.ne_nil_of_mem hinst))
  · right
    rw [Scheduler.completed, List.all_eq_false]
    exact ⟨slot, hslot, by rw [he]; nofun⟩

/-- An instruction that is issued is put into an entry that is free. -/
theorem issued_keepsBlocked {inst : Inst n} (h : s.StartedValid) (hfree : s.table slot' = none) :
    KeepsBlocked s (issued cfg s slot' inst) := by
  constructor
  · intro slot₁ e₁ he₁ hstart
    by_cases hne : slot₁ = slot'
    · subst hne
      obtain rfl := Option.some.inj (table_issued_self.symm.trans he₁)
      exact absurd rfl hstart
    · exact h slot₁ e₁ ((Function.update_of_ne hne _ _).symm.trans he₁) hstart
  · rintro slot₁ ⟨e, he, hop, hstart⟩
    have hne : slot₁ ≠ slot' := by
      rintro rfl
      cases he.symm.trans hfree
    exact ⟨e, (Function.update_of_ne hne _ _).trans he, hop, hstart⟩

theorem Driver.Stuck.body {d : Driver n} (h : d.Stuck cfg) :
    ∃ d', d.body cfg = .ok d' ∧ d'.Stuck cfg := by
  unfold Driver.body
  cases hrest : d.trace with
  | nil =>
    obtain ⟨s', hs', hkeeps⟩ := step_keepsBlocked cfg h.startedValid
    refine ⟨⟨s', []⟩, ?_, hkeeps.startedValid, .inr ?_⟩
    · simp only [hs', bind, Except.bind]
      rfl
    · rcases h.waits with ⟨inst, hinst, -⟩ | ⟨slot, hslot, hblocked⟩
      · rw [hrest] at hinst
        cases hinst
      · exact ⟨slot, hslot, hkeeps.blocked slot hblocked⟩
  | cons inst rest =>
    rcases tryIssue_cases cfg d.sched {} inst with ⟨stats, -, htry, -⟩ |
      ⟨slot, hslot, hfree, htry, -⟩
    · -- nothing has changed but a count, and the instruction is tried again
      obtain ⟨s', hs', hkeeps⟩ := step_keepsBlocked cfg (s := { d.sched with stats := stats })
        h.startedValid
      refine ⟨⟨s', inst :: rest⟩, ?_, hkeeps.startedValid, ?_⟩
      · simp only [htry, hs', bind, Except.bind]
        rfl
      · rcases h.waits with hwaits | ⟨slot, hslot, hblocked⟩
        · exact .inl (hrest ▸ hwaits)
        · exact .inr ⟨slot, hslot, hkeeps.blocked slot hblocked⟩
    · have hissued : KeepsBlocked d.sched (issued cfg d.sched slot inst) :=
        issued_keepsBlocked h.startedValid hfree
      obtain ⟨s', hs', hkeeps⟩ := step_keepsBlocked cfg hissued.startedValid
      refine ⟨⟨s', rest⟩, ?_, hkeeps.startedValid, ?_⟩
      · simp only [htry, hs', bind, Except.bind]
        rfl
      · rcases h.waits with ⟨inst', hinst', hop⟩ | ⟨slot', hslot', hblocked⟩
        · rw [hrest, List.mem_cons] at hinst'
          rcases hinst' with rfl | hmem
          · -- in the unified layout it has been issued
            exact .inr ⟨slot, hslot, hkeeps.blocked slot ⟨_, table_issued_self, hop, rfl⟩⟩
          · exact .inl ⟨inst', hmem, hop⟩
        · exact .inr ⟨slot', hslot', hkeeps.blocked slot' (hissued.blocked slot' hblocked)⟩

theorem Driver.initial_stuck {lines : List (TraceLine n)}
    (hmalformed : ∃ line ∈ lines, line.Malformed) :
    (Driver.initial (lines.map processTrace)).Stuck cfg := by
  obtain ⟨line, hline, hbad⟩ := hmalformed
  exact ⟨nofun, .inl ⟨_, List.mem_map_of_mem hline, op_processTrace_iff.mpr hbad⟩⟩

theorem Driver.Stuck.forever {d : Driver n} (h : d.Stuck cfg) (k : ℕ) :
    ∃ d', (Driver.loop cfg n).after k d = some d' ∧ d'.done cfg = false := by
  obtain ⟨d', hk, hstuck⟩ := (Driver.loop cfg n).after_diverges (I := Driver.Stuck cfg)
    (fun _ hd ↦ hd.not_done) (fun _ hd ↦ hd.body) h k
  exact ⟨d', hk, hstuck.not_done⟩

theorem Driver.Stuck.not_ends {lines : List (TraceLine n)}
    (h : (Driver.initial (lines.map processTrace)).Stuck cfg) : ¬ Ends cfg lines := by
  rintro ⟨k, d, hk, hdone⟩
  obtain ⟨d', hk', hnot⟩ := h.forever k
  obtain rfl := Option.some.inj (hk.symm.trans hk')
  exact absurd hdone (by rw [hnot]; nofun)

/-- With a line that `process_trace` does not know, the loops never end, whatever the sizes of the
stations: no iteration exits, and after none of them are they done. -/
theorem malformed_never_ends (cfg : Config) (lines : List (TraceLine n))
    (hmalformed : ∃ line ∈ lines, line.Malformed) :
    ¬ Driver.Ends cfg lines ∧ ∀ k, ∃ d,
      (Driver.loop cfg n).after k (.initial (lines.map processTrace)) = some d ∧
        d.done cfg = false :=
  ⟨(Driver.initial_stuck hmalformed).not_ends, (Driver.initial_stuck hmalformed).forever⟩

/-- In the per-unit layout the loop that retries an instruction does not end. -/
theorem malformed_never_ends_perFu :
    ¬ Driver.Ends (.perFu 2 1 2)
        [(⟨"ADD", 0, none, none⟩ : TraceLine 2), ⟨"SUB", 1, some 0, none⟩] ∧
      ∀ k, ∃ d, (Driver.loop (.perFu 2 1 2) 2).after k (.initial
        ([⟨"ADD", 0, none, none⟩, ⟨"SUB", 1, some 0, none⟩].map processTrace)) = some d ∧
          d.done (.perFu 2 1 2) = false :=
  malformed_never_ends _ _ ⟨⟨"SUB", 1, some 0, none⟩, by simp, by decide⟩

/-- In the unified layout the loop that lets the pipeline drain does not. -/
theorem not_ends_unified : ¬ Driver.Ends (.unified 1) [(⟨"SUB", 0, none, none⟩ : TraceLine 1)] :=
  (Driver.initial_stuck ⟨_, List.mem_singleton_self _, by decide⟩).not_ends

end ArchSim.Tomasulo
