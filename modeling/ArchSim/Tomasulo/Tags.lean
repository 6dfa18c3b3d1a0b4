import ArchSim.Tomasulo.Termination

/-!
# Tags

A tag is the `rat_index` of an entry, and the next instruction that is put into the entry has the
same one. Whatever calls of `scheduler_try_issue` and `scheduler_step` have been made, a tag that is
written anywhere stands for the instruction that it was written for: it is cleared everywhere before
its entry is free.
-/

namespace ArchSim.Tomasulo

open Library Renaming

variable {n : ℕ} {cfg : Config}

/-- A call of a function of the scheduler. -/
inductive Call (n : ℕ) where
  | tryIssue (inst : Inst n)
  | step
  deriving DecidableEq, Repr

namespace Call

def run (cfg : Config) (s : Scheduler n) : Call n → Except Exit (Scheduler n)
  | tryIssue inst => .ok (s.tryIssue cfg inst).2
  | step => s.step cfg

/-- `run`, observed. -/
def track (cfg : Config) (acc : Scheduler n × History) :
    Call n → Except Exit (Scheduler n × History)
  | tryIssue inst => .ok ((acc.1.tryIssue cfg inst).2, Tracked.issue cfg acc.1 acc.2 inst)
  | step => Tracked.step cfg acc.1 acc.2

def Valid : Call n → Prop
  | tryIssue inst => inst.op ≠ .OP_INVALID
  | step => True

instance : (call : Call n) → Decidable call.Valid
  | tryIssue inst => inferInstanceAs (Decidable (inst.op ≠ .OP_INVALID))
  | step => inferInstanceAs (Decidable True)

theorem track_erases (acc : Scheduler n × History) (call : Call n) :
    Erases Prod.fst (call.track cfg acc) (call.run cfg acc.1) := by
  cases call with
  | tryIssue inst => rfl
  | step => exact Tracked.step_erases cfg _ _

end Call

/-- What the tags of a state stand for. -/
structure TagsSound (cfg : Config) (s : Scheduler n) (h : History) : Prop where
  distinct : ∀ slot ∈ cfg.slots, ∀ slot' ∈ cfg.slots, cfg.ratIndex slot = cfg.ratIndex slot' →
    slot = slot'
  positive : ∀ slot ∈ cfg.slots, 0 < cfg.ratIndex slot
  /-- A register has the tag of a valid entry that will write it. -/
  rat : ∀ r tag, s.rat r = some tag → ∃ slot ∈ cfg.slots, cfg.ratIndex slot = tag ∧
    ∃ e, s.table slot = some e ∧ e.dest = r
  /-- A source has the tag of a valid entry whose instruction was issued before. -/
  sources : ∀ slot e, s.table slot = some e → ∀ tag, e.src1 = some tag ∨ e.src2 = some tag →
    ∃ slot' ∈ cfg.slots, cfg.ratIndex slot' = tag ∧ slot' ≠ slot ∧ s.table slot' ≠ none ∧
      h.occupant slot' < h.occupant slot
  executing : ∀ slot e, s.table slot = some e → e.startCycle ≠ 0 →
    e.src1 = none ∧ e.src2 = none ∧ e.startCycle ≤ s.currentCycle ∧
      ∃ latency, getInstLatency e.op = .ok latency ∧ s.currentCycle < e.startCycle + latency

/-! ## States -/

theorem ratIndex_pos (cfg : Config) (slot : Slot) : 0 < cfg.ratIndex slot := by
  have hstart : 1 ≤ cfg.indexStart slot.1 := by
    cases cfg <;> cases slot.1 <;> simp [Config.indexStart]
  unfold Config.ratIndex
  omega

/-- The state is that of a renaming machine, and what is executing is so for as long as its
latency. -/
structure Tagged (cfg : Config) (s : Scheduler n) (h : History) : Prop where
  simulates : ∃ program, Simulates cfg False s h program
  opsValid : s.OpsValid
  executing : ∀ slot ∈ cfg.slots, ∀ e, s.table slot = some e → e.startCycle ≠ 0 →
    e.sources = [] ∧ e.startCycle ≤ s.currentCycle ∧ s.currentCycle < e.due

theorem Tagged.initial : Tagged cfg ({} : Scheduler n) {} := by
  have hfollows : Follows cfg False [] (⟨.initial [], {}⟩ : Tracked n) := initial_follows []
  obtain ⟨before, -, hsim⟩ := hfollows
  exact ⟨⟨_, hsim⟩, nofun, nofun⟩

theorem mem_sources_iff {e : RESTEntry n} {tag : ℕ} :
    tag ∈ e.sources ↔ e.src1 = some tag ∨ e.src2 = some tag := by
  simp [RESTEntry.sources]

theorem Tagged.tagsSound {s : Scheduler n} {h : History} (ht : Tagged cfg s h) :
    TagsSound cfg s h := by
  obtain ⟨⟨_, m, hreach, hsim, -⟩, hops, hexecuting⟩ := ht
  have hinv := hreach.inv
  have hexists {slot : Slot} {e' : Renaming.Entry Slot (Fin n)} (he' : m.entry slot = some e') :
      ∃ e, s.table slot = some e ∧ Matches cfg (h.occupant slot) e e' := by
    cases he : s.table slot with
    | none =>
      rw [(hsim.free slot).mp he] at he'
      cases he'
    | some e => exact ⟨e, rfl, hsim.held he he'⟩
  refine ⟨fun slot hslot slot' hslot' ↦ ratIndex_injective hslot hslot',
    fun slot _ ↦ ratIndex_pos cfg slot, ?rat, ?sources, ?executing⟩
  case rat =>
    intro r tag hr
    rw [hsim.rat] at hr
    obtain ⟨slot, halias, rfl⟩ := Option.map_eq_some_iff.mp hr
    obtain ⟨e', he', hlast⟩ := hinv.aliasOf halias
    obtain ⟨e, he, hmatches⟩ := hexists he'
    have hdest : some e'.dest = some r := (hinv.dest he').symm.trans hlast.2.1
    exact ⟨slot, hsim.inUse he', rfl, e, he, hmatches.dest.symm.trans (Option.some.inj hdest)⟩
  case sources =>
    intro slot e he tag htag
    obtain ⟨e', he', hmatches⟩ := hsim.exists_entry he
    rw [← mem_sources_iff, ← hmatches.waits] at htag
    obtain ⟨slot', hslot', rfl⟩ := List.mem_map.mp htag
    obtain ⟨e₁', he₁', hlt⟩ := hinv.waits he' hslot'
    obtain ⟨e₁, he₁, hmatches₁⟩ := hexists he₁'
    rw [hmatches₁.num, hmatches.num] at hlt
    refine ⟨slot', hsim.inUse he₁', rfl, ?_, by rw [he₁]; exact Option.some_ne_none _, hlt⟩
    rintro rfl
    exact Nat.lt_irrefl _ hlt
  case executing =>
    intro slot e he hstart
    obtain ⟨e', he', -⟩ := hsim.exists_entry he
    obtain ⟨hsources, hle, hlt⟩ := hexecuting slot (hsim.inUse he') e he hstart
    obtain ⟨hsrc₁, hsrc₂⟩ := sources_eq_nil.mp hsources
    exact ⟨hsrc₁, hsrc₂, hle, _, getInstLatency_eq (hops slot e he), hlt⟩

/-! ## Calls -/

/-- No call ends the program. -/
theorem Tagged.track {s : Scheduler n} {h : History} (ht : Tagged cfg s h) {call : Call n}
    (hvalid : call.Valid) :
    Yields False (call.track cfg (s, h)) fun acc ↦ Tagged cfg acc.1 acc.2 := by
  obtain ⟨⟨program, hsim⟩, hops, hexecuting⟩ := ht
  cases call with
  | tryIssue inst =>
    have hsim' : Simulates cfg False (s.tryIssue cfg inst).2 (Tracked.issue cfg s h inst)
        (if (s.tryIssue cfg inst).1 then program ++ [inst.renaming] else program) :=
      issue_simulates hsim False.elim
    change Tagged cfg (s.tryIssue cfg inst).2 (Tracked.issue cfg s h inst)
    rcases tryIssue_spec cfg s hvalid with ⟨-, -, -, htry⟩ | ⟨slot, -, -, htry⟩
    · rw [htry] at hsim' ⊢
      exact ⟨⟨_, hsim'⟩, hops, hexecuting⟩
    · rw [htry] at hsim' ⊢
      exact ⟨⟨_, hsim'⟩, opsValid_issued hops hvalid, executing_issued hexecuting⟩
  | step =>
    obtain ⟨s', hs', hadvances⟩ := step_spec cfg hops
    obtain ⟨acc, hacc, hsim'⟩ := (step_simulates hsim).exists_of_not not_false
    have herases := Tracked.step_erases cfg s h
    rw [hacc] at herases
    obtain rfl : acc.1 = s' := Except.ok.inj (herases.trans hs')
    change Yields False (Tracked.step cfg s h) _
    rw [hacc]
    exact ⟨⟨program, hsim'⟩, hadvances.opsValid, executing_of_advances hadvances hexecuting⟩

/-- After any calls with the three instructions, every tag stands for a valid entry. -/
theorem tags_sound (cfg : Config) {calls : List (Call n)} (hvalid : ∀ call ∈ calls, call.Valid) :
    ∃ s h, calls.foldlM (Call.run cfg) {} = .ok s ∧
      calls.foldlM (Call.track cfg) ({}, {}) = .ok (s, h) ∧
      TagsSound cfg s h := by
  have htagged : Yields False (calls.foldlM (Call.track cfg) (({} : Scheduler n), {}))
      fun acc ↦ Tagged cfg acc.1 acc.2 :=
    .foldlM (fun call hcall acc hacc ↦ hacc.track (hvalid call hcall)) .initial
  obtain ⟨⟨s, h⟩, hcalls, hacc⟩ := htagged.exists_of_not not_false
  have herases : Erases Prod.fst (calls.foldlM (Call.track cfg) (({} : Scheduler n), {}))
      (calls.foldlM (Call.run cfg) {}) :=
    Erases.foldlM (π := Prod.fst) (fun acc call ↦ call.track_erases acc) calls ({}, {})
  rw [hcalls] at herases
  exact ⟨s, h, herases.symm, hcalls, hacc.tagsSound⟩

/-- An instruction that reads what it writes, and waits for what was written there before. -/
theorem tags_sound_readsItsDest : ∃ s h,
    [Call.tryIssue ⟨.OP_DIV, 0, some 1, none⟩, .step, .tryIssue ⟨.OP_ADD, 0, some 0, some 0⟩,
      .step].foldlM (Call.run (.perFu 1 1 1)) ({} : Scheduler 2) = .ok s ∧
    [Call.tryIssue ⟨.OP_DIV, 0, some 1, none⟩, .step, .tryIssue ⟨.OP_ADD, 0, some 0, some 0⟩,
      .step].foldlM (Call.track (.perFu 1 1 1)) (({} : Scheduler 2), {}) = .ok (s, h) ∧
    TagsSound (.perFu 1 1 1) s h :=
  tags_sound (.perFu 1 1 1) (by decide)

end ArchSim.Tomasulo
