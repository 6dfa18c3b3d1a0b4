import Mathlib.Data.Nat.Notation
import Mathlib.Logic.Function.Basic
import Mathlib.Order.Nat

/-!
# Register renaming

Instructions are issued in program order and executed out of order. An issued instruction holds an
entry whose tag stands for its result; an alias table says for each register which entry will write
it, and the entry of an instruction waits for the entries that its sources have as aliases. An
instruction that completes gives its entry back, so that tags are used again. The alias table must
forget a tag that is given back, and it may forget others: an instruction that is issued while an
alias is missing does not wait for it.
-/

namespace ArchSim.Library.Renaming

structure Inst (ρ : Type) where
  dest : ρ
  sources : List ρ
  deriving DecidableEq, Repr

/-- Instruction `i` is the last one before `j` that writes `r`; the list has the destinations. -/
def LastWriter {ρ : Type} (dests : List ρ) (j : ℕ) (r : ρ) (i : ℕ) : Prop :=
  i < j ∧ dests[i]? = some r ∧ ∀ k < j, i < k → dests[k]? ≠ some r

section LastWriter

variable {ρ : Type} {dests dests' : List ρ} {j i i' : ℕ} {r : ρ}

instance [DecidableEq ρ] : Decidable (LastWriter dests j r i) :=
  inferInstanceAs (Decidable (_ ∧ _ ∧ _))

theorem LastWriter.unique (h : LastWriter dests j r i) (h' : LastWriter dests j r i') : i = i' := by
  obtain ⟨hi, hri, hlast⟩ := h
  obtain ⟨hi', hri', hlast'⟩ := h'
  rcases Nat.lt_trichotomy i i' with hlt | heq | hgt
  · exact absurd hri' (hlast i' hi' hlt)
  · exact heq
  · exact absurd hri (hlast' i hi hgt)

/-- Later instructions do not change who was the last writer. -/
theorem LastWriter.append_iff (hj : j ≤ dests.length) :
    LastWriter (dests ++ dests') j r i ↔ LastWriter dests j r i := by
  have hget : ∀ k < j, (dests ++ dests')[k]? = dests[k]? :=
    fun k hk ↦ List.getElem?_append_left (hk.trans_le hj)
  constructor
  · rintro ⟨hi, hri, hlast⟩
    exact ⟨hi, hget i hi ▸ hri, fun k hkj hik ↦ hget k hkj ▸ hlast k hkj hik⟩
  · rintro ⟨hi, hri, hlast⟩
    exact ⟨hi, (hget i hi).symm ▸ hri, fun k hkj hik ↦ (hget k hkj).symm ▸ hlast k hkj hik⟩

/-- The instruction that is issued is the last writer of its destination. -/
theorem LastWriter.self (dests : List ρ) (r : ρ) :
    LastWriter (dests ++ [r]) (dests.length + 1) r dests.length := by
  refine ⟨Nat.lt_succ_self _, by simp, fun k hk' hk ↦ ?_⟩
  omega

theorem LastWriter.snoc {r' : ρ} (h : LastWriter dests dests.length r i) (hne : r' ≠ r) :
    LastWriter (dests ++ [r']) (dests.length + 1) r i := by
  obtain ⟨hi, hri, hlast⟩ := h
  refine ⟨hi.trans (Nat.lt_succ_self _), ?_, fun k hk hik ↦ ?_⟩
  · rw [List.getElem?_append_left hi]
    exact hri
  · rcases Nat.lt_or_ge k dests.length with hlt | hge
    · rw [List.getElem?_append_left hlt]
      exact hlast k hlt hik
    · obtain rfl : k = dests.length := by omega
      simpa using hne

end LastWriter

/-! ## The machine -/

/-- An instruction in flight. -/
structure Entry (τ ρ : Type) where
  /-- Its number in program order. -/
  num : ℕ
  dest : ρ
  /-- The entries it waits for. -/
  waits : List τ
  started : Bool

structure Machine (τ ρ : Type) where
  /-- The instructions that have been issued. -/
  program : List (Inst ρ)
  entry : τ → Option (Entry τ ρ)
  aliasOf : ρ → Option τ
  now : ℕ
  /-- When each instruction has started. -/
  started : ℕ → Option ℕ
  /-- When each instruction has completed. -/
  completed : ℕ → Option ℕ

variable {τ ρ : Type} [DecidableEq τ] [DecidableEq ρ]

def Entry.forget (e : Entry τ ρ) (t : τ) : Entry τ ρ := { e with waits := e.waits.filter (· ≠ t) }

namespace Machine

def dests (m : Machine τ ρ) : List ρ := m.program.map Inst.dest

/-- The last writer of a source without an alias is not in flight. -/
def Knows (m : Machine τ ρ) (inst : Inst ρ) : Prop :=
  ∀ r ∈ inst.sources, m.aliasOf r = none → ∀ t e, m.entry t = some e →
    ¬ LastWriter m.dests m.dests.length r e.num

def issue (m : Machine τ ρ) (t : τ) (inst : Inst ρ) : Machine τ ρ :=
  { m with
    program := m.program ++ [inst]
    entry := Function.update m.entry t
      (some ⟨m.program.length, inst.dest, inst.sources.filterMap m.aliasOf, false⟩)
    aliasOf := Function.update m.aliasOf inst.dest (some t) }

def start (m : Machine τ ρ) (t : τ) (e : Entry τ ρ) : Machine τ ρ :=
  { m with
    entry := Function.update m.entry t (some { e with started := true })
    started := Function.update m.started e.num (some m.now) }

def complete (m : Machine τ ρ) (t : τ) (e : Entry τ ρ) (aliases : ρ → Option τ) : Machine τ ρ :=
  { m with
    entry := fun t' ↦ if t' = t then none else (m.entry t').map (·.forget t)
    aliasOf := aliases
    completed := Function.update m.completed e.num (some m.now) }

end Machine

/-- One step. With `exact`, an instruction is issued only if the last writers of its sources
without an alias are not in flight. -/
inductive Step (exact : Prop) (m : Machine τ ρ) : Machine τ ρ → Prop where
  | issue {t : τ} {inst : Inst ρ} : m.entry t = none → (exact → m.Knows inst) →
      Step exact m (m.issue t inst)
  | start {t : τ} {e : Entry τ ρ} : m.entry t = some e → e.waits = [] → e.started = false →
      Step exact m (m.start t e)
  | complete {t : τ} {e : Entry τ ρ} {aliases : ρ → Option τ} : m.entry t = some e →
      e.started = true → (∀ r, aliases r = m.aliasOf r ∨ aliases r = none) →
      (∀ r, aliases r ≠ some t) → Step exact m (m.complete t e aliases)
  | tick : Step exact m { m with now := m.now + 1 }

def Machine.Initial (m : Machine τ ρ) : Prop :=
  m.program = [] ∧ (∀ t, m.entry t = none) ∧ (∀ r, m.aliasOf r = none) ∧
    (∀ i, m.started i = none) ∧ ∀ i, m.completed i = none

/-! ## The invariant -/

set_option linter.unusedSectionVars false

/-- An alias is the entry of the last writer of its register, an entry waits for entries of earlier
instructions, and each instruction is in flight from its issue to its completion. -/
structure Inv (m : Machine τ ρ) : Prop where
  dest : ∀ {t e}, m.entry t = some e → m.dests[e.num]? = some e.dest
  unique : ∀ {t t' e e'}, m.entry t = some e → m.entry t' = some e' → e.num = e'.num → t = t'
  aliasOf : ∀ {r t}, m.aliasOf r = some t →
    ∃ e, m.entry t = some e ∧ LastWriter m.dests m.dests.length r e.num
  waits : ∀ {t t' e}, m.entry t = some e → t' ∈ e.waits →
    ∃ e', m.entry t' = some e' ∧ e'.num < e.num
  ready : ∀ {t e}, m.entry t = some e → e.started = true → e.waits = []
  inFlight : ∀ {i}, i < m.program.length → m.completed i = none →
    ∃ t e, m.entry t = some e ∧ e.num = i
  pending : ∀ {t e}, m.entry t = some e → m.completed e.num = none
  past : ∀ {i c}, m.completed i = some c → i < m.program.length ∧ c ≤ m.now
  begun : ∀ {i f}, m.started i = some f → i < m.program.length

/-- An instruction in flight waits for the last writers of its sources, and none has started before
they were completed. -/
structure Ordered (m : Machine τ ρ) : Prop where
  waiting : ∀ {t e inst r i}, m.entry t = some e → m.program[e.num]? = some inst →
    r ∈ inst.sources → LastWriter m.dests e.num r i →
    m.completed i ≠ none ∨ ∃ t' ∈ e.waits, ∃ e', m.entry t' = some e' ∧ e'.num = i
  started : ∀ {j f inst r i}, m.started j = some f → m.program[j]? = some inst →
    r ∈ inst.sources → LastWriter m.dests j r i → ∃ c, m.completed i = some c ∧ c ≤ f

variable {m m' : Machine τ ρ} {t t' : τ} {e : Entry τ ρ} {inst : Inst ρ} {r : ρ} {i : ℕ}

@[simp] theorem length_dests : m.dests.length = m.program.length := List.length_map _

theorem Inv.num_lt (h : Inv m) (he : m.entry t = some e) : e.num < m.program.length := by
  rw [← length_dests]
  exact (List.getElem?_eq_some_iff.mp (h.dest he)).1

/-- As entries wait for earlier instructions, some entry waits for none. -/
theorem Inv.exists_waits_eq_nil (h : Inv m) (he : m.entry t = some e) :
    ∃ t' e', m.entry t' = some e' ∧ e'.waits = [] := by
  induction hnum : e.num using Nat.strong_induction_on generalizing t e with
  | _ num ih =>
    cases hwaits : e.waits with
    | nil => exact ⟨t, e, he, hwaits⟩
    | cons t' rest =>
      obtain ⟨e', he', hlt⟩ := h.waits he (hwaits ▸ List.mem_cons_self)
      exact ih e'.num (hnum ▸ hlt) he' rfl

section Issue

theorem dests_issue : (m.issue t inst).dests = m.dests ++ [inst.dest] := List.map_append

theorem length_issue : (m.issue t inst).program.length = m.program.length + 1 := by
  simp [Machine.issue]

theorem entry_issue_self : (m.issue t inst).entry t =
    some ⟨m.program.length, inst.dest, inst.sources.filterMap m.aliasOf, false⟩ :=
  Function.update_self _ _ _

theorem entry_issue_of_ne (h : t' ≠ t) : (m.issue t inst).entry t' = m.entry t' :=
  Function.update_of_ne h _ _

theorem aliasOf_issue_self : (m.issue t inst).aliasOf inst.dest = some t :=
  Function.update_self _ _ _

theorem aliasOf_issue_of_ne (h : r ≠ inst.dest) : (m.issue t inst).aliasOf r = m.aliasOf r :=
  Function.update_of_ne h _ _

/-- What was issued before is not changed. -/
theorem program_issue_of_lt (h : i < m.program.length) :
    (m.issue t inst).program[i]? = m.program[i]? := List.getElem?_append_left h

theorem lastWriter_issue {j : ℕ} (h : j ≤ m.program.length) :
    LastWriter (m.issue t inst).dests j r i ↔ LastWriter m.dests j r i := by
  rw [dests_issue]
  apply LastWriter.append_iff
  rwa [length_dests]

/-- The entries after an issue. -/
theorem entry_issue {t' : τ} {e' : Entry τ ρ} (h : (m.issue t inst).entry t' = some e') :
    t' = t ∧ e' = ⟨m.program.length, inst.dest, inst.sources.filterMap m.aliasOf, false⟩ ∨
      t' ≠ t ∧ m.entry t' = some e' := by
  by_cases ht : t' = t
  · subst ht
    rw [entry_issue_self] at h
    exact .inl ⟨rfl, (Option.some.inj h).symm⟩
  · rw [entry_issue_of_ne ht] at h
    exact .inr ⟨ht, h⟩

theorem entry_issue_of_some (hfree : m.entry t = none) (h : m.entry t' = some e) :
    (m.issue t inst).entry t' = some e := by
  have hne : t' ≠ t := by
    rintro rfl
    cases hfree.symm.trans h
  rw [entry_issue_of_ne hne, h]

theorem Inv.issue (h : Inv m) (hfree : m.entry t = none) : Inv (m.issue t inst) where
  dest {t' e'} he' := by
    rw [dests_issue]
    rcases entry_issue he' with ⟨-, rfl⟩ | ⟨-, hold⟩
    · simp [← length_dests]
    · rw [List.getElem?_append_left (by rw [length_dests]; exact h.num_lt hold)]
      exact h.dest hold
  unique {t₁ t₂ e₁ e₂} he₁ he₂ hnum := by
    rcases entry_issue he₁ with ⟨rfl, rfl⟩ | ⟨-, hold₁⟩ <;>
      rcases entry_issue he₂ with ⟨rfl, rfl⟩ | ⟨-, hold₂⟩
    · rfl
    · exact absurd hnum.symm (h.num_lt hold₂).ne
    · exact absurd hnum (h.num_lt hold₁).ne
    · exact h.unique hold₁ hold₂ hnum
  aliasOf {r t'} hr := by
    rw [dests_issue, List.length_append]
    by_cases hdest : r = inst.dest
    · subst hdest
      rw [aliasOf_issue_self] at hr
      obtain rfl := Option.some.inj hr
      refine ⟨_, entry_issue_self, ?_⟩
      simpa using LastWriter.self m.dests inst.dest
    · rw [aliasOf_issue_of_ne hdest] at hr
      obtain ⟨e', he', hlast⟩ := h.aliasOf hr
      exact ⟨e', entry_issue_of_some hfree he', hlast.snoc (Ne.symm hdest)⟩
  waits {t₁ t₂ e₁} he₁ hwaits := by
    rcases entry_issue he₁ with ⟨-, rfl⟩ | ⟨-, hold⟩
    · obtain ⟨r, -, hr⟩ := List.mem_filterMap.mp hwaits
      obtain ⟨e₂, he₂, -⟩ := h.aliasOf hr
      exact ⟨e₂, entry_issue_of_some hfree he₂, h.num_lt he₂⟩
    · obtain ⟨e₂, he₂, hlt⟩ := h.waits hold hwaits
      exact ⟨e₂, entry_issue_of_some hfree he₂, hlt⟩
  ready {t' e'} he' hstarted := by
    rcases entry_issue he' with ⟨-, rfl⟩ | ⟨-, hold⟩
    · cases hstarted
    · exact h.ready hold hstarted
  inFlight {i} hi hnone := by
    rw [length_issue] at hi
    rcases Nat.lt_or_ge i m.program.length with hlt | hge
    · obtain ⟨t', e', he', hnum⟩ := h.inFlight hlt hnone
      exact ⟨t', e', entry_issue_of_some hfree he', hnum⟩
    · exact ⟨t, _, entry_issue_self, Nat.le_antisymm hge (Nat.le_of_lt_succ hi)⟩
  pending {t' e'} he' := by
    rcases entry_issue he' with ⟨-, rfl⟩ | ⟨-, hold⟩
    · refine Option.eq_none_iff_forall_ne_some.mpr fun c hc ↦ ?_
      exact absurd (h.past hc).1 (Nat.lt_irrefl _)
    · exact h.pending hold
  past {i c} hc := by
    rw [length_issue]
    exact ⟨(h.past hc).1.trans (Nat.lt_succ_self _), (h.past hc).2⟩
  begun {i f} hf := by
    rw [length_issue]
    exact (h.begun hf).trans (Nat.lt_succ_self _)

theorem Ordered.issue (ho : Ordered m) (h : Inv m) (hfree : m.entry t = none)
    (hknows : m.Knows inst) : Ordered (m.issue t inst) where
  waiting {t₁ e₁ inst₁ r i} he₁ hinst₁ hr hlast := by
    rcases entry_issue he₁ with ⟨-, rfl⟩ | ⟨-, hold⟩
    · -- the new entry: an alias is the last writer, and a missing one is that of a completed writer
      obtain rfl : inst₁ = inst := by simpa [Machine.issue] using hinst₁.symm
      have hlast' : LastWriter m.dests m.dests.length r i := by
        rw [length_dests]
        exact (lastWriter_issue le_rfl).mp hlast
      cases hr' : m.aliasOf r with
      | some t' =>
        obtain ⟨e', he', hlast''⟩ := h.aliasOf hr'
        exact .inr ⟨t', List.mem_filterMap.mpr ⟨r, hr, hr'⟩, e', entry_issue_of_some hfree he',
          hlast''.unique hlast'⟩
      | none =>
        left
        intro hnone
        have hi : i < m.program.length := by simpa using hlast'.1
        obtain ⟨t', e', he', rfl⟩ := h.inFlight hi hnone
        exact hknows r hr hr' t' e' he' hlast'
    · have hlt := h.num_lt hold
      rw [program_issue_of_lt hlt] at hinst₁
      rw [lastWriter_issue hlt.le] at hlast
      rcases ho.waiting hold hinst₁ hr hlast with hdone | ⟨t', ht', e', he', hnum⟩
      · exact .inl hdone
      · exact .inr ⟨t', ht', e', entry_issue_of_some hfree he', hnum⟩
  started {j f inst₁ r i} hj hinst₁ hr hlast := by
    have hlt := h.begun hj
    rw [program_issue_of_lt hlt] at hinst₁
    rw [lastWriter_issue hlt.le] at hlast
    exact ho.started hj hinst₁ hr hlast

end Issue

section Start

/-- A start changes nothing of an entry but that it has started. -/
theorem entry_start {t' : τ} {e' : Entry τ ρ} (he : m.entry t = some e)
    (h : (m.start t e).entry t' = some e') :
    ∃ e₀, m.entry t' = some e₀ ∧ e₀.num = e'.num ∧ e₀.dest = e'.dest ∧ e₀.waits = e'.waits ∧
      (e'.started = true → e₀.started = true ∨ t' = t) := by
  by_cases ht : t' = t
  · subst ht
    have hself : (m.start t' e).entry t' = some { e with started := true } :=
      Function.update_self _ _ _
    obtain rfl := Option.some.inj (hself.symm.trans h)
    exact ⟨e, he, rfl, rfl, rfl, fun _ ↦ .inr rfl⟩
  · have hother : (m.start t e).entry t' = m.entry t' := Function.update_of_ne ht _ _
    exact ⟨e', hother ▸ h, rfl, rfl, rfl, .inl⟩

theorem exists_entry_start {e' : Entry τ ρ} (he : m.entry t = some e)
    (h : m.entry t' = some e') : ∃ e₁, (m.start t e).entry t' = some e₁ ∧ e₁.num = e'.num := by
  by_cases ht : t' = t
  · subst ht
    obtain rfl := Option.some.inj (he.symm.trans h)
    exact ⟨_, Function.update_self _ _ _, rfl⟩
  · exact ⟨e', (Function.update_of_ne ht _ _).trans h, rfl⟩

theorem Inv.start (h : Inv m) (he : m.entry t = some e) (hwaits : e.waits = []) :
    Inv (m.start t e) where
  dest {t' e'} he' := by
    obtain ⟨e₀, he₀, hnum, hdest, -⟩ := entry_start he he'
    rw [← hnum, ← hdest]
    exact h.dest he₀
  unique {t₁ t₂ e₁ e₂} he₁ he₂ hnum := by
    obtain ⟨e₁', he₁', hnum₁, -⟩ := entry_start he he₁
    obtain ⟨e₂', he₂', hnum₂, -⟩ := entry_start he he₂
    apply h.unique he₁' he₂'
    calc e₁'.num
        = e₁.num := hnum₁
      _ = e₂.num := hnum
      _ = e₂'.num := hnum₂.symm
  aliasOf {r t'} hr := by
    obtain ⟨e', he', hlast⟩ := h.aliasOf hr
    obtain ⟨e₁, he₁, hnum⟩ := exists_entry_start he he'
    exact ⟨e₁, he₁, hnum ▸ hlast⟩
  waits {t₁ t₂ e₁} he₁ hmem := by
    obtain ⟨e₀, he₀, hnum, -, hsame, -⟩ := entry_start he he₁
    obtain ⟨e₂, he₂, hlt⟩ := h.waits he₀ (hsame ▸ hmem)
    obtain ⟨e₂', he₂', hnum₂⟩ := exists_entry_start he he₂
    exact ⟨e₂', he₂', by omega⟩
  ready {t' e'} he' hstarted := by
    obtain ⟨e₀, he₀, -, -, hsame, hold⟩ := entry_start he he'
    rw [← hsame]
    rcases hold hstarted with hold | rfl
    · exact h.ready he₀ hold
    · obtain rfl := Option.some.inj (he.symm.trans he₀)
      exact hwaits
  inFlight {i} hi hnone := by
    obtain ⟨t', e', he', hnum⟩ := h.inFlight hi hnone
    obtain ⟨e₁, he₁, hnum₁⟩ := exists_entry_start he he'
    exact ⟨t', e₁, he₁, hnum₁.trans hnum⟩
  pending {t' e'} he' := by
    obtain ⟨e₀, he₀, hnum, -⟩ := entry_start he he'
    exact hnum ▸ h.pending he₀
  past := h.past
  begun {i f} hf := by
    by_cases hi : i = e.num
    · exact hi ▸ h.num_lt he
    · exact h.begun ((Function.update_of_ne hi _ _).symm.trans hf)

theorem Ordered.start (ho : Ordered m) (h : Inv m) (he : m.entry t = some e)
    (hwaits : e.waits = []) : Ordered (m.start t e) where
  waiting {t' e' inst r i} he' hinst hr hlast := by
    obtain ⟨e₀, he₀, hnum, -, hsame, -⟩ := entry_start he he'
    rw [← hnum] at hinst hlast
    rcases ho.waiting he₀ hinst hr hlast with hdone | ⟨t₁, ht₁, e₁, he₁, hnum₁⟩
    · exact .inl hdone
    · obtain ⟨e₂, he₂, hnum₂⟩ := exists_entry_start he he₁
      exact .inr ⟨t₁, hsame ▸ ht₁, e₂, he₂, hnum₂.trans hnum₁⟩
  started {j f inst r i} hj hinst hr hlast := by
    by_cases hje : j = e.num
    · subst hje
      have hself : (m.start t e).started e.num = some m.now := Function.update_self _ _ _
      obtain rfl : m.now = f := Option.some.inj (hself.symm.trans hj)
      rcases ho.waiting he hinst hr hlast with hdone | ⟨t₁, ht₁, -⟩
      · obtain ⟨c, hc⟩ := Option.ne_none_iff_exists'.mp hdone
        exact ⟨c, hc, (h.past hc).2⟩
      · rw [hwaits] at ht₁
        cases ht₁
    · exact ho.started ((Function.update_of_ne hje _ _).symm.trans hj) hinst hr hlast

end Start

section Complete

variable {aliases : ρ → Option τ}

/-- The entries after a completion. -/
theorem entry_complete {t' : τ} {e' : Entry τ ρ}
    (h : (m.complete t e aliases).entry t' = some e') :
    t' ≠ t ∧ ∃ e₀, m.entry t' = some e₀ ∧ e' = e₀.forget t := by
  simp only [Machine.complete] at h
  split at h
  · cases h
  · rename_i hne
    obtain ⟨e₀, he₀, rfl⟩ := Option.map_eq_some_iff.mp h
    exact ⟨hne, e₀, he₀, rfl⟩

theorem entry_complete_of_ne {e' : Entry τ ρ} (hne : t' ≠ t) (h : m.entry t' = some e') :
    (m.complete t e aliases).entry t' = some (e'.forget t) := by
  simp only [Machine.complete, if_neg hne, h]
  rfl

theorem completed_complete (h : Inv m) (he : m.entry t = some e) {c : ℕ}
    (hc : m.completed i = some c) : (m.complete t e aliases).completed i = some c := by
  have hne : i ≠ e.num := by
    rintro rfl
    cases (h.pending he).symm.trans hc
  exact (Function.update_of_ne hne _ _).trans hc

theorem completed_complete_self :
    (m.complete t e aliases).completed e.num = some m.now := Function.update_self _ _ _

theorem Inv.complete (h : Inv m) (he : m.entry t = some e)
    (hkeeps : ∀ r, aliases r = m.aliasOf r ∨ aliases r = none)
    (hforgets : ∀ r, aliases r ≠ some t) : Inv (m.complete t e aliases) where
  dest {t' e'} he' := by
    obtain ⟨-, e₀, he₀, rfl⟩ := entry_complete he'
    have hdest := h.dest he₀
    exact hdest
  unique {t₁ t₂ e₁ e₂} he₁ he₂ hnum := by
    obtain ⟨-, e₁', he₁', rfl⟩ := entry_complete he₁
    obtain ⟨-, e₂', he₂', rfl⟩ := entry_complete he₂
    exact h.unique he₁' he₂' hnum
  aliasOf {r t'} hr := by
    have hold : m.aliasOf r = some t' := by
      rcases hkeeps r with hkeep | hnone
      · exact hkeep ▸ hr
      · cases hnone.symm.trans hr
    obtain ⟨e', he', hlast⟩ := h.aliasOf hold
    have hne : t' ≠ t := by
      rintro rfl
      exact hforgets r hr
    exact ⟨_, entry_complete_of_ne hne he', hlast⟩
  waits {t₁ t₂ e₁} he₁ hmem := by
    obtain ⟨-, e₀, he₀, rfl⟩ := entry_complete he₁
    obtain ⟨hmem₀, hne⟩ := List.mem_filter.mp hmem
    obtain ⟨e₂, he₂, hlt⟩ := h.waits he₀ hmem₀
    exact ⟨_, entry_complete_of_ne (of_decide_eq_true hne) he₂, hlt⟩
  ready {t' e'} he' hstarted' := by
    obtain ⟨-, e₀, he₀, rfl⟩ := entry_complete he'
    rw [Entry.forget, h.ready he₀ hstarted']
    rfl
  inFlight {i} hi hnone := by
    have hne : i ≠ e.num := by
      rintro rfl
      cases completed_complete_self.symm.trans hnone
    obtain ⟨t', e', he', rfl⟩ := h.inFlight hi ((Function.update_of_ne hne _ _).symm.trans hnone)
    have ht : t' ≠ t := by
      rintro rfl
      exact hne (congrArg Entry.num (Option.some.inj (he'.symm.trans he)))
    exact ⟨t', _, entry_complete_of_ne ht he', rfl⟩
  pending {t' e'} he' := by
    obtain ⟨hne, e₀, he₀, rfl⟩ := entry_complete he'
    have hnum : e₀.num ≠ e.num := fun hnum ↦ hne (h.unique he₀ he hnum)
    exact (Function.update_of_ne hnum _ _).trans (h.pending he₀)
  past {i c} hc := by
    by_cases hi : i = e.num
    · subst hi
      obtain rfl := Option.some.inj (completed_complete_self.symm.trans hc)
      exact ⟨h.num_lt he, le_rfl⟩
    · exact h.past ((Function.update_of_ne hi _ _).symm.trans hc)
  begun := h.begun

theorem Ordered.complete (ho : Ordered m) (h : Inv m) (he : m.entry t = some e) :
    Ordered (m.complete t e aliases) where
  waiting {t' e' inst r i} he' hinst hr hlast := by
    obtain ⟨-, e₀, he₀, rfl⟩ := entry_complete he'
    rcases ho.waiting he₀ hinst hr hlast with hdone | ⟨t₁, ht₁, e₁, he₁, rfl⟩
    · obtain ⟨c, hc⟩ := Option.ne_none_iff_exists'.mp hdone
      exact .inl (by rw [completed_complete h he hc]; exact Option.some_ne_none c)
    · by_cases hne : t₁ = t
      · subst hne
        obtain rfl := Option.some.inj (he.symm.trans he₁)
        exact .inl (by rw [completed_complete_self]; exact Option.some_ne_none _)
      · exact .inr ⟨t₁, List.mem_filter.mpr ⟨ht₁, decide_eq_true hne⟩, _,
          entry_complete_of_ne hne he₁, rfl⟩
  started {j f inst r i} hj hinst hr hlast := by
    obtain ⟨c, hc, hle⟩ := ho.started hj hinst hr hlast
    exact ⟨c, completed_complete h he hc, hle⟩

end Complete

/-! ## Runs -/

theorem Inv.of_initial (h : m.Initial) : Inv m := by
  obtain ⟨hprogram, hentry, haliasOf, hstarted, hcompleted⟩ := h
  refine ⟨?_, ?_, ?_, ?_, ?_, ?_, ?_, ?_, ?_⟩
  all_goals simp [hprogram, hentry, haliasOf, hstarted, hcompleted]

theorem Ordered.of_initial (h : m.Initial) : Ordered m := by
  obtain ⟨hprogram, hentry, haliasOf, hstarted, hcompleted⟩ := h
  constructor
  all_goals simp [hentry, hstarted]

theorem Inv.step {exact : Prop} (h : Inv m) (hstep : Step exact m m') : Inv m' := by
  cases hstep with
  | issue hfree _ => exact h.issue hfree
  | start he hwaits _ => exact h.start he hwaits
  | complete he _ hkeeps hforgets => exact h.complete he hkeeps hforgets
  | tick => exact { h with past := fun hc ↦ ⟨(h.past hc).1, (h.past hc).2.trans (Nat.le_succ _)⟩ }

theorem Ordered.step (ho : Ordered m) (h : Inv m) (hstep : Step True m m') : Ordered m' := by
  cases hstep with
  | issue hfree hknows => exact ho.issue h hfree (hknows trivial)
  | start he hwaits _ => exact ho.start h he hwaits
  | complete he _ _ _ => exact ho.complete h he
  | tick => exact ⟨ho.waiting, ho.started⟩

/-- The states of the machine's runs. -/
inductive Reachable (exact : Prop) : Machine τ ρ → Prop where
  | initial {m : Machine τ ρ} : m.Initial → Reachable exact m
  | step {m m' : Machine τ ρ} : Reachable exact m → Step exact m m' → Reachable exact m'

theorem Reachable.inv {exact : Prop} (h : Reachable exact m) : Inv m := by
  induction h with
  | initial hm => exact .of_initial hm
  | step _ hstep ih => exact ih.step hstep

/-- In a run in which no instruction is issued while a last writer without alias is in flight, no
instruction starts before the last writers of its sources have completed. -/
theorem Reachable.ordered (h : Reachable True m) : Ordered m := by
  induction h with
  | initial hm => exact .of_initial hm
  | step hm hstep ih => exact ih.step hm.inv hstep

end ArchSim.Library.Renaming
