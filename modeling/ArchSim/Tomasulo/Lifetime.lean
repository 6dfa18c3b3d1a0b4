import ArchSim.Tomasulo.Termination

/-!
# The life of an instruction

An instruction leaves the trace once, for a free entry. It stays there, and nothing of it changes
but its sources, until it is fired, and from then on nothing changes until its latency has passed:
in that very cycle it is cleared. `scheduler_clear_completed` tests for equality, and it does so in
every cycle, so that the one in which an instruction is due is not missed.
-/

namespace ArchSim.Tomasulo

open Library Renaming

variable {n : ℕ} {cfg : Config}

/-! ## One place in a table -/

/-- An entry with the given `start_cycle`. -/
def RESTEntry.startedAt (e : RESTEntry n) (startCycle : ℕ) : RESTEntry n :=
  { e with startCycle := startCycle }

theorem RESTEntry.Narrows.startedAt {e e' : RESTEntry n} (h : e.Narrows e') (startCycle : ℕ) :
    (e.startedAt startCycle).Narrows (e'.startedAt startCycle) :=
  ⟨h.op, h.dest, rfl, h.src1, h.src2⟩

theorem RESTEntry.startedAt_eq {e : RESTEntry n} {startCycle : ℕ}
    (h : e.startCycle = startCycle) : e.startedAt startCycle = e := by
  subst h
  rfl

/-- The instruction that is put into a place in the cycle `issue` as the entry `e₀` is fired in the
cycle `start` and cleared in the cycle `finish`; the place holds `o c` in the cycle `c`. -/
structure LivesFrom (e₀ : RESTEntry n) (issue start finish : ℕ) (o : ℕ → Option (RESTEntry n)) :
    Prop where
  issue_lt : issue < start
  start_lt : start < finish
  /-- Until it is cleared, the place holds the entry, but for sources that have become ready. -/
  held : ∀ c, issue ≤ c → c < finish → ∃ e, o c = some e ∧
    (e₀.startedAt (if c < start then 0 else start)).Narrows e ∧ (start ≤ c → e.sources = [])
  /-- A source that has become ready stays so. -/
  narrows : ∀ c e e', issue ≤ c → c + 1 < finish → o c = some e → o (c + 1) = some e' →
    (e.startedAt e'.startCycle).Narrows e'
  cleared : o finish = none

section

variable {e₀ : RESTEntry n} {o : ℕ → Option (RESTEntry n)} {issue last : ℕ}

/-- The cycle in which an instruction is fired. -/
theorem exists_fires (hissue : o issue = some e₀) (hstart : e₀.startCycle = 0)
    (hpasses : ∀ c, issue ≤ c → c < last → o c ≠ none → Passes (c + 1) (o c) (o (c + 1)))
    (hlast : issue ≤ last) (hend : o last = none) :
    ∃ start e, issue < start ∧ start ≤ last ∧
      (∀ c, issue ≤ c → c < start → ∃ e, o c = some e ∧ e₀.Narrows e) ∧
      o start = some (e.startedAt start) ∧ e₀.Narrows e ∧ e.sources = [] := by
  classical
  have hlt : issue < last := by
    rcases Nat.lt_or_eq_of_le hlast with hlt | rfl
    · exact hlt
    · cases hissue.symm.trans hend
  let Left (c : ℕ) : Prop := issue < c ∧ ¬ ∃ e, o c = some e ∧ e.startCycle = 0
  have hleft : ∃ c, Left c := ⟨last, hlt, fun ⟨e, he, _⟩ ↦ nomatch hend.symm.trans he⟩
  obtain ⟨start, ⟨hissueLt, hnot⟩, hmin⟩ : ∃ start, Left start ∧ ∀ c < start, ¬ Left c :=
    ⟨Nat.find hleft, Nat.find_spec hleft, fun _ ↦ Nat.find_min hleft⟩
  have hle : start ≤ last := by
    by_contra hgt
    exact hmin last (by omega) ⟨hlt, fun ⟨e, he, _⟩ ↦ nomatch hend.symm.trans he⟩
  have hwaiting : ∀ c, issue ≤ c → c < start → ∃ e, o c = some e ∧ e₀.Narrows e := by
    intro c hc
    induction c, hc using Nat.le_induction with
    | base => exact fun _ ↦ ⟨e₀, hissue, .refl e₀⟩
    | succ c hc ih =>
      intro hcStart
      obtain ⟨e, he, hnarrow⟩ := ih (by omega)
      have hnext : ∃ e, o (c + 1) = some e ∧ e.startCycle = 0 := by
        by_contra hnone
        exact hmin (c + 1) hcStart ⟨by omega, hnone⟩
      obtain ⟨e', he', hstart'⟩ := hnext
      have hstep := hpasses c hc (by omega) (by rw [he]; nofun)
      rw [he, he'] at hstep
      cases hstep with
      | keeps _ hnarrow' => exact ⟨e', he', hnarrow.trans hnarrow'⟩
      | fires => exact absurd hstart' (Nat.succ_ne_zero c)
  obtain ⟨c, rfl⟩ : ∃ c, start = c + 1 := ⟨start - 1, by omega⟩
  obtain ⟨e, he, hnarrow⟩ := hwaiting c (by omega) (Nat.lt_succ_self c)
  have hzero : e.startCycle = 0 := hnarrow.startCycle.trans hstart
  have hstep := hpasses c (by omega) (by omega) (by rw [he]; nofun)
  rw [he] at hstep
  generalize hnext : o (c + 1) = next at hstep
  cases hstep with
  | clears hne => exact absurd hzero hne
  | keeps _ hnarrow' => exact absurd ⟨_, hnext, hnarrow'.startCycle.trans hzero⟩ hnot
  | fires _ hnarrow' hsources =>
    exact ⟨c + 1, _, hissueLt, hle, hwaiting, hnext, hnarrow.trans hnarrow', hsources⟩

/-- A cycle clears an executing instruction if it is due, and changes nothing of it otherwise. -/
theorem Passes.of_executing {e : RESTEntry n} {c : ℕ} {next : Option (RESTEntry n)}
    (h : Passes c (some e) next) (hstarted : e.startCycle ≠ 0) (hready : e.sources = []) :
    next = if e.due = c then none else some e := by
  cases h with
  | clears _ hdue => rw [if_pos hdue]
  | keeps hnotDue hnarrow => rw [if_neg (hnotDue hstarted), hnarrow.eq_of_ready hready]
  | fires hzero => exact absurd hzero hstarted

/-- From the cycle in which it is fired to the one in which it is due, an instruction executes. -/
theorem holds_executing {e : RESTEntry n} {start : ℕ} (hfired : o start = some e)
    (hstarted : e.startCycle ≠ 0) (hready : e.sources = [])
    (hpasses : ∀ c, start ≤ c → c < last → o c ≠ none → Passes (c + 1) (o c) (o (c + 1))) :
    ∀ c, start ≤ c → c ≤ last → c < e.due → o c = some e := by
  intro c hc
  induction c, hc using Nat.le_induction with
  | base => exact fun _ _ ↦ hfired
  | succ c hc ih =>
    intro hcLast hcDue
    have he := ih (by omega) (by omega)
    have hpass := hpasses c hc hcLast (by rw [he]; nofun)
    rw [he] at hpass
    rw [hpass.of_executing hstarted hready, if_neg hcDue.ne']

/-- An instruction that has been fired is cleared when its latency has passed. -/
theorem exists_livesFrom (hissue : o issue = some e₀) (hstart : e₀.startCycle = 0)
    (hop : e₀.op ≠ .OP_INVALID)
    (hpasses : ∀ c, issue ≤ c → c < last → o c ≠ none → Passes (c + 1) (o c) (o (c + 1)))
    (hlast : issue ≤ last) (hend : o last = none) :
    ∃ start, start + e₀.op.latency ≤ last ∧
      LivesFrom e₀ issue start (start + e₀.op.latency) o := by
  obtain ⟨start, e, hissueLt, hstartLe, hwaiting, hfired, hnarrow, hsources⟩ :=
    exists_fires hissue hstart hpasses hlast hend
  have hdue : (e.startedAt start).due = start + e₀.op.latency :=
    congrArg (fun op : OpType ↦ start + op.latency) hnarrow.op
  have hpos := OpType.latency_pos hop
  have hne : start ≠ 0 := by omega
  have hexecuting := holds_executing hfired hne hsources
    fun c hc hcLast hsome ↦ hpasses c (hissueLt.le.trans hc) hcLast hsome
  rw [hdue] at hexecuting
  have hfinish : start + e₀.op.latency ≤ last := by
    by_contra hgt
    cases (hexecuting last hstartLe le_rfl (by omega)).symm.trans hend
  refine ⟨start, hfinish, hissueLt, by omega, fun c hc hcDue ↦ ?held,
    fun c e₁ e₂ hc hcDue he₁ he₂ ↦ ?narrows, ?cleared⟩
  case held =>
    by_cases hbefore : c < start
    · obtain ⟨e₁, he₁, hnarrow₁⟩ := hwaiting c hc hbefore
      rw [if_pos hbefore, RESTEntry.startedAt_eq hstart]
      exact ⟨e₁, he₁, hnarrow₁, fun hle ↦ absurd hbefore (by omega)⟩
    · rw [if_neg hbefore]
      exact ⟨_, hexecuting c (by omega) (by omega) hcDue, hnarrow.startedAt start,
        fun _ ↦ hsources⟩
  case narrows =>
    have hpass := hpasses c hc (by omega) (by rw [he₁]; nofun)
    rw [he₁, he₂] at hpass
    cases hpass with
    | keeps _ hnarrow₁ =>
      rw [RESTEntry.startedAt_eq hnarrow₁.startCycle.symm]
      exact hnarrow₁
    | fires _ hnarrow₁ => exact hnarrow₁.startedAt _
  case cleared =>
    obtain ⟨c, hc⟩ : ∃ c, start + e₀.op.latency = c + 1 := ⟨start + e₀.op.latency - 1, by omega⟩
    have he := hexecuting c (by omega) (by omega) (by omega)
    have hpass := hpasses c (by omega) (by omega) (by rw [he]; nofun)
    rw [he] at hpass
    rw [hc, hpass.of_executing hne hsources, if_pos (hdue.trans hc)]

end

/-! ## Counts -/

/-- The iterations, of the first `k`, of the loop that lets the pipeline drain. -/
def Driver.drainSteps (cfg : Config) (insts : List (Inst n)) (k : ℕ) : ℕ :=
  (List.range k).countP fun i ↦
    ((Driver.loop cfg n).after i (.initial insts)).any fun d ↦ d.trace.isEmpty

theorem Driver.drainSteps_succ {insts : List (Inst n)} {k : ℕ} {d : Driver n}
    (h : (Driver.loop cfg n).after k (.initial insts) = some d) :
    drainSteps cfg insts (k + 1) =
      drainSteps cfg insts k + if d.trace.isEmpty then 1 else 0 := by
  unfold drainSteps
  rw [List.range_succ, List.countP_append, List.countP_singleton, h, Option.any_some]

theorem Driver.currentCycle_eq {insts : List (Inst n)} (hops : Executable insts) {k : ℕ}
    {d : Driver n} (h : (Driver.loop cfg n).after k (.initial insts) = some d) :
    d.sched.currentCycle = k + 1 := by
  induction k generalizing d with
  | zero =>
    obtain rfl := Option.some.inj h
    rfl
  | succ k ih =>
    obtain ⟨d₁, hk, -, hmoves⟩ := exists_moves hops h
    rw [hmoves.currentCycle, ih hk]

/-- Every iteration issues an instruction, or stalls, or drains. -/
theorem Driver.counts {insts : List (Inst n)} (hops : Executable insts) {k : ℕ} {d : Driver n}
    (h : (Driver.loop cfg n).after k (.initial insts) = some d) :
    d.sched.stats.numInsts + d.trace.length = insts.length ∧
      k = d.sched.stats.numInsts + d.sched.stats.issueStall + drainSteps cfg insts k := by
  induction k generalizing d with
  | zero =>
    obtain rfl := Option.some.inj h
    exact ⟨Nat.zero_add _, rfl⟩
  | succ k ih =>
    obtain ⟨d₁, hk, -, hmoves⟩ := exists_moves hops h
    obtain ⟨hinsts, hcount⟩ := ih hk
    rw [drainSteps_succ hk]
    cases hmoves with
    | issues htrace _ _ _ hadvances =>
      have hnum : d.sched.stats.numInsts = d₁.sched.stats.numInsts + 1 := hadvances.numInsts
      have hstall : d.sched.stats.issueStall = d₁.sched.stats.issueStall := hadvances.issueStall
      rw [htrace, List.length_cons] at hinsts
      simp only [htrace, List.isEmpty_cons, Bool.false_eq_true, if_false]
      omega
    | stalls htrace hsame _ _ _ hadvances =>
      have hnum : d.sched.stats.numInsts = d₁.sched.stats.numInsts := hadvances.numInsts
      have hstall : d.sched.stats.issueStall = d₁.sched.stats.issueStall + 1 :=
        hadvances.issueStall
      rw [hsame]
      simp only [htrace, List.isEmpty_cons, Bool.false_eq_true, if_false] at hinsts ⊢
      omega
    | drains hnil hnil' hadvances =>
      rw [hnil] at hinsts
      simp only [hnil, hnil', List.isEmpty_nil, if_true]
      rw [hadvances.numInsts, hadvances.issueStall]
      omega

/-! ## Instructions -/

/-- Instruction `j` of the trace is issued into `slot` in the cycle `issue`, fired in the cycle
`start`, and cleared `latency` cycles later. -/
structure Lifetime (cfg : Config) (insts : List (Inst n)) (j : ℕ) (inst : Inst n) (slot : Slot)
    (issue start latency : ℕ) : Prop where
  latency_eq : getInstLatency inst.op = .ok latency
  issue_lt : issue < start
  /-- It is at the head of the trace when it is issued, and `slot` is free. -/
  issued : ∃ k d, (Driver.loop cfg n).after k (.initial insts) = some d ∧
    d.sched.currentCycle = issue ∧ d.trace = insts.drop j ∧ d.sched.table slot = none ∧
    d.sched.tryIssue cfg inst = (true, issued cfg d.sched slot inst)
  /-- It is in the trace in this cycle and before, and in no later one. -/
  unissued : ∀ k d, (Driver.loop cfg n).after k (.initial insts) = some d →
    (d.sched.currentCycle ≤ issue ↔ ∃ p ≤ j, d.trace = insts.drop p)
  /-- From the next cycle on until it is cleared, `slot` holds it, as it has been issued but for
  sources that have become ready. Its `start_cycle` is zero before `start`, and from `start` on it
  waits for nothing. -/
  held : ∀ i d₁ k d, (Driver.loop cfg n).after i (.initial insts) = some d₁ →
    d₁.sched.currentCycle = issue → (Driver.loop cfg n).after k (.initial insts) = some d →
    issue < d.sched.currentCycle → d.sched.currentCycle < start + latency →
    ∃ e, d.sched.table slot = some e ∧ RESTEntry.Narrows {
        op := inst.op, dest := inst.dest, src1 := inst.src1.bind d₁.sched.rat,
        src2 := inst.src2.bind d₁.sched.rat,
        startCycle := if d.sched.currentCycle < start then 0 else start } e ∧
      (start ≤ d.sched.currentCycle → e.src1 = none ∧ e.src2 = none)
  /-- In each cycle nothing changes but its `start_cycle` and sources that become ready. -/
  narrows : ∀ k d d' e e', (Driver.loop cfg n).after k (.initial insts) = some d →
    (Driver.loop cfg n).after (k + 1) (.initial insts) = some d' →
    issue < d.sched.currentCycle → d'.sched.currentCycle < start + latency →
    d.sched.table slot = some e → d'.sched.table slot = some e' →
    (e.startedAt e'.startCycle).Narrows e'
  cleared : ∀ k d, (Driver.loop cfg n).after k (.initial insts) = some d →
    d.sched.currentCycle = start + latency → d.sched.table slot = none

/-- What `slot` holds in the cycle `c`, if `e₀` is put into it in the cycle `issue`. -/
def Driver.holds (cfg : Config) (insts : List (Inst n)) (slot : Slot) (e₀ : RESTEntry n)
    (issue c : ℕ) : Option (RESTEntry n) :=
  if c = issue then some e₀
  else ((Driver.loop cfg n).after (c - 1) (.initial insts)).bind fun d ↦ d.sched.table slot

theorem Driver.holds_self {insts : List (Inst n)} {slot : Slot} {e₀ : RESTEntry n} {issue : ℕ} :
    holds cfg insts slot e₀ issue issue = some e₀ := if_pos rfl

theorem Driver.holds_eq {insts : List (Inst n)} {slot : Slot} {e₀ : RESTEntry n} {issue k : ℕ}
    {d : Driver n} (h : (Driver.loop cfg n).after k (.initial insts) = some d)
    (hne : k + 1 ≠ issue) : holds cfg insts slot e₀ issue (k + 1) = d.sched.table slot := by
  rw [holds, if_neg hne, Nat.add_sub_cancel, h, Option.bind_some]

/-- The trace never grows. -/
theorem Driver.length_trace_le {insts : List (Inst n)} (hops : Executable insts) {i k : ℕ}
    {d₁ d : Driver n} (h₁ : (Driver.loop cfg n).after i (.initial insts) = some d₁)
    (h : (Driver.loop cfg n).after k (.initial insts) = some d) (hle : i ≤ k) :
    d.trace.length ≤ d₁.trace.length := by
  induction k, hle using Nat.le_induction generalizing d with
  | base =>
    obtain rfl := Option.some.inj (h₁.symm.trans h)
    exact le_rfl
  | succ k _ ih =>
    obtain ⟨d₂, hk, -, hmoves⟩ := exists_moves hops h
    refine le_trans ?_ (ih hk)
    rcases hmoves.trace_eq with hsame | ⟨inst, hcons⟩
    · rw [hsame]
    · rw [hcons]
      exact Nat.le_succ _

/-- What a cycle does to the place into which an instruction has been put. -/
theorem Driver.holds_passes {insts : List (Inst n)} (hops : Executable insts) {slot : Slot}
    (hslot : slot ∈ cfg.slots) {inst : Inst n} {e₀ : RESTEntry n} {i k : ℕ} {d₁ d₂ d : Driver n}
    (h₁ : (Driver.loop cfg n).after i (.initial insts) = some d₁)
    (h₂ : (Driver.loop cfg n).after (i + 1) (.initial insts) = some d₂)
    (he₀ : (issued cfg d₁.sched slot inst).table slot = some e₀)
    (hadvances : Advances cfg (issued cfg d₁.sched slot inst) d₂.sched)
    (h : (Driver.loop cfg n).after k (.initial insts) = some d) {c : ℕ} (hc : i + 1 ≤ c)
    (hlast : c < k + 1) (hsome : holds cfg insts slot e₀ (i + 1) c ≠ none) :
    Passes (c + 1) (holds cfg insts slot e₀ (i + 1) c)
      (holds cfg insts slot e₀ (i + 1) (c + 1)) := by
  rcases Nat.eq_or_lt_of_le hc with rfl | hlt
  · have hcycle : (issued cfg d₁.sched slot inst).currentCycle = i + 1 := currentCycle_eq hops h₁
    have hpasses := hadvances.passes slot hslot
    rw [he₀, hcycle] at hpasses
    rw [holds_self, holds_eq h₂ (by omega)]
    exact hpasses
  · obtain ⟨m, rfl⟩ : ∃ m, c = m + 1 := ⟨c - 1, by omega⟩
    obtain ⟨d₄, h₄⟩ := Loop.exists_after_of_le h (show m + 1 ≤ k by omega)
    obtain ⟨d₃, h₃, -, hmoves⟩ := exists_moves hops h₄
    rw [holds_eq h₃ (by omega)] at hsome ⊢
    rw [holds_eq h₄ (by omega)]
    obtain ⟨e, he⟩ := Option.ne_none_iff_exists'.mp hsome
    have hpasses := hmoves.passes hslot he
    rw [currentCycle_eq hops h₃] at hpasses
    rw [he]
    exact hpasses

/-- The iteration of a run to the end that issues instruction `j`. -/
theorem Driver.exists_issued {insts : List (Inst n)} (hops : Executable insts) {k : ℕ}
    {d : Driver n} (h : (Driver.loop cfg n).after k (.initial insts) = some d)
    (hnil : d.trace = []) {j : ℕ} {inst : Inst n} (hinst : insts[j]? = some inst) :
    ∃ i < k, ∃ d₁ d₂, (Driver.loop cfg n).after i (.initial insts) = some d₁ ∧
      (Driver.loop cfg n).after (i + 1) (.initial insts) = some d₂ ∧
      d₁.trace = insts.drop j ∧ d₂.trace = insts.drop (j + 1) ∧
      ∃ slot ∈ cfg.slots, d₁.sched.table slot = none ∧
        d₁.sched.tryIssue cfg inst = (true, issued cfg d₁.sched slot inst) ∧
        Advances cfg (issued cfg d₁.sched slot inst) d₂.sched := by
  obtain ⟨hj, hget⟩ := List.getElem?_eq_some_iff.mp hinst
  obtain ⟨p, hdrop, -, hissues⟩ := exists_issue hops h
  have hlt : j < p := by
    have hlength := List.drop_eq_nil_iff.mp (hdrop.symm.trans hnil)
    omega
  obtain ⟨i, hi, d₁, d₂, h₁, h₂, hmoves, htrace₁, htrace₂⟩ := hissues j hlt
  have hcons : d₁.trace = inst :: d₂.trace := by
    rw [htrace₁, htrace₂, List.drop_eq_getElem_cons hj, hget]
  refine ⟨i, hi, d₁, d₂, h₁, h₂, htrace₁, htrace₂, ?_⟩
  cases hmoves with
  | issues hhead hslot hfree htry hadvances =>
    obtain rfl := (List.cons.inj (hcons.symm.trans hhead)).1
    exact ⟨_, hslot, hfree, htry, hadvances⟩
  | stalls _ hsame =>
    have hlength := congrArg List.length (hcons.symm.trans hsame.symm)
    simp at hlength
  | drains hnil' => cases hnil'.symm.trans hcons

/-- The trace still has instruction `j` up to the iteration that issues it. -/
theorem Driver.le_issue_iff {insts : List (Inst n)} (hops : Executable insts) {i j m : ℕ}
    {d₁ d₂ d : Driver n} (hj : j < insts.length)
    (h₁ : (Driver.loop cfg n).after i (.initial insts) = some d₁)
    (htrace₁ : d₁.trace = insts.drop j)
    (h₂ : (Driver.loop cfg n).after (i + 1) (.initial insts) = some d₂)
    (htrace₂ : d₂.trace = insts.drop (j + 1))
    (h : (Driver.loop cfg n).after m (.initial insts) = some d) :
    m ≤ i ↔ ∃ p ≤ j, d.trace = insts.drop p := by
  obtain ⟨q, hdrop, hq, -⟩ := exists_issue hops h
  constructor
  · intro hle
    refine ⟨q, ?_, hdrop⟩
    have hlength := length_trace_le hops h h₁ hle
    rw [htrace₁, hdrop, List.length_drop, List.length_drop] at hlength
    omega
  · rintro ⟨p, hp, hdrop'⟩
    by_contra hgt
    have hlength := length_trace_le hops h₂ h (by omega)
    rw [htrace₂, hdrop', List.length_drop, List.length_drop] at hlength
    omega

theorem exists_lifetime {insts : List (Inst n)} (hops : Executable insts) {k : ℕ} {d : Driver n}
    (h : (Driver.loop cfg n).after k (.initial insts) = some d) (hdone : d.done cfg = true)
    {j : ℕ} {inst : Inst n} (hinst : insts[j]? = some inst) :
    ∃ slot ∈ cfg.slots, ∃ issue start latency, Lifetime cfg insts j inst slot issue start latency ∧
      start + latency ≤ d.sched.currentCycle := by
  rw [Driver.done, Bool.and_eq_true, List.isEmpty_iff, Scheduler.completed,
    List.all_eq_true] at hdone
  obtain ⟨hnil, hempty⟩ := hdone
  obtain ⟨hj, hget⟩ := List.getElem?_eq_some_iff.mp hinst
  have hop : inst.op ≠ .OP_INVALID := hops inst (hget ▸ List.getElem_mem hj)
  obtain ⟨i, hi, d₁, d₂, h₁, h₂, htrace₁, htrace₂, slot, hslot, hfree, htry, hadvances⟩ :=
    Driver.exists_issued hops h hnil hinst
  have hcycle := Driver.currentCycle_eq hops h
  have hlast (e₀ : RESTEntry n) : Driver.holds cfg insts slot e₀ (i + 1) (k + 1) = none := by
    rw [Driver.holds_eq h (by omega)]
    exact Option.isNone_iff_eq_none.mp (hempty slot hslot)
  obtain ⟨start, hfinish, hlives⟩ := exists_livesFrom Driver.holds_self rfl hop
    (fun c hc hclt hsome ↦ Driver.holds_passes hops hslot h₁ h₂ table_issued_self hadvances h hc
      hclt hsome) (by omega) (hlast _)
  refine ⟨slot, hslot, i + 1, start, inst.op.latency, ?_, by rw [hcycle]; exact hfinish⟩
  refine ⟨getInstLatency_eq hop, hlives.issue_lt, ⟨i, d₁, h₁, Driver.currentCycle_eq hops h₁,
    htrace₁, hfree, htry⟩, fun m d' h' ↦ ?unissued,
    fun i' d₁' m d' h₁' hissue h' hbegin hend ↦ ?held,
    fun m d' d'' e e' h' h'' hbegin hend he he' ↦ ?narrows, fun m d' h' hend ↦ ?cleared⟩
  case unissued =>
    rw [Driver.currentCycle_eq hops h', Nat.add_le_add_iff_right]
    exact Driver.le_issue_iff hops hj h₁ htrace₁ h₂ htrace₂ h'
  case held =>
    rw [Driver.currentCycle_eq hops h₁', Nat.succ_inj] at hissue
    obtain rfl : d₁' = d₁ := Option.some.inj (h₁'.symm.trans (hissue ▸ h₁))
    rw [Driver.currentCycle_eq hops h'] at hbegin hend ⊢
    obtain ⟨e, he, hnarrow, hready⟩ := hlives.held (m + 1) hbegin.le hend
    rw [Driver.holds_eq h' hbegin.ne'] at he
    exact ⟨e, he, hnarrow, fun hle ↦ sources_eq_nil.mp (hready hle)⟩
  case narrows =>
    rw [Driver.currentCycle_eq hops h'] at hbegin
    rw [Driver.currentCycle_eq hops h''] at hend
    exact hlives.narrows (m + 1) e e' hbegin.le hend ((Driver.holds_eq h' hbegin.ne').trans he)
      ((Driver.holds_eq h'' (Nat.lt_succ_of_lt hbegin).ne').trans he')
  case cleared =>
    rw [Driver.currentCycle_eq hops h'] at hend
    have hne : m + 1 ≠ i + 1 := by
      have hlt₁ := hlives.issue_lt
      have hlt₂ : start < start + inst.op.latency := hlives.start_lt
      omega
    rw [← Driver.holds_eq h' hne, hend]
    exact hlives.cleared

/-- Every instruction is issued, fired and cleared once, and cleared when its latency has passed. -/
theorem executes_once (cfg : Config) (hsizes : cfg.Nonempty) (insts : List (Inst n))
    (hops : Executable insts) :
    (∀ (s : Scheduler n) (inst : Inst n), inst.op ≠ .OP_INVALID →
      (s.tryIssue cfg inst).1 = false → (s.tryIssue cfg inst).2 = stalled s) ∧
    ∃ k d, (Driver.loop cfg n).after k (.initial insts) = some d ∧ d.done cfg = true ∧
      d.sched.complete.numInsts = insts.length ∧
      d.sched.complete.numCycles = 1 + d.sched.complete.numInsts + d.sched.complete.issueStall +
        Driver.drainSteps cfg insts k ∧
      ∀ j inst, insts[j]? = some inst → ∃ slot ∈ cfg.slots, ∃ issue start latency,
        Lifetime cfg insts j inst slot issue start latency ∧
          start + latency ≤ d.sched.currentCycle := by
  constructor
  · intro s inst hop hfails
    rcases tryIssue_spec cfg s hop with ⟨_, -, -, htry⟩ | ⟨_, -, -, htry⟩
    · rw [htry]
    · rw [htry] at hfails
      cases hfails
  · obtain ⟨k, d, hk, hnil, hcompleted⟩ := Driver.exists_end hsizes hops
    have hdone : d.done cfg = true := by
      rw [Driver.done, hnil, hcompleted]
      rfl
    obtain ⟨hinsts, hcount⟩ := Driver.counts hops hk
    have hcycle := Driver.currentCycle_eq hops hk
    rw [hnil, List.length_nil, Nat.add_zero] at hinsts
    refine ⟨k, d, hk, hdone, hinsts, ?_, fun j inst ↦ exists_lifetime hops hk hdone⟩
    calc d.sched.currentCycle
        = k + 1 := hcycle
      _ = 1 + d.sched.stats.numInsts + d.sched.stats.issueStall +
          Driver.drainSteps cfg insts k := by omega

theorem executes_once_threeAdditions :
    (∀ (s : Scheduler 2) (inst : Inst 2), inst.op ≠ .OP_INVALID →
      (s.tryIssue (.perFu 1 1 1) inst).1 = false →
        (s.tryIssue (.perFu 1 1 1) inst).2 = stalled s) ∧
    ∃ k d, (Driver.loop (.perFu 1 1 1) 2).after k (.initial threeAdditions) = some d ∧
      d.done (.perFu 1 1 1) = true ∧ d.sched.complete.numInsts = threeAdditions.length ∧
      d.sched.complete.numCycles = 1 + d.sched.complete.numInsts + d.sched.complete.issueStall +
        Driver.drainSteps (.perFu 1 1 1) threeAdditions k ∧
      ∀ j inst, threeAdditions[j]? = some inst → ∃ slot ∈ (Config.perFu 1 1 1).slots,
        ∃ issue start latency,
          Lifetime (.perFu 1 1 1) threeAdditions j inst slot issue start latency ∧
            start + latency ≤ d.sched.currentCycle :=
  executes_once _ (by decide) _ (by decide)

end ArchSim.Tomasulo
