import ArchSim.Coherence.Contents

/-!
# Lines that are neither reads nor writes

`Processor::tick` aborts when it fetches such a line, and nothing else makes a run abort. So on any
traces a run has ended or aborted in the number of cycles that bounds the runs on reads and writes,
and it ends if every line is one of these.
-/

namespace ArchSim.Coherence

open Library AtomicMemory Snooping

variable {P : Protocol} {n : ℕ} {drives demotes stalls : Bool} {L : Lawful P demotes stalls}
  {settings : Settings n} {versions : PAddr → ℕ} {v : Versioned P n} {s s' : Simulator P n}
  {m : Machine (Fin n) PAddr} {p : Phase n} {e : Abort}

/-- The line is a read or a write. -/
def TraceLine.Known (line : TraceLine) : Prop := line.c = 'r' ∨ line.c = 'w'

/-- The abort of `Processor::tick` on any other line. -/
def unknownOperation (nodeID : ℤ) (c : Char) : Abort :=
  .fatalError ("Processor " ++ toString nodeID ++ ": unknown operation - " ++ toString c)

theorem TraceLine.request_ok {line : TraceLine} {nodeID : ℤ} {message : Mreq}
    (h : line.request nodeID = .ok message) : line.Known := by
  unfold request at h
  split at h
  · exact .inl ‹_›
  · exact .inr ‹_›
  · cases h

theorem TraceLine.request_error {line : TraceLine} {nodeID : ℤ}
    (h : line.request nodeID = .error e) : ¬ line.Known ∧ e = unknownOperation nodeID line.c := by
  unfold request at h
  split at h
  · cases h
  · cases h
  · rename_i hread hwrite
    exact ⟨fun hknown ↦ hknown.elim hread hwrite, (Except.error.inj h).symm⟩

/-! ## The lines that have been fetched -/

section Node

variable {σ : Type} {node node' : Node σ} {nodeID : ℤ}

theorem Processor.complete_infile {pr pr' : Processor} (h : pr.complete = .ok pr') :
    pr'.infile = pr.infile := by
  unfold complete at h
  split at h
  · split at h
    · exact Except.ok.inj h ▸ rfl
    · cases h
  · exact Except.ok.inj h ▸ rfl

/-- A tick of a processor leaves its trace as it is, or fetches a read or a write. -/
theorem Node.tickPr_infile (h : node.tickPr nodeID = .ok node') :
    node'.pr.infile = node.pr.infile ∨
      ∃ line, node.pr.infile = line :: node'.pr.infile ∧ line.Known := by
  obtain ⟨pr, hpr, hfetch⟩ := bind_eq_ok.mp h
  rw [← Processor.complete_infile hpr]
  unfold fetch at hfetch
  split at hfetch
  · exact .inl (Except.ok.inj hfetch ▸ rfl)
  · split at hfetch
    · exact .inl (Except.ok.inj hfetch ▸ rfl)
    · rename_i line rest hinfile
      obtain ⟨request, hrequest, rfl⟩ := bind_pure_eq_ok.mp hfetch
      exact .inr ⟨line, hinfile, TraceLine.request_ok hrequest⟩

/-- A processor whose answer is data aborts only on a line of its trace. -/
theorem Node.tickPr_error (hanswer : ∀ request ∈ node.pr.inboundRequest, request.msg = .DATA)
    (h : node.tickPr nodeID = .error e) :
    ∃ line ∈ node.pr.infile, line.request nodeID = .error e := by
  obtain ⟨pr, hpr⟩ : ∃ pr, node.pr.complete = .ok pr := by
    unfold Processor.complete
    split
    · rename_i request hinbound
      rw [if_pos (hanswer request hinbound)]
      exact ⟨_, rfl⟩
    · exact ⟨_, rfl⟩
  rw [tickPr, hpr] at h
  change ({ node with pr := pr } : Node σ).fetch nodeID = .error e at h
  rw [← Processor.complete_infile hpr]
  unfold fetch at h
  split at h
  · cases h
  · split at h
    · cases h
    · rename_i line rest hinfile
      have hmem : line ∈ pr.infile := by
        change pr.infile = line :: rest at hinfile
        rw [hinfile]
        exact List.mem_cons_self
      cases hrequest : line.request nodeID with
      | ok request =>
        rw [hrequest] at h
        cases h
      | error e' =>
        rw [hrequest] at h
        obtain rfl := Except.error.inj h
        exact ⟨line, hmem, hrequest⟩

end Node

/-- The lines that the processors have fetched are reads and writes. -/
def Simulator.FetchedKnown (settings : Settings n) (s : Simulator P n) : Prop :=
  ∀ i, ∃ fetched, settings.traces i = fetched ++ (s.nodes i).pr.infile ∧
    ∀ line ∈ fetched, line.Known

theorem Simulator.FetchedKnown.cycle (hP : Regular P drives) (h : s.FetchedKnown settings)
    (hs' : s.cycle = .ok s') : s'.FetchedKnown settings := by
  intro i
  obtain ⟨fetched, htrace, hknown⟩ := h i
  obtain ⟨s₁, hcaches, hnodes⟩ := Simulator.nodes_of_cycle hs'
  obtain ⟨effect, x, hpassed⟩ := tickCaches_passed hP hcaches
  obtain ⟨wire, -, htick⟩ := hpassed.tick i i.isLt
  obtain ⟨node, hnode, heq⟩ := hnodes i
  have hcache : (s₁.nodes i).pr.infile = (s.nodes i).pr.infile := by
    rw [hpassed.node i i.isLt, htick.pr_eq]
    rfl
  have htock : (s'.nodes i).pr.infile = node.pr.infile := by
    rw [heq]
    exact node.pr.tock_infile
  rw [htock]
  rw [← hcache] at htrace
  rcases Node.tickPr_infile hnode with hsame | ⟨line, hline, hlineKnown⟩
  · exact ⟨fetched, hsame ▸ htrace, hknown⟩
  · refine ⟨fetched ++ [line], ?_, fun l hl ↦ ?_⟩
    · rw [htrace, hline, List.append_assoc]
      rfl
    · rcases List.mem_append.mp hl with hl | hl
      · exact hknown l hl
      · exact List.mem_singleton.mp hl ▸ hlineKnown

/-- When all traces have been fetched to their ends, they consist of reads and writes. -/
theorem Simulator.FetchedKnown.wellFormed (h : s.FetchedKnown settings)
    (hended : ∀ i, (s.nodes i).pr.infile = []) : settings.WellFormed := by
  intro i line hline
  obtain ⟨fetched, htrace, hknown⟩ := h i
  rw [hended i, List.append_nil] at htrace
  exact hknown line (htrace ▸ hline)

/-! ## The only abort -/

/-- Only a line of a trace makes the loop over the processors abort. -/
theorem Refines.tickPrs_error (h : Refines L settings versions v m)
    (herror : (List.finRange n).foldlM Versioned.tickPr v = .error e) :
    ∃ i, ∃ line ∈ settings.traces i, line.request i.val = .error e := by
  have hstep (i : Fin n) (v v' : Versioned P n) (hv' : v.tickPr i = .ok v')
      (h : Refines L settings versions v m) : Refines L settings versions v' m := by
    obtain ⟨status, hnode⟩ := h.agrees.node i
    rw [tickPr_eq] at hv'
    obtain ⟨node, htick, hset⟩ := bind_eq_ok.mp hv'
    obtain rfl := Except.ok.inj hset
    have hyields : Yields True _ _ := tickPr_yields hnode fun _ _ _ _ ↦ trivial
    obtain ⟨hok, hentries, -⟩ := hyields.of_ok htick
    exact ⟨h.reachable, h.agrees.of_node hentries hok⟩
  obtain ⟨i, -, v₁, h₁, hfails⟩ := foldlM_error herror (fun i _ ↦ hstep i) h
  obtain ⟨status, hnode⟩ := h₁.agrees.node i
  have hanswer : ∀ request ∈ (v₁.sim.nodes i).pr.inboundRequest, request.msg = .DATA := by
    rw [hnode.inbound]
    intro request hrequest
    cases status with
    | answered addr =>
      obtain rfl := Option.some.inj hrequest
      rfl
    | _ => cases hrequest
  have htick : (v₁.sim.nodes i).tickPr i.val = .error e := by
    rw [tickPr_eq] at hfails
    cases htick : (v₁.sim.nodes i).tickPr i.val with
    | ok node =>
      rw [htick] at hfails
      cases hfails
    | error e' =>
      rw [htick] at hfails
      exact congrArg Except.error (Except.error.inj hfails)
  obtain ⟨line, hline, hrequest⟩ := Node.tickPr_error hanswer htick
  obtain ⟨fetched, htrace, -⟩ := hnode.fetched
  exact ⟨i, line, htrace ▸ List.mem_append_right fetched hline, hrequest⟩

/-- Only a line of a trace makes a cycle abort. -/
theorem Simulated.cycle_error (h : Simulated L settings versions v)
    (hclear : stalls → L.Clear v.sim) (herror : v.cycle = .error e) :
    ∃ i, ∃ line ∈ settings.traces i, line.request i.val = .error e := by
  obtain ⟨m, p, hrefines, hend⟩ := h
  obtain ⟨m₁, h₁, hphase₁⟩ := busTick_refines hrefines hend
  have hyields : Yields False _ _ := tickCaches_refines h₁ hphase₁ fun hstalls _ hq hkind i ↦
    not_upgrades_of_clear hrefines hend (hclear hstalls) hq hkind i
  obtain ⟨v₂, hcaches, m₂, h₂, hphase₂, -⟩ := hyields.exists_of_not id
  rw [Versioned.cycle, hcaches] at herror
  cases hprs : (List.finRange n).foldlM Versioned.tickPr v₂ with
  | error e' =>
    change ((List.finRange n).foldlM Versioned.tickPr v₂ >>= _) = _ at herror
    rw [hprs] at herror
    obtain rfl := Except.error.inj herror
    exact h₂.tickPrs_error hprs
  | ok v₃ =>
    obtain ⟨h₃, hcontrol₃, -⟩ := (tickPrs_refines h₂).of_ok hprs
    obtain ⟨v₄, _, _, hrun₄, -⟩ :=
      tickMc_refines h₃ (hcontrol₃ ▸ hphase₂) settings.hitTime_pos
    change ((List.finRange n).foldlM Versioned.tickPr v₂ >>= _) = _ at herror
    rw [hprs] at herror
    change (v₃.tickMc >>= _) = _ at herror
    rw [hrun₄] at herror
    cases herror

/-! ## Runs on any traces -/

/-- A run that does not come to a state that `cond` excludes ends or aborts. -/
theorem run_ends_or_fails (L : Lawful P demotes stalls) (hP : Regular P drives)
    (cond : Simulator P n → Prop) (hcond : ∀ s, cond s → stalls → L.Clear s)
    (settings : Settings n) {len : ℕ} (hlen : ∀ i, (settings.traces i).length ≤ len) :
    (∃ s, Simulator.LoopHeadWhile settings cond s ∧ ¬ cond s) ∨
    (settings.WellFormed ∧
      ∃ s, (Simulator.loop P n).run (len * (n * (settings.hitTime + 2) + 2) + 1)
        (.initial P settings) = .ok (some s)) ∨
    ∃ i, ∃ line ∈ settings.traces i, ¬ line.Known ∧
      (Simulator.loop P n).run (len * (n * (settings.hitTime + 2) + 2) + 1)
        (.initial P settings) = .error (unknownOperation i.val line.c) := by
  have herases (fuel : ℕ) :
      Except.map (Option.map Versioned.sim)
          ((Versioned.loop P n).run fuel (.initial P settings fun _ ↦ 0)) =
        (Simulator.loop P n).run fuel (.initial P settings) :=
    Versioned.run_erases fuel (.initial P settings fun _ ↦ 0)
  refine (run_halts_within L hP cond hcond settings (fun _ ↦ 0) hlen).imp ?_ (Or.imp ?_ ?_)
  · rintro ⟨v, hv, hnot⟩
    exact ⟨v.sim, hv.sim, hnot⟩
  · rintro ⟨v, hrun, hhead, hdone, -⟩
    have hsim : (Simulator.loop P n).run (len * (n * (settings.hitTime + 2) + 2) + 1)
        (.initial P settings) = .ok (some v.sim) := by
      rw [← herases, hrun]
      rfl
    have hstart : (Simulator.initial P settings).FetchedKnown settings :=
      fun i ↦ ⟨[], rfl, fun _ hline ↦ absurd hline List.not_mem_nil⟩
    have hfetched : v.sim.FetchedKnown settings :=
      (Loop.endOfBody_of_run .start hsim).preserved hstart fun s s' _ _ hs' hs ↦ hs.cycle hP hs'
    obtain ⟨m, p, hrefines, -⟩ := hhead.simulated
    exact ⟨hfetched.wellFormed fun i ↦ (hrefines.ended_of_done hdone i).1, v.sim, hsim⟩
  · rintro ⟨v, e, hrun, hcond', hhead, herror⟩
    obtain ⟨i, line, hline, hrequest⟩ := hhead.simulated.cycle_error (hcond v.sim hcond') herror
    obtain ⟨hunknown, rfl⟩ := TraceLine.request_error hrequest
    refine ⟨i, line, hline, hunknown, ?_⟩
    rw [← herases, hrun]
    rfl

/-- On any traces, a run with any of the protocols ends within the bound and all lines are reads and
writes, or it aborts within the bound on a line that is neither, unless it is one with MOESI that
comes to a state in which a read is about to be granted for a block that its owner upgrades. -/
theorem run_ends_or_aborts (t : ProtocolT) {n : ℕ} (settings : Settings n) {len : ℕ}
    (hlen : ∀ i, (settings.traces i).length ≤ len) :
    (t = .MOESI_PRO ∧ ∃ s : Simulator MOESI.protocol n,
      Simulator.LoopHeadWhile settings MOESI.NoReadMeetsUpgrade s ∧
        ¬ MOESI.NoReadMeetsUpgrade s) ∨
    (settings.WellFormed ∧
      ∃ s, (Simulator.loop t.protocol n).run (len * (n * (settings.hitTime + 2) + 2) + 1)
        (.initial t.protocol settings) = .ok (some s)) ∨
    ∃ i, ∃ line ∈ settings.traces i, ¬ line.Known ∧
      (Simulator.loop t.protocol n).run (len * (n * (settings.hitTime + 2) + 2) + 1)
        (.initial t.protocol settings) = .error (unknownOperation i.val line.c) := by
  by_cases ht : t = .MOESI_PRO
  · subst ht
    refine (run_ends_or_fails MOESI.lawful MOESI.regular MOESI.NoReadMeetsUpgrade
      (fun _ hs _ ↦ MOESI.clear_of_noReadMeetsUpgrade hs) settings hlen).imp_left fun h ↦ ?_
    exact ⟨rfl, h⟩
  · right
    refine (run_ends_or_fails t.lawful t.regular (fun _ ↦ True) (fun s _ ↦ t.clear_of_ne ht s)
      settings hlen).resolve_left ?_
    rintro ⟨s, -, hnot⟩
    exact hnot trivial

theorem run_ends_or_aborts_unknownLine : ∃ i, ∃ line ∈ unknownLine.traces i, ¬ line.Known ∧
    (Simulator.loop MESI.protocol 2).run 17 (.initial MESI.protocol unknownLine) =
      .error (unknownOperation i.val line.c) := by
  have hlen : ∀ i, (unknownLine.traces i).length ≤ 2 := by decide
  rcases run_ends_or_aborts .MESI_PRO unknownLine hlen with ⟨hne, -⟩ | ⟨hwf, -⟩ | haborts
  · cases hne
  · exact absurd (hwf 1 ⟨'x', 0⟩ (by decide)) (by decide)
  · exact haborts

end ArchSim.Coherence
