import ArchSim.Coherence.Termination
import ArchSim.Coherence.Transactions
import Mathlib.Algebra.BigOperators.Group.Finset.Piecewise

/-!
# The statistics balance

What `dump_stats` prints, related to the trace files and to the traffic on the bus. In between two
cycles every access has been counted, except for those that no cache has seen, every miss is a
request that has been pushed, and every transfer is data that has appeared or waits in
`dataReply`. At the end nothing is left of these differences.
-/

namespace ArchSim.Coherence

open Library Snooping

variable {P : Protocol} {n : ℕ} {drives : Bool} {s s' s₁ s₂ s₃ : Simulator P n}
  {settings : Settings n} {versions : PAddr → ℕ}

/-! ## Accesses -/

/-- The trace lines that no cache has seen. -/
def Simulator.unseen (s : Simulator P n) : ℕ := ∑ i, (s.nodes i).unseen

theorem unseen_setNode (s : Simulator P n) (i : Fin n) (node : Node P.State) :
    (s.setNode i node).unseen + (s.nodes i).unseen = s.unseen + node.unseen := by
  have hupdate : ∀ j, (Function.update s.nodes i node j).unseen =
      Function.update (fun j ↦ (s.nodes j).unseen) i node.unseen j := fun j ↦
    Function.apply_update (fun _ ↦ Node.unseen) s.nodes i node j
  have hsum : s.unseen = (s.nodes i).unseen + ∑ j ∈ Finset.univ \ {i}, (s.nodes j).unseen :=
    Finset.sum_eq_add_sum_sdiff_singleton_of_mem (Finset.mem_univ i) _
  have hsum' : (s.setNode i node).unseen =
      node.unseen + ∑ j ∈ Finset.univ \ {i}, (s.nodes j).unseen := by
    simp only [Simulator.unseen, Simulator.setNode, hupdate]
    exact Finset.sum_update_of_mem (Finset.mem_univ i) _ _
  omega

/-- A cache counts an access for each request that its processor has passed to it. -/
theorem TickEffect.unseen {mid : ModuleID} {message : Option Mreq} {wire : Bool}
    {node : Node P.State} {e : CacheEffect P.State} (h : TickEffect P mid message wire node e) :
    e.node.cache.procRequest = none ∧ e.accesses + e.node.unseen = node.unseen := by
  obtain ⟨e₁, e₂, he₁, he₂, rfl⟩ := h
  have h₁ : e₁.node.cache.procRequest = none ∧ e₁.accesses + e₁.node.unseen = node.unseen := by
    cases he₁ with
    | idle hnone => exact ⟨hnone, Nat.zero_add _⟩
    | handled hrequest _ _ =>
      refine ⟨rfl, ?_⟩
      simp [Node.unseen, Node.clearProcRequest, Outcome.onNode, hrequest, Nat.add_comm]
  have h₂ : e₂.accesses = 0 ∧ e₂.node.cache.procRequest = e₁.node.cache.procRequest ∧
      e₂.node.unseen = e₁.node.unseen := by
    cases he₂ with
    | idle _ => exact ⟨rfl, rfl, rfl⟩
    | handled _ _ _ _ => exact ⟨rfl, rfl, rfl⟩
  obtain ⟨haccesses, hproc, hunseen⟩ := h₂
  refine ⟨hproc.trans h₁.1, ?_⟩
  change e₁.accesses + e₂.accesses + e₂.node.unseen = _
  rw [haccesses, hunseen, Nat.add_zero, h₁.2]

theorem tickCaches_unseen (hP : Regular P drives)
    (h : (List.finRange n).foldlM Simulator.tickCache s = .ok s') :
    s'.stats.cacheAccesses + s'.unseen = s.stats.cacheAccesses + s.unseen := by
  refine foldlM_invariant (I := fun s' : Simulator P n ↦
    s'.stats.cacheAccesses + s'.unseen = s.stats.cacheAccesses + s.unseen) h ?_ rfl
  intro i _ s₁ _ htick hs₁
  obtain ⟨e, he, -, rfl⟩ := (tickCache_ok_iff hP).mp htick
  have hnode : e.accesses + e.node.unseen = (s₁.nodes i).unseen := he.unseen.2
  have hsum := unseen_setNode s₁ i e.node
  change s₁.stats.cacheAccesses + e.accesses + (s₁.setNode i e.node).unseen = _
  omega

theorem CycleRan.unseen_eq (hP : Regular P drives) {effect : Fin n → CacheEffect P.State}
    {x : Traffic} (h : CycleRan drives s s₁ s₂ s₃ s' effect x) :
    s'.stats.cacheAccesses + s'.unseen = s.stats.cacheAccesses + s.unseen := by
  have hnodes : s'.unseen = s₁.unseen := by
    refine Finset.sum_congr rfl fun i _ ↦ ?_
    obtain ⟨wire, -, htick⟩ := h.caches.tick i i.isLt
    rw [h.unseen i htick.unseen.1, h.caches.node i i.isLt]
  have hstats : s'.stats = s₁.stats := h.stats.trans h.caches.stats.symm
  have hloop := tickCaches_unseen hP h.loop
  rw [hnodes, hstats]
  exact hloop

/-! ## Misses and transfers -/

/-- The message is data from a module of the given kind. -/
def Mreq.sentBy (module : ModuleT) (message : Mreq) : Bool :=
  message.isData && message.srcMid.moduleIndex = module

/-- The data that waits in `dataReply`. -/
def Transaction.reply : Transaction → Option Mreq
  | replied _ d => some d
  | _ => none

theorem IsRequest.sentBy {q : Mreq} (h : IsRequest n q) (module : ModuleT) :
    q.sentBy module = false := by
  simp [Mreq.sentBy, h.isData]

/-- A transfer is counted when a cache sends data. -/
theorem Transaction.Next.transfers {message reply : Option Mreq} {tr tr' : Transaction}
    (h : Transaction.Next n message reply tr tr') :
    (message.toList ++ tr'.reply.toList).countP (Mreq.sentBy .L1) =
      tr.reply.toList.countP (Mreq.sentBy .L1) + reply.toList.length := by
  cases h with
  | idle | wait => rfl
  | grant hq => simp [Transaction.reply, hq.sentBy]
  | @answer q d i hq hd =>
    have hsent : d.sentBy .L1 = true := hd ▸ rfl
    simp [Transaction.reply, hq.sentBy, hsent]
  | supply => simp [Transaction.reply, Mreq.sentBy, memoryData, Mreq.new]
  | deliver _ => simp [Transaction.reply]

/-- Between two cycles the counters agree with the records of the run. -/
structure Balanced (settings : Settings n) (y : Traced P n) (tr : Transaction) : Prop where
  accesses : y.sim.stats.cacheAccesses + y.sim.unseen = ∑ i, (settings.traces i).length
  misses : y.sim.stats.cacheMisses = y.pushed.length
  transfers : y.sim.stats.cacheToCacheTransfers =
    (y.messages ++ tr.reply.toList).countP (Mreq.sentBy .L1)

theorem balanced_initial (settings : Settings n) (versions : PAddr → ℕ) :
    Balanced settings (.initial P settings versions) .quiet := by
  refine ⟨?_, rfl, rfl⟩
  change 0 + ∑ i, _ = _
  rw [Nat.zero_add]
  exact Finset.sum_congr rfl fun i _ ↦ Nat.add_zero _

theorem Balanced.cycle (hP : Regular P drives) {y y' : Traced P n} {tr : Transaction}
    (h : Balanced settings y tr) (hserved : Served settings y tr) (hy' : y.cycle = .ok y') :
    ∃ tr', Served settings y' tr' ∧ Balanced settings y' tr' := by
  obtain ⟨s₁, s₂, s₃, effect, x, tr', hran, hnext, hserved'⟩ := hserved.cycle hP hy'
  obtain ⟨-, -, hrecord⟩ := Traced.of_cycle hy'
  refine ⟨tr', hserved', (hran.unseen_eq hP).trans h.accesses, ?_, ?_⟩
  · rw [hran.stats, hran.pushed_eq hrecord, List.length_append, ← h.misses]
    rfl
  · have hmessages : y'.messages = y.messages ++ y.sim.busTick.bus.currentRequest.toList := by
      rw [hrecord, Traced.record_messages]
    calc y'.sim.stats.cacheToCacheTransfers
        = y.sim.stats.cacheToCacheTransfers + x.reply.toList.length := by rw [hran.stats]; rfl
      _ = y.messages.countP (Mreq.sentBy .L1) +
            (tr.reply.toList.countP (Mreq.sentBy .L1) + x.reply.toList.length) := by
          rw [h.transfers, List.countP_append, Nat.add_assoc]
      _ = (y'.messages ++ tr'.reply.toList).countP (Mreq.sentBy .L1) := by
          rw [← hnext.transfers, hmessages, List.append_assoc, ← List.countP_append]

theorem balanced_of_endOfCycle (hP : Regular P drives) {cond : Simulator P n → Prop}
    {y : Traced P n} (h : Traced.EndOfCycleWhile settings versions cond y) :
    ∃ tr, Served settings y tr ∧ Balanced settings y tr := by
  refine h.preserved (I := fun y ↦ ∃ tr, Served settings y tr ∧ Balanced settings y tr)
    ⟨.quiet, served_initial settings versions, balanced_initial settings versions⟩ ?_
  rintro y y' - - hy' ⟨tr, hserved, hbalanced⟩
  exact hbalanced.cycle hP hserved hy'

/-! ## The end -/

/-- There is one data message for each request but the one in progress. -/
theorem Matched.countP_isRequest {l : List Mreq} {inProgress : Option Mreq}
    (h : Matched n l inProgress) :
    l.countP Mreq.isRequest = l.countP Mreq.isData + inProgress.toList.length := by
  induction h with
  | nil => rfl
  | request _ hq ih =>
    have hdata := hq.isData
    simp only [Option.toList, List.length_nil, Nat.add_zero] at ih
    simp [hq.isRequest, hdata, ih]
  | data _ hd ih =>
    have hdata : Mreq.isData _ = true := decide_eq_true hd.msg
    simp [hd.isRequest, hdata, ih]

/-- Data comes from a cache or from the memory. -/
theorem Matched.countP_isData {l : List Mreq} {inProgress : Option Mreq}
    (h : Matched n l inProgress) :
    l.countP Mreq.isData = l.countP (Mreq.sentBy .L1) + l.countP (Mreq.sentBy .MC) := by
  induction h with
  | nil => rfl
  | request _ hq ih => simp [hq.isData, hq.sentBy, ih]
  | @data _ _ d _ hd ih =>
    have hdata : d.isData = true := decide_eq_true hd.msg
    rcases hd.source with hsource | ⟨i, hsource⟩
    · simp [hdata, Mreq.sentBy, hsource, ih, Nat.add_assoc]
    · simp [hdata, Mreq.sentBy, hsource, l1, ih, Nat.add_right_comm]

theorem Refines.unseen_of_done {demotes stalls : Bool} {L : Lawful P demotes stalls}
    {v : Versioned P n} {m : Machine (Fin n) PAddr} (h : Refines L settings versions v m)
    (hdone : v.sim.done = true) : v.sim.unseen = 0 := by
  refine Finset.sum_eq_zero fun i _ ↦ ?_
  obtain ⟨hinfile, hnode⟩ := h.ended_of_done hdone i
  rw [Node.unseen, hinfile, hnode.procRequest]
  rfl

/-- With any protocol but MOESI the loop of `Simulator::run` ends, and then the statistics balance:
the caches have counted one access for each line of the traces, one miss for each request that has
appeared on the bus, and each request has been followed by its data, which a cache has counted as
a transfer or the memory has sent. -/
theorem statistics_balance {t : ProtocolT} (ht : t ≠ .MOESI_PRO) {n : ℕ} {settings : Settings n}
    (hwf : settings.WellFormed) (versions : PAddr → ℕ) :
    (∃ fuel s, (Simulator.loop t.protocol n).run fuel (.initial t.protocol settings) =
      .ok (some s)) ∧
    ∀ fuel s, (Simulator.loop t.protocol n).run fuel (.initial t.protocol settings) =
        .ok (some s) →
      ∃ y, (Traced.loop t.protocol n).run fuel (.initial t.protocol settings versions) =
          .ok (some y) ∧ y.sim = s ∧ Matched n y.messages none ∧
        s.stats.cacheAccesses = ∑ i, (settings.traces i).length ∧
        s.stats.cacheMisses = y.messages.countP Mreq.isRequest ∧
        s.stats.cacheMisses = y.messages.countP Mreq.isData ∧
        s.stats.cacheMisses =
          s.stats.cacheToCacheTransfers + y.messages.countP (Mreq.sentBy .MC) := by
  constructor
  · obtain ⟨⟨fuel, v, -, hrun, -⟩, -⟩ := run_finishes ht hwf versions
    exact ⟨fuel, v.sim, hrun⟩
  intro fuel s hrun
  have herased : Erases (Option.map Traced.sim)
      ((Traced.loop t.protocol n).run fuel (.initial t.protocol settings versions))
      ((Simulator.loop t.protocol n).run fuel (.initial t.protocol settings)) :=
    Loop.run_erases (π := Traced.sim) Traced.cycle_erases (fun _ ↦ rfl) fuel _
  rw [hrun] at herased
  obtain ⟨z, hz, hsome⟩ := herased.of_ok
  obtain ⟨y, rfl, rfl⟩ := Option.map_eq_some_iff.mp hsome
  have hend : Traced.EndOfCycle settings versions y := Loop.endOfBody_of_run .start hz
  have hdone : y.sim.done = true := Loop.done_of_run hz
  obtain ⟨m, p, hrefines, hatEnd⟩ :=
    simulated_of_endOfCycle (fun s _ ↦ t.clear_of_ne ht s) hend.state
  obtain ⟨tr, hserved, hbalanced⟩ := balanced_of_endOfCycle t.regular hend
  have hquiescent : y.sim.Quiescent := hrefines.quiescent_of_done hatEnd hdone
  obtain rfl : tr = .quiet := hserved.holds.quiet_of_idle hquiescent.requestInProgress
  have hmisses : y.sim.stats.cacheMisses = y.messages.countP Mreq.isRequest := by
    rw [hbalanced.misses, hserved.pushed, hquiescent.pendingRequests, List.append_nil,
      List.countP_eq_length_filter]
  have hdata : y.messages.countP Mreq.isRequest = y.messages.countP Mreq.isData :=
    hserved.matched.countP_isRequest
  refine ⟨y, hz, rfl, hserved.matched, ?_, hmisses, hmisses.trans hdata, ?_⟩
  · have haccesses := hbalanced.accesses
    rwa [hrefines.unseen_of_done hdone] at haccesses
  · rw [hmisses, hdata, hserved.matched.countP_isData, hbalanced.transfers]
    simp [Transaction.reply]

theorem statistics_balance_storeRace : ∃ fuel s,
    (Simulator.loop MSI.protocol 2).run fuel (.initial MSI.protocol storeRace) = .ok (some s) ∧
      s.stats.cacheAccesses = 2 ∧ ∃ messages, Matched 2 messages none ∧
        s.stats.cacheMisses = messages.countP Mreq.isRequest ∧
        s.stats.cacheMisses =
          s.stats.cacheToCacheTransfers + messages.countP (Mreq.sentBy .MC) := by
  obtain ⟨⟨fuel, s, hrun⟩, hbalance⟩ :=
    statistics_balance (t := .MSI_PRO) (by decide) storeRace_wellFormed fun _ ↦ 0
  obtain ⟨y, -, -, hmatched, haccesses, hrequests, -, htransfers⟩ := hbalance fuel s hrun
  exact ⟨fuel, s, hrun, haccesses, y.messages, hmatched, hrequests, htransfers⟩

end ArchSim.Coherence
