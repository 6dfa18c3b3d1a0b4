import ArchSim.Coherence.NoAbort
import Mathlib.Algebra.Order.BigOperators.Group.Finset

/-!
# The simulation ends

In every cycle some node comes nearer to the end of its trace, or the granted request comes nearer
to its data: a node that waits has a request that is queued or granted. So the loop of
`Simulator::run` ends, and then nothing is left on the bus and every line of every trace has been
answered.
-/

namespace ArchSim.Coherence

open Library AtomicMemory Snooping

variable {P : Protocol} {n : ℕ} {demotes stalls : Bool} {L : Lawful P demotes stalls}
  {settings : Settings n} {versions : PAddr → ℕ} {v v' : Versioned P n}
  {m m' : Machine (Fin n) PAddr} {p : Phase n}

/-! ## A measure -/

/-- A step of a node outweighs all that the bus can do. -/
def Simulator.work (s : Simulator P n) : ℕ :=
  (s.mc.hitTime + 3) * ∑ i, (s.nodes i).work +
    requestWork s.bus.requestInProgress s.bus.dataReply s.mc s.globalClock

theorem Settles.work_le {σ : Type} {node node' : Node σ} (h : Settles node node') :
    node'.work ≤ node.work := by
  rcases h with hlt | ⟨hpr, hproc, -⟩
  · exact hlt.le
  · rw [Node.work, Node.work, hpr, hproc]

/-- A node that waits has a request on the bus. -/
theorem Refines.exists_request (h : Refines L settings versions v m) {i : Fin n}
    (houtstanding : (v.sim.nodes i).pr.outstandingRequest = true)
    (hproc : (v.sim.nodes i).cache.procRequest = none)
    (hbuf : (v.sim.nodes i).pr.inboundRequestBuf = none)
    (hinbound : (v.sim.nodes i).pr.inboundRequest = none) : ∃ q, q ∈ m.requests := by
  obtain ⟨status, hnode⟩ := h.agrees.node i
  cases status with
  | waiting op addr k hk =>
    exact ⟨_, h.inv.queued.request ((hnode.pending (blockAddr addr)).trans (if_pos rfl))⟩
  | idle => cases houtstanding.symm.trans hnode.outstanding
  | issued op addr => cases hproc.symm.trans hnode.procRequest
  | buffered addr => cases hbuf.symm.trans hnode.buffered
  | answered addr => cases hinbound.symm.trans hnode.inbound

/-- Before a cycle in which nothing is granted, no request is left. -/
theorem AtEnd.requests_eq_nil (hend : AtEnd (control v m) p) (hquiet : p.tick m.queue = .quiet) :
    m.requests = [] := by
  cases p with
  | quiet =>
    have htxn : m.txn = none := hend.txn
    cases hqueue : m.queue with
    | nil => simp [Machine.requests, htxn, hqueue]
    | cons q rest =>
      rw [hqueue] at hquiet
      cases hquiet
  | request q => exact hend.elim
  | lookup q => cases hquiet
  | data q source => cases hquiet

/-- If no node has come nearer to its end and some processor is not done, it waits. -/
theorem Refines.requests_ne_nil (h : Refines L settings versions v m)
    (hcycled : Cycled p v v' m m')
    (hstays : ∀ i, (v.sim.nodes i).work ≤ (v'.sim.nodes i).work)
    (hdone : v'.sim.done = false) : m.requests ≠ [] := by
  obtain ⟨i, hi⟩ : ∃ i, (v'.sim.nodes i).pr.done = false := by
    simpa [Simulator.done, List.all_eq_false] using hdone
  rcases hcycled.node i with hlt | ⟨hpr, hproc, hnone, hbuf, hinbound, hrested⟩
  · exact absurd hlt (not_lt.mpr (hstays i))
  · have houtstanding : (v'.sim.nodes i).pr.outstandingRequest = true := by
      rcases hrested with hended | houtstanding
      · simpa [Processor.done, hended] using hi
      · exact houtstanding
    obtain ⟨q, hq⟩ := h.exists_request (hpr ▸ houtstanding) (hproc ▸ hnone) (hpr ▸ hbuf)
      (hpr ▸ hinbound)
    exact List.ne_nil_of_mem hq

/-- A cycle after which some processor is not done has made the work smaller. -/
theorem Cycled.work_lt (h : Refines L settings versions v m)
    (h' : Refines L settings versions v' m') (hend : AtEnd (control v m) p)
    (hcycled : Cycled p v v' m m') (hdone : v'.sim.done = false) :
    v'.sim.work < v.sim.work := by
  have hhit : v'.sim.mc.hitTime = v.sim.mc.hitTime :=
    h'.agrees.hitTime.trans h.agrees.hitTime.symm
  have hle : ∀ i ∈ Finset.univ, (v'.sim.nodes i).work ≤ (v.sim.nodes i).work :=
    fun i _ ↦ (hcycled.node i).work_le
  by_cases hnearer : ∃ i, (v'.sim.nodes i).work < (v.sim.nodes i).work
  · obtain ⟨i, hi⟩ := hnearer
    have hsum : ∑ i, (v'.sim.nodes i).work < ∑ i, (v.sim.nodes i).work :=
      Finset.sum_lt_sum hle ⟨i, Finset.mem_univ i, hi⟩
    have hbound : (control v' m').work ≤ v'.sim.mc.hitTime + 2 := hcycled.bound
    calc v'.sim.work
        ≤ (v.sim.mc.hitTime + 3) * ∑ i, (v'.sim.nodes i).work + (v.sim.mc.hitTime + 2) := by
          rw [Simulator.work, hhit]
          exact Nat.add_le_add_left (hhit ▸ hbound) _
      _ < (v.sim.mc.hitTime + 3) * (∑ i, (v'.sim.nodes i).work + 1) := by
          rw [Nat.mul_add]
          omega
      _ ≤ (v.sim.mc.hitTime + 3) * ∑ i, (v.sim.nodes i).work := Nat.mul_le_mul_left _ hsum
      _ ≤ v.sim.work := Nat.le_add_right _ _
  · simp only [not_exists, not_lt] at hnearer
    have hsum : ∑ i, (v'.sim.nodes i).work = ∑ i, (v.sim.nodes i).work :=
      Finset.sum_congr rfl fun i hi ↦ (hle i hi).antisymm (hnearer i)
    rcases hcycled.advance fun i ↦ not_lt.mpr (hnearer i) with hquiet | hless
    · exact absurd (hend.requests_eq_nil hquiet) (h.requests_ne_nil hcycled hnearer hdone)
    · rw [Simulator.work, Simulator.work, hhit, hsum]
      exact Nat.add_lt_add_left hless _

/-! ## The end -/

/-- Nothing is queued, granted or looked up. -/
structure Simulator.Quiescent (s : Simulator P n) : Prop where
  pendingRequests : s.bus.pendingRequests = []
  requestInProgress : s.bus.requestInProgress = false
  dataReply : s.bus.dataReply = none
  mc : s.mc.requestInProgress = false

/-- The lines that processor `i` has fetched are those that have been answered to it, in the same
order, and the one that is outstanding, if any. -/
def Versioned.InOrder (settings : Settings n) (v : Versioned P n) (i : Fin n) : Prop :=
  ∃ fetched owed, settings.traces i = fetched ++ (v.sim.nodes i).pr.infile ∧
    fetched.map TraceLine.access = accessesOf i v.answers ++ owed ∧
    owed.length ≤ (v.sim.nodes i).pr.outstandingRequest.toNat

theorem Simulated.inOrder (h : Simulated L settings versions v) (i : Fin n) :
    v.InOrder settings i := by
  obtain ⟨m, p, hrefines, -⟩ := h
  obtain ⟨status, hnode⟩ := hrefines.agrees.node i
  obtain ⟨fetched, htrace, haccess⟩ := hnode.fetched
  refine ⟨fetched, status.owed, htrace, hrefines.agrees.answers ▸ haccess, ?_⟩
  rw [hnode.outstanding]
  cases status <;> simp [Status.owed, Status.outstanding]

theorem Refines.ended_of_done (h : Refines L settings versions v m) (hdone : v.sim.done = true)
    (i : Fin n) : (v.sim.nodes i).pr.infile = [] ∧
      NodeOk i (settings.traces i) (v.sim.nodes i) (v.want i) (fun b ↦ (m.line i b).pending)
        (accessesOf i m.history) .idle := by
  have hi : (v.sim.nodes i).pr.done = true := by
    simp only [Simulator.done, List.all_eq_true, List.mem_finRange, forall_const] at hdone
    exact hdone i
  obtain ⟨hended, -⟩ := (Bool.and_eq_true _ _).mp hi
  obtain ⟨status, hnode⟩ := h.agrees.node i
  obtain ⟨rfl, hinfile⟩ := hnode.ended hended
  exact ⟨hinfile, hnode⟩

/-- When every processor is done, no access is on its way. -/
theorem Refines.idle_of_done (h : Refines L settings versions v m) (hdone : v.sim.done = true)
    (i : Fin n) : (∀ b, (m.line i b).pending = none) ∧
      accessesOf i v.answers = (settings.traces i).map TraceLine.access := by
  obtain ⟨hinfile, hnode⟩ := h.ended_of_done hdone i
  obtain ⟨fetched, htrace, haccess⟩ := hnode.fetched
  have howed : Status.idle.owed = [] := rfl
  refine ⟨hnode.pending, ?_⟩
  rw [htrace, hinfile, List.append_nil, haccess, h.agrees.answers, howed, List.append_nil]

theorem Refines.quiescent_of_done (h : Refines L settings versions v m)
    (hend : AtEnd (control v m) p) (hdone : v.sim.done = true) : v.sim.Quiescent := by
  have hrequests : m.requests = [] := List.eq_nil_iff_forall_not_mem.mpr fun q hq ↦ by
    have hpending := h.inv.queued.pending q hq
    rw [(h.idle_of_done hdone q.node).1] at hpending
    cases hpending
  obtain ⟨htxn, hqueue⟩ : m.txn = none ∧ m.queue = [] := by
    simpa [Machine.requests] using hrequests
  cases p with
  | quiet =>
    refine ⟨?_, hend.requestInProgress, hend.dataReply, hend.mc⟩
    rw [h.agrees.queue, hqueue]
    rfl
  | request q => exact hend.elim
  | lookup q => cases htxn.symm.trans hend.1.txn
  | data q source => cases htxn.symm.trans hend.txn

/-- The loop of a run that never has to wait for a clear bus ends. -/
theorem Simulated.run_ends (h : Simulated L settings versions v) (hwf : settings.WellFormed)
    (hclear : ∀ s : Simulator P n, stalls → L.Clear s) :
    ∃ fuel v', (Versioned.loop P n).run fuel v = .ok (some v') ∧
      Simulated L settings versions v' ∧ v'.sim.done = true := by
  refine Loop.run_terminates (fun v ↦ v.sim.work) (fun v hv ↦ ?_) h
  obtain ⟨m, p, hrefines, hend⟩ := hv
  obtain ⟨v', hv', m', p', hrefines', hend', hcycled⟩ :=
    (cycle_refines hrefines hend (hclear v.sim)).exists_of_not (not_not_intro hwf)
  exact ⟨v', hv', ⟨m', p', hrefines', hend'⟩, hcycled.work_lt hrefines hrefines' hend⟩

/-- With any protocol but MOESI the loop of `Simulator::run` ends. At its end the bus is quiescent
and every entry is stable, and along the run every processor is answered for the lines it has
fetched, once each and in their order, until all have been answered. -/
theorem run_finishes {t : ProtocolT} (ht : t ≠ .MOESI_PRO) {n : ℕ} {settings : Settings n}
    (hwf : settings.WellFormed) (versions : PAddr → ℕ) :
    (∃ fuel v, Versioned.EndOfCycleWhile settings versions (fun _ ↦ True) v ∧
      (Simulator.loop t.protocol n).run fuel (.initial t.protocol settings) = .ok (some v.sim) ∧
      v.sim.Quiescent ∧ (∀ i addr, t.stable (v.sim.entry i addr) = true) ∧
      ∀ i, accessesOf i v.answers = (settings.traces i).map TraceLine.access) ∧
    ∀ v : Versioned t.protocol n,
      Versioned.EndOfCycleWhile settings versions (fun _ ↦ True) v → ∀ i, v.InOrder settings i := by
  have hclear := t.clear_of_ne (n := n) ht
  refine ⟨?_, fun v hv ↦ (simulated_of_endOfCycle (fun s _ ↦ hclear s) hv).inOrder⟩
  obtain ⟨fuel, v, hrun, ⟨m, p, hrefines, hend⟩, hdone⟩ :=
    (simulated_initial t.lawful settings versions).run_ends hwf hclear
  have herased : Except.map (Option.map Versioned.sim) (.ok (some v)) =
      (Simulator.loop t.protocol n).run fuel (.initial t.protocol settings) :=
    hrun ▸ Versioned.run_erases fuel _
  refine ⟨fuel, v, Loop.endOfBody_of_run .start hrun, herased.symm,
    hrefines.quiescent_of_done hend hdone, fun i addr ↦ ?_,
    fun i ↦ (hrefines.idle_of_done hdone i).2⟩
  have hview := hrefines.agrees.line i addr
  exact t.stable_of_pending (hview ▸ (hrefines.idle_of_done hdone i).1 addr)

theorem run_finishes_storeRace : ∃ fuel s,
    (Simulator.loop MSI.protocol 2).run fuel (.initial MSI.protocol storeRace) = .ok (some s) ∧
      s.Quiescent ∧ ∀ i addr, (s.entry i addr).stable = true := by
  obtain ⟨⟨fuel, v, -, hrun, hquiescent, hstable, -⟩, -⟩ :=
    run_finishes (t := .MSI_PRO) (by decide) storeRace_wellFormed fun _ ↦ 0
  exact ⟨fuel, v.sim, hrun, hquiescent, hstable⟩

end ArchSim.Coherence
