import ArchSim.Coherence.Latency

/-!
# What a run leaves behind

When the loop of `Simulator::run` has ended, all accesses have been made one after the other, in an
order that agrees with every trace, and each block has the version that the stores of all traces
together leave: in every copy that can be read, and in the memory if no cache owns the block. It
does not depend on the protocol, nor on the times at which the requests have met.
-/

namespace ArchSim.Coherence

open Library AtomicMemory Snooping

variable {P : Protocol} {n : ℕ} {drives demotes stalls : Bool} {L : Lawful P demotes stalls}
  {settings : Settings n} {versions : PAddr → ℕ} {v : Versioned P n}
  {m : Machine (Fin n) PAddr} {p : Phase n}

/-- The stores to the block `addr` in all traces. -/
def Settings.stores (settings : Settings n) (addr : PAddr) : ℕ :=
  ∑ i, ((settings.traces i).map TraceLine.access).count (.store, addr)

/-- The history `v.answers` makes the accesses of all traces one after the other, and the caches
and the memory hold what it leaves. -/
structure Versioned.Completed (L : Lawful P demotes stalls) (settings : Settings n)
    (versions : PAddr → ℕ) (v : Versioned P n) : Prop where
  inOrder : ∀ i, accessesOf i v.answers = (settings.traces i).map TraceLine.access
  legal : Legal versions v.answers
  copy : ∀ i addr, (L.view (v.sim.entry i addr)).readable →
    v.copy i addr = versions addr + settings.stores addr
  mem : ∀ addr, (∀ i, (L.view (v.sim.entry i addr)).owner = false) →
    v.mem addr = versions addr + settings.stores addr

/-- At the end of a cycle simulator and machine agree on the memory. -/
theorem AtEnd.mem_eq (hend : AtEnd (control v m) p) : m.mem = v.mem := by
  cases p with
  | quiet => exact hend.mem
  | request q => exact hend.elim
  | lookup q => exact hend.1.mem
  | data q source => exact hend.mem

/-- When every processor is done, the last version of a block counts the stores of all traces. -/
theorem Refines.latest_of_done (h : Refines L settings versions v m) (hdone : v.sim.done = true)
    (addr : PAddr) : latest versions m.history addr = versions addr + settings.stores addr := by
  rw [latest_eq_add_stores h.inv.current.legal, countP_stores_eq_sum, Settings.stores]
  congr 1
  refine Finset.sum_congr rfl fun i _ ↦ ?_
  rw [← h.agrees.answers, (h.idle_of_done hdone i).2]

theorem Simulated.completed (h : Simulated L settings versions v) (hdone : v.sim.done = true) :
    v.Completed L settings versions := by
  obtain ⟨m, p, hrefines, hend⟩ := h
  have hcurrent := hrefines.inv.current
  have hline (i addr) : m.line i addr = L.view (v.sim.entry i addr) := hrefines.agrees.line i addr
  have htxn : m.txn = none := by
    cases htxn : m.txn with
    | none => rfl
    | some q =>
      have hpending := hrefines.inv.queued.pending_of_txn htxn
      rw [(hrefines.idle_of_done hdone q.node).1] at hpending
      cases hpending
  refine ⟨fun i ↦ (hrefines.idle_of_done hdone i).2, ?_, fun i addr hread ↦ ?_, fun addr hnone ↦ ?_⟩
  · rw [hrefines.agrees.answers]
    exact hcurrent.legal
  · rw [hrefines.agrees.copy, hcurrent.copy (.inr (hline i addr ▸ hread)),
      hrefines.latest_of_done hdone]
  · rw [← hend.mem_eq, hcurrent.mem (fun i ↦ (hline i addr).symm ▸ hnone i) fun q hq ↦ ?_,
      hrefines.latest_of_done hdone]
    cases htxn.symm.trans hq

/-- The simulator of a run with versions. -/
theorem Versioned.LoopHeadWhile.sim {cond : Simulator P n → Prop}
    (h : Versioned.LoopHeadWhile settings versions cond v) :
    Simulator.LoopHeadWhile settings cond v.sim := by
  change (Simulator.loop P n).Head (Versioned.initial P settings versions).sim cond v.sim
  exact Loop.Head.project Versioned.cycle_erases (fun _ ↦ rfl) h

/-- A run with any of the protocols ends with all accesses made in one order and nothing lost,
unless it is one with MOESI that comes to a state in which a read is about to be granted for a
block that its owner upgrades. -/
theorem run_completes (t : ProtocolT) {n : ℕ} {settings : Settings n} (hwf : settings.WellFormed)
    (versions : PAddr → ℕ) {len : ℕ} (hlen : ∀ i, (settings.traces i).length ≤ len) :
    (t = .MOESI_PRO ∧ ∃ s : Simulator MOESI.protocol n,
      Simulator.LoopHeadWhile settings MOESI.NoReadMeetsUpgrade s ∧
        ¬ MOESI.NoReadMeetsUpgrade s) ∨
    ∃ v : Versioned t.protocol n,
      (Versioned.loop t.protocol n).run (len * (n * (settings.hitTime + 2) + 2) + 1)
        (.initial t.protocol settings versions) = .ok (some v) ∧
      v.Completed t.lawful settings versions := by
  by_cases ht : t = .MOESI_PRO
  · subst ht
    refine (run_within MOESI.lawful MOESI.regular MOESI.NoReadMeetsUpgrade
      (fun _ hs _ ↦ MOESI.clear_of_noReadMeetsUpgrade hs) hwf versions hlen).imp ?_ ?_
    · rintro ⟨v, hv, hnot⟩
      exact ⟨rfl, v.sim, hv.sim, hnot⟩
    · rintro ⟨v, hrun, hhead, hdone, -⟩
      exact ⟨v, hrun, hhead.simulated.completed hdone⟩
  · right
    rcases run_within t.lawful t.regular (fun _ ↦ True) (fun s _ ↦ t.clear_of_ne ht s) hwf
      versions hlen with ⟨v, -, hnot⟩ | ⟨v, hrun, hhead, hdone, -⟩
    · exact absurd trivial hnot
    · exact ⟨v, hrun, hhead.simulated.completed hdone⟩

/-- Both stores to block 0 are in the copy that can be read at the end. -/
theorem run_completes_storeRace : ∃ v : Versioned MESI.protocol 2,
    (Versioned.loop MESI.protocol 2).run 9 (.initial MESI.protocol storeRace fun _ ↦ 5) =
      .ok (some v) ∧
    ∀ i, v.sim.entry i 0 = .M → v.copy i 0 = 7 := by
  rcases run_completes .MESI_PRO storeRace_wellFormed (fun _ ↦ 5) fun _ ↦ le_refl 1 with
    ⟨hne, -⟩ | ⟨v, hrun, hcompleted⟩
  · cases hne
  · refine ⟨v, hrun, fun i hi ↦ hcompleted.copy i 0 ?_⟩
    exact congrArg (fun σ : MESI.State ↦ (MESI.view σ).readable) hi

end ArchSim.Coherence
