import ArchSim.Coherence.Cycle
import ArchSim.Coherence.LawfulProtocols

/-!
# Runs, and the values that processors read

Every state of a run refines a reachable state of the snooping machine, so the machine's invariant
holds in it. The first use is the answers given to the processors: they are those of an atomic
memory, in the order in which they are given.
-/

namespace ArchSim.Coherence

open Library AtomicMemory Snooping

variable {P : Protocol} {n : ℕ} {demotes stalls : Bool} {L : Lawful P demotes stalls}
  {settings : Settings n} {versions : PAddr → ℕ} {v : Versioned P n}

/-- The state is one of the machine's, seen at the end of a cycle. -/
def Simulated (L : Lawful P demotes stalls) (settings : Settings n) (versions : PAddr → ℕ)
    (v : Versioned P n) : Prop :=
  ∃ m p, Refines L settings versions v m ∧ AtEnd (control v m) p

theorem simulated_initial (L : Lawful P demotes stalls) (settings : Settings n)
    (versions : PAddr → ℕ) : Simulated L settings versions (.initial P settings versions) :=
  ⟨_, .quiet, initial_refines L settings versions, initial_atEnd settings versions⟩

theorem Simulated.cycle (h : Simulated L settings versions v) (hclear : stalls → L.Clear v.sim) :
    Yields (¬ settings.WellFormed) v.cycle (Simulated L settings versions) := by
  obtain ⟨m, p, hrefines, hend⟩ := h
  exact (cycle_refines hrefines hend hclear).mono fun v' ⟨m', p', hrefines', hend', _⟩ ↦
    ⟨m', p', hrefines', hend'⟩

section

variable {cond : Simulator P n → Prop}

theorem simulated_of_loopHead (hcond : ∀ s, cond s → stalls → L.Clear s)
    (h : Versioned.LoopHeadWhile settings versions cond v) : Simulated L settings versions v :=
  h.invariant (simulated_initial L settings versions) fun _ hv hcond' ↦ hv.cycle (hcond _ hcond')

theorem simulated_of_endOfCycle (hcond : ∀ s, cond s → stalls → L.Clear s)
    (h : Versioned.EndOfCycleWhile settings versions cond v) :
    Simulated L settings versions v :=
  h.invariant (simulated_initial L settings versions) fun _ hv hcond' ↦ hv.cycle (hcond _ hcond')

end

/-- The answers are those of an atomic memory. -/
theorem Simulated.legal (h : Simulated L settings versions v) : Legal versions v.answers := by
  obtain ⟨m, p, hrefines, -⟩ := h
  rw [hrefines.agrees.answers]
  exact hrefines.inv.current.legal

/-- The protocols but MOESI do not need the bus to be clear. -/
theorem ProtocolT.clear_of_ne {t : ProtocolT} (ht : t ≠ .MOESI_PRO) (s : Simulator t.protocol n)
    (hstalls : t.stalls = true) : t.lawful.Clear s := by
  rw [ProtocolT.stalls_eq_false ht] at hstalls
  cases hstalls

/-! ## The values -/

/-- In every run with any protocol but MOESI, each load reads the version written by the last
store that was answered before it, and each store increments that version. -/
theorem answers_legal {t : ProtocolT} (ht : t ≠ .MOESI_PRO) {n : ℕ} (settings : Settings n)
    (versions : PAddr → ℕ) :
    (∀ s : Simulator t.protocol n, Simulator.EndOfCycle settings s →
      ∃ v, Versioned.EndOfCycleWhile settings versions (fun _ ↦ True) v ∧ v.sim = s) ∧
    ∀ v : Versioned t.protocol n,
      Versioned.EndOfCycleWhile settings versions (fun _ ↦ True) v → Legal versions v.answers := by
  refine ⟨fun s hs ↦ Versioned.exists_of_endOfCycleWhile versions hs, fun v hv ↦ ?_⟩
  exact (simulated_of_endOfCycle (fun s _ ↦ t.clear_of_ne ht s) hv).legal

/-- Two nodes write block 0. -/
def storeRace : Settings 2 where
  traces _ := [⟨'w', 0⟩]
  hitTime := 1

theorem storeRace_wellFormed : storeRace.WellFormed :=
  fun _ _ hline ↦ .inr (List.mem_singleton.mp hline ▸ rfl)

theorem answers_legal_storeRace : ∃ v : Versioned MSI.protocol 2,
    Versioned.EndOfCycleWhile storeRace (fun _ ↦ 5) (fun _ ↦ True) v ∧
      v.answers = [⟨1, .store, 0, 7⟩, ⟨0, .store, 0, 6⟩] ∧ Legal (fun _ ↦ 5) v.answers := by
  obtain ⟨v, hv, hanswers⟩ : ∃ v : Versioned MSI.protocol 2,
      Versioned.EndOfCycleWhile storeRace (fun _ ↦ 5) (fun _ ↦ True) v ∧
        v.answers = [⟨1, .store, 0, 7⟩, ⟨0, .store, 0, 6⟩] :=
    Loop.exists_endOfBody 6 (by decide +kernel)
  exact ⟨v, hv, hanswers, (answers_legal (t := .MSI_PRO) (by decide) storeRace _).2 v hv⟩

/-! ## Traces of small runs -/

/-- Two nodes write different blocks. -/
def storesApart : Settings 2 where
  traces i := [⟨'w', if i.val = 0 then 0 else 64⟩]
  hitTime := 1

/-- Node 0 writes block 0, and so does node 1, whose second line is no access. -/
def unknownLine : Settings 2 where
  traces i := if i.val = 0 then [⟨'w', 0⟩] else [⟨'w', 0⟩, ⟨'x', 0⟩]
  hitTime := 1

/-- Two nodes read block 0. -/
def MESI.readRace : Settings 2 where
  traces _ := [⟨'r', 0⟩]
  hitTime := 1

/-- Node 0 reads block 0 and writes it, and node 1 writes another block. -/
def MESI.readThenWrite : Settings 2 where
  traces i := if i.val = 0 then [⟨'r', 0⟩, ⟨'w', 0⟩] else [⟨'w', 64⟩]
  hitTime := 1

/-- Node 0 writes block 0 twice, and nodes 1 and 2 read it. -/
def MOESI.upgradeRace : Settings 3 where
  traces i := if i = 0 then [⟨'w', 0⟩, ⟨'w', 0⟩] else [⟨'r', 0⟩]

/-- Node 0 writes block 0 twice, reads it for some time, writes it again and goes on reading; the
other three nodes read it once. -/
def MOESI.lateUpgrade : Settings 4 where
  traces i :=
    if i.val = 0 then
      [⟨'w', 0⟩, ⟨'w', 0⟩] ++ List.replicate 51 ⟨'r', 0⟩ ++ ⟨'w', 0⟩ :: List.replicate 60 ⟨'r', 0⟩
    else
      [⟨'r', 0⟩]

/-- Node 0 reads block 0 and then block 1; node 1 reads block 0 `k` times. -/
def MOESI.twoBlocks (k : ℕ) : Settings 2 where
  traces i := if i.val = 0 then [⟨'r', 0⟩, ⟨'r', 64⟩] else List.replicate k ⟨'r', 0⟩

end ArchSim.Coherence
