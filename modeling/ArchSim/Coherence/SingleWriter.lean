import ArchSim.Coherence.Runs

/-!
# One writer, one owner

What the entries of one block exclude of each other at the end of every cycle. `MOSI` demotes each
copy that waits to write when a writer goes first; in `MSI`, `MESI` and `MOESI` stale `SM` copies
may stand beside the new owner. `MOESI` keeps its promise only as long as no read is granted for a
block whose owner upgrades its copy.
-/

namespace ArchSim.Coherence

open Library AtomicMemory Snooping

variable {n : ℕ}

/-- What the snooping machine says about the entries of a block. -/
theorem alone_of_endOfCycle {P : Protocol} {demotes stalls : Bool} (L : Lawful P demotes stalls)
    {settings : Settings n} {cond : Simulator P n → Prop}
    (hcond : ∀ s, cond s → stalls → L.Clear s) {s : Simulator P n}
    (h : Simulator.EndOfCycleWhile settings cond s) :
    Alone demotes fun i b ↦ L.view ((s.nodes i).cache.myEntries b) := by
  obtain ⟨v, hv, rfl⟩ := Versioned.exists_of_endOfCycleWhile (fun _ ↦ 0) h
  obtain ⟨m, p, hrefines, -⟩ := simulated_of_endOfCycle hcond hv
  have hline : m.line = fun i b ↦ L.view ((v.sim.nodes i).cache.myEntries b) :=
    funext fun i ↦ funext fun b ↦ hrefines.agrees.line i b
  exact hline ▸ hrefines.inv.alone

/-- The entry for `addr` in cache `i`. -/
def Simulator.entry {P : Protocol} (s : Simulator P n) (i : Fin n) (addr : PAddr) : P.State :=
  (s.nodes i).cache.myEntries addr

variable {settings : Settings n}

/-! ## MI and MSI -/

theorem MI.single_writer {s : Simulator MI.protocol n} (h : Simulator.EndOfCycle settings s)
    (addr : PAddr) {i j : Fin n} (hne : i ≠ j) (hi : s.entry i addr = .M) :
    s.entry j addr ≠ .M := by
  have halone := alone_of_endOfCycle MI.lawful (fun _ _ ↦ nofun) h
  have hother : (MI.view (s.entry j addr)).readable = false :=
    halone.exclusive hne (show (MI.view (s.entry i addr)).exclusive by rw [hi]; rfl)
  rintro hj
  rw [hj] at hother
  cases hother

theorem MSI.single_writer {s : Simulator MSI.protocol n} (h : Simulator.EndOfCycle settings s)
    (addr : PAddr) {i j : Fin n} (hne : i ≠ j) (hi : s.entry i addr = .M) :
    s.entry j addr ≠ .M ∧ s.entry j addr ≠ .S := by
  have halone := alone_of_endOfCycle MSI.lawful (fun _ _ ↦ nofun) h
  have hother : (MSI.view (s.entry j addr)).readable = false :=
    halone.exclusive hne (show (MSI.view (s.entry i addr)).exclusive by rw [hi]; rfl)
  constructor <;>
  · rintro hj
    rw [hj] at hother
    cases hother

/-- At most one cache has a block in `M`, and then no other has it in `S`. -/
theorem MI_MSI_one_writer {n : ℕ} (settings : Settings n) (addr : PAddr) (i j : Fin n)
    (hne : i ≠ j) :
    (∀ s : Simulator MI.protocol n, Simulator.EndOfCycle settings s →
      s.entry i addr = .M → s.entry j addr ≠ .M) ∧
    ∀ s : Simulator MSI.protocol n, Simulator.EndOfCycle settings s →
      s.entry i addr = .M → s.entry j addr ≠ .M ∧ s.entry j addr ≠ .S :=
  ⟨fun _ h hi ↦ MI.single_writer h addr hne hi, fun _ h hi ↦ MSI.single_writer h addr hne hi⟩

theorem MI_MSI_one_writer_storeRace : ∃ s : Simulator MSI.protocol 2,
    Simulator.EndOfCycle storeRace s ∧ s.entry 0 0 = .M ∧ s.entry 1 0 ≠ .M ∧ s.entry 1 0 ≠ .S := by
  obtain ⟨s, hs, hM⟩ : ∃ s : Simulator MSI.protocol 2,
      Simulator.EndOfCycle storeRace s ∧ s.entry 0 0 = .M :=
    Loop.exists_endOfBody 4 (by decide +kernel)
  exact ⟨s, hs, hM, (MI_MSI_one_writer storeRace 0 0 1 (by decide)).2 s hs hM⟩

/-! ## MESI -/

/-- A copy in `M` excludes every other readable one, and a copy in `E` also the stale ones in
`SM`, so that it may become `M` silently. -/
theorem MESI_exclusive {n : ℕ} {settings : Settings n} {s : Simulator MESI.protocol n}
    (h : Simulator.EndOfCycle settings s) (addr : PAddr) {i j : Fin n} (hne : i ≠ j) :
    (s.entry i addr = .M → s.entry j addr ∉ [MESI.State.S, .E, .M]) ∧
    (s.entry i addr = .E → s.entry j addr ∉ [MESI.State.S, .E, .M, .SM]) := by
  have halone := alone_of_endOfCycle MESI.lawful (fun _ _ ↦ nofun) h
  have hread (hi : (MESI.view (s.entry i addr)).exclusive) :
      (MESI.view (s.entry j addr)).readable = false := halone.exclusive hne hi
  constructor
  · intro hi
    have hother := hread (by rw [hi]; rfl)
    revert hother
    cases s.entry j addr <;> decide
  · intro hi
    have hother := hread (by rw [hi]; rfl)
    have hsharer : (MESI.view (s.entry j addr)).sharer = false :=
      halone.clean hne (show (MESI.view (s.entry i addr)).clean by rw [hi]; rfl)
    revert hother hsharer
    cases s.entry j addr <;> decide

theorem MESI_exclusive_storeRace : ∃ s : Simulator MESI.protocol 2,
    Simulator.EndOfCycle storeRace s ∧ s.entry 0 0 = .M ∧
      s.entry 1 0 ∉ [MESI.State.S, .E, .M] := by
  obtain ⟨s, hs, hM⟩ : ∃ s : Simulator MESI.protocol 2,
      Simulator.EndOfCycle storeRace s ∧ s.entry 0 0 = .M :=
    Loop.exists_endOfBody 4 (by decide +kernel)
  exact ⟨s, hs, hM, (MESI_exclusive hs 0 (i := 0) (j := 1) (by decide)).1 hM⟩

/-! ## MOSI -/

/-- A copy in `M` leaves the other caches nothing, and at most one cache owns a block. -/
theorem MOSI_single_owner {n : ℕ} {settings : Settings n} {s : Simulator MOSI.protocol n}
    (h : Simulator.EndOfCycle settings s) (addr : PAddr) {i j : Fin n} (hne : i ≠ j) :
    (s.entry i addr = .M → s.entry j addr ∈ [MOSI.State.I, .IM, .IS]) ∧
    (s.entry i addr ∈ [MOSI.State.M, .O, .OM] → s.entry j addr ∉ [MOSI.State.M, .O, .OM]) := by
  have halone := alone_of_endOfCycle MOSI.lawful (fun _ _ ↦ nofun) h
  have howner (hi : (MOSI.view (s.entry i addr)).owner) :
      (MOSI.view (s.entry j addr)).owner = false :=
    eq_false_of_ne_true fun hj ↦ hne (halone.owner hi hj)
  constructor
  · intro hi
    have hother := howner (by rw [hi]; rfl)
    have hsharer : (MOSI.view (s.entry j addr)).sharer = false :=
      halone.demoted rfl hne (show (MOSI.view (s.entry i addr)).exclusive by rw [hi]; rfl)
    revert hother hsharer
    cases s.entry j addr <;> decide
  · intro hi
    have hother := howner (by revert hi; cases s.entry i addr <;> decide)
    revert hother
    cases s.entry j addr <;> decide

theorem MOSI_single_owner_storeRace : ∃ s : Simulator MOSI.protocol 2,
    Simulator.EndOfCycle storeRace s ∧ s.entry 0 0 = .M ∧
      s.entry 1 0 ∈ [MOSI.State.I, .IM, .IS] ∧ s.entry 1 0 ∉ [MOSI.State.M, .O, .OM] := by
  obtain ⟨s, hs, hM⟩ : ∃ s : Simulator MOSI.protocol 2,
      Simulator.EndOfCycle storeRace s ∧ s.entry 0 0 = .M :=
    Loop.exists_endOfBody 4 (by decide +kernel)
  have halone := MOSI_single_owner hs 0 (i := 0) (j := 1) (by decide)
  exact ⟨s, hs, hM, halone.1 hM, halone.2 (by rw [hM]; decide)⟩

/-! ## MOESI -/

/-- When a read is about to be granted, no cache has its block in `OM`, nor in `O` with a store to
make. -/
abbrev MOESI.NoReadMeetsUpgrade (s : Simulator MOESI.protocol n) : Prop :=
  s.bus.requestInProgress = false → ∀ request ∈ s.bus.pendingRequests.head?, request.msg = .GETS →
    ∀ i, s.entry i request.addr ≠ .OM ∧ (s.entry i request.addr = .O →
      ∀ own ∈ (s.nodes i).cache.procRequest, own.msg = .STORE → own.addr ≠ request.addr)

theorem MOESI.clear_of_noReadMeetsUpgrade {s : Simulator MOESI.protocol n}
    (h : MOESI.NoReadMeetsUpgrade s) : MOESI.lawful.Clear s := by
  intro request rest hprogress hpending hmsg i hupgrades
  obtain ⟨hOM, hO⟩ := h hprogress request (by rw [hpending]; rfl) hmsg i
  rcases hupgrades with hview | ⟨hview, own, hown, hstore, haddr⟩
  · exact hOM (MOESI.view_injective hview)
  · exact hO (MOESI.view_injective hview) own hown hstore haddr

/-- In a run in which no read is granted for a block that its owner upgrades, a copy in `M` or `E`
excludes every other readable one, and at most one cache owns a block. -/
theorem MOESI_single_owner {n : ℕ} {settings : Settings n} {s : Simulator MOESI.protocol n}
    (h : Simulator.EndOfCycleWhile settings MOESI.NoReadMeetsUpgrade s) (addr : PAddr)
    {i j : Fin n} (hne : i ≠ j) :
    (s.entry i addr ∈ [MOESI.State.M, .E] → s.entry j addr ∉ [MOESI.State.S, .E, .O, .M]) ∧
    (s.entry i addr ∈ [MOESI.State.E, .O, .M, .OM] →
      s.entry j addr ∉ [MOESI.State.E, .O, .M, .OM]) := by
  have halone := alone_of_endOfCycle MOESI.lawful
    (fun _ hs _ ↦ MOESI.clear_of_noReadMeetsUpgrade hs) h
  constructor
  · intro hi
    have hother : (MOESI.view (s.entry j addr)).readable = false := halone.exclusive hne
      (show (MOESI.view (s.entry i addr)).exclusive by revert hi; cases s.entry i addr <;> decide)
    revert hother
    cases s.entry j addr <;> decide
  · intro hi
    have howner : (MOESI.view (s.entry i addr)).owner := by
      revert hi
      cases s.entry i addr <;> decide
    have hother : (MOESI.view (s.entry j addr)).owner = false :=
      eq_false_of_ne_true fun hj ↦ hne (halone.owner howner hj)
    revert hother
    cases s.entry j addr <;> decide

theorem MOESI_single_owner_storeRace : ∃ s : Simulator MOESI.protocol 2,
    Simulator.EndOfCycleWhile storeRace MOESI.NoReadMeetsUpgrade s ∧ s.entry 0 0 = .M ∧
      s.entry 1 0 ∉ [MOESI.State.S, .E, .O, .M] ∧ s.entry 1 0 ∉ [MOESI.State.E, .O, .M, .OM] := by
  obtain ⟨s, hs, hM⟩ : ∃ s : Simulator MOESI.protocol 2,
      Simulator.EndOfCycleWhile storeRace MOESI.NoReadMeetsUpgrade s ∧ s.entry 0 0 = .M :=
    Loop.exists_endOfBody 4 (by decide +kernel)
  have halone := MOESI_single_owner hs 0 (i := 0) (j := 1) (by decide)
  exact ⟨s, hs, hM, halone.1 (by rw [hM]; decide), halone.2 (by rw [hM]; decide)⟩

/-- Node 0 has answered the read of node 1 and is in `OM` when the read of node 2 is granted; its
handler makes the line `M`, beside the copy of node 1. -/
theorem MOESI_reader_beside_writer : ∃ s : Simulator MOESI.protocol 3,
    Simulator.EndOfCycle MOESI.upgradeRace s ∧ s.entry 0 0 = .M ∧ s.entry 1 0 = .S :=
  Loop.exists_endOfBody 106 (by decide +kernel)

end ArchSim.Coherence
