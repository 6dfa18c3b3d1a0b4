import ArchSim.Coherence.Transactions

/-!
# No abort

On traces of reads and writes no cycle calls `fatal_error` or fails an assertion: every processor
request meets a line that does not wait, every `DATA` meets one that does, no cache has two requests
on the bus, and the reply slot, the memory controller and the processors' buffers are free when they
are written. For `MOESI` this holds as long as no read is granted for a block whose owner upgrades
its copy.
-/

namespace ArchSim.Coherence

open Library AtomicMemory Snooping

variable {P : Protocol} {n : ℕ} {demotes stalls : Bool} {L : Lawful P demotes stalls}
  {settings : Settings n} {versions : PAddr → ℕ} {v : Versioned P n} {s : Simulator P n}

theorem Simulated.cycle_returns (h : Simulated L settings versions v) (hwf : settings.WellFormed)
    (hclear : stalls → L.Clear v.sim) : ∃ s', v.sim.cycle = .ok s' := by
  obtain ⟨v', hv', -⟩ := (h.cycle hclear).exists_of_not (not_not_intro hwf)
  have herases : Except.map Versioned.sim v.cycle = v.sim.cycle := Versioned.cycle_erases v
  exact ⟨v'.sim, by rw [← herases, hv']; rfl⟩

/-- The request in progress on the bus is the one that the machine has granted. -/
theorem AtEnd.request_srcMid {m : Machine (Fin n) PAddr} {p : Phase n} {tr : Transaction}
    (h : AtEnd (control v m) p) (hholds : tr.Holds v.sim) :
    tr.request.map Mreq.srcMid = m.txn.map fun q ↦ l1 q.node := by
  cases p with
  | quiet =>
    obtain ⟨htxn, hprogress, -⟩ := h
    obtain rfl := hholds.quiet_of_idle hprogress
    rw [show m.txn = none from htxn]
    rfl
  | request q => exact h.elim
  | lookup q =>
    obtain ⟨⟨htxn, -, -, hprogress, hslot, -, htarget, -⟩, -⟩ := h
    rw [show m.txn = some q from htxn]
    cases tr with
    | quiet => cases hprogress.symm.trans hholds.1
    | lookup r => exact congrArg some (hholds.target.symm.trans htarget)
    | replied r d => cases hslot.symm.trans hholds.2.2.2
  | data q source =>
    obtain ⟨htxn, -, -, hprogress, hslot, -⟩ := h
    rw [show m.txn = some q from htxn]
    cases tr with
    | quiet => cases hprogress.symm.trans hholds.1
    | lookup r => cases hslot.symm.trans hholds.dataReply
    | replied r d =>
      obtain rfl := Option.some.inj (hslot.symm.trans hholds.2.2.2)
      exact congrArg some hholds.2.1.destMid.symm

/-- No cache has two requests that are granted or wait for the bus. -/
theorem Refines.nodup_srcMid {m : Machine (Fin n) PAddr} (h : Refines L settings versions v m) :
    ((m.txn.map fun q ↦ l1 q.node).toList ++
      v.sim.bus.pendingRequests.map Mreq.srcMid).Nodup := by
  have hqueue : (m.queue.map requestMessage).map Mreq.srcMid =
      m.queue.map fun q ↦ l1 q.node := by
    simp only [List.map_map]
    rfl
  have hnodup : ((m.requests.map Request.node).map l1).Nodup :=
    h.inv.queued.nodup.map fun _ _ ↦ l1_injective
  rw [h.agrees.queue, hqueue, Option.toList_map, ← List.map_append]
  rwa [List.map_map] at hnodup

/-- No cache has two requests on the bus: neither two that wait, nor one that waits beside the one
in progress. -/
theorem Simulated.nodup_srcMid (h : Simulated L settings versions v) {tr : Transaction}
    (hholds : tr.Holds v.sim) :
    ((tr.request.toList ++ v.sim.bus.pendingRequests).map Mreq.srcMid).Nodup := by
  obtain ⟨m, p, hrefines, hend⟩ := h
  rw [List.map_append, ← Option.toList_map, hend.request_srcMid hholds]
  exact hrefines.nodup_srcMid

/-- The data in `dataReply` is for a line that waits for it. -/
theorem Simulated.pending_of_dataReply (h : Simulated L settings versions v) {d : Mreq}
    (hd : v.sim.bus.dataReply = some d) {i : Fin n} (hdest : d.destMid = l1 i) :
    (L.view (v.sim.entry i d.addr)).pending.isSome := by
  obtain ⟨m, p, hrefines, hend⟩ := h
  cases p with
  | quiet => cases hd.symm.trans hend.dataReply
  | request q => exact hend.elim
  | lookup q => cases hd.symm.trans hend.1.dataReply
  | data q source =>
    obtain rfl := Option.some.inj (hd.symm.trans hend.dataReply)
    have hnode : q.node = i := l1_injective hdest
    have hmem : q ∈ m.requests :=
      List.mem_append_left _ (Option.mem_toList.mpr hend.txn)
    have haddr : blockAddr q.addr = q.addr := hrefines.blockAddr_of_mem hmem
    change (L.view (v.sim.entry i (blockAddr q.addr))).pending.isSome
    rw [haddr, ← hnode, Simulator.entry, ← hrefines.agrees.line,
      hrefines.inv.queued.pending q hmem]
    rfl

/-- No cycle of the MI, MSI, MESI and MOSI simulators aborts. -/
theorem cycle_ok {t : ProtocolT} (ht : t ≠ .MOESI_PRO) {n : ℕ} {settings : Settings n}
    (hwf : settings.WellFormed) {s : Simulator t.protocol n} (h : Simulator.LoopHead settings s) :
    ∃ s', s.cycle = .ok s' := by
  obtain ⟨v, hv, rfl⟩ := Versioned.exists_of_loopHeadWhile (fun _ ↦ 0) h
  have hsimulated := simulated_of_loopHead (fun s _ ↦ t.clear_of_ne ht s) hv
  exact hsimulated.cycle_returns hwf (t.clear_of_ne ht v.sim)

theorem cycle_ok_storeRace : ∃ s : Simulator MSI.protocol 2,
    Simulator.LoopHead storeRace s ∧ s.bus.pendingRequests ≠ [] ∧ ∃ s', s.cycle = .ok s' := by
  obtain ⟨s, hs, hpending⟩ : ∃ s : Simulator MSI.protocol 2,
      Simulator.LoopHead storeRace s ∧ s.bus.pendingRequests ≠ [] :=
    Loop.exists_head 2 (by decide +kernel)
  exact ⟨s, hs, hpending, cycle_ok (t := .MSI_PRO) (by decide) storeRace_wellFormed hs⟩

/-! ## MOESI -/

/-- In a run in which no read is granted for a block that its owner upgrades, no cycle of the MOESI
simulator aborts, no cache has two requests on the bus, in progress or waiting, and no data is sent
to a cache that has the block. -/
theorem MOESI_cycle_ok {n : ℕ} {settings : Settings n} (hwf : settings.WellFormed)
    (versions : PAddr → ℕ) :
    (∀ s : Simulator MOESI.protocol n,
      Simulator.LoopHeadWhile settings MOESI.NoReadMeetsUpgrade s →
        ∃ y : Traced MOESI.protocol n,
          Traced.LoopHeadWhile settings versions MOESI.NoReadMeetsUpgrade y ∧ y.sim = s) ∧
    ∀ y : Traced MOESI.protocol n,
      Traced.LoopHeadWhile settings versions MOESI.NoReadMeetsUpgrade y →
        (MOESI.NoReadMeetsUpgrade y.sim → ∃ s', y.sim.cycle = .ok s') ∧
        (∃ inProgress, Matched n y.messages inProgress ∧
          ((inProgress.toList ++ y.sim.bus.pendingRequests).map Mreq.srcMid).Nodup) ∧
        ∀ d ∈ y.sim.bus.dataReply, ∀ i, d.destMid = l1 i →
          y.sim.entry i d.addr ∉ [MOESI.State.S, .E, .O, .M] := by
  refine ⟨fun s hs ↦ Traced.exists_of_loopHeadWhile versions hs, fun y hy ↦ ?_⟩
  have hsimulated : Simulated MOESI.lawful settings versions y.state :=
    simulated_of_loopHead (fun _ hs _ ↦ MOESI.clear_of_noReadMeetsUpgrade hs) hy.state
  obtain ⟨tr, hserved⟩ := served_of_loopHead MOESI.regular hy
  refine ⟨fun hclear ↦ ?_, ?_, fun d hd i hdest hheld ↦ ?_⟩
  · exact hsimulated.cycle_returns hwf fun _ ↦ MOESI.clear_of_noReadMeetsUpgrade hclear
  · exact ⟨tr.request, hserved.matched, hsimulated.nodup_srcMid hserved.holds⟩
  · have hpending : (MOESI.view (y.sim.entry i d.addr)).pending.isSome :=
      hsimulated.pending_of_dataReply hd hdest
    revert hheld hpending
    cases y.sim.entry i d.addr <;> decide

/-- The request of node 0 is in progress, and that of node 1 waits. -/
theorem MOESI_cycle_ok_storeRace : ∃ y : Traced MOESI.protocol 2,
    Traced.LoopHeadWhile storeRace (fun _ ↦ 0) MOESI.NoReadMeetsUpgrade y ∧
      y.sim.bus.requestInProgress = true ∧ y.sim.bus.pendingRequests ≠ [] ∧
      (∃ s', y.sim.cycle = .ok s') ∧ ∃ inProgress, Matched 2 y.messages inProgress ∧
        ((inProgress.toList ++ y.sim.bus.pendingRequests).map Mreq.srcMid).Nodup := by
  obtain ⟨y, hy, hclear, hprogress, hpending⟩ : ∃ y : Traced MOESI.protocol 2,
      Traced.LoopHeadWhile storeRace (fun _ ↦ 0) MOESI.NoReadMeetsUpgrade y ∧
        MOESI.NoReadMeetsUpgrade y.sim ∧ y.sim.bus.requestInProgress = true ∧
          y.sim.bus.pendingRequests ≠ [] :=
    Loop.exists_head 3 (by decide +kernel)
  obtain ⟨hok, hnodup, -⟩ := (MOESI_cycle_ok storeRace_wellFormed fun _ ↦ 0).2 y hy
  exact ⟨y, hy, hprogress, hpending, hok hclear, hnodup⟩

/-- Node 0 has been answered before its own `GETM` is served; by the time that is granted, its line
has been downgraded and a second `GETM` waits. When it sees the second one it gives up its line, so
that its next load asks with a `GETS`. The data for the second `GETM` makes the line `S`, and that
for the `GETS` then meets a line that has the block. -/
theorem MOESI_data_for_held_line : MOESI.lateUpgrade.WellFormed ∧
    ∃ s : Simulator MOESI.protocol 4, Simulator.LoopHead MOESI.lateUpgrade s ∧
      s.entry 0 0 = .S ∧
      s.bus.dataReply = some (cacheMessage .DATA 0 ⟨4, .MC⟩ (l1 (0 : Fin 4))) ∧ s.cycle =
      .error (.fatalError "Should not see data for this line!  I have the line!") := by
  refine ⟨by unfold Settings.WellFormed; decide +kernel, ?_⟩
  obtain ⟨s, hs, hentry, hslot, hfails⟩ : ∃ s : Simulator MOESI.protocol 4,
      Simulator.LoopHead MOESI.lateUpgrade s ∧ s.entry 0 0 = .S ∧
        s.bus.dataReply = some (cacheMessage .DATA 0 ⟨4, .MC⟩ (l1 (0 : Fin 4))) ∧
        s.cycle.map (fun _ ↦ ()) =
          .error (.fatalError "Should not see data for this line!  I have the line!") :=
    Loop.exists_head 315 (by decide +kernel)
  refine ⟨s, hs, hentry, hslot, ?_⟩
  cases hcycle : s.cycle with
  | ok _ =>
    rw [hcycle] at hfails
    cases hfails
  | error e =>
    rw [hcycle] at hfails
    exact congrArg Except.error (Except.error.inj hfails)

end ArchSim.Coherence
