import ArchSim.Coherence.Causes
import ArchSim.Library.Counting

/-!
# The traffic for blocks that are not shared for writing

Every request on the bus is for a block of its requester's trace, and, but in `MI`, a `GETM` is for
one that the trace writes. So a block that a single trace uses costs at most one `GETS` and one
`GETM` in a whole run, and a block that no trace writes at most one `GETS` of every cache.
-/

namespace ArchSim.Coherence

open Library AtomicMemory Snooping

/-- Only a store makes a cache ask for permission to write, except in `MI`. -/
theorem ProtocolT.store_of_GETM {t : ProtocolT} (ht : t ≠ .MI_PRO) {mid : ModuleID} {wire : Bool}
    {request r : Mreq} {state : t.protocol.State} {o : Outcome t.protocol.State}
    (h : t.protocol.processCacheRequest.outcome mid state wire request = .ok o)
    (hr : r ∈ o.requests) (hmsg : r.msg = .GETM) : request.msg = .STORE := by
  obtain ⟨msg, addr, source, dest⟩ := request
  cases t with
  | MI_PRO => exact absurd rfl ht
  | MSI_PRO | MESI_PRO | MOESI_PRO | MOSI_PRO =>
    cases state <;> cases msg <;> cases h <;>
      simp_all [Ctx.blank, Mreq.new]

/-! ## Who has asked -/

variable {P : Protocol} {n : ℕ} {drives demotes stalls : Bool} {L : Lawful P demotes stalls}
  {settings : Settings n} {versions : PAddr → ℕ} {s s' : Simulator P n}

/-- The handler of the request of processor `i` queues `r`. -/
def AskedFor (s : Simulator P n) (i : Fin n) (r : Mreq) : Prop :=
  ∃ request o, (s.nodes i).cache.procRequest = some request ∧
    P.processCacheRequest.outcome (l1 i) (s.entry i request.addr) false request = .ok o ∧
    r ∈ o.requests

theorem TickEffect.exists_asked (hP : Regular P drives) {mid : ModuleID} {message : Option Mreq}
    {wire : Bool} {node : Node P.State} {e : CacheEffect P.State} {r : Mreq}
    (h : TickEffect P mid message wire node e) (hr : r ∈ e.requests) :
    ∃ request o, node.cache.procRequest = some request ∧
      P.processCacheRequest.outcome mid (node.cache.myEntries request.addr) false request = .ok o ∧
      r ∈ o.requests := by
  obtain ⟨e₁, e₂, he₁, he₂, rfl⟩ := h
  have hnone : e₂.requests = [] := by
    cases he₂ with
    | idle _ => rfl
    | handled _ _ hout _ => exact (hP.snooped hout).requests
  change r ∈ e₁.requests ++ e₂.requests at hr
  rw [hnone, List.append_nil] at hr
  cases he₁ with
  | idle _ => cases hr
  | handled hrequest hout _ => exact ⟨_, _, hrequest, hout, hr⟩

/-- What waits for the bus after the loop over the caches has waited before, or a processor has
asked for it. -/
theorem tickCaches_asked (hP : Regular P drives)
    (h : (List.finRange n).foldlM Simulator.tickCache s = .ok s') :
    ∀ r ∈ s'.bus.pendingRequests, r ∈ s.bus.pendingRequests ∨ ∃ i, AskedFor s i r := by
  have hloop : (∀ j : Fin n, n ≤ (j : ℕ) → s'.nodes j = s.nodes j) ∧
      ∀ r ∈ s'.bus.pendingRequests, r ∈ s.bus.pendingRequests ∨ ∃ i, AskedFor s i r := by
    refine foldlM_finRange_invariant (I := fun k (s' : Simulator P n) ↦
      (∀ j : Fin n, k ≤ (j : ℕ) → s'.nodes j = s.nodes j) ∧
      ∀ r ∈ s'.bus.pendingRequests, r ∈ s.bus.pendingRequests ∨ ∃ i, AskedFor s i r) h ?_
      ⟨fun _ _ ↦ rfl, fun _ hr ↦ .inl hr⟩
    rintro i s₁ _ htick ⟨hothers, hasked⟩
    obtain ⟨e, he, -, rfl⟩ := (tickCache_ok_iff hP).mp htick
    refine ⟨fun j hj ↦ ?_, fun r hr ↦ ?_⟩
    · have hne : j ≠ i := by
        rintro rfl
        omega
      rw [e.apply_of_ne hne, hothers j (by omega)]
    · rcases List.mem_append.mp hr with hold | hnew
      · exact hasked r hold
      · unfold Simulator.TickEffect at he
        rw [hothers i le_rfl] at he
        exact .inr ⟨i, he.exists_asked hP hnew⟩
  exact hloop.2

/-- What a cycle adds to the queue has been asked for in it. -/
theorem CycleRan.askedFor (hP : Regular P drives) {s₁ s₂ s₃ : Simulator P n}
    {effect : Fin n → CacheEffect P.State} {x : Traffic}
    (h : CycleRan drives s s₁ s₂ s₃ s' effect x)
    (hnodup : (s'.bus.pendingRequests.map Mreq.srcMid).Nodup) {r : Mreq} (hr : r ∈ x.requests) :
    ∃ i, AskedFor s i r := by
  have hloop : r ∈ s₁.bus.pendingRequests := by
    rw [h.caches.bus]
    exact List.mem_append_right _ hr
  rcases tickCaches_asked hP h.loop r hloop with hold | hasked
  · rw [h.pendingRequests_eq, List.map_append] at hnodup
    exact absurd rfl ((List.nodup_append.mp hnodup).2.2 _ (List.mem_map_of_mem hold) _
      (List.mem_map_of_mem hr))
  · exact hasked

/-- What a processor asks for is on the line of its trace that it has fetched last. -/
theorem Refines.exists_line {v : Versioned P n} {m : Machine (Fin n) PAddr}
    (h : Refines L settings versions v m) {i : Fin n} {request : Mreq}
    (hrequest : (v.sim.nodes i).cache.procRequest = some request) :
    ∃ line ∈ settings.traces i, line.access.2 = request.addr ∧
      (request.msg = .STORE → line.access.1 = .store) := by
  obtain ⟨status, hnode⟩ := h.agrees.node i
  rw [hnode.procRequest] at hrequest
  cases status with
  | issued op addr =>
    obtain rfl := Option.some.inj hrequest
    obtain ⟨fetched, htrace, haccess⟩ := hnode.fetched
    have hmem : (op, blockAddr addr) ∈ fetched.map TraceLine.access := by
      rw [haccess]
      exact List.mem_append_right _ (List.mem_singleton_self _)
    obtain ⟨line, hline, heq⟩ := List.mem_map.mp hmem
    refine ⟨line, htrace ▸ List.mem_append_left _ hline, congrArg Prod.snd heq, fun hmsg ↦ ?_⟩
    rw [heq]
    cases op with
    | load => cases hmsg
    | store => rfl
  | idle | waiting _ _ _ _ | buffered _ | answered _ => cases hrequest

/-- A cache asks in its own name, and for the block that its processor uses. -/
theorem AskedFor.exists_request (hP : Regular P drives) {v : Versioned P n}
    {m : Machine (Fin n) PAddr} (h : Refines L settings versions v m) {i : Fin n} {r : Mreq}
    (hr : AskedFor v.sim i r) :
    ∃ request o, (v.sim.nodes i).cache.procRequest = some request ∧
      P.processCacheRequest.outcome (l1 i) (v.sim.entry i request.addr) false request = .ok o ∧
      r ∈ o.requests ∧ r.srcMid = l1 i ∧ r.addr = request.addr := by
  obtain ⟨request, o, hrequest, hout, hmem⟩ := hr
  have hsource : r.srcMid = l1 i ∧ r.addr = blockAddr request.addr := by
    rcases (hP.asks hout).requests r hmem with rfl | rfl <;> exact ⟨rfl, rfl⟩
  refine ⟨request, o, hrequest, hout, hmem, hsource.1, ?_⟩
  rw [hsource.2, h.blockAddr_of_procRequest i request hrequest]

/-! ## Requests and traces -/

/-- The trace of the cache that has made the request `q` uses its block, and writes it if `q` asks
for permission to write, except in `MI`. -/
def Wanted (t : ProtocolT) (settings : Settings n) (q : Mreq) : Prop :=
  ∃ i, q.srcMid = l1 i ∧ ∃ line ∈ settings.traces i, line.access.2 = q.addr ∧
    (t ≠ .MI_PRO → q.msg = .GETM → line.access.1 = .store)

theorem wanted_of_askedFor {t : ProtocolT} {v : Versioned t.protocol n}
    {m : Machine (Fin n) PAddr} (h : Refines t.lawful settings versions v m) {i : Fin n} {r : Mreq}
    (hr : AskedFor v.sim i r) : Wanted t settings r := by
  obtain ⟨request, o, hrequest, hout, hmem, hsource, hblock⟩ := hr.exists_request t.regular h
  obtain ⟨line, hline, haddr, hstore⟩ := h.exists_line hrequest
  exact ⟨i, hsource, line, hline, haddr.trans hblock.symm,
    fun ht hmsg ↦ hstore (t.store_of_GETM ht hout hmem hmsg)⟩

/-- Every request of a run is wanted. -/
theorem wanted_of_endOfCycle {t : ProtocolT} {cond : Simulator t.protocol n → Prop}
    (hcond : ∀ s, cond s → t.stalls → t.lawful.Clear s) {y : Traced t.protocol n}
    (hy : Traced.EndOfCycleWhile settings versions cond y) :
    ∀ q ∈ y.messages, q.isRequest → Wanted t settings q := by
  have hboth : (∀ q ∈ y.messages, q.isRequest → Wanted t settings q) ∧
      ∀ q ∈ y.sim.bus.pendingRequests, Wanted t settings q := by
    refine hy.preserved (I := fun y ↦ (∀ q ∈ y.messages, q.isRequest → Wanted t settings q) ∧
      ∀ q ∈ y.sim.bus.pendingRequests, Wanted t settings q) ⟨by nofun, by nofun⟩ ?_
    rintro y y' hhead - hy' ⟨hmessages, hpending⟩
    obtain ⟨tr, hserved⟩ := served_of_loopHead t.regular hhead
    obtain ⟨m, p, hrefines, -⟩ := simulated_of_loopHead hcond (Traced.LoopHeadWhile.state hhead)
    obtain ⟨-, hsim, hrecord⟩ := Traced.of_cycle hy'
    obtain ⟨s₁, s₂, s₃, effect, x, hran⟩ := cycle_ran t.regular hsim
    constructor
    · intro q hq hrequest
      rw [hrecord, Traced.record_messages, List.mem_append, Option.mem_toList] at hq
      rcases hq with hold | hcurrent
      · exact hmessages q hold hrequest
      · exact hpending q (hserved.mem_pending hcurrent (by simpa [Mreq.isRequest] using hrequest))
    · intro q hq
      have hloop : q ∈ s₁.bus.pendingRequests := by
        rw [hran.caches.bus]
        rwa [hran.pendingRequests_eq] at hq
      rcases tickCaches_asked t.regular hran.loop q hloop with hold | ⟨i, hasked⟩
      · apply hpending
        rw [hserved.holds.busTick_pending hserved.pending]
        exact List.mem_append_right _ hold
      · exact wanted_of_askedFor hrefines hasked
  exact hboth.1

/-! ## Blocks that are not shared for writing -/

/-- No trace but that of node `i` uses the block `addr`. -/
def Settings.UsedOnlyBy (settings : Settings n) (i : Fin n) (addr : PAddr) : Prop :=
  ∀ j ≠ i, ∀ line ∈ settings.traces j, line.access.2 ≠ addr

/-- No trace writes the block `addr`. -/
def Settings.OnlyRead (settings : Settings n) (addr : PAddr) : Prop :=
  ∀ i, ∀ line ∈ settings.traces i, line.access.2 = addr → line.access.1 ≠ .store

/-- The requests `msg` for `addr` that have appeared on the bus. -/
def requestsFor (messages : List Mreq) (msg : Message) (addr : PAddr) : ℕ :=
  messages.countP fun q ↦ q.msg = msg ∧ q.addr = addr

variable {t : ProtocolT} {cond : Simulator t.protocol n → Prop} {y : Traced t.protocol n}
  {i : Fin n} {addr : PAddr}

/-- A block that one trace uses is asked for once for reading and once for writing. -/
theorem Settings.UsedOnlyBy.requestsFor_le (h : settings.UsedOnlyBy i addr)
    (hcond : ∀ s, cond s → t.stalls → t.lawful.Clear s)
    (hy : Traced.EndOfCycleWhile settings versions cond y) :
    requestsFor y.messages .GETS addr ≤ 1 ∧ requestsFor y.messages .GETM addr ≤ 1 := by
  have hown (q : Mreq) (hq : q ∈ y.messages) (hrequest : q.isRequest = true)
      (haddr : q.addr = addr) : q.srcMid = l1 i := by
    obtain ⟨j, hsource, line, hline, hblock, -⟩ := wanted_of_endOfCycle hcond hy q hq hrequest
    by_cases hji : j = i
    · rw [hsource, hji]
    · exact absurd (hblock.trans haddr) (h j hji line hline)
  have hnone (msgs : Message → Bool) (hmsgs : ∀ {msg}, msgs msg → msg = .GETS ∨ msg = .GETM) :
      y.messages.countP (Mreq.askedByOther msgs (l1 i) addr) = 0 := by
    refine List.countP_eq_zero.mpr fun q hq hasked ↦ ?_
    simp only [Mreq.askedByOther, Bool.and_eq_true, Bool.not_eq_true', decide_eq_false_iff_not,
      decide_eq_true_eq] at hasked
    refine hasked.1.2 (hown q hq ?_ hasked.2)
    rcases hmsgs hasked.1.1 with hmsg | hmsg <;> simp [Mreq.isRequest, hmsg]
  have hcaused := t.caused hcond hy i addr
  have hreads := hcaused.reads
  have hwrites := hcaused.writes
  rw [hnone _ t.allows_reads.refilled] at hreads
  rw [hnone _ t.allows_writes.refilled] at hwrites
  refine ⟨le_trans (List.countP_mono_left fun q hq hp ↦ ?_) hreads,
    le_trans (List.countP_mono_left fun q hq hp ↦ ?_) hwrites⟩ <;>
  · obtain ⟨hmsg, haddr⟩ := of_decide_eq_true hp
    simp [Mreq.askedBy, Message.isGETS, Message.isGETM, hmsg, haddr,
      hown q hq (by simp [Mreq.isRequest, hmsg]) haddr]

/-- Nobody asks for permission to write a block that is only read, except in `MI`, and each cache
asks for it once. -/
theorem Settings.OnlyRead.requestsFor_le (h : settings.OnlyRead addr) (ht : t ≠ .MI_PRO)
    (hcond : ∀ s, cond s → t.stalls → t.lawful.Clear s)
    (hy : Traced.EndOfCycleWhile settings versions cond y) :
    requestsFor y.messages .GETM addr = 0 ∧ requestsFor y.messages .GETS addr ≤ n := by
  have hnone (q : Mreq) (hq : q ∈ y.messages) (haddr : q.addr = addr) : q.msg ≠ .GETM := by
    intro hmsg
    obtain ⟨i, -, line, hline, hblock, hstore⟩ :=
      wanted_of_endOfCycle hcond hy q hq (by simp [Mreq.isRequest, hmsg])
    exact h i line hline (hblock.trans haddr) (hstore ht hmsg)
  have honce (i : Fin n) : y.messages.countP (Mreq.askedBy Message.isGETS (l1 i) addr) ≤ 1 := by
    have hzero : y.messages.countP (Mreq.askedByOther Message.isGETM (l1 i) addr) = 0 := by
      refine List.countP_eq_zero.mpr fun q hq hasked ↦ ?_
      simp only [Mreq.askedByOther, Bool.and_eq_true, decide_eq_true_eq] at hasked
      exact hnone q hq hasked.2 (of_decide_eq_true hasked.1.1)
    have hreads := (t.caused hcond hy i addr).reads
    rwa [hzero] at hreads
  constructor
  · exact List.countP_eq_zero.mpr fun q hq hp ↦
      hnone q hq (of_decide_eq_true hp).2 (of_decide_eq_true hp).1
  · calc requestsFor y.messages .GETS addr
        ≤ ∑ i, y.messages.countP (Mreq.askedBy Message.isGETS (l1 i) addr) :=
          countP_le_sum y.messages fun q hq hp ↦ by
            obtain ⟨hmsg, haddr⟩ := of_decide_eq_true hp
            obtain ⟨i, hsource, -⟩ :=
              wanted_of_endOfCycle hcond hy q hq (by simp [Mreq.isRequest, hmsg])
            exact ⟨i, by simp [Mreq.askedBy, Message.isGETS, hmsg, haddr, hsource]⟩
      _ ≤ ∑ _i : Fin n, 1 := Finset.sum_le_sum fun i _ ↦ honce i
      _ = n := by simp

/-- With every protocol, a block that a single trace uses costs at most one `GETS` and one `GETM` in
a whole run. With `MOESI` this holds as long as no read is granted for a block that its owner
upgrades. -/
theorem private_traffic {n : ℕ} (settings : Settings n) (versions : PAddr → ℕ) {i : Fin n}
    {addr : PAddr} (h : settings.UsedOnlyBy i addr) :
    (∀ t ≠ ProtocolT.MOESI_PRO, ∀ y : Traced t.protocol n, Traced.EndOfCycle settings versions y →
      requestsFor y.messages .GETS addr ≤ 1 ∧ requestsFor y.messages .GETM addr ≤ 1) ∧
    ∀ y : Traced MOESI.protocol n,
      Traced.EndOfCycleWhile settings versions MOESI.NoReadMeetsUpgrade y →
        requestsFor y.messages .GETS addr ≤ 1 ∧ requestsFor y.messages .GETM addr ≤ 1 :=
  ⟨fun t ht _ hy ↦ h.requestsFor_le (fun s _ ↦ t.clear_of_ne ht s) hy,
    fun _ hy ↦ h.requestsFor_le (t := .MOESI_PRO)
      (fun _ hs _ ↦ MOESI.clear_of_noReadMeetsUpgrade hs) hy⟩

/-- Each node has asked once for the block that it alone writes. -/
theorem private_traffic_storesApart : ∃ y : Traced MSI.protocol 2,
    Traced.EndOfCycle storesApart (fun _ ↦ 0) y ∧ requestsFor y.messages .GETM 64 = 1 ∧
      requestsFor y.messages .GETS 64 ≤ 1 ∧ requestsFor y.messages .GETM 64 ≤ 1 := by
  obtain ⟨y, hy, hmessages⟩ : ∃ y : Traced MSI.protocol 2,
      Traced.EndOfCycle storesApart (fun _ ↦ 0) y ∧ requestsFor y.messages .GETM 64 = 1 :=
    Loop.exists_endOfBody 6 (by decide +kernel)
  have hused : storesApart.UsedOnlyBy 1 64 := by
    intro j hj line hline
    obtain rfl : j = 0 := by omega
    obtain rfl := List.mem_singleton.mp hline
    decide
  exact ⟨y, hy, hmessages,
    (private_traffic storesApart (fun _ ↦ 0) hused).1 .MSI_PRO (by decide) y hy⟩

/-- With every protocol but `MI`, a block that no trace writes is never invalidated: there is no
`GETM` for it in a whole run, and at most one `GETS` of each cache. With `MOESI` this holds as long
as no read is granted for a block that its owner upgrades. -/
theorem readOnly_traffic {n : ℕ} (settings : Settings n) (versions : PAddr → ℕ) {addr : PAddr}
    (h : settings.OnlyRead addr) :
    (∀ t, t ≠ ProtocolT.MI_PRO → t ≠ .MOESI_PRO → ∀ y : Traced t.protocol n,
      Traced.EndOfCycle settings versions y →
        requestsFor y.messages .GETM addr = 0 ∧ requestsFor y.messages .GETS addr ≤ n) ∧
    ∀ y : Traced MOESI.protocol n,
      Traced.EndOfCycleWhile settings versions MOESI.NoReadMeetsUpgrade y →
        requestsFor y.messages .GETM addr = 0 ∧ requestsFor y.messages .GETS addr ≤ n :=
  ⟨fun t hmi ht _ hy ↦ h.requestsFor_le hmi (fun s _ ↦ t.clear_of_ne ht s) hy,
    fun _ hy ↦ h.requestsFor_le (t := .MOESI_PRO) (by decide)
      (fun _ hs _ ↦ MOESI.clear_of_noReadMeetsUpgrade hs) hy⟩

/-- Both nodes have read block 0, and the bound is attained. -/
theorem readOnly_traffic_readRace : ∃ y : Traced MESI.protocol 2,
    Traced.EndOfCycle MESI.readRace (fun _ ↦ 0) y ∧ requestsFor y.messages .GETS 0 = 2 ∧
      requestsFor y.messages .GETM 0 = 0 ∧ requestsFor y.messages .GETS 0 ≤ 2 := by
  obtain ⟨y, hy, hmessages⟩ : ∃ y : Traced MESI.protocol 2,
      Traced.EndOfCycle MESI.readRace (fun _ ↦ 0) y ∧ requestsFor y.messages .GETS 0 = 2 :=
    Loop.exists_endOfBody 6 (by decide +kernel)
  have hread : MESI.readRace.OnlyRead 0 := by
    intro i line hline _
    obtain rfl := List.mem_singleton.mp hline
    decide
  exact ⟨y, hy, hmessages,
    (readOnly_traffic MESI.readRace (fun _ ↦ 0) hread).1 .MESI_PRO (by decide) (by decide) y hy⟩

end ArchSim.Coherence
