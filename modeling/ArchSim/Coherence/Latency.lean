import ArchSim.Coherence.Transactions
import ArchSim.Coherence.Termination
import Mathlib.Tactic.Ring

/-!
# How long an access takes

The bus serves the caches in the order in which they have asked, one at a time, and a transaction
takes at most `hitTime + 2` cycles. A cache has at most one request, so an access is answered after
at most `n` transactions: no processor starves, and the length of a run is bounded by the longest
trace alone.
-/

namespace ArchSim.Coherence

open Library AtomicMemory Snooping

variable {P : Protocol} {n : ℕ} {drives demotes stalls : Bool} {L : Lawful P demotes stalls}
  {settings : Settings n} {versions : PAddr → ℕ} {v v' : Versioned P n}
  {m m' : Machine (Fin n) PAddr} {p : Phase n} {s s₁ s₂ s₃ s' : Simulator P n}

/-! ## The order of service -/

namespace Simulator

/-- The cache whose request is in progress. -/
def served (s : Simulator P n) : Option ModuleID :=
  if s.bus.requestInProgress then
    some (s.bus.dataReply.elim s.mc.dataTarget Mreq.destMid)
  else
    none

/-- The caches that wait for data, in the order in which the bus serves them. -/
def requesters (s : Simulator P n) : List ModuleID :=
  s.served.toList ++ s.bus.pendingRequests.map Mreq.srcMid

/-- The cycles until the data of the request in progress is on the bus, or, if there is none, the
cycles that the next one will take. -/
def serviceTime (s : Simulator P n) : ℕ :=
  requestWork s.bus.requestInProgress s.bus.dataReply s.mc s.globalClock

/-- A bound on the cycles until the data for cache `i` is on the bus. -/
def wait (s : Simulator P n) (i : Fin n) : ℕ :=
  s.serviceTime + (s.mc.hitTime + 2) * s.requesters.idxOf (l1 i)

theorem serviceTime_pos (s : Simulator P n) : 0 < s.serviceTime := by
  unfold serviceTime requestWork
  split
  · split <;> omega
  · omega

theorem serviceTime_of_reply {d : Mreq} (hprogress : s.bus.requestInProgress = true)
    (hreply : s.bus.dataReply = some d) : s.serviceTime = 1 := by
  simp [serviceTime, requestWork, hprogress, hreply]

theorem serviceTime_of_none (hprogress : s.bus.requestInProgress = true)
    (hreply : s.bus.dataReply = none) :
    s.serviceTime = 2 + (s.mc.dataTime - s.globalClock) := by
  simp [serviceTime, requestWork, hprogress, hreply]

theorem serviceTime_of_quiet (hprogress : s.bus.requestInProgress = false) :
    s.serviceTime = s.mc.hitTime + 2 := by
  simp [serviceTime, requestWork, hprogress]

end Simulator

theorem Transaction.Holds.served_eq {tr : Transaction} (h : tr.Holds s) :
    s.served = tr.request.map Mreq.srcMid := by
  cases tr with
  | quiet => simp [Simulator.served, h.1, Transaction.request]
  | lookup q =>
    simp [Simulator.served, h.requestInProgress, h.dataReply, h.target, Transaction.request]
  | replied q d =>
    simp [Simulator.served, h.2.2.1, h.2.2.2, h.2.1.destMid, Transaction.request]

namespace CycleRan

variable {effect : Fin n → CacheEffect P.State} {x : Traffic} {tr tr' : Transaction} {q d : Mreq}

/-- Before and after a cycle the same requests wait behind the one that the bus has taken. -/
theorem requesters_eq (h : CycleRan drives s s₁ s₂ s₃ s' effect x) (hold : tr.Holds s)
    (hold' : tr'.Holds s') (hpending : ∀ r ∈ s.bus.pendingRequests, IsRequest n r) :
    s.requesters = (tr.request.map Mreq.srcMid).toList ++
        (s.busTick.bus.currentRequest.toList.filter Mreq.isRequest).map Mreq.srcMid ++
        s.busTick.bus.pendingRequests.map Mreq.srcMid ∧
      s'.requesters = (tr'.request.map Mreq.srcMid).toList ++
        s.busTick.bus.pendingRequests.map Mreq.srcMid ++ x.requests.map Mreq.srcMid := by
  rw [Simulator.requesters, Simulator.requesters, hold.served_eq, hold'.served_eq,
    h.pendingRequests_eq, List.map_append, ← List.append_assoc]
  refine ⟨?_, rfl⟩
  rw [hold.busTick_pending hpending, List.map_append, List.append_assoc]

/-- A cache keeps its place until the data of a transaction is on the bus. -/
theorem requesters_append (h : CycleRan drives s s₁ s₂ s₃ s' effect x) {reply : Option Mreq}
    (hnext : Transaction.Next n s.busTick.bus.currentRequest reply tr tr') (hold : tr.Holds s)
    (hold' : tr'.Holds s') (hpending : ∀ r ∈ s.bus.pendingRequests, IsRequest n r)
    (hopen : ∀ q d, tr ≠ .replied q d) :
    s'.requesters = s.requesters ++ x.requests.map Mreq.srcMid := by
  obtain ⟨hs, hs'⟩ := h.requesters_eq hold hold' hpending
  rw [hs, hs']
  generalize s.busTick.bus.currentRequest = message at hnext
  cases hnext with
  | idle | wait | supply => simp [Transaction.request]
  | grant hq | answer hq _ => simp [Transaction.request, hq.isRequest]
  | deliver _ => exact absurd rfl (hopen _ _)

/-- The first cache has been served, and the next one takes its place. -/
theorem requesters_tail (h : CycleRan drives s s₁ s₂ s₃ s' effect x)
    (hold : (Transaction.replied q d).Holds s) (hold' : Transaction.quiet.Holds s')
    (hpending : ∀ r ∈ s.bus.pendingRequests, IsRequest n r) :
    ∃ rest, s.requesters = q.srcMid :: rest ∧
      s'.requesters = rest ++ x.requests.map Mreq.srcMid := by
  obtain ⟨hs, hs'⟩ := h.requesters_eq hold hold' hpending
  have hcurrent : s.busTick.bus.currentRequest = some d := by rw [hold.busTick_of_replied]
  refine ⟨_, ?_, hs'⟩
  simp [hs, hcurrent, Transaction.request, hold.2.1.isRequest]

/-- Until its data is on the bus, the request that is served comes nearer to it in every cycle. -/
theorem serviceTime_lt (hP : Regular P drives) (h : CycleRan drives s s₁ s₂ s₃ s' effect x)
    (hold : tr.Holds s) (hpending : ∀ r ∈ s.bus.pendingRequests, IsRequest n r)
    (hpos : 0 < s.mc.hitTime) (hopen : ∀ q d, tr ≠ .replied q d) (hsome : s.requesters ≠ []) :
    s'.serviceTime < s.serviceTime := by
  obtain ⟨hbus', hmc', hclock'⟩ := h.end_eq
  cases tr with
  | quiet =>
    obtain ⟨q, rest, hqueue⟩ : ∃ q rest, s.bus.pendingRequests = q :: rest := by
      rw [Simulator.requesters, hold.served_eq] at hsome
      exact List.exists_cons_of_ne_nil fun hnil ↦ hsome (by simp [Transaction.request, hnil])
    have hq : IsRequest n q := hpending q (by simp [hqueue])
    have hbus := hold.busTick_of_cons hqueue
    have hprogress' : s'.bus.requestInProgress = true := by rw [h.requestInProgress_eq, hbus]
    have hcurrent₂ : s₂.bus.currentRequest = some q := by rw [h.bus₂, hbus]; rfl
    have hpos₂ : 0 < s₂.mc.hitTime := by rwa [h.mc₂.1]
    have hstart : s₃ = s₂.startLookup q := tickMc_of_request hcurrent₂ hq.msg_ne hpos₂ h.memory
    have htime : s'.mc.dataTime = s.globalClock + s.mc.hitTime := by
      rw [hmc', hstart, ← h.mc₂.1, ← h.mc₂.2]
      rfl
    rw [Simulator.serviceTime_of_quiet hold.1]
    cases hreply : s'.bus.dataReply with
    | none =>
      rw [Simulator.serviceTime_of_none hprogress' hreply, htime, hclock']
      omega
    | some d =>
      rw [Simulator.serviceTime_of_reply hprogress' hreply]
      omega
  | lookup q =>
    have hbus := hold.busTick_of_lookup
    obtain ⟨-, hsend, -⟩ := h.silent hP hbus
    have hprogress' : s'.bus.requestInProgress = true := by
      rw [h.requestInProgress_eq, hbus]
      exact hold.requestInProgress
    rw [Simulator.serviceTime_of_none hold.requestInProgress hold.dataReply]
    cases hreply : s'.bus.dataReply with
    | none =>
      rcases mcSend_cases hsend with ⟨rfl, hearly⟩ | ⟨-, -, rfl⟩
      · -- the look-up goes on
        rw [h.mc₂.1, h.mc₂.2] at hearly
        have hlate : s.globalClock < s.mc.dataTime :=
          Nat.lt_of_not_le fun hdue ↦ hearly ⟨hold.mc, hdue⟩
        rw [Simulator.serviceTime_of_none hprogress' hreply, hmc', h.mc₂.1, hclock']
        omega
      · rw [hbus'] at hreply
        cases hreply
    | some d =>
      rw [Simulator.serviceTime_of_reply hprogress' hreply]
      omega
  | replied q d => exact absurd rfl (hopen q d)

end CycleRan

/-! ## The place of a cache -/

namespace Refines

/-- The requests of the machine, in their order, are those of the bus. -/
theorem requesters_eq (h : Refines L settings versions v m) (hend : AtEnd (control v m) p) :
    v.sim.requesters = m.requests.map fun q ↦ l1 q.node := by
  have hqueue : v.sim.bus.pendingRequests.map Mreq.srcMid = m.queue.map fun q ↦ l1 q.node := by
    rw [h.agrees.queue, List.map_map]
    rfl
  rw [Simulator.requesters, Machine.requests, List.map_append, hqueue]
  congr 1
  cases p with
  | quiet =>
    have hprogress : v.sim.bus.requestInProgress = false := hend.requestInProgress
    have htxn : m.txn = none := hend.txn
    simp [Simulator.served, hprogress, htxn]
  | request q => exact hend.elim
  | lookup q =>
    obtain ⟨hlookup, -⟩ := hend
    have hprogress : v.sim.bus.requestInProgress = true := hlookup.requestInProgress
    have hreply : v.sim.bus.dataReply = none := hlookup.dataReply
    have htarget : v.sim.mc.dataTarget = l1 q.node := hlookup.target
    have htxn : m.txn = some q := hlookup.txn
    simp [Simulator.served, hprogress, hreply, htarget, htxn]
  | data q source =>
    have hprogress : v.sim.bus.requestInProgress = true := hend.requestInProgress
    have hreply : v.sim.bus.dataReply = some (cacheMessage .DATA q.addr source (l1 q.node)) :=
      hend.dataReply
    have htxn : m.txn = some q := hend.txn
    simp [Simulator.served, hprogress, hreply, htxn, cacheMessage]

theorem serviceTime_le (hend : AtEnd (control v m) p) :
    v.sim.serviceTime ≤ v.sim.mc.hitTime + 2 := by
  change (control v m).work ≤ (control v m).mc.hitTime + 2
  cases p with
  | quiet => exact hend.work_eq.le
  | request q => exact hend.elim
  | lookup q =>
    have hlate := hend.1.dataTime
    rw [hend.1.work_eq]
    omega
  | data q source =>
    rw [hend.work_eq]
    omega

/-- At most `n` caches wait, each once. -/
theorem wait_le (h : Refines L settings versions v m) (hend : AtEnd (control v m) p) {i : Fin n}
    (hi : l1 i ∈ v.sim.requesters) : v.sim.wait i ≤ n * (settings.hitTime + 2) := by
  have hplace : v.sim.requesters.idxOf (l1 i) < n :=
    calc v.sim.requesters.idxOf (l1 i)
        < v.sim.requesters.length := List.idxOf_lt_length_of_mem hi
      _ = (m.requests.map Request.node).length := by
          rw [h.requesters_eq hend, List.length_map, List.length_map]
      _ ≤ Fintype.card (Fin n) := h.inv.queued.nodup.length_le_card
      _ = n := Fintype.card_fin n
  have hhit : v.sim.mc.hitTime = settings.hitTime := h.agrees.hitTime
  have hservice := serviceTime_le hend
  rw [hhit] at hservice
  calc v.sim.wait i
      ≤ (settings.hitTime + 2) + (settings.hitTime + 2) * v.sim.requesters.idxOf (l1 i) := by
        rw [Simulator.wait, hhit]
        exact Nat.add_le_add_right hservice _
    _ = (v.sim.requesters.idxOf (l1 i) + 1) * (settings.hitTime + 2) := by ring
    _ ≤ n * (settings.hitTime + 2) := Nat.mul_le_mul_right _ hplace

theorem isRequest_of_pending (h : Refines L settings versions v m) :
    ∀ r ∈ v.sim.bus.pendingRequests, IsRequest n r := by
  intro r hr
  rw [h.agrees.queue, List.mem_map] at hr
  obtain ⟨q, -, rfl⟩ := hr
  exact ⟨q, rfl⟩

end Refines

/-! ## The nodes at the head of the loop -/

theorem Node.tickPr_fetches {σ : Type} {node node' : Node σ} {nodeID : ℤ}
    (h : node.tickPr nodeID = .ok node') :
    node'.pr.inboundRequestBuf = node.pr.inboundRequestBuf ∧
      (node'.pr.endOfTrace || node'.pr.outstandingRequest) = true := by
  unfold Node.tickPr at h
  obtain ⟨pr, hpr, h⟩ := bind_eq_ok.mp h
  have hbuf : pr.inboundRequestBuf = node.pr.inboundRequestBuf := by
    unfold Processor.complete at hpr
    split at hpr
    · split at hpr
      · exact (Except.ok.inj hpr) ▸ rfl
      · cases hpr
    · exact (Except.ok.inj hpr) ▸ rfl
  unfold Node.fetch at h
  split at h
  · rename_i hrests
    obtain rfl := Except.ok.inj h
    exact ⟨hbuf, hrests⟩
  · split at h
    · obtain rfl := Except.ok.inj h
      exact ⟨hbuf, rfl⟩
    · obtain ⟨request, -, rfl⟩ := bind_pure_eq_ok.mp h
      exact ⟨hbuf, Bool.or_true _⟩

theorem Processor.tock_buffer (pr : Processor) : pr.tock.inboundRequestBuf = none ∧
    (pr.inboundRequestBuf.isSome → pr.tock.inboundRequest.isSome) := by
  unfold Processor.tock
  split
  · exact ⟨rfl, fun _ ↦ rfl⟩
  · rename_i hnone
    exact ⟨hnone, fun hsome ↦ by simp [hnone] at hsome⟩

theorem Processor.tock_rests (pr : Processor) : pr.tock.endOfTrace = pr.endOfTrace ∧
    pr.tock.outstandingRequest = pr.outstandingRequest := by
  unfold Processor.tock
  split <;> exact ⟨rfl, rfl⟩

theorem Processor.tock_infile (pr : Processor) : pr.tock.infile = pr.infile := by
  unfold Processor.tock
  split <;> rfl

/-- What the processors do in a cycle after the caches. -/
theorem Simulator.nodes_of_cycle (h : s.cycle = .ok s') : ∃ s₁,
    (List.finRange n).foldlM Simulator.tickCache s.busTick = .ok s₁ ∧
      ∀ i, ∃ node, (s₁.nodes i).tickPr i = .ok node ∧ s'.nodes i = node.tock := by
  obtain ⟨s₁, s₂, s₃, hcaches, hprs, hmc, rfl⟩ := cycle_ok_iff.mp h
  refine ⟨s₁, hcaches, fun i ↦ ⟨s₂.nodes i, (tickPrs_passed hprs).2 i, ?_⟩⟩
  rw [tockAll_eq, ← (tickMc_frame hmc).1]
  rfl

/-- At the end of a cycle no answer is in a buffer, and a processor with nothing outstanding has
reached the end of its trace. -/
theorem Simulator.rests_of_cycle (h : s.cycle = .ok s') (i : Fin n) :
    (s'.nodes i).pr.inboundRequestBuf = none ∧
      ((s'.nodes i).pr.endOfTrace || (s'.nodes i).pr.outstandingRequest) = true := by
  obtain ⟨s₁, -, hnodes⟩ := Simulator.nodes_of_cycle h
  obtain ⟨node, hnode, heq⟩ := hnodes i
  obtain ⟨hended, houtstanding⟩ := node.pr.tock_rests
  rw [heq]
  refine ⟨node.pr.tock_buffer.1, ?_⟩
  change (node.pr.tock.endOfTrace || node.pr.tock.outstandingRequest) = true
  rw [hended, houtstanding]
  exact (Node.tickPr_fetches hnode).2

/-- Data that waits at the end of a cycle has been taken by its requester one cycle later. -/
theorem inbound_of_cycle (h : Refines L settings versions v m) {q : Request (Fin n) PAddr}
    {source : ModuleID} (hend : AtEnd (control v m) (.data q source))
    (hv' : v.cycle = .ok v') : (v'.sim.nodes q.node).pr.inboundRequest.isSome := by
  obtain ⟨m₁, h₁, hphase₁⟩ := busTick_refines h hend
  have hticked : Yields True _ _ :=
    tickCaches_refines h₁ hphase₁ fun _ _ hdata ↦ nomatch hdata
  have hsim := Versioned.sim_of_cycle hv'
  obtain ⟨s₁, hcaches, hnodes⟩ := Simulator.nodes_of_cycle hsim
  have herased : Erases Versioned.sim ((List.finRange n).foldlM Versioned.tickCache v.busTick)
      ((List.finRange n).foldlM Simulator.tickCache v.sim.busTick) :=
    Erases.foldlM Versioned.tickCache_erases (List.finRange n) v.busTick
  rw [hcaches] at herased
  obtain ⟨v₁, hv₁, rfl⟩ := herased.of_ok
  obtain ⟨m₂, -, -, hpassed⟩ := hticked.of_ok hv₁
  have hdelivered := hpassed.delivered q source rfl q.node.isLt
  obtain ⟨node, hnode, heq⟩ := hnodes q.node
  rw [heq]
  exact node.pr.tock_buffer.2 ((Node.tickPr_fetches hnode).1 ▸ hdelivered)

/-! ## A waiting cache comes nearer to its data -/

/-- Node `i` waits for data. -/
theorem NodeOk.mem_requesters (h : Refines L settings versions v m)
    (hend : AtEnd (control v m) p) {i : Fin n} {op : Op} {addr : PAddr} {k : Kind}
    {hk : op = .store → k = .write}
    (hnode : NodeOk i (settings.traces i) (v.sim.nodes i) (v.want i)
      (fun b ↦ (m.line i b).pending) (accessesOf i m.history) (.waiting op addr k hk)) :
    l1 i ∈ v.sim.requesters := by
  have hpending : (m.line i (blockAddr addr)).pending = some k :=
    (hnode.pending (blockAddr addr)).trans (if_pos rfl)
  rw [h.requesters_eq hend]
  exact List.mem_map_of_mem (f := fun q ↦ l1 q.node) (h.inv.queued.request hpending)

theorem Transaction.Next.eq_quiet {message reply : Option Mreq} {q d : Mreq} {tr : Transaction}
    (h : Transaction.Next n message reply (.replied q d) tr) : tr = .quiet := by
  cases h with
  | deliver _ => rfl

theorem AtEnd.exists_data (hend : AtEnd (control v m) p) {d : Mreq}
    (hreply : v.sim.bus.dataReply = some d) :
    ∃ q source, p = .data q source ∧ d.destMid = l1 q.node := by
  cases p with
  | quiet => cases hreply.symm.trans hend.dataReply
  | request q => exact hend.elim
  | lookup q => cases hreply.symm.trans hend.1.dataReply
  | data q source =>
    have hdata := hreply.symm.trans hend.dataReply
    exact ⟨q, source, rfl, (Option.some.inj hdata) ▸ rfl⟩

/-- Unless its data is taken in this cycle, the bound on the wait of a cache goes down. -/
theorem wait_lt (hP : Regular P drives) (h : Refines L settings versions v m)
    (hend : AtEnd (control v m) p) (hv' : v.cycle = .ok v')
    (hold : ∃ tr : Transaction, tr.Holds v.sim) {i : Fin n} (hi : l1 i ∈ v.sim.requesters)
    (hwaits : (v'.sim.nodes i).pr.inboundRequest = none) :
    v'.sim.wait i < v.sim.wait i := by
  obtain ⟨tr, hold⟩ := hold
  have hsim := Versioned.sim_of_cycle hv'
  obtain ⟨s₁, s₂, s₃, effect, x, hran⟩ := cycle_ran hP hsim
  have hpos : 0 < v.sim.mc.hitTime := h.agrees.hitTime ▸ settings.hitTime_pos
  obtain ⟨tr', hnext, hold'⟩ := hran.next hP hold h.isRequest_of_pending hpos
  have hhit : v'.sim.mc.hitTime = v.sim.mc.hitTime := hran.hitTime
  by_cases hreplied : ∃ q d, tr = .replied q d
  · obtain ⟨q, d, rfl⟩ := hreplied
    obtain rfl := hnext.eq_quiet
    obtain ⟨rest, hrequesters, hrequesters'⟩ :=
      hran.requesters_tail hold hold' h.isRequest_of_pending
    have hne : q.srcMid ≠ l1 i := by
      intro heq
      obtain ⟨q', source, rfl, hdest⟩ := hend.exists_data hold.2.2.2
      have hnode : q'.node = i :=
        l1_injective (hdest.symm.trans (hold.2.1.destMid.trans heq))
      have hinbound := inbound_of_cycle h hend hv'
      simp [hnode, hwaits] at hinbound
    have hmem : l1 i ∈ rest := by
      rw [hrequesters, List.mem_cons] at hi
      exact hi.resolve_left (Ne.symm hne)
    rw [Simulator.wait, Simulator.wait, hrequesters, hrequesters', List.idxOf_append_of_mem hmem,
      List.idxOf_cons_ne _ hne, Simulator.serviceTime_of_quiet hold'.1,
      Simulator.serviceTime_of_reply hold.2.2.1 hold.2.2.2, hhit, Nat.mul_succ]
    omega
  · have hopen : ∀ q d, tr ≠ .replied q d := fun q d heq ↦ hreplied ⟨q, d, heq⟩
    rw [Simulator.wait, Simulator.wait, hhit,
      hran.requesters_append hnext hold hold' h.isRequest_of_pending hopen,
      List.idxOf_append_of_mem hi]
    exact Nat.add_lt_add_right (hran.serviceTime_lt hP hold h.isRequest_of_pending hpos hopen
      (List.ne_nil_of_mem hi)) _

/-! ## A node comes nearer to its answer -/

/-- The caches change nothing of a processor but the buffer for its answer. -/
theorem TickEffect.pr_eq {mid : ModuleID} {message : Option Mreq} {wire : Bool}
    {node : Node P.State} {e : CacheEffect P.State} (h : TickEffect P mid message wire node e) :
    e.node.pr = { node.pr with inboundRequestBuf := e.node.pr.inboundRequestBuf } := by
  obtain ⟨e, f, hproc, hsnoop, rfl⟩ := h
  have hpr : e.node.pr = { node.pr with inboundRequestBuf := e.node.pr.inboundRequestBuf } := by
    cases hproc <;> rfl
  calc (e.andThen f).node.pr
      = { e.node.pr with inboundRequestBuf := f.node.pr.inboundRequestBuf } := by
        cases hsnoop <;> rfl
    _ = { node.pr with inboundRequestBuf := f.node.pr.inboundRequestBuf } := by rw [hpr]

/-- A processor whose access has not been answered fetches nothing. -/
theorem waits_of_cycle (hP : Regular P drives) (h : s.cycle = .ok s') {i : Fin n}
    (houtstanding : (s.nodes i).pr.outstandingRequest = true)
    (hinbound : (s.nodes i).pr.inboundRequest = none) :
    (s'.nodes i).pr.outstandingRequest = true ∧
      (s'.nodes i).pr.infile = (s.nodes i).pr.infile := by
  obtain ⟨s₁, hcaches, hnodes⟩ := Simulator.nodes_of_cycle h
  obtain ⟨effect, x, hpassed⟩ := tickCaches_passed hP hcaches
  obtain ⟨wire, -, htick⟩ := hpassed.tick i i.isLt
  have hpr : (s₁.nodes i).pr = { (s.nodes i).pr with
      inboundRequestBuf := (s₁.nodes i).pr.inboundRequestBuf } := by
    rw [hpassed.node i i.isLt]
    exact htick.pr_eq
  obtain ⟨node, hnode, heq⟩ := hnodes i
  have hrests : (s₁.nodes i).pr.complete = .ok (s₁.nodes i).pr := by
    rw [hpr]
    simp [Processor.complete, hinbound]
  have hsame : node = s₁.nodes i := by
    rw [Node.tickPr, hrests] at hnode
    have hfetch : (s₁.nodes i).fetch i = .ok (s₁.nodes i) := by
      rw [Node.fetch, hpr]
      simp [houtstanding]
    exact Except.ok.inj (hnode.symm.trans hfetch)
  rw [heq, hsame]
  refine ⟨?_, ?_⟩
  · exact (Processor.tock_rests _).2.trans (by rw [hpr]; exact houtstanding)
  · exact (Processor.tock_infile _).trans (by rw [hpr])

/-- A bound on the cycles until the answer to an outstanding access is at processor `i`. -/
def Simulator.stage (s : Simulator P n) (i : Fin n) : ℕ :=
  if (s.nodes i).cache.procRequest.isSome then n * (s.mc.hitTime + 2) + 1
  else if (s.nodes i).pr.inboundRequestBuf.isSome then 0
  else if (s.nodes i).pr.inboundRequest.isSome then 0
  else if (s.nodes i).pr.outstandingRequest then s.wait i else 0

/-- A bound on the cycles until processor `i` is done. -/
def Simulator.countdown (s : Simulator P n) (i : Fin n) : ℕ :=
  (s.nodes i).pr.infile.length * (n * (s.mc.hitTime + 2) + 2) +
    (if (s.nodes i).pr.endOfTrace then 0 else 1) + s.stage i

/-- The stage of an access that misses or has missed. -/
def Status.stage (most wait : ℕ) : Status → ℕ
  | issued _ _ => most + 1
  | waiting .. => wait
  | _ => 0

theorem NodeOk.stage_eq {i : Fin n} {trace : List TraceLine} {want : Op}
    {pending : PAddr → Option Kind} {log : List (Op × PAddr)} {status : Status}
    (h : NodeOk i trace (s.nodes i) want pending log status) :
    s.stage i = status.stage (n * (s.mc.hitTime + 2)) (s.wait i) := by
  rw [Simulator.stage, h.procRequest, h.buffered, h.inbound, h.outstanding]
  cases status <;> rfl

/-- A processor with an access outstanding has not reached the end of its trace. -/
theorem NodeOk.endOfTrace_eq {σ : Type} {i : Fin n} {trace : List TraceLine} {node : Node σ}
    {want : Op} {pending : PAddr → Option Kind} {log : List (Op × PAddr)} {status : Status}
    (h : NodeOk i trace node want pending log status)
    (houtstanding : node.pr.outstandingRequest = true) : node.pr.endOfTrace = false := by
  rw [← Bool.not_eq_true]
  intro hended
  rw [h.outstanding, (h.ended hended).1] at houtstanding
  cases houtstanding

/-- A state at the head of the loop. -/
structure AtHead (L : Lawful P demotes stalls) (settings : Settings n) (versions : PAddr → ℕ)
    (v : Versioned P n) : Prop where
  simulated : Simulated L settings versions v
  transaction : ∃ tr : Transaction, tr.Holds v.sim
  buffered : ∀ i, (v.sim.nodes i).pr.inboundRequestBuf = none

theorem atHead_initial (L : Lawful P demotes stalls) (settings : Settings n)
    (versions : PAddr → ℕ) : AtHead L settings versions (.initial P settings versions) where
  simulated := simulated_initial L settings versions
  transaction := ⟨.quiet, rfl, rfl, rfl⟩
  buffered _ := rfl

theorem AtHead.cycle (hP : Regular P drives) (h : AtHead L settings versions v)
    (hclear : stalls → L.Clear v.sim) :
    Yields (¬ settings.WellFormed) v.cycle (AtHead L settings versions) := by
  have hsimulated := h.simulated.cycle hclear
  cases hv' : v.cycle with
  | error _ => rwa [hv'] at hsimulated
  | ok v' =>
    have hsim := Versioned.sim_of_cycle hv'
    obtain ⟨s₁, s₂, s₃, effect, x, hran⟩ := cycle_ran hP hsim
    obtain ⟨m, p, hrefines, -⟩ := h.simulated
    obtain ⟨tr, hold⟩ := h.transaction
    have hpos : 0 < v.sim.mc.hitTime := hrefines.agrees.hitTime ▸ settings.hitTime_pos
    obtain ⟨tr', -, hold'⟩ := hran.next hP hold hrefines.isRequest_of_pending hpos
    exact ⟨hsimulated.of_ok hv', ⟨tr', hold'⟩, fun i ↦ (Simulator.rests_of_cycle hsim i).1⟩

theorem atHead_of_loopHead {cond : Simulator P n → Prop} (hP : Regular P drives)
    (hcond : ∀ s, cond s → stalls → L.Clear s)
    (h : Versioned.LoopHeadWhile settings versions cond v) : AtHead L settings versions v :=
  h.invariant (atHead_initial L settings versions) fun _ hv hcond' ↦ hv.cycle hP (hcond _ hcond')

theorem AtHead.stage_le (h : AtHead L settings versions v) (i : Fin n) :
    v.sim.stage i ≤ n * (v.sim.mc.hitTime + 2) + 1 := by
  obtain ⟨m, p, hrefines, hend⟩ := h.simulated
  obtain ⟨status, hnode⟩ := hrefines.agrees.node i
  rw [hnode.stage_eq]
  cases status with
  | issued op addr => exact le_rfl
  | waiting op addr k hk =>
    have hwait := hrefines.wait_le hend (hnode.mem_requesters hrefines hend)
    rw [← hrefines.agrees.hitTime] at hwait
    exact hwait.trans (Nat.le_succ _)
  | idle | buffered _ | answered _ => exact Nat.zero_le _

/-- An access that has not been answered comes nearer to its answer in every cycle. -/
theorem AtHead.stage_lt (hP : Regular P drives) (h : AtHead L settings versions v)
    (hclear : stalls → L.Clear v.sim) (hv' : v.cycle = .ok v')
    (h' : AtHead L settings versions v') {i : Fin n}
    (houtstanding : (v.sim.nodes i).pr.outstandingRequest = true)
    (hinbound : (v.sim.nodes i).pr.inboundRequest = none) :
    v'.sim.stage i < v.sim.stage i := by
  obtain ⟨m, p, hrefines, hend⟩ := h.simulated
  obtain ⟨m', p', hrefines', hend', hcycled⟩ := (cycle_refines hrefines hend hclear).of_ok hv'
  have hsim := Versioned.sim_of_cycle hv'
  obtain ⟨houtstanding', hinfile⟩ := waits_of_cycle hP hsim houtstanding hinbound
  obtain ⟨status, hnode⟩ := hrefines.agrees.node i
  obtain ⟨status', hnode'⟩ := hrefines'.agrees.node i
  have hhit : v'.sim.mc.hitTime = v.sim.mc.hitTime :=
    hrefines'.agrees.hitTime.trans hrefines.agrees.hitTime.symm
  -- the access has moved on, or its line waits as before
  have hmoves : status'.rank < status.rank ∨
      (v.sim.nodes i).cache.procRequest = none ∧ (v'.sim.nodes i).cache.procRequest = none := by
    rcases hcycled.node i with hlt | ⟨-, hproc, hnone, -⟩
    · rw [hnode.work_eq, hnode'.work_eq, hinfile, hnode.endOfTrace_eq houtstanding,
        hnode'.endOfTrace_eq houtstanding'] at hlt
      exact .inl (Nat.lt_of_add_lt_add_left hlt)
    · exact .inr ⟨hproc ▸ hnone, hnone⟩
  have hwait (op addr k hk) (hstatus' : status' = .waiting op addr k hk) :
      v'.sim.wait i ≤ n * (v.sim.mc.hitTime + 2) := by
    subst hstatus'
    have hle := hrefines'.wait_le hend' (hnode'.mem_requesters hrefines' hend')
    rwa [← hrefines'.agrees.hitTime, hhit] at hle
  rw [hnode.stage_eq, hnode'.stage_eq, hhit]
  rw [hnode.outstanding] at houtstanding
  rw [hnode'.outstanding] at houtstanding'
  rw [hnode.inbound] at hinbound
  have hbuffered := h.buffered i
  have hbuffered' := h'.buffered i
  rw [hnode.buffered] at hbuffered
  rw [hnode'.buffered] at hbuffered'
  rw [hnode.procRequest, hnode'.procRequest] at hmoves
  have hinbound' := hnode'.inbound
  cases status with
  | idle => cases houtstanding
  | buffered addr => cases hbuffered
  | answered addr => cases hinbound
  | issued op addr =>
    cases status' with
    | idle => cases houtstanding'
    | buffered addr' => cases hbuffered'
    | answered addr' => exact Nat.succ_pos _
    | issued op' addr' => simp [Status.rank, Status.procRequest] at hmoves
    | waiting op' addr' k hk => exact Nat.lt_succ_of_le (hwait op' addr' k hk rfl)
  | waiting op addr k hk =>
    cases status' with
    | idle => cases houtstanding'
    | buffered addr' => cases hbuffered'
    | answered addr' => exact Nat.add_pos_left v.sim.serviceTime_pos _
    | issued op' addr' => simp [Status.rank, Status.procRequest] at hmoves
    | waiting op' addr' k' hk' =>
      exact wait_lt hP hrefines hend hv' h.transaction (hnode.mem_requesters hrefines hend)
        hinbound'

/-- Every processor that is not done comes nearer to its end in every cycle. -/
theorem AtHead.countdown_lt (hP : Regular P drives) (h : AtHead L settings versions v)
    (hclear : stalls → L.Clear v.sim) (hv' : v.cycle = .ok v')
    (h' : AtHead L settings versions v') (i : Fin n) :
    v'.sim.countdown i < v.sim.countdown i ∨ v'.sim.countdown i = 0 := by
  obtain ⟨m, p, hrefines, hend⟩ := h.simulated
  obtain ⟨m', p', hrefines', hend', hcycled⟩ := (cycle_refines hrefines hend hclear).of_ok hv'
  have hsim := Versioned.sim_of_cycle hv'
  obtain ⟨status, hnode⟩ := hrefines.agrees.node i
  obtain ⟨status', hnode'⟩ := hrefines'.agrees.node i
  have hhit : v'.sim.mc.hitTime = v.sim.mc.hitTime :=
    hrefines'.agrees.hitTime.trans hrefines.agrees.hitTime.symm
  cases hended' : (v'.sim.nodes i).pr.endOfTrace with
  | true =>
    obtain ⟨rfl, hinfile'⟩ := hnode'.ended hended'
    right
    rw [Simulator.countdown, hnode'.stage_eq, hinfile', hended']
    simp [Status.stage]
  | false =>
    left
    have houtstanding' : (v'.sim.nodes i).pr.outstandingRequest = true := by
      have hrests := (Simulator.rests_of_cycle hsim i).2
      rwa [hended', Bool.false_or] at hrests
    by_cases hwaits : (v.sim.nodes i).pr.outstandingRequest = true ∧
        (v.sim.nodes i).pr.inboundRequest = none
    · obtain ⟨houtstanding, hinbound⟩ := hwaits
      have hstage := h.stage_lt hP hclear hv' h' houtstanding hinbound
      rw [Simulator.countdown, Simulator.countdown, hhit,
        (waits_of_cycle hP hsim houtstanding hinbound).2, hended',
        hnode.endOfTrace_eq houtstanding]
      exact Nat.add_lt_add_left hstage _
    · -- the processor fetches the next line
      have hrank : status.rank ≤ 1 := by
        have hinbound := hnode.inbound
        have houtstanding := hnode.outstanding
        cases status with
        | idle | answered _ => simp [Status.rank]
        | issued _ _ | waiting _ _ _ _ | buffered _ => exact absurd ⟨houtstanding, hinbound⟩ hwaits
      have hrank' : 0 < status'.rank := by
        rw [hnode'.outstanding] at houtstanding'
        cases status' with
        | idle => cases houtstanding'
        | issued _ _ | waiting _ _ _ _ | buffered _ | answered _ => exact Nat.succ_pos _
      have hless : (v'.sim.nodes i).work < (v.sim.nodes i).work := by
        rcases hcycled.node i with hlt | ⟨hpr, -, -, -, hinbound, -⟩
        · exact hlt
        · exact absurd ⟨hpr ▸ houtstanding', hpr ▸ hinbound⟩ hwaits
      rw [hnode.work_eq, hnode'.work_eq, hended'] at hless
      have hlines : (v'.sim.nodes i).pr.infile.length + 1 ≤ (v.sim.nodes i).pr.infile.length := by
        simp only [Bool.false_eq_true, if_false] at hless
        split at hless <;> omega
      have hended : (v.sim.nodes i).pr.endOfTrace = false := by
        rw [← Bool.not_eq_true]
        intro hended
        simp [(hnode.ended hended).2] at hlines
      have hstage := h'.stage_le i
      have hmore := Nat.mul_le_mul_right (n * (v.sim.mc.hitTime + 2) + 2) hlines
      rw [hhit] at hstage
      rw [Nat.succ_mul] at hmore
      rw [Simulator.countdown, Simulator.countdown, hhit, hended, hended']
      simp only [Bool.false_eq_true, if_false]
      omega

/-! ## The bounds -/

theorem AtHead.done_of_countdown (h : AtHead L settings versions v)
    (hzero : ∀ i, v.sim.countdown i = 0) : v.sim.done = true := by
  obtain ⟨m, p, hrefines, -⟩ := h.simulated
  simp only [Simulator.done, List.all_eq_true, List.mem_finRange, forall_const]
  intro i
  obtain ⟨status, hnode⟩ := hrefines.agrees.node i
  have hi := hzero i
  have hended : (v.sim.nodes i).pr.endOfTrace = true := by
    rw [← Bool.not_eq_false]
    intro hnot
    simp [Simulator.countdown, hnot] at hi
  simp [Processor.done, hended, hnode.outstanding, (hnode.ended hended).1, Status.outstanding]

/-- A run ends or aborts in a number of cycles that only the longest trace bounds, or it comes to a
state that does not meet `cond`. -/
theorem run_halts_within (L : Lawful P demotes stalls) (hP : Regular P drives)
    (cond : Simulator P n → Prop) (hcond : ∀ s, cond s → stalls → L.Clear s)
    (settings : Settings n) (versions : PAddr → ℕ) {len : ℕ}
    (hlen : ∀ i, (settings.traces i).length ≤ len) :
    (∃ v, Versioned.LoopHeadWhile settings versions cond v ∧ ¬ cond v.sim) ∨
    (∃ v, (Versioned.loop P n).run (len * (n * (settings.hitTime + 2) + 2) + 1)
        (.initial P settings versions) = .ok (some v) ∧
      AtHead L settings versions v ∧ v.sim.done = true ∧
      v.sim.globalClock ≤ len * (n * (settings.hitTime + 2) + 2) + 1) ∨
    ∃ v e, (Versioned.loop P n).run (len * (n * (settings.hitTime + 2) + 2) + 1)
        (.initial P settings versions) = .error e ∧
      cond v.sim ∧ AtHead L settings versions v ∧ v.cycle = .error e := by
  let total := len * (n * (settings.hitTime + 2) + 2)
  let I (k : ℕ) (v : Versioned P n) : Prop := AtHead L settings versions v ∧
    (∀ i, v.sim.countdown i ≤ k) ∧ v.sim.globalClock + k = total + 1
  have hdone (v : Versioned P n) (hv : I 0 v) : v.sim.done = true :=
    hv.1.done_of_countdown fun i ↦ Nat.le_zero.mp (hv.2.1 i)
  have hbody (k : ℕ) (v v' : Versioned P n) (hcond' : cond v.sim) (hv : I (k + 1) v)
      (hv' : v.cycle = .ok v') : I k v' := by
    obtain ⟨hhead, hcountdown, hclock⟩ := hv
    have hclear := hcond v.sim hcond'
    have hhead' := (hhead.cycle hP hclear).of_ok hv'
    obtain ⟨_, _, _, _, _, hran⟩ := cycle_ran hP (Versioned.sim_of_cycle hv')
    refine ⟨hhead', fun i ↦ ?_, ?_⟩
    · have hi := hcountdown i
      rcases hhead.countdown_lt hP hclear hv' hhead' i with hlt | hzero <;> omega
    · rw [hran.end_eq.2.2]
      omega
  have hstart : I (total + 1) (.initial P settings versions) := by
    refine ⟨atHead_initial L settings versions, fun i ↦ ?_, Nat.zero_add _⟩
    exact Nat.add_le_add_right (Nat.mul_le_mul_right _ (hlen i)) 1
  refine (Loop.run_halts_within hdone hbody .start hstart).imp_right (Or.imp ?_ ?_)
  · rintro ⟨j, v, hrun, ⟨hhead, -, hclock⟩, hend⟩
    exact ⟨v, hrun, hhead, hend, hclock ▸ Nat.le_add_right _ _⟩
  · rintro ⟨j, v, e, hrun, hcond', ⟨hhead, -⟩, hfails⟩
    exact ⟨v, e, hrun, hcond', hhead, hfails⟩

/-- With traces of reads and writes a run does not abort. -/
theorem run_within (L : Lawful P demotes stalls) (hP : Regular P drives)
    (cond : Simulator P n → Prop) (hcond : ∀ s, cond s → stalls → L.Clear s)
    (hwf : settings.WellFormed) (versions : PAddr → ℕ) {len : ℕ}
    (hlen : ∀ i, (settings.traces i).length ≤ len) :
    (∃ v, Versioned.LoopHeadWhile settings versions cond v ∧ ¬ cond v.sim) ∨
    ∃ v, (Versioned.loop P n).run (len * (n * (settings.hitTime + 2) + 2) + 1)
        (.initial P settings versions) = .ok (some v) ∧
      AtHead L settings versions v ∧ v.sim.done = true ∧
      v.sim.globalClock ≤ len * (n * (settings.hitTime + 2) + 2) + 1 := by
  rcases run_halts_within L hP cond hcond settings versions hlen with hleaves | hends | hfails
  · exact .inl hleaves
  · exact .inr hends
  · obtain ⟨v, e, -, hcond', hhead, herror⟩ := hfails
    obtain ⟨v', hv', -⟩ :=
      (hhead.cycle hP (hcond v.sim hcond')).exists_of_not (not_not_intro hwf)
    cases herror.symm.trans hv'

/-- With any protocol but MOESI the loop of `Simulator::run` ends after a number of cycles that is
bounded by the longest trace: each line takes at most one transaction of every cache, and two
cycles. -/
theorem run_finishes_within {t : ProtocolT} (ht : t ≠ .MOESI_PRO) {n : ℕ} {settings : Settings n}
    (hwf : settings.WellFormed) {len : ℕ} (hlen : ∀ i, (settings.traces i).length ≤ len) :
    ∃ s, (Simulator.loop t.protocol n).run (len * (n * (settings.hitTime + 2) + 2) + 1)
        (.initial t.protocol settings) = .ok (some s) ∧
      s.globalClock ≤ len * (n * (settings.hitTime + 2) + 2) + 1 := by
  rcases run_within t.lawful t.regular (fun _ ↦ True) (fun s _ ↦ t.clear_of_ne ht s) hwf
      (fun _ ↦ 0) hlen with ⟨v, -, hnot⟩ | hends
  · exact absurd trivial hnot
  · obtain ⟨v, hrun, -, -, hclock⟩ := hends
    have herased : Except.map (Option.map Versioned.sim) (.ok (some v)) =
        (Simulator.loop t.protocol n).run _ (.initial t.protocol settings) :=
      hrun ▸ Versioned.run_erases _ _
    exact ⟨v.sim, herased.symm, hclock⟩

theorem storesApart_wellFormed : storesApart.WellFormed :=
  fun _ _ hline ↦ .inr (List.mem_singleton.mp hline ▸ rfl)

/-- The memory answers both nodes, and the bound is attained. -/
theorem run_finishes_within_storesApart :
    (∃ s, (Simulator.loop MSI.protocol 2).run 9 (.initial MSI.protocol storesApart) =
      .ok (some s) ∧ s.globalClock ≤ 9) ∧
    ((Simulator.loop MSI.protocol 2).run 8 (.initial MSI.protocol storesApart)).map
      Option.isSome = .ok false :=
  ⟨run_finishes_within (t := .MSI_PRO) (by decide) storesApart_wellFormed fun _ ↦ le_refl 1,
    by decide +kernel⟩

/-- With any protocol but MOESI no processor starves: the answer to an access that is outstanding is
at its processor after at most one transaction of every cache, and one cycle. -/
theorem answered_within {t : ProtocolT} (ht : t ≠ .MOESI_PRO) {n : ℕ} {settings : Settings n}
    (hwf : settings.WellFormed) {s : Simulator t.protocol n} (hs : Simulator.LoopHead settings s)
    {i : Fin n} (houtstanding : (s.nodes i).pr.outstandingRequest = true) :
    ∃ k ≤ n * (settings.hitTime + 2) + 1, ∃ s',
      (Simulator.loop t.protocol n).iterate (fun _ ↦ True) k s = some s' ∧
        (s'.nodes i).pr.inboundRequest.isSome := by
  obtain ⟨v, hv, rfl⟩ := Versioned.exists_of_loopHeadWhile (fun _ ↦ 0) hs
  have hhead := atHead_of_loopHead t.regular (fun s _ ↦ t.clear_of_ne ht s) hv
  let I (k : ℕ) (s : Simulator t.protocol n) : Prop :=
    ∃ v : Versioned t.protocol n, v.sim = s ∧ AtHead t.lawful settings (fun _ ↦ 0) v ∧
      (s.nodes i).pr.outstandingRequest = true ∧ s.stage i ≤ k
  have hbody (k : ℕ) (s : Simulator t.protocol n) (hI : I k s) :
      (s.nodes i).pr.inboundRequest.isSome ∨ ∃ j < k, ∃ s', s.cycle = .ok s' ∧
        s'.done = false ∧ I j s' := by
    obtain ⟨v, rfl, hhead, houtstanding, hstage⟩ := hI
    cases hinbound : (v.sim.nodes i).pr.inboundRequest with
    | some answer => exact .inl rfl
    | none =>
      right
      have hclear := t.clear_of_ne ht v.sim
      obtain ⟨v', hv', hhead'⟩ :=
        (hhead.cycle t.regular hclear).exists_of_not (not_not_intro hwf)
      have hsim := Versioned.sim_of_cycle hv'
      have hless := hhead.stage_lt t.regular hclear hv' hhead' houtstanding hinbound
      obtain ⟨houtstanding', -⟩ := waits_of_cycle t.regular hsim houtstanding hinbound
      have hnot : v'.sim.done = false := by
        simp only [Simulator.done, List.all_eq_false, List.mem_finRange, true_and]
        exact ⟨i, by simp [Processor.done, houtstanding']⟩
      exact ⟨_, by omega, v'.sim, hsim, hnot, v', rfl, hhead', houtstanding', le_rfl⟩
  have hstage := hhead.stage_le i
  obtain ⟨m, p, hrefines, -⟩ := hhead.simulated
  rw [hrefines.agrees.hitTime] at hstage
  exact Loop.iterate_within (I := I) hbody ⟨v, rfl, hhead, houtstanding, hstage⟩

/-- Node 1 waits for the memory until node 0 has been served. -/
theorem answered_within_storesApart : ∃ s, Simulator.LoopHead storesApart s ∧
    s.bus.pendingRequests.length = 2 ∧ ∃ k ≤ 7, ∃ s',
      (Simulator.loop MSI.protocol 2).iterate (fun _ ↦ True) k s = some s' ∧
        (s'.nodes 1).pr.inboundRequest.isSome := by
  obtain ⟨s, hs, houtstanding, hpending⟩ : ∃ s : Simulator MSI.protocol 2,
      Simulator.LoopHead storesApart s ∧ (s.nodes 1).pr.outstandingRequest = true ∧
        s.bus.pendingRequests.length = 2 :=
    Loop.exists_head 2 (by decide +kernel)
  exact ⟨s, hs, hpending,
    answered_within (t := .MSI_PRO) (by decide) storesApart_wellFormed hs houtstanding⟩

end ArchSim.Coherence
