import ArchSim.Coherence.ExclusiveGrant
import ArchSim.Coherence.NoAbort
import ArchSim.Coherence.Traffic

/-!
# What the exclusive state of MESI saves

A block that a single trace uses costs at most one request in a whole run. The first access sends
it; if that is a read, no other cache drives the wire, so the data makes the entry `E`, and a store
makes that `M` without a message. The entry is never `S`, from which a store would need a second
request.
-/

namespace ArchSim.Coherence.MESI

open Library AtomicMemory Snooping

/-- The state in which an entry without a copy waits for the data of its request. -/
def waitState : Message → State
  | .GETS => .ISE
  | _ => .IM

/-- The states that an entry has while no other cache uses its block. -/
def State.unshared : State → Bool
  | I | E | M | IM | ISE => true
  | S | SM => false

/-! ## The handlers -/

section

variable {mid : ModuleID} {state : State} {wire : Bool} {request : Mreq} {o : Outcome State}

/-- The processor's request leaves no copy shared, and no entry without request or copy. -/
theorem unshared_of_processCacheRequest
    (h : processCacheRequest.outcome mid state wire request = .ok o)
    (hstate : state.unshared = true) : o.state.unshared = true ∧ (o.state = .I → state = .I) := by
  obtain ⟨msg, addr, source, dest⟩ := request
  cases state <;> cases hstate <;> cases msg <;> cases h <;> exact of_decide_eq_true rfl

/-- Of the unshared states only `I` needs a request. -/
theorem eq_I_of_requests (h : processCacheRequest.outcome mid state wire request = .ok o)
    (hstate : state.unshared = true) {r : Mreq} (hr : r ∈ o.requests) : state = .I := by
  obtain ⟨msg, addr, source, dest⟩ := request
  cases state <;> cases hstate <;> cases msg <;> cases h <;>
    first
      | rfl
      | cases hr

theorem processCacheRequest_waitState (msg : Message) :
    processCacheRequest.outcome mid (waitState msg) wire request ≠ .ok o := by
  obtain ⟨msg', addr, source, dest⟩ := request
  cases msg <;> cases msg' <;> exact nofun

theorem outcome_of_I (h : processSnoopRequest.outcome mid .I false request = .ok o)
    (hmsg : request.isRequest = true) : o.state = .I ∧ o.shared = false := by
  obtain ⟨msg, addr, source, dest⟩ := request
  cases msg <;> cases hmsg <;> cases h <;> exact ⟨rfl, rfl⟩

theorem outcome_of_waitState {msg : Message}
    (h : processSnoopRequest.outcome mid (waitState msg) false request = .ok o)
    (hmsg : request.isRequest = true) : o.state = waitState msg ∧ o.shared = false := by
  obtain ⟨msg', addr, source, dest⟩ := request
  cases msg <;> cases msg' <;> cases hmsg <;> cases h <;> exact ⟨rfl, rfl⟩

/-- The data that arrives while the wire is down makes the entry `E` or `M`. -/
theorem unshared_of_DATA {msg : Message}
    (h : processSnoopRequest.outcome mid (waitState msg) false request = .ok o)
    (hmsg : request.msg = .DATA) : o.state.unshared = true ∧ o.state ≠ .I := by
  obtain ⟨msg', addr, source, dest⟩ := request
  subst hmsg
  cases msg <;> cases h <;> exact of_decide_eq_true rfl

theorem eq_waitState_of_pending {state : State} {k : Kind}
    (hpending : (view state).pending = some k) (hstate : state.unshared = true) :
    state = waitState (kindMessage k) := by
  cases k <;> cases state <;> cases hstate <;> cases hpending <;> rfl

end

/-! ## The entries in one cycle -/

variable {n : ℕ} {settings : Settings n} {versions : PAddr → ℕ} {i : Fin n} {addr : PAddr}

/-- No cache but `i` has a copy of the block or waits for one, and cache `i` does not share it. -/
structure Unshared (i : Fin n) (addr : PAddr) (s : Simulator protocol n) : Prop where
  others : ∀ j ≠ i, s.entry j addr = .I
  own : (s.entry i addr).unshared = true

/-- No processor but that of node `i` asks for the block. -/
def OnlyAskedBy (i : Fin n) (addr : PAddr) (s : Simulator protocol n) : Prop :=
  ∀ j ≠ i, ∀ request ∈ (s.nodes j).cache.procRequest, request.addr ≠ addr

variable {s s₁ s₂ s₃ s' : Simulator protocol n} {effect : Fin n → CacheEffect State} {x : Traffic}
  {q : Mreq}

theorem eq_waitState_of_move {node : Node State} {mid : ModuleID} {state : State} {msg : Message}
    (h : ProcMove protocol mid node addr state)
    (hwaits : node.cache.myEntries addr = waitState msg) : state = waitState msg :=
  (h.eq_of_stalled (hwaits ▸ processCacheRequest_waitState msg)).trans hwaits

/-- What the entry of cache `i` becomes in a cycle in which no message for its block is on the
bus. -/
theorem Unshared.passed (h : Unshared i addr s) (hasked : OnlyAskedBy i addr s)
    (hran : CycleRan false s s₁ s₂ s₃ s' effect x)
    (hnot : ∀ q ∈ s.busTick.bus.currentRequest, q.addr ≠ addr) :
    Unshared i addr s' ∧ (s'.entry i addr = .I → s.entry i addr = .I) ∧
      ∀ msg, s.entry i addr = waitState msg → s'.entry i addr = waitState msg := by
  have hmove (j : Fin n) : ProcMove protocol (l1 j) (s.nodes j) addr (s'.entry j addr) :=
    hran.entry_passed fun q hq haddr ↦ absurd haddr (hnot q hq)
  have hkept : (s'.entry i addr).unshared = true ∧
      (s'.entry i addr = .I → s.entry i addr = .I) :=
    (hmove i).invariant (P := protocol)
      (Q := fun state : State ↦ state.unshared = true ∧ (state = .I → s.entry i addr = .I))
      ⟨h.own, id⟩ fun hout ↦ unshared_of_processCacheRequest hout h.own
  refine ⟨⟨fun j hj ↦ ?_, hkept.1⟩, hkept.2, fun msg ↦ eq_waitState_of_move (hmove i)⟩
  exact ((hmove j).eq_of_not_asked (hasked j hj)).trans (h.others j hj)

/-- Nobody drives the wire for the request of cache `i`, and its entry waits on. -/
theorem Unshared.granted (h : Unshared i addr s) (hasked : OnlyAskedBy i addr s)
    (hran : CycleRan false s s₁ s₂ s₃ s' effect x)
    (hcurrent : s.busTick.bus.currentRequest = some q) (hmsg : q.isRequest = true)
    (haddr : q.addr = addr) {msg : Message} (hwaits : s.entry i addr = waitState msg) :
    (∀ j ≠ i, s'.entry j addr = .I) ∧ s'.entry i addr = waitState msg ∧ x.shared = false := by
  subst haddr
  have hdata : q.msg ≠ .DATA := fun hdata ↦ by simp [Mreq.isRequest, hdata] at hmsg
  have hfalse (wire : Bool) : (decide (q.msg = .DATA) && wire) = false := by simp [hdata]
  have hother (j : Fin n) (hj : j ≠ i) : s'.entry j q.addr = .I ∧ (effect j).shared = false := by
    obtain ⟨σ, o, wire, -, hmove, hout, hstate, -, hshared⟩ :=
      hran.entry_snooped (i := j) regular hcurrent (absurd · hdata)
    obtain rfl : σ = .I := (hmove.eq_of_not_asked (hasked j hj)).trans (h.others j hj)
    rw [hfalse] at hout
    rw [hstate, hshared rfl]
    exact outcome_of_I hout hmsg
  have hown : s'.entry i q.addr = waitState msg ∧ (effect i).shared = false := by
    obtain ⟨σ, o, wire, -, hmove, hout, hstate, -, hshared⟩ :=
      hran.entry_snooped (i := i) regular hcurrent (absurd · hdata)
    obtain rfl : σ = waitState msg := eq_waitState_of_move hmove hwaits
    rw [hfalse] at hout
    rw [hstate, hshared rfl]
    exact outcome_of_waitState hout hmsg
  refine ⟨fun j hj ↦ (hother j hj).1, hown.1, eq_false_of_ne_true fun hshared ↦ ?_⟩
  obtain ⟨j, -, hj⟩ := hran.caches.shared.mp hshared
  by_cases hji : j = i
  · subst hji
    cases hj.symm.trans hown.2
  · cases hj.symm.trans (hother j hji).2

/-- The data for the request of cache `i` makes its entry `E` or `M`. -/
theorem Unshared.delivered (h : Unshared i addr s) (hasked : OnlyAskedBy i addr s)
    (hran : CycleRan false s s₁ s₂ s₃ s' effect x)
    (hcurrent : s.busTick.bus.currentRequest = some q) (hmsg : q.msg = .DATA)
    (haddr : q.addr = addr) (hdest : q.destMid = l1 i)
    (hwire : s.busTick.bus.sharedLine = false) {msg : Message}
    (hwaits : s.entry i addr = waitState msg) : Unshared i addr s' ∧ s'.entry i addr ≠ .I := by
  subst haddr
  have hown : (s'.entry i q.addr).unshared = true ∧ s'.entry i q.addr ≠ .I := by
    obtain ⟨σ, o, wire, hwire', hmove, hout, hstate, -, -⟩ :=
      hran.entry_snooped (i := i) regular hcurrent fun _ ↦ hdest
    obtain rfl : σ = waitState msg := eq_waitState_of_move hmove hwaits
    rw [hwire' rfl, hwire, Bool.and_false] at hout
    rw [hstate]
    exact unshared_of_DATA hout hmsg
  refine ⟨⟨fun j hj ↦ ?_, hown.1⟩, hown.2⟩
  have hmove : ProcMove protocol (l1 j) (s.nodes j) q.addr (s'.entry j q.addr) :=
    hran.entry_passed fun d hd _ ↦ by
      obtain rfl := Option.some.inj (hcurrent.symm.trans hd)
      exact ⟨hmsg, fun heq ↦ hj (l1_injective (heq.symm.trans hdest))⟩
  exact (hmove.eq_of_not_asked (hasked j hj)).trans (h.others j hj)

/-! ## The requests for the block -/

theorem onlyAskedBy_of_refines {v : Versioned protocol n} {m : Machine (Fin n) PAddr}
    (h : Refines lawful settings versions v m) (hused : settings.UsedOnlyBy i addr) :
    OnlyAskedBy i addr v.sim := by
  intro j hj request hrequest haddr
  obtain ⟨line, hline, hblock, -⟩ := h.exists_line hrequest
  exact hused j hj line hline (hblock.trans haddr)

/-- The request `q` of cache `i` is in progress, and its data will find the wire down. -/
structure WaitsFor (i : Fin n) (addr : PAddr) (s : Simulator protocol n) (q : Mreq) : Prop where
  source : q.srcMid = l1 i
  wire : s.bus.sharedLine = false
  entry : s.entry i addr = waitState q.msg

/-- The block has been asked for by cache `i` alone and at most once, and not yet while the entry
is `I`. -/
structure AskedOnce (i : Fin n) (addr : PAddr) (y : Traced protocol n) (tr : Transaction) :
    Prop where
  unshared : Unshared i addr y.sim
  source : ∀ r ∈ y.pushed, r.addr = addr → r.srcMid = l1 i
  once : (y.pushed.countP fun r ↦ r.addr = addr) + (if y.sim.entry i addr = .I then 1 else 0) ≤ 1
  waits : ∀ q ∈ tr.request, q.addr = addr → WaitsFor i addr y.sim q

theorem askedOnce_initial (settings : Settings n) (versions : PAddr → ℕ) (i : Fin n)
    (addr : PAddr) : AskedOnce i addr (.initial protocol settings versions) .quiet :=
  ⟨⟨fun _ _ ↦ rfl, rfl⟩, nofun, le_rfl, nofun⟩

section

variable {y y' : Traced protocol n} {tr tr' : Transaction} {d : Mreq}

/-- Only an entry `I` makes a request, and it makes one. -/
theorem Unshared.requests_le (h : Unshared i addr y.sim) (hused : settings.UsedOnlyBy i addr)
    (hsimulated : Simulated lawful settings versions y.state)
    (hsimulated' : Simulated lawful settings versions y'.state)
    (hran : CycleRan false y.sim s₁ s₂ s₃ y'.sim effect x)
    (hkept : y'.sim.entry i addr = .I → y.sim.entry i addr = .I) :
    (∀ r ∈ x.requests, r.addr = addr → r.srcMid = l1 i) ∧
      (x.requests.countP fun r ↦ r.addr = addr) +
          (if y'.sim.entry i addr = .I then 1 else 0) ≤
        if y.sim.entry i addr = .I then 1 else 0 := by
  obtain ⟨m, -, hrefines, -⟩ := hsimulated
  obtain ⟨m', -, hrefines', -⟩ := hsimulated'
  have hnodup : (y'.sim.bus.pendingRequests.map Mreq.srcMid).Nodup :=
    hrefines'.nodup_srcMid.of_append_right
  have honly := onlyAskedBy_of_refines hrefines hused
  have hasked (r : Mreq) (hr : r ∈ x.requests) (haddr : r.addr = addr) :
      r.srcMid = l1 i ∧ y.sim.entry i addr = .I ∧ y'.sim.entry i addr ≠ .I := by
    obtain ⟨j, hj⟩ := hran.askedFor regular hnodup hr
    obtain ⟨request, o, hrequest, hout, hmem, hsource, hblock⟩ := hj.exists_request regular hrefines
    obtain rfl : j = i := by
      by_contra hne
      exact honly j hne request hrequest (hblock.symm.trans haddr)
    rw [← hblock, haddr] at hout
    refine ⟨hsource, eq_I_of_requests hout h.own hmem, fun hI ↦ ?_⟩
    obtain ⟨q, rfl⟩ := hran.caches.requests r hr
    have hqueued : requestMessage q ∈ y'.sim.bus.pendingRequests := by
      rw [hran.pendingRequests_eq]
      exact List.mem_append_right _ hr
    have hpending := hrefines'.pending_of_request hqueued (k := q.kind) rfl hsource
    rw [haddr] at hpending
    change (view (y'.sim.entry j addr)).pending = _ at hpending
    rw [hI] at hpending
    cases hpending
  refine ⟨fun r hr haddr ↦ (hasked r hr haddr).1, ?_⟩
  by_cases hnone : (x.requests.countP fun r ↦ r.addr = addr) = 0
  · rw [hnone, Nat.zero_add]
    split <;> rename_i hI
    · rw [if_pos (hkept hI)]
    · exact Nat.zero_le _
  · obtain ⟨r, hr, haddr⟩ := List.countP_pos_iff.mp (Nat.pos_of_ne_zero hnone)
    obtain ⟨-, hI, hI'⟩ := hasked r hr (of_decide_eq_true haddr)
    rw [if_pos hI, if_neg hI', Nat.add_zero]
    -- no cache has two requests in the queue
    rw [hran.pendingRequests_eq, List.map_append] at hnodup
    have hnodup' : (x.requests.map Mreq.srcMid).Nodup := (List.nodup_append.mp hnodup).2.1
    refine countP_le_card hnodup'.of_map {l1 i} Mreq.srcMid (fun r hr haddr ↦ ?_)
      fun r hr r' hr' _ _ heq ↦ List.inj_on_of_nodup_map hnodup' hr hr' heq
    exact Finset.mem_singleton.mpr (hasked r hr (of_decide_eq_true haddr)).1

theorem AskedOnce.next (h : AskedOnce i addr y tr) (hused : settings.UsedOnlyBy i addr)
    (hsimulated : Simulated lawful settings versions y.state)
    (hsimulated' : Simulated lawful settings versions y'.state) (hy' : y.cycle = .ok y')
    (hran : CycleRan false y.sim s₁ s₂ s₃ y'.sim effect x) (hunshared : Unshared i addr y'.sim)
    (hkept : y'.sim.entry i addr = .I → y.sim.entry i addr = .I)
    (hwaits : ∀ q ∈ tr'.request, q.addr = addr → WaitsFor i addr y'.sim q) :
    AskedOnce i addr y' tr' := by
  obtain ⟨hsource, hle⟩ := h.unshared.requests_le hused hsimulated hsimulated' hran hkept
  have hpushed := hran.pushed_eq (Traced.of_cycle hy').2.2
  refine ⟨hunshared, fun r hr haddr ↦ ?_, ?_, hwaits⟩
  · rw [hpushed, List.mem_append] at hr
    rcases hr with hr | hr
    · exact h.source r hr haddr
    · exact hsource r hr haddr
  · have honce := h.once
    rw [hpushed, List.countP_append]
    omega

/-- The request that the bus takes up belongs to an entry that waits. -/
theorem AskedOnce.waits_of_current (h : AskedOnce i addr y .quiet)
    (hserved : Served settings y .quiet)
    (hsimulated : Simulated lawful settings versions y.state)
    (hcurrent : y.sim.busTick.bus.currentRequest = some q) (hq : IsRequest n q)
    (haddr : q.addr = addr) :
    q.srcMid = l1 i ∧ y.sim.busTick.bus.sharedLine = false ∧
      y.sim.entry i addr = waitState q.msg := by
  obtain ⟨m, -, hrefines, -⟩ := hsimulated
  have hqueued := hserved.mem_pending hcurrent hq.msg_eq
  have hpushed : q ∈ y.pushed := by
    rw [hserved.pushed]
    exact List.mem_append_right _ hqueued
  have hsource := h.source q hpushed haddr
  obtain ⟨rest, hpending⟩ := hserved.holds.pending_of_current hcurrent
  refine ⟨hsource, by rw [hserved.holds.busTick_of_cons hpending], ?_⟩
  obtain ⟨r, rfl⟩ := hq
  have hwaits := hrefines.pending_of_request hqueued (k := r.kind) rfl hsource
  rw [haddr] at hwaits
  exact eq_waitState_of_pending hwaits h.unshared.own

/-- A cycle in which no message for the block is on the bus. -/
theorem AskedOnce.next_passed (h : AskedOnce i addr y tr) (hused : settings.UsedOnlyBy i addr)
    (hsimulated : Simulated lawful settings versions y.state)
    (hsimulated' : Simulated lawful settings versions y'.state) (hy' : y.cycle = .ok y')
    (hran : CycleRan false y.sim s₁ s₂ s₃ y'.sim effect x)
    (hnot : ∀ q ∈ y.sim.busTick.bus.currentRequest, q.addr ≠ addr)
    (hwaits : (∀ msg, y.sim.entry i addr = waitState msg → y'.sim.entry i addr = waitState msg) →
      ∀ q ∈ tr'.request, q.addr = addr → WaitsFor i addr y'.sim q) :
    AskedOnce i addr y' tr' := by
  obtain ⟨m, p, hrefines, hend⟩ := hsimulated
  obtain ⟨hunshared, hkept, hwaiting⟩ :=
    h.unshared.passed (onlyAskedBy_of_refines hrefines hused) hran hnot
  exact h.next hused ⟨m, p, hrefines, hend⟩ hsimulated' hy' hran hunshared hkept (hwaits hwaiting)

/-- The cycle in which a request appears. -/
theorem AskedOnce.next_granted (h : AskedOnce i addr y .quiet) (hserved : Served settings y .quiet)
    (hused : settings.UsedOnlyBy i addr)
    (hsimulated : Simulated lawful settings versions y.state)
    (hsimulated' : Simulated lawful settings versions y'.state) (hy' : y.cycle = .ok y')
    (hran : CycleRan false y.sim s₁ s₂ s₃ y'.sim effect x)
    (hcurrent : y.sim.busTick.bus.currentRequest = some q) (hq : IsRequest n q)
    (hrequest' : tr'.request = some q) : AskedOnce i addr y' tr' := by
  by_cases haddr : q.addr = addr
  · obtain ⟨hsource, hwire, hentry⟩ := h.waits_of_current hserved hsimulated hcurrent hq haddr
    obtain ⟨m, p, hrefines, hend⟩ := hsimulated
    obtain ⟨hothers, hown, hshared⟩ :=
      h.unshared.granted (onlyAskedBy_of_refines hrefines hused) hran hcurrent hq.isRequest haddr
        hentry
    have hsame : y'.sim.entry i addr = y.sim.entry i addr := hown.trans hentry.symm
    refine h.next hused ⟨m, p, hrefines, hend⟩ hsimulated' hy' hran
      ⟨hothers, hsame ▸ h.unshared.own⟩ (fun hI ↦ hsame ▸ hI) fun q' hq' _ ↦ ?_
    obtain rfl := Option.some.inj (hrequest'.symm.trans hq')
    refine ⟨hsource, ?_, hown⟩
    rw [hran.sharedLine_eq, hwire, hshared]
    rfl
  · refine h.next_passed hused hsimulated hsimulated' hy' hran (fun q' hq' ↦ ?_)
      fun _ q' hq' haddr' ↦ ?_
    · rwa [← Option.some.inj (hcurrent.symm.trans hq')]
    · rw [← Option.some.inj (hrequest'.symm.trans hq')] at haddr'
      exact absurd haddr' haddr

/-- A cycle in which the request in progress waits for its data. -/
theorem AskedOnce.next_waited (h : AskedOnce i addr y (.lookup q))
    (hserved : Served settings y (.lookup q)) (hused : settings.UsedOnlyBy i addr)
    (hsimulated : Simulated lawful settings versions y.state)
    (hsimulated' : Simulated lawful settings versions y'.state) (hy' : y.cycle = .ok y')
    (hran : CycleRan false y.sim s₁ s₂ s₃ y'.sim effect x) (hrequest' : tr'.request = some q) :
    AskedOnce i addr y' tr' := by
  have hbus := hserved.holds.busTick_of_lookup
  have hnone : y.sim.busTick.bus.currentRequest = none := by rw [hbus]
  refine h.next_passed hused hsimulated hsimulated' hy' hran (by simp [hnone])
    fun hwaiting q' hq' haddr ↦ ?_
  obtain rfl := Option.some.inj (hrequest'.symm.trans hq')
  have hwaits := h.waits q rfl haddr
  refine ⟨hwaits.source, ?_, hwaiting _ hwaits.entry⟩
  rw [hran.sharedLine_eq, hran.caches.shared_eq regular (by simp [hnone]), hbus, Bool.or_false]
  exact hwaits.wire

/-- The cycle in which the data appears. -/
theorem AskedOnce.next_delivered (h : AskedOnce i addr y (.replied q d))
    (hserved : Served settings y (.replied q d)) (hused : settings.UsedOnlyBy i addr)
    (hsimulated : Simulated lawful settings versions y.state)
    (hsimulated' : Simulated lawful settings versions y'.state) (hy' : y.cycle = .ok y')
    (hran : CycleRan false y.sim s₁ s₂ s₃ y'.sim effect x) : AskedOnce i addr y' .quiet := by
  have hbus := hserved.holds.busTick_of_replied
  have hcurrent : y.sim.busTick.bus.currentRequest = some d := by rw [hbus]
  obtain ⟨-, hanswers, -, -⟩ := hserved.holds
  by_cases haddr : q.addr = addr
  · have hwaits := h.waits q rfl haddr
    have hwire : y.sim.busTick.bus.sharedLine = false := by
      rw [hbus]
      exact hwaits.wire
    obtain ⟨m, p, hrefines, hend⟩ := hsimulated
    obtain ⟨hunshared, hne⟩ := h.unshared.delivered (onlyAskedBy_of_refines hrefines hused) hran
      hcurrent hanswers.msg (hanswers.addr.trans haddr) (hanswers.destMid.trans hwaits.source)
      hwire hwaits.entry
    exact h.next hused ⟨m, p, hrefines, hend⟩ hsimulated' hy' hran hunshared
      (fun hI ↦ absurd hI hne) nofun
  · refine h.next_passed hused hsimulated hsimulated' hy' hran (fun d' hd' ↦ ?_) fun _ ↦ nofun
    rwa [← Option.some.inj (hcurrent.symm.trans hd'), hanswers.addr]

theorem AskedOnce.cycle (h : AskedOnce i addr y tr) (hserved : Served settings y tr)
    (hused : settings.UsedOnlyBy i addr)
    (hsimulated : Simulated lawful settings versions y.state) (hy' : y.cycle = .ok y') :
    ∃ tr', Served settings y' tr' ∧ AskedOnce i addr y' tr' := by
  have hsimulated' : Simulated lawful settings versions y'.state :=
    (hsimulated.cycle nofun).of_ok (Traced.of_cycle hy').1
  obtain ⟨s₁, s₂, s₃, effect, x, tr', hran, hnext, hserved'⟩ := hserved.cycle regular hy'
  refine ⟨tr', hserved', ?_⟩
  generalize hcurrent : y.sim.busTick.bus.currentRequest = message at hnext
  generalize hreply : x.reply = reply at hnext
  cases hnext with
  | idle =>
    exact h.next_passed hused hsimulated hsimulated' hy' hran (by simp [hcurrent]) fun _ ↦ nofun
  | grant hq | answer hq _ =>
    exact h.next_granted hserved hused hsimulated hsimulated' hy' hran hcurrent hq rfl
  | wait | supply => exact h.next_waited hserved hused hsimulated hsimulated' hy' hran rfl
  | deliver _ => exact h.next_delivered hserved hused hsimulated hsimulated' hy' hran

theorem askedOnce_of_endOfCycle (hused : settings.UsedOnlyBy i addr)
    (hy : Traced.EndOfCycle settings versions y) :
    ∃ tr, Served settings y tr ∧ AskedOnce i addr y tr := by
  refine hy.preserved (I := fun y ↦ ∃ tr, Served settings y tr ∧ AskedOnce i addr y tr)
    ⟨.quiet, served_initial settings versions, askedOnce_initial settings versions i addr⟩ ?_
  rintro y y' hhead - hy' ⟨tr, hserved, hasked⟩
  have hstate : Versioned.LoopHeadWhile settings versions (fun _ ↦ True) y.state :=
    Traced.LoopHeadWhile.state hhead
  have hsimulated := simulated_of_loopHead (L := lawful) (fun _ _ ↦ nofun) hstate
  exact hasked.cycle hserved hused hsimulated hy'

end

end ArchSim.Coherence.MESI

namespace ArchSim.Coherence

open Library

/-- The requests of both kinds have been pushed. -/
theorem Served.requestsFor_le {P : Protocol} {n : ℕ} {settings : Settings n} {y : Traced P n}
    {tr : Transaction} (h : Served settings y tr) (addr : PAddr) :
    requestsFor y.messages .GETS addr + requestsFor y.messages .GETM addr ≤
      y.pushed.countP fun r ↦ r.addr = addr := by
  rw [h.pushed, List.countP_append, List.countP_filter,
    List.countP_eq_countP_filter_add _ _ fun q ↦ q.msg = .GETS, List.countP_filter,
    List.countP_filter]
  refine (Nat.add_le_add ?_ ?_).trans (Nat.le_add_right _ _) <;>
  · refine List.countP_mono_left fun q _ hq ↦ ?_
    obtain ⟨hmsg, haddr⟩ := of_decide_eq_true hq
    simp [Mreq.isRequest, hmsg, haddr]

/-- With `MESI`, a block that a single trace uses costs at most one request in a whole run, a `GETS`
or a `GETM` but not both: its entry in the cache of that node is never `S` or `SM`, so a store after
a read is silent, and it is `I` in all other caches. -/
theorem MESI_private_traffic {n : ℕ} {settings : Settings n} {versions : PAddr → ℕ} {i : Fin n}
    {addr : PAddr} (h : settings.UsedOnlyBy i addr) {y : Traced MESI.protocol n}
    (hy : Traced.EndOfCycle settings versions y) :
    requestsFor y.messages .GETS addr + requestsFor y.messages .GETM addr ≤ 1 ∧
      y.sim.entry i addr ∉ [MESI.State.S, .SM] ∧ ∀ j ≠ i, y.sim.entry j addr = .I := by
  obtain ⟨tr, hserved, hasked⟩ := MESI.askedOnce_of_endOfCycle h hy
  refine ⟨?_, ?_, hasked.unshared.others⟩
  · exact (hserved.requestsFor_le addr).trans ((Nat.le_add_right _ _).trans hasked.once)
  · have hown := hasked.unshared.own
    generalize y.sim.entry i addr = state at hown
    cases state <;> cases hown <;> decide

/-- Node 0 has upgraded its block silently, where `MSI` needs a second request. -/
theorem MESI_private_traffic_readThenWrite :
    (∃ y : Traced MESI.protocol 2, Traced.EndOfCycle MESI.readThenWrite (fun _ ↦ 0) y ∧
      y.sim.stats.silentUpgrades = 1 ∧ requestsFor y.messages .GETS 0 = 1 ∧
        requestsFor y.messages .GETS 0 + requestsFor y.messages .GETM 0 ≤ 1) ∧
    ∃ y : Traced MSI.protocol 2, Traced.EndOfCycle MESI.readThenWrite (fun _ ↦ 0) y ∧
      requestsFor y.messages .GETS 0 + requestsFor y.messages .GETM 0 = 2 := by
  constructor
  · obtain ⟨y, hy, hsilent, hread⟩ : ∃ y : Traced MESI.protocol 2,
        Traced.EndOfCycle MESI.readThenWrite (fun _ ↦ 0) y ∧
          y.sim.stats.silentUpgrades = 1 ∧ requestsFor y.messages .GETS 0 = 1 :=
      Loop.exists_endOfBody 7 (by decide +kernel)
    have hused : MESI.readThenWrite.UsedOnlyBy 0 0 := by
      intro j hj line hline
      obtain rfl : j = 1 := by omega
      obtain rfl := List.mem_singleton.mp hline
      decide
    exact ⟨y, hy, hsilent, hread, (MESI_private_traffic hused hy).1⟩
  · exact Loop.exists_endOfBody 9 (by decide +kernel)

end ArchSim.Coherence
