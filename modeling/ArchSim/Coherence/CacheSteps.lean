import ArchSim.Coherence.Refinement

/-!
# The caches refine the snooping machine

One tick of a cache handles the processor's request and then the message on the bus. Each half is
a step of the machine, or none.
-/

namespace ArchSim.Coherence

open Library AtomicMemory Snooping

variable {P : Protocol} {n : ℕ} {demotes stalls : Bool} {L : Lawful P demotes stalls}
  {settings : Settings n} {versions : PAddr → ℕ} {v : Versioned P n}
  {m : Machine (Fin n) PAddr} {i : Fin n} {b : PAddr}

/-- A handler in cache `i` has changed the entry for `b`: the other nodes agree as before. -/
theorem Agrees.of_cache (h : Agrees L settings v m) {v' : Versioned P n}
    {m' : Machine (Fin n) PAddr} {next : P.State}
    (hnodes : ∀ j, j ≠ i → v'.sim.nodes j = v.sim.nodes j)
    (hentries : (v'.sim.nodes i).cache.myEntries =
      Function.update (v.sim.nodes i).cache.myEntries b next)
    (hline : m'.line = setAt m.line i b (L.view next))
    (hqueue : v'.sim.bus.pendingRequests = m'.queue.map requestMessage)
    (hwire : v'.sim.bus.sharedLine = m'.wire) (hcopy : v'.copy = m'.copy)
    (hanswers : v'.answers = m'.history) (hmc : v'.sim.mc = v.sim.mc)
    (hwant : ∀ j, j ≠ i → v'.want j = v.want j)
    (hlog : ∀ j, j ≠ i → accessesOf j m'.history = accessesOf j m.history)
    (hnode : ∃ status, NodeOk i (settings.traces i) (v'.sim.nodes i) (v'.want i)
      (fun c ↦ (m'.line i c).pending) (accessesOf i m'.history) status) :
    Agrees L settings v' m' where
  line j c := by
    by_cases hj : j = i
    · subst hj
      rw [hline, hentries, setAt_apply, Function.update_apply, h.line, apply_ite L.view]
      simp
    · rw [hline, setAt_of_ne_node _ _ _ _ hj, hnodes j hj, h.line]
  queue := hqueue
  wire := hwire
  copy := hcopy
  answers := hanswers
  node j := by
    by_cases hj : j = i
    · exact hj ▸ hnode
    · obtain ⟨status, hstatus⟩ := h.node j
      rw [hnodes j hj, hwant j hj]
      refine ⟨status, hstatus.congr (fun c ↦ ?_) (hlog j hj)⟩
      simp only [hline, setAt_of_ne_node m.line b c (L.view next) hj]
  hitTime := hmc ▸ h.hitTime

/-! ## What the versions observe -/

section Observe

variable {sim : Simulator P n} {op : Op}

theorem Versioned.observe_answer (hreply : sim.bus.dataReply = v.sim.bus.dataReply)
    (hbuf : (v.sim.nodes i).pr.inboundRequestBuf = none)
    (hbuf' : (sim.nodes i).pr.inboundRequestBuf.isSome) :
    v.observe sim i b op = { v.answer i b op with sim := sim } := by
  cases hsim : v.sim.bus.dataReply <;> simp [observe, hreply, hsim, hbuf, hbuf']

theorem Versioned.observe_reply (hreply : v.sim.bus.dataReply = none)
    (hreply' : sim.bus.dataReply.isSome)
    (hbuf : (sim.nodes i).pr.inboundRequestBuf = (v.sim.nodes i).pr.inboundRequestBuf) :
    v.observe sim i b op = { v with sim := sim, reply := v.copy i b } := by
  cases hsim : (v.sim.nodes i).pr.inboundRequestBuf <;> simp [observe, hreply, hreply', hbuf, hsim]

theorem Versioned.observe_silent (hreply : sim.bus.dataReply = v.sim.bus.dataReply)
    (hbuf : (sim.nodes i).pr.inboundRequestBuf = (v.sim.nodes i).pr.inboundRequestBuf) :
    v.observe sim i b op = { v with sim := sim } := by
  cases hsim : (v.sim.nodes i).pr.inboundRequestBuf <;>
    cases hsim' : v.sim.bus.dataReply <;> simp [observe, hreply, hbuf, hsim, hsim']

end Observe

/-! ## The request of the processor -/

/-- The entry for `b` has an upgrade of its own to make, or is about to. -/
def Lawful.Upgrades (L : Lawful P demotes stalls) (node : Node P.State) (b : PAddr) : Prop :=
  L.view (node.cache.myEntries b) = .OM ∨ L.view (node.cache.myEntries b) = .O ∧
    ∃ request, node.cache.procRequest = some request ∧ request.msg = .STORE ∧ request.addr = b

section ProcRequest

variable {op : Op} {addr : PAddr}

/-- The simulator after the handler of a processor's request has made `c` of its entry. -/
abbrev afterProcRequest (v : Versioned P n) (i : Fin n) (b : PAddr) (c : Ctx P.State) :
    Simulator P n :=
  (v.sim.countAccess.putCtx i b c).clearProcRequest i

section

variable {c : Ctx P.State} {effect : Effect}

theorem afterProcRequest_others {j : Fin n} (hj : j ≠ i) :
    (afterProcRequest v i b c).nodes j = v.sim.nodes j := by
  simp [Simulator.clearProcRequest, Simulator.putCtx, Simulator.setNode, Simulator.countAccess, hj]

theorem afterProcRequest_self :
    (afterProcRequest v i b c).nodes i =
      { cache :=
          { procRequest := none
            myEntries := Function.update (v.sim.nodes i).cache.myEntries b c.state }
        pr := { (v.sim.nodes i).pr with inboundRequestBuf := c.inboundRequestBuf } } := by
  simp [Simulator.clearProcRequest, Simulator.putCtx, Simulator.setNode, Simulator.countAccess]

end

/-- The state after a hit. -/
def hitState (v : Versioned P n) (i : Fin n) (b : PAddr) (op : Op) (c : Ctx P.State) :
    Versioned P n :=
  { v.answer i b op with
    sim := afterProcRequest v i b c
    want := Function.update v.want i op }

/-- The state after a miss. -/
def missState (v : Versioned P n) (i : Fin n) (b : PAddr) (op : Op) (c : Ctx P.State) :
    Versioned P n :=
  { v with sim := afterProcRequest v i b c, want := Function.update v.want i op }

@[simp] theorem hitState_sim {c : Ctx P.State} :
    (hitState v i b op c).sim = afterProcRequest v i b c := rfl

theorem hit_refines (h : Refines L settings versions v m)
    (hnode : NodeOk i (settings.traces i) (v.sim.nodes i) (v.want i)
      (fun b ↦ (m.line i b).pending) (accessesOf i m.history) (.issued op addr))
    {c : Ctx P.State} {wire : Bool} (hb : b = blockAddr addr)
    (haccess : Access (m.line i b) op (L.view c.state))
    (hacts : Acts (v.sim.countAccess.ctx i b) c b { answer := true, shared := wire }) :
    Refines L settings versions (hitState v i b op c)
      (m.hit i b op (L.view c.state) (m.wire || wire)) := by
  refine ⟨h.reachable.step (.hit haccess fun hw ↦ by simp [hw]), ?_⟩
  refine h.agrees.of_cache (fun j hj ↦ afterProcRequest_others hj) ?_ rfl ?_ ?_ ?_ ?_ rfl ?_ ?_ ?_
  · exact afterProcRequest_self ▸ rfl
  · exact (hacts.pendingRequests_eq rfl).trans h.agrees.queue
  · exact hacts.sharedLine.trans (congrArg (· || wire) h.agrees.wire)
  · simp only [hitState, Versioned.answer, Machine.hit, Machine.answer, h.agrees.copy]
  · simp only [hitState, Versioned.answer, Machine.hit, Machine.answer, h.agrees.copy,
      h.agrees.answers]
  · exact fun j hj ↦ Function.update_of_ne hj _ _
  · exact fun j hj ↦ accessesOf_cons_of_ne hj
  · refine ⟨.buffered addr, ?_⟩
    subst hb
    have hidle : (m.line i (blockAddr addr)).pending = none := hnode.pending _
    simp only [Machine.hit, Machine.answer, accessesOf_cons_self]
    refine hnode.answer rfl (afterProcRequest_self ▸ rfl) ?_ fun c' ↦ ?_
    · rw [hitState_sim, afterProcRequest_self, hacts.inboundRequestBuf, if_pos rfl]
      simp [cacheMessage, Simulator.ctx]
    · rw [Queued.setAt_pending (haccess.pending_right.trans hidle.symm)]
      exact hnode.pending c'

theorem miss_refines (h : Refines L settings versions v m)
    (hnode : NodeOk i (settings.traces i) (v.sim.nodes i) (v.want i)
      (fun b ↦ (m.line i b).pending) (accessesOf i m.history) (.issued op addr))
    {c : Ctx P.State} {k : Kind} (hb : b = blockAddr addr)
    (hmiss : Miss (m.line i b) op k (L.view c.state))
    (hacts : Acts (v.sim.countAccess.ctx i b) c b { request := some k }) :
    Refines L settings versions (missState v i b op c) (m.miss i b k (L.view c.state)) := by
  refine ⟨h.reachable.step (.miss hmiss fun c ↦ hnode.pending c), ?_⟩
  refine h.agrees.of_cache (fun j hj ↦ afterProcRequest_others hj) ?_ rfl ?_ ?_
    h.agrees.copy h.agrees.answers rfl ?_ (fun _ _ ↦ rfl) ?_
  · exact afterProcRequest_self ▸ rfl
  · apply hacts.pendingRequests.trans
    simp [Machine.miss, Simulator.ctx, Simulator.countAccess, h.agrees.queue, requestMessage]
  · exact (hacts.sharedLine_eq rfl).trans h.agrees.wire
  · exact fun j hj ↦ Function.update_of_ne hj _ _
  · have hk : op = .store → k = .write := by
      rintro rfl
      exact hmiss.kind_of_store
    refine ⟨.waiting op addr k hk, ?_⟩
    simp only [missState, Function.update_self]
    refine hnode.miss hk (afterProcRequest_self ▸ rfl) ?_ fun c' ↦ ?_
    · rw [afterProcRequest_self, hacts.inboundRequestBuf]
      rfl
    · simp only [Machine.miss, setAt_apply, hb, true_and]
      split
      · exact hmiss.pending_right
      · exact hnode.pending c'

/-- A hit or a miss does not touch the granted request. -/
theorem control_eq {v' : Versioned P n} {m' : Machine (Fin n) PAddr} {c : Ctx P.State}
    {effect : Effect} (hacts : Acts (v.sim.countAccess.ctx i b) c b effect)
    (hreply : effect.reply = none)
    (hrest : control v' m' = { control v m with
      currentRequest := c.bus.currentRequest
      dataReply := c.bus.dataReply
      requestInProgress := c.bus.requestInProgress }) : control v' m' = control v m := by
  rw [hrest, hacts.currentRequest, hacts.dataReply, hacts.requestInProgress, hreply]
  rfl

/-- What the first half of a cache's tick does besides refining. -/
structure ProcRequestTicked (L : Lawful P demotes stalls) (i : Fin n) (v v' : Versioned P n)
    (m m' : Machine (Fin n) PAddr) : Prop where
  control : control v' m' = control v m
  others : ∀ j, j ≠ i → v'.sim.nodes j = v.sim.nodes j
  progress : Progresses (v.sim.nodes i) (v'.sim.nodes i)
  procRequest : (v'.sim.nodes i).cache.procRequest = none
  upgrades : ∀ b, m'.line i b = .OM → L.Upgrades (v.sim.nodes i) b

theorem work_afterProcRequest {c : Ctx P.State}
    (hproc : (v.sim.nodes i).cache.procRequest.isSome) :
    ((afterProcRequest v i b c).nodes i).work < (v.sim.nodes i).work := by
  rw [afterProcRequest_self]
  simp only [Node.work, hproc, if_true, Option.isSome_none, Bool.false_eq_true, if_false]
  split_ifs <;> omega

/-- The first half of a cache's tick when a request of the processor is there. -/
theorem tickProcRequest_issued (h : Refines L settings versions v m)
    (hnode : NodeOk i (settings.traces i) (v.sim.nodes i) (v.want i)
      (fun b ↦ (m.line i b).pending) (accessesOf i m.history) (.issued op addr)) :
    ∃ v' m', v.tickProcRequest i = .ok v' ∧ Refines L settings versions v' m' ∧
      ProcRequestTicked L i v v' m m' := by
  have hproc : (v.sim.nodes i).cache.procRequest =
      some (Mreq.new (opMessage op) addr ⟨i, .PR⟩) := hnode.procRequest
  have hop : (Mreq.new (opMessage op) addr ⟨i, .PR⟩).op = op := by cases op <;> rfl
  have hrun {c v'} (hc : P.processCacheRequest (v.sim.countAccess.ctx i (blockAddr addr))
      (Mreq.new (opMessage op) addr ⟨i, .PR⟩) = .ok c)
      (hv' : { v.observe (afterProcRequest v i (blockAddr addr) c) i (blockAddr addr) op with
        want := Function.update v.want i op } = v') : v.tickProcRequest i = .ok v' := by
    have hsim : v.sim.tickProcRequest i = .ok (afterProcRequest v i (blockAddr addr) c) := by
      simp only [Simulator.tickProcRequest, hproc]
      exact congrArg (· >>= _) hc
    simp only [Versioned.tickProcRequest, hsim, hproc, hop]
    exact congrArg Except.ok hv'
  have hissued : (v.sim.nodes i).cache.procRequest.isSome := by rw [hproc]; rfl
  have hline : L.view (v.sim.countAccess.ctx i (blockAddr addr)).state =
      m.line i (blockAddr addr) :=
    (h.agrees.line i _).symm
  have hresponds : Responds L.view op (v.sim.countAccess.ctx i (blockAddr addr)) (blockAddr addr)
      (P.processCacheRequest _ (Mreq.new (opMessage op) addr ⟨i, .PR⟩)) :=
    L.cache (rfl : (Mreq.new (opMessage op) addr _).msg = _)
      ((congrArg Line.pending hline).trans (hnode.pending _)) hnode.buffered
  obtain ⟨_, haccess, c, hc, rfl, hacts⟩ | ⟨_, hmiss, c, hc, rfl, hacts⟩ := hresponds
  · rw [hline] at haccess
    refine ⟨hitState v i (blockAddr addr) op c, _, hrun hc ?_,
      hit_refines h hnode rfl haccess hacts, control_eq hacts rfl rfl, fun j hj ↦
        afterProcRequest_others hj, .inl (work_afterProcRequest hissued),
        afterProcRequest_self ▸ rfl, fun b hb ↦ .inl ?_⟩
    · rw [Versioned.observe_answer hacts.dataReply hnode.buffered]
      · rfl
      · rw [afterProcRequest_self, hacts.inboundRequestBuf]
        rfl
    · rw [← h.agrees.line i b, ← hb]
      refine (setAt_of_ne_addr m.line i i _ fun heq ↦ haccess.ne_OM ?_).symm
      subst heq
      simpa [Machine.hit, Machine.answer] using hb
  · rw [hline] at hmiss
    refine ⟨missState v i (blockAddr addr) op c, _, hrun hc ?_,
      miss_refines h hnode rfl hmiss hacts, control_eq hacts rfl rfl, fun j hj ↦
        afterProcRequest_others hj, .inl (work_afterProcRequest hissued),
        afterProcRequest_self ▸ rfl, fun b hb ↦ ?_⟩
    · rw [Versioned.observe_silent hacts.dataReply]
      · rfl
      · rw [afterProcRequest_self, hacts.inboundRequestBuf]
        rfl
    · by_cases heq : b = blockAddr addr
      · subst heq
        have hOM : L.view c.state = .OM := by simpa [Machine.miss] using hb
        rw [hOM] at hmiss
        obtain ⟨hO, rfl⟩ := hmiss.of_OM
        exact .inr ⟨by rw [← h.agrees.line, hO], _, hproc, rfl, rfl⟩
      · refine .inl ?_
        rw [← h.agrees.line i b, ← hb]
        exact (setAt_of_ne_addr m.line i i _ heq).symm

/-- The first half of a cache's tick is a hit, a miss, or nothing. -/
theorem tickProcRequest_refines (h : Refines L settings versions v m) (i : Fin n) :
    ∃ v' m', v.tickProcRequest i = .ok v' ∧ Refines L settings versions v' m' ∧
      ProcRequestTicked L i v v' m m' := by
  obtain ⟨status, hnode⟩ := h.agrees.node i
  by_cases hissued : ∃ op addr, status = .issued op addr
  · obtain ⟨op, addr, rfl⟩ := hissued
    exact tickProcRequest_issued h hnode
  · have hproc : (v.sim.nodes i).cache.procRequest = none := by
      rw [hnode.procRequest]
      cases status with
      | issued op addr => exact absurd ⟨op, addr, rfl⟩ hissued
      | _ => rfl
    refine ⟨v, m, ?_, h, rfl, fun _ _ ↦ rfl, .refl _, hproc, fun b hb ↦ .inl ?_⟩
    · simp only [Versioned.tickProcRequest, Simulator.tickProcRequest, hproc]
      rfl
    · rw [← h.agrees.line i b, hb]

end ProcRequest

/-! ## The message on the bus -/

section Snoop

variable {q : Request (Fin n) PAddr} {c : Ctx P.State}

theorem putCtx_others {j : Fin n} (hj : j ≠ i) : (v.sim.putCtx i b c).nodes j = v.sim.nodes j := by
  simp [Simulator.putCtx, Simulator.setNode, hj]

theorem putCtx_self :
    (v.sim.putCtx i b c).nodes i =
      { cache := { (v.sim.nodes i).cache with
          myEntries := Function.update (v.sim.nodes i).cache.myEntries b c.state }
        pr := { (v.sim.nodes i).pr with inboundRequestBuf := c.inboundRequestBuf } } := by
  simp [Simulator.putCtx, Simulator.setNode]

/-- What the second half of a cache's tick does besides refining. -/
structure SnoopTicked (i : Fin n) (p : Phase n) (v v' : Versioned P n) : Prop where
  clock : v'.sim.mc = v.sim.mc ∧ v'.sim.globalClock = v.sim.globalClock
  others : ∀ j, j ≠ i → v'.sim.nodes j = v.sim.nodes j
  procRequest : (v'.sim.nodes i).cache.procRequest = (v.sim.nodes i).cache.procRequest
  progress : Progresses (v.sim.nodes i) (v'.sim.nodes i)
  delivered : ∀ q source, p = .data q source → i = q.node →
    (v'.sim.nodes i).pr.inboundRequestBuf.isSome

theorem SnoopTicked.refl (i : Fin n) (p : Phase n) (v : Versioned P n)
    (hnot : ∀ q source, p = .data q source → i ≠ q.node) : SnoopTicked i p v v :=
  ⟨⟨rfl, rfl⟩, fun _ _ ↦ rfl, rfl, .refl _, fun q source hp heq ↦ absurd heq (hnot q source hp)⟩

theorem requestMessage_msg_ne : (requestMessage q).msg ≠ .DATA := by
  obtain ⟨node, kind, addr⟩ := q
  cases kind <;> simp [requestMessage, cacheMessage, kindMessage]

/-- A cache that snoops a request makes a move of the machine. -/
theorem snoop_refines (h : Refines L settings versions v m) (htxn : m.txn = some q)
    {reply wire : Bool} (hnot : ¬ m.snooped i)
    (hsnoop : Snoop demotes q.kind (decide (i = q.node)) (m.line i q.addr) reply wire
      (L.view c.state))
    (hacts : Acts (v.sim.ctx i q.addr) c q.addr
      { reply := if reply then some (l1 q.node) else none, shared := wire })
    {reply' : ℕ} :
    Refines L settings versions { v with sim := v.sim.putCtx i q.addr c, reply := reply' }
      (m.snoop q i reply wire (L.view c.state)) := by
  refine ⟨h.reachable.step (.snoop htxn hnot hsnoop), ?_⟩
  refine h.agrees.of_cache (fun j hj ↦ putCtx_others hj) ?_ rfl ?_ ?_
    h.agrees.copy h.agrees.answers rfl (fun _ _ ↦ rfl) (fun _ _ ↦ rfl) ?_
  · exact putCtx_self ▸ rfl
  · exact (hacts.pendingRequests_eq rfl).trans h.agrees.queue
  · exact hacts.sharedLine.trans (congrArg (· || wire) h.agrees.wire)
  · obtain ⟨status, hnode⟩ := h.agrees.node i
    refine ⟨status, (hnode.congr_node ?_ ?_).congr (fun b ↦ ?_) rfl⟩
    · exact putCtx_self ▸ rfl
    · change ((v.sim.putCtx i q.addr c).nodes i).pr = _
      rw [putCtx_self, hacts.inboundRequestBuf]
      rfl
    · exact Queued.setAt_pending hsnoop.pending_eq i b

theorem Requested.snoop (h : Requested (control v m) i q) {reply wire : Bool} {ℓ : Line}
    (hacts : Acts (v.sim.ctx i q.addr) c q.addr
      { reply := if reply then some (l1 q.node) else none, shared := wire })
    {reply' : ℕ} (hreply : reply' = if reply then m.copy i q.addr else v.reply) :
    Requested
      (control { v with sim := v.sim.putCtx i q.addr c, reply := reply' }
        (m.snoop q i reply wire ℓ)) (i + 1) q where
  txn := h.txn
  snooped j := by
    have hj : m.snooped j ↔ (j : ℕ) < i := h.snooped j
    change m.snooped j ∨ j = i ↔ (j : ℕ) < i + 1
    rw [hj, Fin.ext_iff]
    omega
  requestInProgress := hacts.requestInProgress.trans h.requestInProgress
  currentRequest := hacts.currentRequest.trans h.currentRequest
  reply := by
    have hdata : c.bus.dataReply = _ := hacts.dataReply
    cases reply with
    | true => exact .inr ⟨hreply ▸ rfl, i, hdata⟩
    | false =>
      obtain rfl : reply' = v.reply := hreply
      exact h.reply.imp (fun h ↦ ⟨h.1, hdata.trans h.2⟩)
        fun h ↦ ⟨h.1, h.2.imp fun j hj ↦ hdata.trans hj⟩
  mc := h.mc
  mem := h.mem

theorem snoopTicked_request {reply' : ℕ} {effect : Effect}
    (hacts : Acts (v.sim.ctx i q.addr) c q.addr effect) (hanswer : effect.answer = false) :
    SnoopTicked i (.request q) v
      { v with sim := v.sim.putCtx i q.addr c, reply := reply' } := by
  refine ⟨⟨rfl, rfl⟩, fun j hj ↦ putCtx_others hj, putCtx_self ▸ rfl,
    .inr ⟨?_, putCtx_self ▸ rfl⟩, nofun⟩
  change ((v.sim.putCtx i q.addr c).nodes i).pr = _
  rw [putCtx_self, hacts.inboundRequestBuf, hanswer]
  rfl

/-- The requester after it has taken the data on the bus. -/
def deliveredState (v : Versioned P n) (q : Request (Fin n) PAddr) (c : Ctx P.State) :
    Versioned P n :=
  { v with
    sim := v.sim.putCtx q.node q.addr c
    copy := setAt v.copy q.node q.addr ((v.want q.node).next v.onBus)
    answers := ⟨q.node, v.want q.node, q.addr, (v.want q.node).next v.onBus⟩ :: v.answers }

@[simp] theorem deliveredState_sim :
    (deliveredState v q c).sim = v.sim.putCtx q.node q.addr c := rfl

/-- The requester takes the data. -/
theorem deliver_refines (h : Refines L settings versions v m) (htxn : m.txn = some q)
    (hall : ∀ j, m.snooped j) (hflight : m.flight = some v.onBus)
    (hfill : Fill (m.line q.node q.addr) m.wire (L.view c.state))
    (hacts : Acts (v.sim.ctx q.node q.addr) c q.addr { answer := true }) :
    Refines L settings versions (deliveredState v q c)
      (m.deliver q (v.want q.node) v.onBus (L.view c.state)) := by
  obtain ⟨status, hnode⟩ := h.agrees.node q.node
  obtain ⟨op, addr, hk, rfl, haddr⟩ :=
    hnode.waiting_of_pending (h.inv.queued.pending_of_txn htxn)
  have hwant : v.want q.node = op := hnode.want rfl
  refine ⟨h.reachable.step (.deliver htxn hall hflight hfill (by rwa [hwant])), ?_⟩
  refine h.agrees.of_cache (fun j hj ↦ putCtx_others hj) ?_ rfl ?_ ?_ ?_ ?_ rfl
    (fun _ _ ↦ rfl) ?_ ?_
  · exact putCtx_self ▸ rfl
  · exact (hacts.pendingRequests_eq rfl).trans h.agrees.queue
  · exact (hacts.sharedLine_eq rfl).trans h.agrees.wire
  · simp only [deliveredState, Machine.deliver, Machine.answer, h.agrees.copy]
  · simp only [deliveredState, Machine.deliver, Machine.answer, h.agrees.answers]
  · exact fun j hj ↦ accessesOf_cons_of_ne hj
  · refine ⟨.buffered addr, ?_⟩
    simp only [Machine.deliver, Machine.answer, accessesOf_cons_self]
    rw [hwant, haddr]
    refine hnode.answer rfl ?_ ?_ fun b ↦ ?_
    · rw [deliveredState_sim, putCtx_self]
      exact hnode.procRequest
    · rw [deliveredState_sim, putCtx_self, hacts.inboundRequestBuf, if_pos rfl, haddr]
      simp [cacheMessage, Simulator.ctx]
    · rw [setAt_apply]
      split
      · exact hfill.pending_right
      · rename_i hne
        exact (hnode.pending b).trans (if_neg fun hb ↦ hne ⟨rfl, hb⟩)

/-- The second half of a cache's tick when a request is on the bus. -/
theorem tickSnoop_request (h : Refines L settings versions v m)
    (hphase : Requested (control v m) i q)
    (hserves : stalls → q.kind = .read → m.line i q.addr ≠ .OM) :
    ∃ v' m', v.tickSnoop i = .ok v' ∧ Refines L settings versions v' m' ∧
      Requested (control v' m') (i + 1) q ∧ SnoopTicked i (.request q) v v' := by
  have htxn : m.txn = some q := hphase.txn
  have haddr := h.blockAddr_of_txn htxn
  have hcurrent : v.sim.bus.busSnoop = some (requestMessage q) := hphase.currentRequest
  have hnot : ¬ m.snooped i := fun hi ↦ (hphase.snooped i |>.1 hi).ne rfl
  have hrun {c v'} (hc : P.processSnoopRequest (v.sim.ctx i q.addr) (requestMessage q) = .ok c)
      (hv' : v.observe (v.sim.putCtx i q.addr c) i q.addr (v.want i) = v') :
      v.tickSnoop i = .ok v' := by
    have hreq : (requestMessage q).addr = q.addr := haddr
    have hsim : v.sim.tickSnoop i = .ok (v.sim.putCtx i q.addr c) := by
      simp only [Simulator.tickSnoop, hcurrent, requestMessage_msg_ne, false_and, if_false, hreq]
      exact congrArg (· >>= _) hc
    simp only [Versioned.tickSnoop, hsim, hcurrent, Versioned.receive, requestMessage_msg_ne,
      false_and, if_false, hreq]
    exact congrArg Except.ok hv'
  have hline : L.view (v.sim.ctx i q.addr).state = m.line i q.addr := (h.agrees.line i _).symm
  have hreply (howner : (m.line i q.addr).owner) :
      m.flight = none ∧ v.sim.bus.dataReply = none := by
    refine hphase.reply.resolve_right fun hserved ↦ ?_
    have hflight : m.flight = some v.reply := hserved.1
    have := h.inv.snooped.served htxn (by rw [hflight]; rfl) hnot
    simp [howner] at this
  have hown : decide ((requestMessage q).srcMid = (v.sim.ctx i q.addr).moduleID) =
      decide (i = q.node) := by
    simp only [decide_eq_decide]
    exact ⟨fun heq ↦ (l1_injective heq).symm, fun heq ↦ heq ▸ rfl⟩
  have hsnoops : Snoops demotes L.view q.kind (v.sim.ctx i q.addr) (requestMessage q)
      (P.processSnoopRequest _ (requestMessage q)) :=
    L.snoop rfl (by rwa [hline]) fun howner ↦ (hreply (hline ▸ howner)).2
  have hreq : (requestMessage q).addr = q.addr := haddr
  obtain ⟨_, hsnoop, c, hc, rfl, hacts⟩ | ⟨_, hsnoop, c, hc, rfl, hacts⟩ := hsnoops
  · rw [hown, hline] at hsnoop
    rw [hreq] at hacts
    refine ⟨_, _, hrun hc (Versioned.observe_silent hacts.dataReply ?_),
      snoop_refines h htxn hnot hsnoop hacts, hphase.snoop hacts rfl,
      snoopTicked_request hacts rfl⟩
    rw [putCtx_self, hacts.inboundRequestBuf]
    rfl
  · rw [hown, hline] at hsnoop
    rw [hreq] at hacts
    obtain ⟨hflight, hdata⟩ := hreply (hsnoop.reply_eq ▸ rfl)
    have hdata' : c.bus.dataReply = some _ := hacts.dataReply
    refine ⟨_, _, hrun hc (Versioned.observe_reply hdata ?_ ?_),
      snoop_refines h htxn hnot hsnoop hacts, hphase.snoop hacts ?_,
      snoopTicked_request hacts rfl⟩
    · exact congrArg Option.isSome hdata'
    · rw [putCtx_self, hacts.inboundRequestBuf]
      rfl
    · rw [if_pos rfl, h.agrees.copy]

theorem tickSnoop_delivered {source : ModuleID}
    (hcurrent : v.sim.bus.busSnoop = some (cacheMessage .DATA q.addr source (l1 q.node)))
    (haddr : blockAddr q.addr = q.addr)
    (hc : P.processSnoopRequest (v.sim.ctx q.node q.addr)
      (cacheMessage .DATA q.addr source (l1 q.node)) = .ok c)
    (hacts : Acts (v.sim.ctx q.node q.addr) c q.addr { answer := true })
    (hbuffered : (v.sim.nodes q.node).pr.inboundRequestBuf = none) :
    v.tickSnoop q.node = .ok (deliveredState v q c) := by
  have hreq : (cacheMessage .DATA q.addr source (l1 q.node)).addr = q.addr := haddr
  have hbuf : c.inboundRequestBuf = some (cacheMessage .DATA q.addr (l1 q.node)) :=
    hacts.inboundRequestBuf
  have hsim : v.sim.tickSnoop q.node = .ok (v.sim.putCtx q.node q.addr c) := by
    simp only [Simulator.tickSnoop, hcurrent]
    rw [if_neg fun hother ↦ hother.2 rfl, hreq, hc]
    rfl
  have hreceive : v.receive q.node (cacheMessage .DATA q.addr source (l1 q.node)) =
      { v with copy := setAt v.copy q.node q.addr v.onBus } := by
    rw [Versioned.receive, if_pos ⟨rfl, rfl⟩, hreq]
  have hobserve : ({ v with copy := setAt v.copy q.node q.addr v.onBus } :
      Versioned P n).observe (v.sim.putCtx q.node q.addr c) q.node q.addr (v.want q.node) = _ :=
    Versioned.observe_answer hacts.dataReply hbuffered (by rw [putCtx_self, hbuf]; rfl)
  simp only [Versioned.tickSnoop, hsim, hcurrent, hreq]
  rw [hreceive]
  apply congrArg Except.ok
  rw [hobserve]
  simp only [Versioned.answer, setAt_self, setAt_setAt, deliveredState]

/-- The second half of a cache's tick when the data for its own request is on the bus. -/
theorem tickSnoop_own (h : Refines L settings versions v m) {source : ModuleID}
    (hphase : Delivering (control v m) q.node q source) :
    ∃ v' m', v.tickSnoop q.node = .ok v' ∧ Refines L settings versions v' m' ∧
      Delivering (control v' m') (q.node + 1) q source ∧
      SnoopTicked q.node (.data q source) v v' := by
  obtain ⟨htxn, hall, hflight, hmem⟩ : m.txn = some q ∧ (∀ j, m.snooped j) ∧
    m.flight = some v.onBus ∧ m.mem = v.mem := hphase.before le_rfl
  have hcurrent : v.sim.bus.busSnoop =
      some (cacheMessage .DATA q.addr source (l1 q.node)) := hphase.currentRequest
  have hreq : (cacheMessage .DATA q.addr source (l1 q.node)).addr = q.addr :=
    hphase.addr
  obtain ⟨status, hnode⟩ := h.agrees.node q.node
  have hpending := h.inv.queued.pending_of_txn htxn
  obtain ⟨op, addr, hk, rfl, -⟩ := hnode.waiting_of_pending hpending
  have hline : L.view (v.sim.ctx q.node q.addr).state = m.line q.node q.addr :=
    (h.agrees.line q.node _).symm
  obtain ⟨_, hfill, c, hc, rfl, hacts⟩ : ∃ next,
      Fill (L.view (v.sim.ctx q.node q.addr).state) v.sim.bus.sharedLine (L.view next) ∧
      Runs (P.processSnoopRequest (v.sim.ctx q.node q.addr)
        (cacheMessage .DATA q.addr source (l1 q.node))) (v.sim.ctx q.node q.addr) _ next
        { answer := true } :=
    L.fill rfl (by rw [hline, hpending]; rfl) hnode.buffered
  rw [hline, h.agrees.wire] at hfill
  rw [hreq] at hacts
  have hbuf : c.inboundRequestBuf = some (cacheMessage .DATA q.addr (l1 q.node)) :=
    hacts.inboundRequestBuf
  refine ⟨deliveredState v q c, _,
    tickSnoop_delivered hcurrent hphase.addr hc hacts hnode.buffered,
    deliver_refines h htxn hall hflight hfill hacts, ?_, ?_⟩
  · refine ⟨hacts.requestInProgress.trans hphase.requestInProgress,
      hacts.dataReply.trans hphase.dataReply, hacts.currentRequest.trans hphase.currentRequest,
      hphase.addr, hphase.fromMemory, fun hle ↦ absurd hle (by simp), fun _ ↦ ⟨rfl, ?_⟩⟩
    change Function.update m.mem q.addr v.onBus = Function.update v.mem q.addr v.onBus
    rw [hmem]
  · refine ⟨⟨rfl, rfl⟩, fun j hj ↦ putCtx_others hj, putCtx_self ▸ rfl, ?_, fun _ _ _ _ ↦ ?_⟩
    · left
      rw [hnode.work_eq]
      change ((v.sim.putCtx q.node q.addr c).nodes q.node).work < _
      rw [putCtx_self, hbuf]
      simp [Node.work, hnode.procRequest, Status.procRequest, Status.rank]
    · change ((v.sim.putCtx q.node q.addr c).nodes q.node).pr.inboundRequestBuf.isSome
      rw [putCtx_self, hbuf]
      rfl

/-- The second half of a cache's tick when the data on the bus is for another cache. -/
theorem tickSnoop_other {source : ModuleID} (hphase : Delivering (control v m) i q source)
    (hne : i ≠ q.node) :
    v.tickSnoop i = .ok v ∧ Delivering (control v m) (i + 1) q source := by
  have hlt : (i : ℕ) ≠ q.node := fun heq ↦ hne (Fin.ext heq)
  constructor
  · have hcurrent : v.sim.bus.busSnoop =
        some (cacheMessage .DATA q.addr source (l1 q.node)) := hphase.currentRequest
    have hdest : (cacheMessage .DATA q.addr source (l1 q.node)).destMid ≠ l1 i :=
      fun heq ↦ hne (l1_injective heq).symm
    have hsim : v.sim.tickSnoop i = .ok v.sim := by
      simp only [Simulator.tickSnoop, hcurrent]
      rw [if_pos ⟨rfl, hdest⟩]
    simp only [Versioned.tickSnoop, hsim, hcurrent, Versioned.receive]
    rw [if_neg fun hown ↦ hdest hown.2]
    exact congrArg Except.ok (Versioned.observe_silent rfl rfl)
  · exact { hphase with
      before := fun hle ↦ hphase.before (by omega)
      after := fun hlt' ↦ hphase.after (by omega) }

/-- The second half of a cache's tick. -/
theorem tickSnoop_refines (h : Refines L settings versions v m) {p : Phase n}
    (hphase : InLoop (control v m) i p)
    (hserves : stalls → ∀ q, p = .request q → q.kind = .read → m.line i q.addr ≠ .OM) :
    ∃ v' m', v.tickSnoop i = .ok v' ∧ Refines L settings versions v' m' ∧
      InLoop (control v' m') (i + 1) p ∧ SnoopTicked i p v v' := by
  have hsilent (hcurrent : v.sim.bus.currentRequest = none) : v.tickSnoop i = .ok v := by
    simp only [Versioned.tickSnoop, Simulator.tickSnoop, Bus.busSnoop, hcurrent]
    rfl
  cases p with
  | quiet => exact ⟨v, m, hsilent hphase.2, h, hphase, .refl i _ v nofun⟩
  | lookup q => exact ⟨v, m, hsilent hphase.2, h, hphase, .refl i _ v nofun⟩
  | request q => exact tickSnoop_request h hphase fun hstalls ↦ hserves hstalls q rfl
  | data q source =>
    by_cases hown : i = q.node
    · subst hown
      exact tickSnoop_own h hphase
    · obtain ⟨hrun, hnext⟩ := tickSnoop_other hphase hown
      refine ⟨v, m, hrun, h, hnext, .refl i _ v ?_⟩
      rintro q' source' heq
      cases heq
      exact hown

end Snoop

/-! ## The tick of a cache -/

/-- What the tick of a cache does besides refining. -/
structure CacheTicked (i : Fin n) (p : Phase n) (v v' : Versioned P n) : Prop where
  clock : v'.sim.mc = v.sim.mc ∧ v'.sim.globalClock = v.sim.globalClock
  others : ∀ j, j ≠ i → v'.sim.nodes j = v.sim.nodes j
  progress : Progresses (v.sim.nodes i) (v'.sim.nodes i)
  procRequest : (v'.sim.nodes i).cache.procRequest = none
  delivered : ∀ q source, p = .data q source → i = q.node →
    (v'.sim.nodes i).pr.inboundRequestBuf.isSome

/-- A cache never aborts, and its tick refines the machine, provided that with `stalls` it is not
asked for a block that it is upgrading. -/
theorem tickCache_refines (h : Refines L settings versions v m) {p : Phase n}
    (hphase : InLoop (control v m) i p)
    (hserves : stalls → ∀ q, p = .request q → q.kind = .read →
      ¬ L.Upgrades (v.sim.nodes i) q.addr) :
    ∃ v' m', v.tickCache i = .ok v' ∧ Refines L settings versions v' m' ∧
      InLoop (control v' m') (i + 1) p ∧ CacheTicked i p v v' := by
  obtain ⟨v₁, m₁, hrun₁, h₁, hticked₁⟩ := tickProcRequest_refines h i
  obtain ⟨v₂, m₂, hrun₂, h₂, hphase₂, hticked₂⟩ :=
    tickSnoop_refines h₁ (hticked₁.control.symm ▸ hphase) fun hstalls q hp hkind hOM ↦
      hserves hstalls q hp hkind (hticked₁.upgrades q.addr hOM)
  have hclock₁ : v₁.sim.mc = v.sim.mc ∧ v₁.sim.globalClock = v.sim.globalClock :=
    ⟨congrArg Control.mc hticked₁.control, congrArg Control.clock hticked₁.control⟩
  refine ⟨v₂, m₂, ?_, h₂, hphase₂, ⟨hticked₂.clock.1.trans hclock₁.1,
    hticked₂.clock.2.trans hclock₁.2⟩, fun j hj ↦ ?_, ?_, ?_, hticked₂.delivered⟩
  · rw [Versioned.tickCache, hrun₁]
    exact hrun₂
  · rw [hticked₂.others j hj, hticked₁.others j hj]
  · exact hticked₁.progress.trans hticked₂.progress
  · rw [hticked₂.procRequest, hticked₁.procRequest]

end ArchSim.Coherence
