import ArchSim.Coherence.CacheSteps

/-!
# A cycle refines the snooping machine

The bus, the loops over the caches and over the processors, the memory controller, and the last
loop over the processors, each with what it does to the granted request and to the work that the
nodes have left.
-/

namespace ArchSim.Coherence

open Library AtomicMemory Snooping

variable {P : Protocol} {n : ℕ} {demotes stalls : Bool} {L : Lawful P demotes stalls}
  {settings : Settings n} {versions : PAddr → ℕ} {v : Versioned P n}
  {m : Machine (Fin n) PAddr} {p : Phase n}

/-! ## The bus -/

/-- The phase after the tick of the bus, when `queue` waits for it. -/
def Phase.tick : Phase n → List (Request (Fin n) PAddr) → Phase n
  | .quiet, q :: _ => .request q
  | p, _ => p

theorem busTick_refines (h : Refines L settings versions v m) (hend : AtEnd (control v m) p) :
    ∃ m', Refines L settings versions v.busTick m' ∧
      InLoop (control v.busTick m') 0 (p.tick m.queue) := by
  have keeps (hqueue : v.busTick.sim.bus.pendingRequests = v.sim.bus.pendingRequests)
      (hwire : v.busTick.sim.bus.sharedLine = v.sim.bus.sharedLine) :
      Refines L settings versions v.busTick m :=
    ⟨h.reachable, { h.agrees with queue := hqueue.trans h.agrees.queue
                                  wire := hwire.trans h.agrees.wire }⟩
  cases p with
  | quiet =>
    have hprogress : v.sim.bus.requestInProgress = false := hend.requestInProgress
    cases hqueue : m.queue with
    | nil =>
      have hpending : v.sim.bus.pendingRequests = [] := by rw [h.agrees.queue, hqueue]; rfl
      have hbus : v.busTick.sim.bus = { v.sim.bus with currentRequest := none } :=
        Bus.tick_of_nil hprogress hpending
      refine ⟨m, keeps (by rw [hbus]) (by rw [hbus]), ?_, by simp [control, hbus]⟩
      exact { hend with
        requestInProgress := by simp [control, hbus, hprogress]
        dataReply := (congrArg Bus.dataReply hbus).trans hend.dataReply }
    | cons q rest =>
      have hpending : v.sim.bus.pendingRequests = requestMessage q :: rest.map requestMessage := by
        rw [h.agrees.queue, hqueue]
        rfl
      have hbus : v.busTick.sim.bus = { v.sim.bus with
          sharedLine := false
          currentRequest := some (requestMessage q)
          pendingRequests := rest.map requestMessage
          requestInProgress := true } := Bus.tick_of_cons hprogress hpending
      refine ⟨m.grant q rest, ⟨h.reachable.step (.grant hend.txn hqueue), ?_⟩, ?_⟩
      · exact { h.agrees with queue := by rw [hbus]; rfl, wire := by rw [hbus]; rfl }
      · refine ⟨rfl, fun j ↦ by simp [control, Machine.grant], by simp [control, hbus],
          by simp [control, hbus], .inl ⟨rfl, ?_⟩, hend.mc, hend.mem⟩
        exact (congrArg Bus.dataReply hbus).trans hend.dataReply
  | request q => exact hend.elim
  | lookup q =>
    obtain ⟨hlookup, -⟩ := hend
    have hbus : v.busTick.sim.bus = { v.sim.bus with currentRequest := none } :=
      Bus.tick_of_none hlookup.requestInProgress hlookup.dataReply
    refine ⟨m, keeps (by rw [hbus]) (by rw [hbus]), ?_, by simp [control, hbus]⟩
    exact { hlookup with
      requestInProgress := (congrArg Bus.requestInProgress hbus).trans hlookup.requestInProgress
      dataReply := (congrArg Bus.dataReply hbus).trans hlookup.dataReply }
  | data q source =>
    have hbus : v.busTick.sim.bus = { v.sim.bus with
        currentRequest := some (cacheMessage .DATA q.addr source (l1 q.node))
        dataReply := none
        requestInProgress := false } :=
      Bus.tick_of_some hend.requestInProgress hend.dataReply
    refine ⟨m, keeps (by rw [hbus]) (by rw [hbus]), by simp [control, hbus],
      by simp [control, hbus], by simp [control, hbus], h.blockAddr_of_txn hend.txn,
      hend.fromMemory, fun _ ↦ ?_, fun hlt ↦ absurd hlt (Nat.not_lt_zero _)⟩
    exact ⟨hend.txn, hend.snooped, hend.flight, hend.mem⟩

/-! ## The loop over the caches -/

/-- What the loop over the caches does besides refining, when it has passed `k` of them. -/
structure CachesTicked (k : ℕ) (p : Phase n) (v v' : Versioned P n) : Prop where
  clock : v'.sim.mc = v.sim.mc ∧ v'.sim.globalClock = v.sim.globalClock
  others : ∀ j : Fin n, k ≤ j → v'.sim.nodes j = v.sim.nodes j
  progress : ∀ j, Progresses (v.sim.nodes j) (v'.sim.nodes j)
  procRequest : ∀ j : Fin n, j < k → (v'.sim.nodes j).cache.procRequest = none
  delivered : ∀ q source, p = .data q source → (q.node : ℕ) < k →
    (v'.sim.nodes q.node).pr.inboundRequestBuf.isSome

theorem CachesTicked.next {i : Fin n} {v₁ v₂ : Versioned P n} (h : CachesTicked i p v v₁)
    (hticked : CacheTicked i p v₁ v₂) : CachesTicked (i + 1) p v v₂ := by
  have hcases (j : Fin n) (hj : (j : ℕ) < i + 1) : j = i ∨ j ≠ i ∧ (j : ℕ) < i := by
    by_cases heq : j = i
    · exact .inl heq
    · exact .inr ⟨heq, lt_of_le_of_ne (Nat.lt_succ_iff.mp hj) fun hv ↦ heq (Fin.ext hv)⟩
  constructor
  · exact ⟨hticked.clock.1.trans h.clock.1, hticked.clock.2.trans h.clock.2⟩
  · intro j hj
    have hne : j ≠ i := by
      rintro rfl
      omega
    rw [hticked.others j hne, h.others j (by omega)]
  · intro j
    by_cases heq : j = i
    · exact heq ▸ (h.progress i).trans hticked.progress
    · exact hticked.others j heq ▸ h.progress j
  · intro j hj
    rcases hcases j hj with rfl | ⟨hne, hlt⟩
    · exact hticked.procRequest
    · exact hticked.others j hne ▸ h.procRequest j hlt
  · intro q source hp hlt
    rcases hcases q.node hlt with heq | ⟨hne, hlt⟩
    · exact heq ▸ hticked.delivered q source hp heq.symm
    · exact hticked.others q.node hne ▸ h.delivered q source hp hlt

/-- The loop over the caches never aborts. -/
theorem tickCaches_refines {bad : Prop} (h : Refines L settings versions v m)
    (hphase : InLoop (control v m) 0 p)
    (hserves : stalls → ∀ q, p = .request q → q.kind = .read →
      ∀ i, ¬ L.Upgrades (v.sim.nodes i) q.addr) :
    Yields bad ((List.finRange n).foldlM Versioned.tickCache v) fun v' ↦
      ∃ m', Refines L settings versions v' m' ∧ InLoop (control v' m') n p ∧
        CachesTicked n p v v' := by
  refine Yields.foldlM_finRange (I := fun k v' ↦ ∃ m', Refines L settings versions v' m' ∧
    InLoop (control v' m') k p ∧ CachesTicked k p v v') ?_ ?_
  · rintro i v₁ ⟨m₁, h₁, hphase₁, hticked₁⟩
    obtain ⟨v₂, m₂, hrun, h₂, hphase₂, hticked₂⟩ := tickCache_refines h₁ hphase₁
      fun hstalls q hp hkind ↦ by
        rw [hticked₁.others i le_rfl]
        exact hserves hstalls q hp hkind i
    rw [hrun]
    exact ⟨m₂, h₂, hphase₂, hticked₁.next hticked₂⟩
  · exact ⟨m, h, hphase, ⟨rfl, rfl⟩, fun _ _ ↦ rfl, fun _ ↦ .refl _, fun _ hj ↦ absurd hj (by simp),
      fun _ _ _ hlt ↦ absurd hlt (by simp)⟩

/-! ## The loop over the processors -/

/-- A tick of a processor has brought the node on, or nothing is to be done: its trace has ended
or it waits, and no answer has arrived. -/
def Rested {σ : Type} (node : Node σ) : Prop :=
  node.pr.inboundRequest = none ∧ (node.pr.endOfTrace ∨ node.pr.outstandingRequest)

section Node

variable {σ : Type} {i : Fin n} {trace : List TraceLine} {node : Node σ} {want : Op}
  {pending : PAddr → Option Kind} {log : List (Op × PAddr)} {status : Status} {bad : Prop}

/-- Every line but a read or a write makes the processor abort. -/
theorem request_yields (line : TraceLine)
    (hbad : line.c ≠ 'r' → line.c ≠ 'w' → bad) :
    Yields bad (line.request i) fun request ↦
      ∃ op, line.access = (op, blockAddr line.addr) ∧
        request = Mreq.new (opMessage op) line.addr ⟨i, .PR⟩ := by
  obtain ⟨c, addr⟩ := line
  by_cases hr : c = 'r'
  · subst hr
    exact ⟨.load, rfl, rfl⟩
  · by_cases hw : c = 'w'
    · subst hw
      exact ⟨.store, rfl, rfl⟩
    · simp only [TraceLine.request]
      exact hbad hr hw

/-- A processor with nothing outstanding fetches the next line of its trace. -/
theorem fetch_yields (h : NodeOk i trace node want pending log .idle)
    (hbad : ∀ line ∈ trace, line.c ≠ 'r' → line.c ≠ 'w' → bad) :
    Yields bad (node.fetch i) fun node' ↦
      (∃ status, NodeOk i trace node' want pending log status) ∧
        node'.cache.myEntries = node.cache.myEntries ∧
        (node'.work < node.work ∨ node' = node ∧ Rested node) := by
  have hwork := h.work_eq
  have houtstanding : node.pr.outstandingRequest = false := h.outstanding
  cases hended : node.pr.endOfTrace with
  | true =>
    have hfetch : node.fetch i = .ok node := by simp [Node.fetch, hended]
    rw [hfetch]
    exact ⟨⟨_, h⟩, rfl, .inr ⟨rfl, h.inbound, .inl hended⟩⟩
  | false =>
    obtain ⟨fetched, htrace, haccess⟩ := h.fetched
    cases hinfile : node.pr.infile with
    | nil =>
      have hfetch : node.fetch i = .ok { node with pr := { node.pr with endOfTrace := true } } := by
        simp [Node.fetch, hended, houtstanding, hinfile]
      rw [hfetch]
      have hnode : NodeOk i trace { node with pr := { node.pr with endOfTrace := true } } want
          pending log .idle :=
        { h with ended := fun _ ↦ ⟨rfl, hinfile⟩ }
      refine ⟨⟨_, hnode⟩, rfl, .inl ?_⟩
      rw [hnode.work_eq, hwork, hended]
      simp
    | cons line rest =>
      have hfetch : node.fetch i = (do
          let request ← line.request i
          return {
            cache := { node.cache with procRequest := some request }
            pr := { node.pr with infile := rest, outstandingRequest := true } }) := by
        simp [Node.fetch, hended, houtstanding, hinfile]
      rw [hfetch]
      apply (request_yields line (hbad line (by simp [htrace, hinfile]))).bind
      rintro request ⟨op, hop, rfl⟩
      have hnode : NodeOk i trace
          { cache := { node.cache with
              procRequest := some (Mreq.new (opMessage op) line.addr ⟨i, .PR⟩) }
            pr := { node.pr with infile := rest, outstandingRequest := true } } want pending log
          (.issued op line.addr) :=
        { procRequest := rfl
          outstanding := rfl
          inbound := h.inbound
          buffered := h.buffered
          pending := h.pending
          want := nofun
          fetched := ⟨fetched ++ [line], by simp [htrace, hinfile], by
            rw [List.map_append, haccess]
            simp [Status.owed, hop]⟩
          ended := fun htrue ↦ absurd (hended.symm.trans htrue) (by simp) }
      refine ⟨⟨_, hnode⟩, rfl, .inl ?_⟩
      rw [hnode.work_eq, hwork, hinfile]
      simp only [Status.rank, List.length_cons]
      omega

/-- A delivered answer is taken, and then the next line is fetched. -/
theorem tickPr_yields (h : NodeOk i trace node want pending log status)
    (hbad : ∀ line ∈ trace, line.c ≠ 'r' → line.c ≠ 'w' → bad) :
    Yields bad (node.tickPr i) fun node' ↦
      (∃ status, NodeOk i trace node' want pending log status) ∧
        node'.cache.myEntries = node.cache.myEntries ∧
        (node'.work < node.work ∨ node' = node ∧ Rested node) := by
  by_cases hanswered : ∃ addr, status = .answered addr
  · obtain ⟨addr, rfl⟩ := hanswered
    have hinbound : node.pr.inboundRequest = some (cacheMessage .DATA addr (l1 i)) := h.inbound
    have hcomplete : node.pr.complete =
        .ok { node.pr with outstandingRequest := false, inboundRequest := none } := by
      simp [Processor.complete, hinbound, cacheMessage]
    have hnode : NodeOk i trace { node with
        pr := { node.pr with outstandingRequest := false, inboundRequest := none } }
        want pending log .idle :=
      { h with
        outstanding := rfl
        inbound := rfl
        want := fun hidle ↦ by cases hidle
        ended := fun hended ↦ by cases (h.ended hended).1 }
    rw [Node.tickPr, hcomplete]
    refine (fetch_yields hnode hbad).mono fun node' hfetched ↦ ?_
    obtain ⟨hok, hentries, hwork⟩ := hfetched
    refine ⟨hok, hentries, .inl ?_⟩
    have hless := h.work_eq
    rw [hnode.work_eq] at hwork
    simp only [Status.rank] at hwork hless
    rcases hwork with hlt | ⟨rfl, -⟩
    · omega
    · rw [hnode.work_eq, hless]
      simp [Status.rank]
  · have hinbound : node.pr.inboundRequest = none := by
      rw [h.inbound]
      cases status with
      | answered addr => exact absurd ⟨addr, rfl⟩ hanswered
      | _ => rfl
    have hcomplete : node.pr.complete = .ok node.pr := by simp [Processor.complete, hinbound]
    have htick : node.tickPr i = node.fetch i := by
      rw [Node.tickPr, hcomplete]
      rfl
    rw [htick]
    by_cases hidle : status = .idle
    · subst hidle
      exact fetch_yields h hbad
    · have houtstanding : node.pr.outstandingRequest = true := by
        rw [h.outstanding]
        cases status with
        | idle => exact absurd rfl hidle
        | _ => rfl
      have hfetch : node.fetch i = .ok node := by simp [Node.fetch, houtstanding]
      rw [hfetch]
      exact ⟨⟨_, h⟩, rfl, .inr ⟨rfl, hinbound, .inr houtstanding⟩⟩

end Node

/-- One node has changed, but none of its entries. -/
theorem Agrees.of_node (h : Agrees L settings v m) {i : Fin n} {node : Node P.State}
    (hentries : node.cache.myEntries = (v.sim.nodes i).cache.myEntries)
    (hnode : ∃ status, NodeOk i (settings.traces i) node (v.want i)
      (fun b ↦ (m.line i b).pending) (accessesOf i m.history) status) :
    Agrees L settings { v with sim := v.sim.setNode i node } m where
  line j b := by
    by_cases hj : j = i
    · subst hj
      simp [Simulator.setNode, hentries, h.line]
    · simp [Simulator.setNode, hj, h.line]
  queue := h.queue
  wire := h.wire
  copy := h.copy
  answers := h.answers
  node j := by
    by_cases hj : j = i
    · subst hj
      simpa [Simulator.setNode] using hnode
    · simpa [Simulator.setNode, hj] using h.node j
  hitTime := h.hitTime

/-- What the loop over the processors does besides refining, when it has passed `k` of them. -/
structure ProcessorsTicked (k : ℕ) (v v' : Versioned P n) : Prop where
  others : ∀ j : Fin n, k ≤ j → v'.sim.nodes j = v.sim.nodes j
  work : ∀ j : Fin n, j < k → (v'.sim.nodes j).work < (v.sim.nodes j).work ∨
    v'.sim.nodes j = v.sim.nodes j ∧ Rested (v.sim.nodes j)

theorem tickPr_eq (v : Versioned P n) (i : Fin n) :
    v.tickPr i = (v.sim.nodes i).tickPr i >>= fun node ↦
      .ok { v with sim := v.sim.setNode i node } := by
  simp only [Versioned.tickPr, Simulator.tickPr]
  cases (v.sim.nodes i).tickPr i <;> rfl

/-- The loop over the processors aborts only on a line that is neither a read nor a write. -/
theorem tickPrs_refines (h : Refines L settings versions v m) :
    Yields (¬ settings.WellFormed) ((List.finRange n).foldlM Versioned.tickPr v) fun v' ↦
      Refines L settings versions v' m ∧ control v' m = control v m ∧
        ProcessorsTicked n v v' := by
  refine Yields.foldlM_finRange (I := fun k v' ↦ Refines L settings versions v' m ∧
    control v' m = control v m ∧ ProcessorsTicked k v v') ?_ ?_
  · rintro i v₁ ⟨h₁, hcontrol₁, hticked₁⟩
    obtain ⟨status, hnode⟩ := h₁.agrees.node i
    have hbad : ∀ line ∈ settings.traces i, line.c ≠ 'r' → line.c ≠ 'w' →
        ¬ settings.WellFormed := fun line hline hr hw hwf ↦ (hwf i line hline).elim hr hw
    rw [tickPr_eq]
    apply (tickPr_yields hnode hbad).bind
    rintro node ⟨hok, hentries, hwork⟩
    rw [hticked₁.others i le_rfl] at hwork
    refine ⟨⟨h₁.reachable, h₁.agrees.of_node hentries hok⟩, hcontrol₁, fun j hj ↦ ?_, fun j hj ↦ ?_⟩
    · have hne : j ≠ i := by
        rintro rfl
        omega
      simpa [Simulator.setNode, hne] using hticked₁.others j (by omega)
    · by_cases hji : j = i
      · subst hji
        simpa [Simulator.setNode] using hwork
      · have hlt : (j : ℕ) < i :=
          lt_of_le_of_ne (Nat.lt_succ_iff.mp hj) fun hv ↦ hji (Fin.ext hv)
        simpa [Simulator.setNode, hji] using hticked₁.work j hlt
  · exact ⟨h, rfl, fun _ _ ↦ rfl, fun _ hj ↦ absurd hj (by simp)⟩

/-! ## The memory controller -/

section Memory

/-- The steps that the granted request, or the next one, still has to take. -/
def requestWork (requestInProgress : Bool) (dataReply : Option Mreq) (mc : MemoryController)
    (clock : ℕ) : ℕ :=
  if requestInProgress then
    if dataReply.isSome then 1 else 2 + (mc.dataTime - clock)
  else
    mc.hitTime + 2

def Control.work (c : Control n) : ℕ :=
  requestWork c.requestInProgress c.dataReply c.mc c.clock

theorem Quiet.work_eq {c : Control n} (h : Quiet c) : c.work = c.mc.hitTime + 2 := by
  simp [Control.work, requestWork, h.requestInProgress]

theorem LookingUp.work_eq {c : Control n} {q : Request (Fin n) PAddr} (h : LookingUp c q) :
    c.work = 2 + (c.mc.dataTime - c.clock) := by
  simp [Control.work, requestWork, h.requestInProgress, h.dataReply]

theorem Replied.work_eq {c : Control n} {q : Request (Fin n) PAddr} {source : ModuleID}
    (h : Replied c q source) : c.work = 1 := by
  simp [Control.work, requestWork, h.requestInProgress, h.dataReply]

def Control.advance (c : Control n) : Control n := { c with clock := c.clock + 1 }

/-- What the tick of the memory controller does besides refining. -/
structure McTicked (p : Phase n) (c c' : Control n) : Prop where
  bound : c'.work ≤ c.mc.hitTime + 2
  requested : ∀ q, p = .request q → c'.work < c.mc.hitTime + 2
  lookedUp : ∀ q, p = .lookup q → c'.work < c.work

variable {q : Request (Fin n) PAddr}

theorem mcSend_of_not_due
    (hnot : ¬ (v.sim.mc.requestInProgress ∧ v.sim.mc.dataTime ≤ v.sim.globalClock)) :
    v.mcSend = .ok v := by
  have hsend : v.sim.mcSend = .ok v.sim := by rw [Simulator.mcSend, if_neg hnot]
  simp only [Versioned.mcSend, hsend]
  cases hreply : v.sim.bus.dataReply <;> simp [hreply, bind, Except.bind, pure, Except.pure]

theorem mcSnoop_of_none (hcurrent : v.sim.bus.currentRequest = none) : v.mcSnoop = .ok v := by
  simp only [Versioned.mcSnoop, Simulator.mcSnoop, Bus.busSnoop, hcurrent]
  rfl

/-- What is shown of the memory controller's tick in each phase. -/
def McRefines (L : Lawful P demotes stalls) (settings : Settings n) (versions : PAddr → ℕ)
    (p : Phase n) (v : Versioned P n) (m : Machine (Fin n) PAddr) : Prop :=
  ∃ v' m' p', v.tickMc = .ok v' ∧ Refines L settings versions v' m' ∧
    v'.sim.nodes = v.sim.nodes ∧ AtEnd (control v' m').advance p' ∧
    McTicked p (control v m) (control v' m').advance

theorem tickMc_quiet (h : Refines L settings versions v m) (hphase : Quiet (control v m))
    (hcurrent : v.sim.bus.currentRequest = none) :
    McRefines L settings versions .quiet v m := by
  have hmc : v.sim.mc.requestInProgress = false := hphase.mc
  have hend : Quiet (control v m).advance := { hphase with }
  refine ⟨v, m, .quiet, ?_, h, rfl, hend, hend.work_eq.le, nofun, nofun⟩
  rw [Versioned.tickMc, mcSnoop_of_none hcurrent]
  exact mcSend_of_not_due (by simp [hmc])

/-- A request starts the look-up; a cache may have answered it already. -/
theorem tickMc_request (h : Refines L settings versions v m)
    (hphase : Requested (control v m) n q) (hpos : 0 < settings.hitTime) :
    McRefines L settings versions (.request q) v m := by
  have hmc : v.sim.mc.requestInProgress = false := hphase.mc
  have hcurrent : v.sim.bus.busSnoop = some (requestMessage q) := hphase.currentRequest
  have hhit : 0 < v.sim.mc.hitTime := h.agrees.hitTime ▸ hpos
  have hall (j : Fin n) : m.snooped j := (hphase.snooped j).2 j.isLt
  have haddr : (requestMessage q).addr = q.addr := h.blockAddr_of_txn hphase.txn
  let mc : MemoryController := { v.sim.mc with
    requestInProgress := true
    dataAddr := q.addr
    dataTarget := l1 q.node
    dataTime := v.sim.globalClock + v.sim.mc.hitTime }
  let v' : Versioned P n := { v with sim := { v.sim with mc := mc } }
  have hsnoop : v.mcSnoop = .ok v' := by
    have hsim : v.sim.mcSnoop = .ok { v.sim with mc := mc } := by
      simp only [Simulator.mcSnoop, hcurrent, haddr]
      rw [if_pos requestMessage_msg_ne, hmc]
      rfl
    simp only [Versioned.mcSnoop, hsim, hcurrent, requestMessage_msg_ne, false_and, if_false]
    rfl
  have hrun : v.tickMc = .ok v' := by
    rw [Versioned.tickMc, hsnoop]
    exact mcSend_of_not_due fun hdue ↦ by
      have : v.sim.globalClock + v.sim.mc.hitTime ≤ v.sim.globalClock := hdue.2
      omega
  have hrefines : Refines L settings versions v' m := ⟨h.reachable, { h.agrees with }⟩
  rcases hphase.reply with ⟨hflight, hreply⟩ | ⟨hflight, j, hreply⟩
  · have hend : LookingUp (control v' m).advance q :=
      ⟨hphase.txn, hall, hflight, hphase.requestInProgress, hreply, rfl, rfl, rfl,
        Nat.add_le_add_right (Nat.le_succ _) _, hphase.mem⟩
    have hwork : (control v' m).advance.work < v.sim.mc.hitTime + 2 := by
      rw [hend.work_eq]
      change 2 + (v.sim.globalClock + v.sim.mc.hitTime - (v.sim.globalClock + 1)) < _
      omega
    exact ⟨v', m, .lookup q, hrun, hrefines, rfl, ⟨hend, Nat.add_le_add_left hhit _⟩,
      hwork.le, fun _ _ ↦ hwork, nofun⟩
  · have hend : Replied (control v' m).advance q (l1 j) :=
      ⟨hphase.txn, hall, hflight, hphase.requestInProgress, hreply, fun hne ↦ absurd rfl hne,
        hphase.mem⟩
    have hwork : (control v' m).advance.work < v.sim.mc.hitTime + 2 := by
      rw [hend.work_eq]
      omega
    exact ⟨v', m, .data q (l1 j), hrun, hrefines, rfl, hend, hwork.le, fun _ _ ↦ hwork, nofun⟩

/-- The look-up goes on until the clock reaches `dataTime`; then the memory answers. -/
theorem tickMc_lookup (h : Refines L settings versions v m) (hphase : LookingUp (control v m) q)
    (hcurrent : v.sim.bus.currentRequest = none) :
    McRefines L settings versions (.lookup q) v m := by
  have hreply : v.sim.bus.dataReply = none := hphase.dataReply
  have htarget : v.sim.mc.dataTarget = l1 q.node := hphase.target
  have haddr : v.sim.mc.dataAddr = q.addr := hphase.addr
  have hmc : v.sim.mc.requestInProgress = true := hphase.mc
  have hlate : v.sim.mc.dataTime ≤ v.sim.globalClock + v.sim.mc.hitTime := hphase.dataTime
  by_cases hdue : v.sim.mc.dataTime ≤ v.sim.globalClock
  · let v' : Versioned P n := { v with
      sim := { v.sim with
        bus := { v.sim.bus with
          dataReply := some (cacheMessage .DATA q.addr ⟨n, .MC⟩ (l1 q.node)) }
        mc := { v.sim.mc with requestInProgress := false } }
      reply := v.mem q.addr }
    have hsim : v.sim.mcSend = .ok v'.sim := by
      simp [Simulator.mcSend, hmc, hdue, Bus.busRequest, Mreq.new, hreply, haddr, htarget,
        cacheMessage, bind, Except.bind, pure, Except.pure, v']
    have hrun : v.tickMc = .ok v' := by
      rw [Versioned.tickMc, mcSnoop_of_none hcurrent]
      simp only [bind, Except.bind, Versioned.mcSend, hsim, hreply, haddr]
      rfl
    have hstep : Step demotes m (m.supply q) :=
      .supply hphase.txn hphase.snooped hphase.flight
    have hmem : m.mem = v.mem := hphase.mem
    have hend : Replied (control v' (m.supply q)).advance q ⟨n, .MC⟩ :=
      ⟨hphase.txn, hphase.snooped, congrArg some (congrFun hmem q.addr),
        hphase.requestInProgress, rfl, fun _ ↦ rfl, hmem⟩
    have hwork := hend.work_eq
    refine ⟨v', m.supply q, .data q _, hrun, ⟨h.reachable.step hstep, { h.agrees with }⟩, rfl,
      hend, ?_, (fun _ hrequest ↦ by cases hrequest), fun _ _ ↦ ?_⟩
    · omega
    · rw [hphase.work_eq]
      omega
  · have hend : LookingUp (control v m).advance q :=
      { hphase with dataTime := hlate.trans (Nat.add_le_add_right (Nat.le_succ _) _) }
    have hwork : (control v m).advance.work =
        2 + (v.sim.mc.dataTime - (v.sim.globalClock + 1)) := hend.work_eq
    have hwork' : (control v m).work = 2 + (v.sim.mc.dataTime - v.sim.globalClock) :=
      hphase.work_eq
    refine ⟨v, m, .lookup q, ?_, h, rfl, ⟨hend, Nat.lt_of_not_le hdue⟩, ?_,
      (fun _ hrequest ↦ by cases hrequest), fun _ _ ↦ ?_⟩
    · rw [Versioned.tickMc, mcSnoop_of_none hcurrent]
      exact mcSend_of_not_due fun hdue' ↦ hdue hdue'.2
    · rw [hwork]
      change _ ≤ v.sim.mc.hitTime + 2
      omega
    · omega

/-- Data on the bus ends the look-up, and the memory keeps the data of a cache. -/
theorem tickMc_data (h : Refines L settings versions v m) {source : ModuleID}
    (hphase : Delivering (control v m) n q source) :
    McRefines L settings versions (.data q source) v m := by
  have hcurrent : v.sim.bus.busSnoop =
      some (cacheMessage .DATA q.addr source (l1 q.node)) := hphase.currentRequest
  have haddr : (cacheMessage .DATA q.addr source (l1 q.node)).addr = q.addr := hphase.addr
  obtain ⟨htxn, hmem⟩ : m.txn = none ∧ m.mem = Function.update v.mem q.addr v.onBus :=
    hphase.after q.node.isLt
  let v' : Versioned P n := { v with
    sim := { v.sim with mc := { v.sim.mc with requestInProgress := false } }
    mem := m.mem }
  have hsim : v.sim.mcSnoop = .ok v'.sim := by
    simp only [Simulator.mcSnoop, hcurrent]
    rw [if_neg fun hne ↦ hne rfl]
  have hsnoop : v.mcSnoop = .ok v' := by
    simp only [Versioned.mcSnoop, hsim, hcurrent, haddr, bind, Except.bind]
    by_cases hsource : source.moduleIndex = .L1
    · rw [if_pos ⟨rfl, hsource⟩, ← hmem]
      rfl
    · -- data from the memory itself carries the memory's version
      have hversion : v.onBus = v.mem q.addr := hphase.fromMemory hsource
      have hsame : m.mem = v.mem := by rw [hmem, hversion, Function.update_eq_self]
      rw [if_neg fun hcache ↦ hsource hcache.2]
      simp only [v', hsame]
      rfl
  have hend : Quiet (control v' m).advance :=
    ⟨htxn, hphase.requestInProgress, hphase.dataReply, rfl, rfl⟩
  refine ⟨v', m, .quiet, ?_, ⟨h.reachable, { h.agrees with }⟩, rfl, hend, hend.work_eq.le, nofun,
    nofun⟩
  have hsend : v'.mcSend = .ok v' := mcSend_of_not_due (by simp [v'])
  rw [Versioned.tickMc, hsnoop]
  exact hsend

/-- The memory controller never aborts. -/
theorem tickMc_refines (h : Refines L settings versions v m) (hphase : InLoop (control v m) n p)
    (hpos : 0 < settings.hitTime) : McRefines L settings versions p v m := by
  cases p with
  | quiet => exact tickMc_quiet h hphase.1 hphase.2
  | request q => exact tickMc_request h hphase hpos
  | lookup q => exact tickMc_lookup h hphase.1 hphase.2
  | data q source => exact tickMc_data h hphase

end Memory

/-! ## The last loop over the processors -/

section Tock

def Node.tock {σ : Type} (node : Node σ) : Node σ := { node with pr := node.pr.tock }

theorem tockAll_eq (s : Simulator P n) :
    s.tockAll = { s with nodes := fun i ↦ (s.nodes i).tock } := by
  have hloop : s.tockAll =
      { s with nodes := fun i ↦ if (i : ℕ) < n then (s.nodes i).tock else s.nodes i } := by
    refine foldl_finRange (I := fun k s' ↦ s' =
      { s with nodes := fun i ↦ if (i : ℕ) < k then (s.nodes i).tock else s.nodes i }) ?_ ?_
    · rintro i _ rfl
      simp only [Simulator.tockPr, Simulator.setNode, Simulator.mk.injEq, true_and, and_true]
      funext j
      by_cases hji : j = i
      · subst hji
        simp [Node.tock]
      · have hiff : (j : ℕ) < i + 1 ↔ (j : ℕ) < i := by
          rw [Fin.ext_iff] at hji
          omega
        simp [hji, hiff]
    · simp
  simpa using hloop

theorem NodeOk.tock {σ : Type} {i : Fin n} {trace : List TraceLine} {node : Node σ} {want : Op}
    {pending : PAddr → Option Kind} {log : List (Op × PAddr)} {status : Status}
    (h : NodeOk i trace node want pending log status) :
    (∃ status, NodeOk i trace node.tock want pending log status) ∧
      (node.tock.work < node.work ∨
        node.tock = node ∧ node.pr.inboundRequestBuf = none) := by
  cases status with
  | buffered addr =>
    have hbuf : node.pr.inboundRequestBuf = some (cacheMessage .DATA addr (l1 i)) := h.buffered
    have htock : node.tock = { node with pr := { node.pr with
        inboundRequest := some (cacheMessage .DATA addr (l1 i)), inboundRequestBuf := none } } := by
      simp [Node.tock, Processor.tock, hbuf]
    have hnode : NodeOk i trace node.tock want pending log (.answered addr) := by
      rw [htock]
      exact { h with
        inbound := rfl
        buffered := rfl
        want := nofun
        ended := fun hended ↦ nomatch (h.ended hended).1 }
    refine ⟨⟨_, hnode⟩, .inl ?_⟩
    rw [hnode.work_eq, h.work_eq, htock]
    simp [Status.rank]
  | idle | issued _ _ | waiting _ _ _ _ | answered _ =>
    have hbuf : node.pr.inboundRequestBuf = none := h.buffered
    have htock : node.tock = node := by simp [Node.tock, Processor.tock, hbuf]
    exact ⟨⟨_, htock ▸ h⟩, .inr ⟨htock, hbuf⟩⟩

theorem NodeOk.work_tock_le {σ : Type} {i : Fin n} {trace : List TraceLine} {node : Node σ}
    {want : Op} {pending : PAddr → Option Kind} {log : List (Op × PAddr)} {status : Status}
    (h : NodeOk i trace node want pending log status) : node.tock.work ≤ node.work := by
  rcases h.tock.2 with hlt | ⟨heq, -⟩
  · exact hlt.le
  · rw [heq]

end Tock

/-! ## The cycle -/

/-- With `stalls`: when a read is about to be granted, no cache upgrades its block. -/
def Lawful.Clear (L : Lawful P demotes stalls) (s : Simulator P n) : Prop :=
  ∀ request rest, s.bus.requestInProgress = false → s.bus.pendingRequests = request :: rest →
    request.msg = .GETS → ∀ i, ¬ L.Upgrades (s.nodes i) request.addr

/-- The node has come nearer to its end, or its access has not moved: it waits, or its trace has
ended and nothing is outstanding. -/
def Settles {σ : Type} (node node' : Node σ) : Prop :=
  node'.work < node.work ∨ (node'.pr = node.pr ∧
    node'.cache.procRequest = node.cache.procRequest ∧ node'.cache.procRequest = none ∧
    node'.pr.inboundRequestBuf = none ∧ Rested node')

/-- What a cycle does besides refining: every node settles, and if none has come nearer to its end,
then the granted request has, unless there is none. -/
structure Cycled (p : Phase n) (v v' : Versioned P n) (m m' : Machine (Fin n) PAddr) : Prop where
  node : ∀ i, Settles (v.sim.nodes i) (v'.sim.nodes i)
  bound : (control v' m').work ≤ v'.sim.mc.hitTime + 2
  advance : (∀ i, ¬ (v'.sim.nodes i).work < (v.sim.nodes i).work) → p.tick m.queue = .quiet ∨
    (control v' m').work < (control v m).work

/-- From the caches' loop to the end of the cycle, a node settles. -/
theorem settles_of_loops {σ : Type} {i : Fin n} {trace : List TraceLine} {node node₁ node₂ : Node σ}
    {want : Op} {pending : PAddr → Option Kind} {log : List (Op × PAddr)} {status : Status}
    (hcaches : Progresses node node₁) (hproc : node₁.cache.procRequest = none)
    (hprs : node₂.work < node₁.work ∨ node₂ = node₁ ∧ Rested node₁)
    (hnode : NodeOk i trace node₂ want pending log status) : Settles node node₂.tock := by
  rcases hprs with hlt | ⟨rfl, hrested⟩
  · left
    calc node₂.tock.work
        ≤ node₂.work := hnode.work_tock_le
      _ < node₁.work := hlt
      _ ≤ node.work := hcaches.work_le
  · rcases hnode.tock.2 with hlt' | ⟨heq, hbuf⟩
    · exact .inl (hlt'.trans_le hcaches.work_le)
    · rw [heq]
      exact hcaches.imp_right fun hsame ↦ ⟨hsame.1, hsame.2, hproc, hbuf, hrested⟩

/-- The data on the bus has brought the requester nearer to its end. -/
theorem work_lt_of_delivered {σ : Type} {i : Fin n} {trace : List TraceLine}
    {node node₁ node₂ : Node σ} {want : Op} {pending : PAddr → Option Kind}
    {log : List (Op × PAddr)} {status : Status}
    (hcaches : Progresses node node₁) (hdelivered : node₁.pr.inboundRequestBuf.isSome)
    (hprs : node₂.work < node₁.work ∨ node₂ = node₁ ∧ Rested node₁)
    (hnode : NodeOk i trace node₂ want pending log status) : node₂.tock.work < node.work := by
  rcases hprs with hlt | ⟨rfl, hrested⟩
  · calc node₂.tock.work
        ≤ node₂.work := hnode.work_tock_le
      _ < node₁.work := hlt
      _ ≤ node.work := hcaches.work_le
  · rcases hnode.tock.2 with hlt' | ⟨-, hbuf⟩
    · exact hlt'.trans_le hcaches.work_le
    · simp [hbuf] at hdelivered

/-- The last loop over the processors changes no entry and nothing of the granted request. -/
theorem tockAll_refines (h : Refines L settings versions v m) :
    Refines L settings versions { v with sim := v.sim.tockAll.advanceClock } m ∧
      control { v with sim := v.sim.tockAll.advanceClock } m = (control v m).advance := by
  rw [tockAll_eq]
  refine ⟨⟨h.reachable, { h.agrees with node := fun i ↦ ?_ }⟩, rfl⟩
  obtain ⟨status, hnode⟩ := h.agrees.node i
  exact hnode.tock.1

theorem not_upgrades_of_clear (h : Refines L settings versions v m)
    (hend : AtEnd (control v m) p) (hclear : L.Clear v.sim) {q : Request (Fin n) PAddr}
    (hq : p.tick m.queue = .request q) (hkind : q.kind = .read) (i : Fin n) :
    ¬ L.Upgrades (v.sim.nodes i) q.addr := by
  cases p with
  | quiet =>
    cases hqueue : m.queue with
    | nil => simp [hqueue, Phase.tick] at hq
    | cons q' rest =>
      obtain rfl : q' = q := by simpa [hqueue, Phase.tick] using hq
      have haddr : (requestMessage q').addr = q'.addr :=
        h.blockAddr_of_mem (by simp [Machine.requests, hqueue])
      have hpending : v.sim.bus.pendingRequests = requestMessage q' :: rest.map requestMessage := by
        rw [h.agrees.queue, hqueue]
        rfl
      have hmsg : (requestMessage q').msg = .GETS := by
        rw [requestMessage, hkind]
        rfl
      exact haddr ▸ hclear _ _ hend.requestInProgress hpending hmsg i
  | request q' => exact hend.elim
  | lookup q' => cases hq
  | data q' source => cases hq

/-- A cycle refines the machine. It aborts only on a line that is neither a read nor a write. -/
theorem cycle_refines (h : Refines L settings versions v m) (hend : AtEnd (control v m) p)
    (hclear : stalls → L.Clear v.sim) :
    Yields (¬ settings.WellFormed) v.cycle fun v' ↦
      ∃ m' p', Refines L settings versions v' m' ∧ AtEnd (control v' m') p' ∧
        Cycled p v v' m m' := by
  obtain ⟨m₁, h₁, hphase₁⟩ := busTick_refines h hend
  refine (tickCaches_refines h₁ hphase₁ fun hstalls _ hq hkind i ↦
    not_upgrades_of_clear h hend (hclear hstalls) hq hkind i).bind ?_
  rintro v₂ ⟨m₂, h₂, hphase₂, hcaches⟩
  apply (tickPrs_refines h₂).bind
  rintro v₃ ⟨h₃, hcontrol₃, hprs⟩
  obtain ⟨v₄, m₄, p₄, hrun₄, h₄, hnodes₄, hend₄, hmc⟩ :=
    tickMc_refines h₃ (hcontrol₃ ▸ hphase₂) settings.hitTime_pos
  rw [hrun₄]
  obtain ⟨h₅, hcontrol₅⟩ := tockAll_refines h₄
  refine ⟨m₄, p₄, h₅, hcontrol₅ ▸ hend₄, ?_⟩
  have hnodes₅ (i) : (v₄.sim.tockAll.advanceClock).nodes i = (v₃.sim.nodes i).tock := by
    rw [tockAll_eq, ← hnodes₄]
    rfl
  have hhit₃ : (control v₃ m₂).mc.hitTime = settings.hitTime := h₃.agrees.hitTime
  refine ⟨fun i ↦ ?_, ?_, fun hstays ↦ ?_⟩
  · obtain ⟨status, hnode⟩ := h₃.agrees.node i
    rw [hnodes₅]
    exact settles_of_loops (hcaches.progress i) (hcaches.procRequest i i.isLt)
      (hprs.work i i.isLt) hnode
  · rw [hcontrol₅, h₅.agrees.hitTime, ← hhit₃]
    exact hmc.bound
  · rw [hcontrol₅]
    cases p with
    | quiet =>
      cases hqueue : m.queue with
      | nil => exact .inl rfl
      | cons q rest =>
        have hhit : (control v m).mc.hitTime = settings.hitTime := h.agrees.hitTime
        rw [Quiet.work_eq hend, hhit, ← hhit₃]
        exact .inr (hmc.requested q (by rw [hqueue]; rfl))
    | request q => exact hend.elim
    | lookup q =>
      -- neither the clock nor the memory controller has moved since the start of the cycle
      have hlookup₂ : LookingUp (control v₂ m₂) q := hphase₂.1
      have hsame : (control v₂ m₂).work = (control v m).work := by
        rw [hlookup₂.work_eq, hend.1.work_eq]
        change 2 + (v₂.sim.mc.dataTime - v₂.sim.globalClock) = _
        rw [hcaches.clock.1, hcaches.clock.2]
        rfl
      rw [← hsame, ← hcontrol₃]
      exact .inr (hmc.lookedUp q rfl)
    | data q source =>
      obtain ⟨status, hnode⟩ := h₃.agrees.node q.node
      refine absurd ?_ (hstays q.node)
      rw [hnodes₅]
      exact work_lt_of_delivered (hcaches.progress q.node)
        (hcaches.delivered q source rfl q.node.isLt) (hprs.work q.node q.node.isLt) hnode

end ArchSim.Coherence
