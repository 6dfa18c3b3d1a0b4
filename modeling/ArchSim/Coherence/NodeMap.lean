import ArchSim.Coherence.Simulator

/-!
# Simulators that differ in their nodes

Two simulators whose nodes hold other entries, other requests of the processors and other lines of
the traces, but whose buses, memory controllers and counters are the same. If the handlers of the
two protocols do the same to an entry and its counterpart, the parts of a cycle do the same to the
two simulators; the processors are the exception, since what they fetch depends on the lines.
-/

namespace ArchSim.Coherence

open Library

/-- What a handler sees, with another state of its entry. -/
def Ctx.mapState {σ τ : Type} (φ : σ → τ) (c : Ctx σ) : Ctx τ where
  moduleID := c.moduleID
  state := φ c.state
  bus := c.bus
  inboundRequestBuf := c.inboundRequestBuf
  stats := c.stats

/-- What stands in the nodes of a simulator of `Q` for what stands in those of one of `P`. -/
structure NodeMap (P Q : Protocol) (n : ℕ) where
  state : P.State → Q.State
  request : Mreq → Mreq
  addr_request : ∀ r, (request r).addr = r.addr
  /-- The lines that are left to node `i`; they may depend on whether it has met the end. -/
  lines : Fin n → Bool → List TraceLine → List TraceLine

namespace NodeMap

variable {P Q : Protocol} {n : ℕ}

def processor (f : NodeMap P Q n) (i : Fin n) (pr : Processor) : Processor :=
  { pr with infile := f.lines i pr.endOfTrace pr.infile }

def node (f : NodeMap P Q n) (i : Fin n) (node : Node P.State) : Node Q.State where
  cache := {
    procRequest := node.cache.procRequest.map f.request
    myEntries := fun addr ↦ f.state (node.cache.myEntries addr) }
  pr := f.processor i node.pr

def map (f : NodeMap P Q n) (s : Simulator P n) : Simulator Q n where
  globalClock := s.globalClock
  nodes i := f.node i (s.nodes i)
  mc := s.mc
  bus := s.bus
  stats := s.stats

variable (f : NodeMap P Q n) (s : Simulator P n) (i : Fin n)

@[simp] theorem map_bus : (f.map s).bus = s.bus := rfl

@[simp] theorem map_mc : (f.map s).mc = s.mc := rfl

@[simp] theorem map_globalClock : (f.map s).globalClock = s.globalClock := rfl

@[simp] theorem map_procRequest : ((f.map s).nodes i).cache.procRequest =
    (s.nodes i).cache.procRequest.map f.request := rfl

theorem map_setNode (node : Node P.State) :
    (f.map s).setNode i (f.node i node) = f.map (s.setNode i node) := by
  simp only [map, Simulator.setNode]
  congr 1
  funext j
  by_cases hj : j = i
  · subst hj
    simp only [Function.update_self]
  · simp only [Function.update_of_ne hj]

theorem node_update (x : Node P.State) (addr : PAddr) (state : P.State) (buf : Option Mreq) :
    f.node i {
      cache := { x.cache with myEntries := Function.update x.cache.myEntries addr state }
      pr := { x.pr with inboundRequestBuf := buf } } = {
      cache := { (f.node i x).cache with
        myEntries := Function.update (f.node i x).cache.myEntries addr (f.state state) }
      pr := { (f.node i x).pr with inboundRequestBuf := buf } } := by
  have hentries := Function.comp_update f.state x.cache.myEntries addr state
  simp only [node, processor]
  congr 2

theorem map_putCtx (addr : PAddr) (c : Ctx P.State) :
    (f.map s).putCtx i addr (c.mapState f.state) = f.map (s.putCtx i addr c) := by
  have hnode := f.map_setNode s i {
    cache := { (s.nodes i).cache with
      myEntries := Function.update (s.nodes i).cache.myEntries addr c.state }
    pr := { (s.nodes i).pr with inboundRequestBuf := c.inboundRequestBuf } }
  rw [node_update] at hnode
  exact congrArg (fun s' : Simulator Q n ↦ { s' with bus := c.bus, stats := c.stats }) hnode

theorem map_clearProcRequest :
    (f.map s).clearProcRequest i = f.map (s.clearProcRequest i) :=
  f.map_setNode s i
    { s.nodes i with cache := { (s.nodes i).cache with procRequest := none } }

theorem tock_processor (pr : Processor) : (f.processor i pr).tock = f.processor i pr.tock := by
  obtain ⟨infile, ended, outstanding, inbound, buf⟩ := pr
  cases buf <;> rfl

theorem map_tockPr : (f.map s).tockPr i = f.map (s.tockPr i) := by
  have hnode := f.map_setNode s i { s.nodes i with pr := (s.nodes i).pr.tock }
  unfold Simulator.tockPr
  rw [← hnode]
  exact congrArg (fun pr ↦ (f.map s).setNode i { (f.map s).nodes i with pr := pr })
    (f.tock_processor i (s.nodes i).pr)

theorem map_tockAll : (f.map s).tockAll = f.map s.tockAll := by
  unfold Simulator.tockAll
  induction List.finRange n generalizing s with
  | nil => rfl
  | cons i is ih =>
    rw [List.foldl_cons, List.foldl_cons, map_tockPr]
    exact ih (s.tockPr i)

theorem tickMc_map : Erases f.map s.tickMc (f.map s).tickMc := by
  refine Erases.bind (π := f.map) ?_ fun s ↦ ?_
  · unfold Erases Simulator.mcSnoop
    rw [map_bus, map_mc]
    cases s.bus.busSnoop with
    | none => rfl
    | some request =>
      by_cases hdata : request.msg ≠ .DATA
      · simp only [if_pos hdata]
        split <;> rfl
      · simp only [if_neg hdata]
        rfl
  · unfold Erases Simulator.mcSend
    rw [map_bus, map_mc, map_globalClock]
    split
    · cases s.bus.busRequest (.new .DATA s.mc.dataAddr ⟨n, .MC⟩ s.mc.dataTarget) <;> rfl
    · rfl

theorem tickProcRequest_map
    (hcache : ∀ c request, Erases (Ctx.mapState f.state) (P.processCacheRequest c request)
      (Q.processCacheRequest (c.mapState f.state) (f.request request))) :
    Erases f.map (s.tickProcRequest i) ((f.map s).tickProcRequest i) := by
  unfold Simulator.tickProcRequest
  rw [map_procRequest]
  cases (s.nodes i).cache.procRequest with
  | none => rfl
  | some request =>
    rw [Option.map_some]
    dsimp only
    rw [f.addr_request]
    refine (hcache (s.countAccess.ctx i request.addr) request).bind fun c ↦ ?_
    refine congrArg Except.ok ?_
    rw [← map_clearProcRequest, ← map_putCtx]
    rfl

theorem tickSnoop_map
    (hsnoop : ∀ request ∈ s.bus.currentRequest, ∀ c, Erases (Ctx.mapState f.state)
      (P.processSnoopRequest c request) (Q.processSnoopRequest (c.mapState f.state) request)) :
    Erases f.map (s.tickSnoop i) ((f.map s).tickSnoop i) := by
  unfold Simulator.tickSnoop Bus.busSnoop
  rw [map_bus]
  cases hcurrent : s.bus.currentRequest with
  | none => rfl
  | some request =>
    by_cases hdata : request.msg = .DATA ∧ request.destMid ≠ l1 i
    · simp only [if_pos hdata]
      rfl
    · simp only [if_neg hdata]
      refine (hsnoop request hcurrent (s.ctx i request.addr)).bind fun c ↦ ?_
      exact congrArg Except.ok (f.map_putCtx s i request.addr c).symm

end NodeMap

end ArchSim.Coherence
