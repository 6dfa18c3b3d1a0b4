import ArchSim.Coherence.Lawful
import ArchSim.Coherence.Versions
import ArchSim.Library.SnoopingInvariant

/-!
# The refinement relation

A state of the simulator stands for a state of the snooping machine. `Agrees` relates the entries,
the queue, the wire, the versions and the nodes; `AtEnd` and `InLoop` relate what the two say about
the granted request, at the end of a cycle and in the loop over the caches. The relation itself
asks in addition that the machine's state is reachable, so that its invariant is at hand.
-/

namespace ArchSim.Coherence

open Library AtomicMemory Snooping

theorem l1_injective {n : ℕ} {i j : Fin n} (h : l1 i = l1 j) : i = j :=
  Fin.ext (Int.ofNat.inj (congrArg ModuleID.nodeID h))

/-! ## Nodes -/

/-- Where a node's access is. -/
inductive Status where
  | idle
  /-- The cache has not seen it yet. -/
  | issued (op : Op) (addr : PAddr)
  /-- Its line waits for data. -/
  | waiting (op : Op) (addr : PAddr) (k : Kind) (hk : op = .store → k = .write)
  /-- The answer is in `inbound_request_buf`. -/
  | buffered (addr : PAddr)
  /-- The answer is in `inbound_request`. -/
  | answered (addr : PAddr)

namespace Status

/-- The access that has not been answered. -/
def owed : Status → List (Op × PAddr)
  | issued op addr | waiting op addr _ _ => [(op, blockAddr addr)]
  | _ => []

def pending : Status → PAddr → Option Kind
  | waiting _ addr k _, b => if b = blockAddr addr then some k else none
  | _, _ => none

def procRequest (i : ℕ) : Status → Option Mreq
  | issued op addr => some (Mreq.new (opMessage op) addr ⟨i, .PR⟩)
  | _ => none

def outstanding : Status → Bool
  | idle => false
  | _ => true

def bufferedMessage {n : ℕ} (i : Fin n) : Status → Option Mreq
  | buffered addr => some (cacheMessage .DATA addr (l1 i))
  | _ => none

def answeredMessage {n : ℕ} (i : Fin n) : Status → Option Mreq
  | answered addr => some (cacheMessage .DATA addr (l1 i))
  | _ => none

end Status

/-- The steps that an access still has to take. -/
def Status.rank : Status → ℕ
  | idle => 0
  | answered _ => 1
  | buffered _ => 2
  | waiting .. => 3
  | issued .. => 4

/-- A bound on the steps that a node still has to take; it never grows. -/
def Node.work {σ : Type} (node : Node σ) : ℕ :=
  5 * node.pr.infile.length + (if node.pr.endOfTrace then 0 else 1) +
    if node.cache.procRequest.isSome then 4
    else if node.pr.inboundRequestBuf.isSome then 2
    else if node.pr.inboundRequest.isSome then 1
    else if node.pr.outstandingRequest then 3 else 0

/-- The node has come nearer to its end, or its access has not moved. -/
def Progresses {σ : Type} (node node' : Node σ) : Prop :=
  node'.work < node.work ∨
    node'.pr = node.pr ∧ node'.cache.procRequest = node.cache.procRequest

namespace Progresses

variable {σ : Type} {node node' node'' : Node σ}

theorem refl (node : Node σ) : Progresses node node := .inr ⟨rfl, rfl⟩

theorem work_le (h : Progresses node node') : node'.work ≤ node.work := by
  rcases h with hlt | ⟨hpr, hproc⟩
  · exact hlt.le
  · rw [Node.work, Node.work, hpr, hproc]

theorem trans (h : Progresses node node') (h' : Progresses node' node'') :
    Progresses node node'' := by
  rcases h with hlt | ⟨hpr, hproc⟩
  · exact .inl (h'.work_le.trans_lt hlt)
  · rcases h' with hlt' | ⟨hpr', hproc'⟩
    · refine .inl (hlt'.trans_le ?_)
      rw [Node.work, Node.work, hpr, hproc]
    · exact .inr ⟨hpr'.trans hpr, hproc'.trans hproc⟩

end Progresses

/-- The access that a trace line asks for. -/
def TraceLine.access (line : TraceLine) : Op × PAddr :=
  (if line.c = 'w' then .store else .load, blockAddr line.addr)

/-- Node `i` is at `status`: its fields are those of the status, and the lines it has fetched are
the accesses in its `log` of answers and the one it is owed. -/
structure NodeOk {σ : Type} {n : ℕ} (i : Fin n) (trace : List TraceLine) (node : Node σ)
    (want : Op) (pending : PAddr → Option Kind) (log : List (Op × PAddr)) (status : Status) :
    Prop where
  procRequest : node.cache.procRequest = status.procRequest i
  outstanding : node.pr.outstandingRequest = status.outstanding
  inbound : node.pr.inboundRequest = status.answeredMessage i
  buffered : node.pr.inboundRequestBuf = status.bufferedMessage i
  pending : ∀ b, pending b = status.pending b
  want : ∀ {op addr k hk}, status = .waiting op addr k hk → want = op
  fetched : ∃ fetched, trace = fetched ++ node.pr.infile ∧
    fetched.map TraceLine.access = log ++ status.owed
  ended : node.pr.endOfTrace → status = .idle ∧ node.pr.infile = []

/-! ## States -/

section

variable {P : Protocol} {n : ℕ} {demotes stalls : Bool}

/-- The message on the bus that makes the request `q`. -/
def requestMessage (q : Request (Fin n) PAddr) : Mreq :=
  cacheMessage (kindMessage q.kind) q.addr (l1 q.node)

structure Agrees (L : Lawful P demotes stalls) (settings : Settings n) (v : Versioned P n)
    (m : Machine (Fin n) PAddr) : Prop where
  line : ∀ i b, m.line i b = L.view ((v.sim.nodes i).cache.myEntries b)
  queue : v.sim.bus.pendingRequests = m.queue.map requestMessage
  wire : v.sim.bus.sharedLine = m.wire
  copy : v.copy = m.copy
  answers : v.answers = m.history
  node : ∀ i, ∃ status, NodeOk i (settings.traces i) (v.sim.nodes i) (v.want i)
    (fun b ↦ (m.line i b).pending) (accessesOf i m.history) status
  hitTime : v.sim.mc.hitTime = settings.hitTime

/-- What happens to the granted request. -/
inductive Phase (n : ℕ) where
  | quiet
  /-- The request is on the bus. -/
  | request (q : Request (Fin n) PAddr)
  /-- The memory looks the block up. -/
  | lookup (q : Request (Fin n) PAddr)
  /-- The data has been sent by the module `source`. -/
  | data (q : Request (Fin n) PAddr) (source : ModuleID)

/-- The parts of both states that the phase speaks about. -/
structure Control (n : ℕ) where
  currentRequest : Option Mreq
  dataReply : Option Mreq
  requestInProgress : Bool
  mc : MemoryController
  clock : ℕ
  mem : PAddr → ℕ
  reply : ℕ
  onBus : ℕ
  txn : Option (Request (Fin n) PAddr)
  snooped : Fin n → Prop
  flight : Option ℕ
  machineMem : PAddr → ℕ

def control (v : Versioned P n) (m : Machine (Fin n) PAddr) : Control n where
  currentRequest := v.sim.bus.currentRequest
  dataReply := v.sim.bus.dataReply
  requestInProgress := v.sim.bus.requestInProgress
  mc := v.sim.mc
  clock := v.sim.globalClock
  mem := v.mem
  reply := v.reply
  onBus := v.onBus
  txn := m.txn
  snooped := m.snooped
  flight := m.flight
  machineMem := m.mem

/-- Nothing has been granted. -/
structure Quiet (c : Control n) : Prop where
  txn : c.txn = none
  requestInProgress : c.requestInProgress = false
  dataReply : c.dataReply = none
  mc : c.mc.requestInProgress = false
  mem : c.machineMem = c.mem

/-- The memory has seen the request `q`, and no cache has sent the block. -/
structure LookingUp (c : Control n) (q : Request (Fin n) PAddr) : Prop where
  txn : c.txn = some q
  snooped : ∀ j, c.snooped j
  flight : c.flight = none
  requestInProgress : c.requestInProgress = true
  dataReply : c.dataReply = none
  mc : c.mc.requestInProgress = true
  target : c.mc.dataTarget = l1 q.node
  addr : c.mc.dataAddr = q.addr
  dataTime : c.mc.dataTime ≤ c.clock + c.mc.hitTime
  mem : c.machineMem = c.mem

/-- The data for `q` is in `dataReply`. -/
structure Replied (c : Control n) (q : Request (Fin n) PAddr) (source : ModuleID) : Prop where
  txn : c.txn = some q
  snooped : ∀ j, c.snooped j
  flight : c.flight = some c.reply
  requestInProgress : c.requestInProgress = true
  dataReply : c.dataReply = some (cacheMessage .DATA q.addr source (l1 q.node))
  fromMemory : source.moduleIndex ≠ .L1 → c.reply = c.mem q.addr
  mem : c.machineMem = c.mem

/-- The request `q` is on the bus, and the first `k` caches have snooped it. -/
structure Requested (c : Control n) (k : ℕ) (q : Request (Fin n) PAddr) : Prop where
  txn : c.txn = some q
  snooped : ∀ j : Fin n, c.snooped j ↔ j < k
  requestInProgress : c.requestInProgress = true
  currentRequest : c.currentRequest = some (requestMessage q)
  reply : c.flight = none ∧ c.dataReply = none ∨ c.flight = some c.reply ∧
    ∃ j : Fin n, c.dataReply = some (cacheMessage .DATA q.addr (l1 j) (l1 q.node))
  mc : c.mc.requestInProgress = false
  mem : c.machineMem = c.mem

/-- The data for `q` is on the bus; the requester takes it in its turn. -/
structure Delivering (c : Control n) (k : ℕ) (q : Request (Fin n) PAddr) (source : ModuleID) :
    Prop where
  requestInProgress : c.requestInProgress = false
  dataReply : c.dataReply = none
  currentRequest : c.currentRequest = some (cacheMessage .DATA q.addr source (l1 q.node))
  addr : blockAddr q.addr = q.addr
  fromMemory : source.moduleIndex ≠ .L1 → c.onBus = c.mem q.addr
  before : k ≤ q.node → c.txn = some q ∧ (∀ j, c.snooped j) ∧ c.flight = some c.onBus ∧
    c.machineMem = c.mem
  after : q.node < k → c.txn = none ∧ c.machineMem = Function.update c.mem q.addr c.onBus

/-- At the end of a cycle. A look-up ends when the clock passes `dataTime`. -/
def AtEnd (c : Control n) : Phase n → Prop
  | .quiet => Quiet c
  | .request _ => False
  | .lookup q => LookingUp c q ∧ c.clock ≤ c.mc.dataTime
  | .data q source => Replied c q source

/-- In the loop over the caches, when `k` of them have been ticked. -/
def InLoop (c : Control n) (k : ℕ) : Phase n → Prop
  | .quiet => Quiet c ∧ c.currentRequest = none
  | .request q => Requested c k q
  | .lookup q => LookingUp c q ∧ c.currentRequest = none
  | .data q source => Delivering c k q source

/-- The state `v` of the simulator stands for the reachable state `m` of the machine. -/
structure Refines (L : Lawful P demotes stalls) (settings : Settings n) (versions : PAddr → ℕ)
    (v : Versioned P n) (m : Machine (Fin n) PAddr) : Prop where
  reachable : Reachable demotes versions m
  agrees : Agrees L settings v m

end

/-! ## First consequences -/

namespace NodeOk

variable {σ : Type} {n : ℕ} {i : Fin n} {trace : List TraceLine} {node : Node σ} {want : Op}
  {pending pending' : PAddr → Option Kind} {log log' : List (Op × PAddr)} {status : Status}

theorem congr (h : NodeOk i trace node want pending log status)
    (hpending : ∀ b, pending' b = pending b) (hlog : log' = log) :
    NodeOk i trace node want pending' log' status := by
  obtain rfl : pending' = pending := funext hpending
  exact hlog ▸ h

theorem congr_node (h : NodeOk i trace node want pending log status) {node' : Node σ}
    (hproc : node'.cache.procRequest = node.cache.procRequest) (hpr : node'.pr = node.pr) :
    NodeOk i trace node' want pending log status where
  procRequest := hproc.trans h.procRequest
  outstanding := hpr ▸ h.outstanding
  inbound := hpr ▸ h.inbound
  buffered := hpr ▸ h.buffered
  pending := h.pending
  want := h.want
  fetched := hpr ▸ h.fetched
  ended := hpr ▸ h.ended

theorem work_eq (h : NodeOk i trace node want pending log status) :
    node.work = 5 * node.pr.infile.length + (if node.pr.endOfTrace then 0 else 1) +
      status.rank := by
  rw [Node.work, h.procRequest, h.buffered, h.inbound, h.outstanding]
  cases status <;> rfl

theorem waiting_of_pending (h : NodeOk i trace node want pending log status) {b : PAddr}
    {k : Kind} (hb : pending b = some k) :
    ∃ op addr hk, status = .waiting op addr k hk ∧ b = blockAddr addr := by
  rw [h.pending] at hb
  cases status with
  | waiting op addr k' hk =>
    simp only [Status.pending, Option.ite_none_right_eq_some, Option.some.injEq] at hb
    obtain ⟨rfl, rfl⟩ := hb
    exact ⟨op, addr, hk, rfl, rfl⟩
  | _ => cases hb

/-- The access that is owed is answered. -/
theorem answer (h : NodeOk i trace node want pending log status) {op : Op} {addr : PAddr}
    (howed : status.owed = [(op, blockAddr addr)]) {node' : Node σ} {want' : Op}
    (hproc : node'.cache.procRequest = none)
    (hpr : node'.pr = { node.pr with inboundRequestBuf := some (cacheMessage .DATA addr (l1 i)) })
    (hpending : ∀ b, pending' b = none) :
    NodeOk i trace node' want' pending' (log ++ [(op, blockAddr addr)]) (.buffered addr) := by
  have hstatus : status.outstanding = true ∧ status.answeredMessage i = none ∧
      status ≠ .idle := by
    cases status <;> simp_all [Status.owed, Status.outstanding, Status.answeredMessage]
  refine ⟨hproc, ?_, ?_, by rw [hpr]; rfl, hpending, nofun, ?_, ?_⟩
  · rw [hpr]
    exact h.outstanding.trans hstatus.1
  · rw [hpr]
    exact h.inbound.trans hstatus.2.1
  · obtain ⟨fetched, htrace, haccess⟩ := h.fetched
    rw [howed] at haccess
    exact ⟨fetched, by rw [hpr]; exact htrace, by simpa [Status.owed] using haccess⟩
  · rw [hpr]
    exact fun hended ↦ absurd (h.ended hended).1 hstatus.2.2

/-- The access misses and its line waits. -/
theorem miss {op : Op} {addr : PAddr} {k : Kind} (hk : op = .store → k = .write)
    (h : NodeOk i trace node want pending log (.issued op addr)) {node' : Node σ}
    (hproc : node'.cache.procRequest = none) (hpr : node'.pr = node.pr)
    (hpending : ∀ b, pending' b = if b = blockAddr addr then some k else none) :
    NodeOk i trace node' op pending' log (.waiting op addr k hk) := by
  refine ⟨hproc, ?_, ?_, ?_, hpending, ?_, ?_, ?_⟩
  · exact hpr ▸ h.outstanding
  · exact hpr ▸ h.inbound
  · exact hpr ▸ h.buffered
  · intro op' addr' k' hk' heq
    cases heq
    rfl
  · exact hpr ▸ h.fetched
  · rw [hpr]
    exact fun hended ↦ nomatch (h.ended hended).1

end NodeOk

namespace Refines

variable {P : Protocol} {n : ℕ} {demotes stalls : Bool} {L : Lawful P demotes stalls}
  {settings : Settings n} {versions : PAddr → ℕ} {v : Versioned P n}
  {m : Machine (Fin n) PAddr}

theorem inv (h : Refines L settings versions v m) : Inv demotes versions m := h.reachable.inv

/-- Every request is for a block address. -/
theorem blockAddr_of_mem (h : Refines L settings versions v m) {q : Request (Fin n) PAddr}
    (hq : q ∈ m.requests) : blockAddr q.addr = q.addr := by
  obtain ⟨status, hnode⟩ := h.agrees.node q.node
  obtain ⟨_, _, _, _, haddr⟩ := hnode.waiting_of_pending (h.inv.queued.pending q hq)
  rw [haddr, blockAddr_blockAddr]

theorem blockAddr_of_txn (h : Refines L settings versions v m) {q : Request (Fin n) PAddr}
    (htxn : m.txn = some q) : blockAddr q.addr = q.addr :=
  h.blockAddr_of_mem (by simp [Machine.requests, htxn])

end Refines

section Initial

variable {P : Protocol} {n : ℕ} {demotes stalls : Bool}

def initialMachine (n : ℕ) (versions : PAddr → ℕ) : Machine (Fin n) PAddr where
  line _ _ := .I
  queue := []
  txn := none
  snooped _ := False
  flight := none
  wire := false
  copy _ _ := 0
  mem := versions
  history := []

theorem initial_refines (L : Lawful P demotes stalls) (settings : Settings n)
    (versions : PAddr → ℕ) :
    Refines L settings versions (.initial P settings versions) (initialMachine n versions) where
  reachable := ⟨_, ⟨fun _ _ ↦ rfl, rfl, rfl, rfl, rfl⟩, .refl⟩
  agrees :=
    { line := fun _ _ ↦ L.view_initial.symm
      queue := rfl
      wire := rfl
      copy := rfl
      answers := rfl
      node := fun _ ↦ ⟨.idle, rfl, rfl, rfl, rfl, fun _ ↦ rfl, nofun, ⟨[], rfl, rfl⟩, nofun⟩
      hitTime := rfl }

theorem initial_atEnd (settings : Settings n) (versions : PAddr → ℕ) :
    AtEnd (control (Versioned.initial P settings versions) (initialMachine n versions)) .quiet :=
  ⟨rfl, rfl, rfl, rfl, rfl⟩

end Initial

end ArchSim.Coherence
