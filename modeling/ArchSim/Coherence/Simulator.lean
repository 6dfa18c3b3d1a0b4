import ArchSim.Coherence.Protocol
import ArchSim.Library.Loop
import Mathlib.Logic.Function.Basic

/-!
# The simulator

`n` nodes with one processor and one cache each, the memory controller as node `n`, and the bus.
A cycle of `Simulator::run` ticks the bus, then every cache, every processor, the memory
controller, and at last tocks every processor; the loop ends after the first cycle at whose end
every processor is done.

`timestamp_t` and the counters are natural numbers: no run comes near `2 ^ 64` cycles. A trace
file is the list of lines that `fscanf` converts, and an entry that a cache's map does not hold
yet is one in the initial state, which is what `get_entry` inserts for it.
-/

namespace ArchSim.Coherence

open Library

/-- One line of a trace file, the operation and the address. -/
structure TraceLine where
  c : Char
  addr : PAddr
  deriving DecidableEq, Repr

structure Processor where
  infile : List TraceLine
  endOfTrace : Bool := false
  outstandingRequest : Bool := false
  inboundRequest : Option Mreq := none
  inboundRequestBuf : Option Mreq := none

def Processor.done (pr : Processor) : Bool := pr.endOfTrace && !pr.outstandingRequest

def Processor.tock (pr : Processor) : Processor :=
  match pr.inboundRequestBuf with
  | some request => { pr with inboundRequest := some request, inboundRequestBuf := none }
  | none => pr

structure HashTable (σ : Type) where
  procRequest : Option Mreq := none
  myEntries : PAddr → σ

structure Node (σ : Type) where
  cache : HashTable σ
  pr : Processor

structure MemoryController where
  hitTime : ℕ
  requestInProgress : Bool := false
  dataTime : ℕ := 0
  dataAddr : PAddr := 0
  dataTarget : ModuleID := .none

structure Simulator (P : Protocol) (n : ℕ) where
  globalClock : ℕ := 0
  nodes : Fin n → Node P.State
  mc : MemoryController
  bus : Bus := {}
  stats : Stats := {}

/-- The traces of the nodes and the latency of the memory. -/
structure Settings (n : ℕ) where
  traces : Fin n → List TraceLine
  /-- `build_memory_controller` passes 100. -/
  hitTime : ℕ := 100
  hitTime_pos : 0 < hitTime := by decide

/-- Every line of every trace is a read or a write. -/
def Settings.WellFormed {n : ℕ} (settings : Settings n) : Prop :=
  ∀ i, ∀ line ∈ settings.traces i, line.c = 'r' ∨ line.c = 'w'

def l1 {n : ℕ} (i : Fin n) : ModuleID := ⟨i.val, .L1⟩

variable {P : Protocol} {n : ℕ}

/-! ## Processors -/

/-- The first half of `Processor::tick`: a delivered answer ends the outstanding request. -/
def Processor.complete (pr : Processor) : Except Abort Processor :=
  match pr.inboundRequest with
  | some request =>
      if request.msg = .DATA then
        .ok { pr with outstandingRequest := false, inboundRequest := none }
      else
        .error (.assertFailed "inbound_request->msg == DATA")
  | none => .ok pr

/-- The request that `Processor::tick` builds from a trace line. -/
def TraceLine.request (line : TraceLine) (nodeID : ℤ) : Except Abort Mreq :=
  match line.c with
  | 'r' => .ok (Mreq.new .LOAD line.addr ⟨nodeID, .PR⟩)
  | 'w' => .ok (Mreq.new .STORE line.addr ⟨nodeID, .PR⟩)
  | c => .error (.fatalError
      ("Processor " ++ toString nodeID ++ ": unknown operation - " ++ toString c))

/-- The second half of `Processor::tick`: fetch the next line, unless the node still waits. -/
def Node.fetch {σ : Type} (node : Node σ) (nodeID : ℤ) : Except Abort (Node σ) :=
  if node.pr.endOfTrace || node.pr.outstandingRequest then
    .ok node
  else
    match node.pr.infile with
    | [] => .ok { node with pr := { node.pr with endOfTrace := true } }
    | line :: rest => do
        let request ← line.request nodeID
        return {
          cache := { node.cache with procRequest := some request }
          pr := { node.pr with infile := rest, outstandingRequest := true } }

def Node.tickPr {σ : Type} (node : Node σ) (nodeID : ℤ) : Except Abort (Node σ) := do
  let pr ← node.pr.complete
  { node with pr := pr }.fetch nodeID

namespace Simulator

/-- The simulator as its constructor leaves it, with `outstanding_request` false and
`proc_request` null. -/
def initial (P : Protocol) (settings : Settings n) : Simulator P n where
  nodes i := { cache := { myEntries := fun _ ↦ P.initial }, pr := { infile := settings.traces i } }
  mc := { hitTime := settings.hitTime }

def setNode (s : Simulator P n) (i : Fin n) (node : Node P.State) : Simulator P n :=
  { s with nodes := Function.update s.nodes i node }

/-! ## Caches -/

/-- What the protocol object of the entry for `addr` in cache `i` sees. -/
def ctx (s : Simulator P n) (i : Fin n) (addr : PAddr) : Ctx P.State where
  moduleID := l1 i
  state := (s.nodes i).cache.myEntries addr
  bus := s.bus
  inboundRequestBuf := (s.nodes i).pr.inboundRequestBuf
  stats := s.stats

/-- Puts back what the protocol object of that entry has written. -/
def putCtx (s : Simulator P n) (i : Fin n) (addr : PAddr) (c : Ctx P.State) : Simulator P n :=
  { s.setNode i
      { cache := { (s.nodes i).cache with
          myEntries := Function.update (s.nodes i).cache.myEntries addr c.state }
        pr := { (s.nodes i).pr with inboundRequestBuf := c.inboundRequestBuf } } with
    bus := c.bus
    stats := c.stats }

def clearProcRequest (s : Simulator P n) (i : Fin n) : Simulator P n :=
  s.setNode i { s.nodes i with cache := { (s.nodes i).cache with procRequest := none } }

def countAccess (s : Simulator P n) : Simulator P n :=
  { s with stats := { s.stats with cacheAccesses := s.stats.cacheAccesses + 1 } }

/-- The first half of `Hash_table::tick`: the request of the processor. -/
def tickProcRequest (s : Simulator P n) (i : Fin n) : Except Abort (Simulator P n) :=
  match (s.nodes i).cache.procRequest with
  | none => .ok s
  | some request => do
      let s := s.countAccess
      let c ← P.processCacheRequest (s.ctx i request.addr) request
      return (s.putCtx i request.addr c).clearProcRequest i

/-- The second half of `Hash_table::tick`: the message on the bus, unless it is data for another
cache. -/
def tickSnoop (s : Simulator P n) (i : Fin n) : Except Abort (Simulator P n) :=
  match s.bus.busSnoop with
  | none => .ok s
  | some request =>
      if request.msg = .DATA ∧ request.destMid ≠ l1 i then
        .ok s
      else do
        let c ← P.processSnoopRequest (s.ctx i request.addr) request
        return s.putCtx i request.addr c

def tickCache (s : Simulator P n) (i : Fin n) : Except Abort (Simulator P n) := do
  let s ← s.tickProcRequest i
  s.tickSnoop i

def tickPr (s : Simulator P n) (i : Fin n) : Except Abort (Simulator P n) := do
  let node ← (s.nodes i).tickPr i.val
  return s.setNode i node

def tockPr (s : Simulator P n) (i : Fin n) : Simulator P n :=
  s.setNode i { s.nodes i with pr := (s.nodes i).pr.tock }

/-! ## The memory controller -/

/-- The first half of `Memory_controller::tick`: a request starts the look-up and data ends it. -/
def mcSnoop (s : Simulator P n) : Except Abort (Simulator P n) :=
  match s.bus.busSnoop with
  | none => .ok s
  | some request =>
      if request.msg ≠ .DATA then
        if s.mc.requestInProgress then
          .error (.assertFailed "!request_in_progress")
        else
          .ok { s with mc := { s.mc with
            requestInProgress := true
            dataAddr := request.addr
            dataTarget := request.srcMid
            dataTime := s.globalClock + s.mc.hitTime } }
      else
        .ok { s with mc := { s.mc with requestInProgress := false } }

/-- The second half: when the look-up is over, the data is put on the bus. -/
def mcSend (s : Simulator P n) : Except Abort (Simulator P n) :=
  if s.mc.requestInProgress ∧ s.mc.dataTime ≤ s.globalClock then do
    let bus ← s.bus.busRequest (Mreq.new .DATA s.mc.dataAddr ⟨n, .MC⟩ s.mc.dataTarget)
    return { s with bus := bus, mc := { s.mc with requestInProgress := false } }
  else
    .ok s

def tickMc (s : Simulator P n) : Except Abort (Simulator P n) := do
  let s ← s.mcSnoop
  s.mcSend

/-! ## The main loop -/

def busTick (s : Simulator P n) : Simulator P n := { s with bus := s.bus.tick }

/-- The last loop of a cycle, over the processors. -/
def tockAll (s : Simulator P n) : Simulator P n := (List.finRange n).foldl tockPr s

def advanceClock (s : Simulator P n) : Simulator P n := { s with globalClock := s.globalClock + 1 }

/-- One iteration of the loop of `Simulator::run`. The memory controller's node has neither cache
nor processor, so the loops over `0..=num_nodes` are loops over the `n` processor nodes. -/
def cycle (s : Simulator P n) : Except Abort (Simulator P n) := do
  let s ← (List.finRange n).foldlM tickCache s.busTick
  let s ← (List.finRange n).foldlM tickPr s
  let s ← s.tickMc
  return s.tockAll.advanceClock

def done (s : Simulator P n) : Bool := (List.finRange n).all fun i ↦ (s.nodes i).pr.done

/-- The loop of `Simulator::run`. -/
def loop (P : Protocol) (n : ℕ) : Loop Abort (Simulator P n) := ⟨cycle, done⟩

/-- The states at the head of the loop, in runs whose cycles all start in a state that meets
`cond`. -/
abbrev LoopHeadWhile (settings : Settings n) (cond : Simulator P n → Prop) :
    Simulator P n → Prop :=
  (loop P n).Head (initial P settings) cond

/-- The states at the end of a cycle of such a run. -/
abbrev EndOfCycleWhile (settings : Settings n) (cond : Simulator P n → Prop) :
    Simulator P n → Prop :=
  (loop P n).EndOfBody (initial P settings) cond

/-- The states at the head of the loop of the run on the given traces. -/
abbrev LoopHead (settings : Settings n) : Simulator P n → Prop :=
  LoopHeadWhile settings fun _ ↦ True

/-- The states at the end of a cycle of the run on the given traces. -/
abbrev EndOfCycle (settings : Settings n) : Simulator P n → Prop :=
  EndOfCycleWhile settings fun _ ↦ True

end Simulator

end ArchSim.Coherence
