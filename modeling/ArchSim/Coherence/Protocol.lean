import ArchSim.Coherence.Bus

/-!
# The interface between a protocol and the simulator

A protocol object lives in one cache entry. Its handlers see the state of the entry and act on
the bus, on the input buffer of the node's processor and on the counters of the simulator;
`Ctx` holds just these parts. The `send*` functions are those of `protocol.cpp`.

Most handlers of the five protocols are one of a few shapes. A shape is written once here, with
the messages and successor states that differ as parameters, and the protocol modules give each
handler under its own name.
-/

namespace ArchSim.Coherence

/-- The counters of `Simulator`; `dump_stats` prints them. -/
structure Stats where
  cacheMisses : ℕ := 0
  cacheAccesses : ℕ := 0
  silentUpgrades : ℕ := 0
  cacheToCacheTransfers : ℕ := 0

/-- What a handler of the entry in `state`, in the cache `moduleID`, can read and write. -/
structure Ctx (σ : Type) where
  moduleID : ModuleID
  state : σ
  bus : Bus
  inboundRequestBuf : Option Mreq
  stats : Stats

namespace Ctx

variable {σ : Type}

def writeToBus (c : Ctx σ) (request : Mreq) : Except Abort (Ctx σ) := do
  let bus ← c.bus.busRequest { request with srcMid := c.moduleID }
  return { c with bus := bus }

def writeToProc (c : Ctx σ) (request : Mreq) : Except Abort (Ctx σ) :=
  if c.inboundRequestBuf.isNone then
    .ok { c with inboundRequestBuf := some { request with srcMid := c.moduleID } }
  else
    .error (.assertFailed "!pr->inbound_request_buf")

def sendGETM (c : Ctx σ) (addr : PAddr) : Except Abort (Ctx σ) :=
  c.writeToBus (Mreq.new .GETM addr)

def sendGETS (c : Ctx σ) (addr : PAddr) : Except Abort (Ctx σ) :=
  c.writeToBus (Mreq.new .GETS addr)

def sendDATAOnBus (c : Ctx σ) (addr : PAddr) (dest : ModuleID) : Except Abort (Ctx σ) := do
  let c ← c.writeToBus (Mreq.new .DATA addr c.moduleID dest)
  return { c with
    stats := { c.stats with cacheToCacheTransfers := c.stats.cacheToCacheTransfers + 1 } }

def sendDATAToProc (c : Ctx σ) (addr : PAddr) : Except Abort (Ctx σ) :=
  c.writeToProc (Mreq.new .DATA addr)

def setSharedLine (c : Ctx σ) : Ctx σ :=
  { c with bus := { c.bus with sharedLine := true } }

def getSharedLine (c : Ctx σ) : Bool := c.bus.sharedLine

def setState (c : Ctx σ) (state : σ) : Ctx σ := { c with state := state }

def countMiss (c : Ctx σ) : Ctx σ :=
  { c with stats := { c.stats with cacheMisses := c.stats.cacheMisses + 1 } }

def countSilentUpgrade (c : Ctx σ) : Ctx σ :=
  { c with stats := { c.stats with silentUpgrades := c.stats.silentUpgrades + 1 } }

end Ctx

/-- A handler reacts to one message; a message it does not list is a fatal error. -/
abbrev Handler (σ : Type) := Ctx σ → Mreq → Except Abort (Ctx σ)

namespace Handler

variable {σ : Type}

/-- The `default` branch of a handler, after the message has been printed. -/
def unexpected (message : String) : Except Abort (Ctx σ) := .error (.fatalError message)

/-! ## Requests of the processor -/

/-- No copy: both accesses miss. -/
def missBoth (sendLoad : Ctx σ → PAddr → Except Abort (Ctx σ)) (loadState storeState : σ)
    (message : String) : Handler σ := fun c request ↦
  match request.msg with
  | .LOAD => do
      let c ← sendLoad c request.addr
      return (c.setState loadState).countMiss
  | .STORE => do
      let c ← c.sendGETM request.addr
      return (c.setState storeState).countMiss
  | _ => unexpected message

/-- A copy that may only be read: a load hits and a store asks for the block. -/
def hitLoad (upgradeState : σ) (message : String) : Handler σ := fun c request ↦
  match request.msg with
  | .LOAD => c.sendDATAToProc request.addr
  | .STORE => do
      let c ← c.sendGETM request.addr
      return (c.setState upgradeState).countMiss
  | _ => unexpected message

/-- The only copy, still clean: a store hits and makes it dirty. -/
def hitUpgrade (dirtyState : σ) (message : String) : Handler σ := fun c request ↦
  match request.msg with
  | .LOAD => c.sendDATAToProc request.addr
  | .STORE => do
      let c ← c.sendDATAToProc request.addr
      return (c.setState dirtyState).countSilentUpgrade
  | _ => unexpected message

/-- The only copy, dirty: both accesses hit. -/
def hitBoth (message : String) : Handler σ := fun c request ↦
  match request.msg with
  | .LOAD | .STORE => c.sendDATAToProc request.addr
  | _ => unexpected message

/-- A line that waits for data must not be asked for anything. -/
def busy (message : String) : Handler σ := fun _ request ↦
  match request.msg with
  | .LOAD | .STORE => unexpected "Should only have one outstanding request per processor!"
  | _ => unexpected message

/-! ## Messages snooped on the bus -/

/-- No copy: nothing to do. -/
def snoopNothing (message : String) : Handler σ := fun c request ↦
  match request.msg with
  | .GETS | .GETM | .DATA => .ok c
  | _ => unexpected message

/-- Data for a line that already has it. -/
def hasTheLine : Except Abort (Ctx σ) :=
  unexpected "Should not see data for this line!  I have the line!"

/-- A clean copy among others: it is given up to a writer and never sent. -/
def snoopShared (invalidState : σ) (message : String) : Handler σ := fun c request ↦
  match request.msg with
  | .GETS => .ok c.setSharedLine
  | .GETM => .ok (c.setSharedLine.setState invalidState)
  | .DATA => hasTheLine
  | _ => unexpected message

/-- The copy that answers requests, with `set_shared_line` before the data is sent. -/
def snoopOwner (getsState getmState : σ) (message : String) : Handler σ := fun c request ↦
  match request.msg with
  | .GETS => do
      let c ← c.setSharedLine.sendDATAOnBus request.addr request.srcMid
      return c.setState getsState
  | .GETM => do
      let c ← c.setSharedLine.sendDATAOnBus request.addr request.srcMid
      return c.setState getmState
  | .DATA => hasTheLine
  | _ => unexpected message

/-- Waiting for the data of the node's own request, without a copy. -/
def snoopWaiting (fill : Handler σ) (message : String) : Handler σ := fun c request ↦
  match request.msg with
  | .GETS | .GETM => .ok c
  | .DATA => fill c request
  | _ => unexpected message

/-- Waiting to write, with a copy that may only be read; `getmState` is the state, old or new,
after a `GETM`. -/
def snoopUpgrading (getmState : σ) (fill : Handler σ) (message : String) : Handler σ :=
  fun c request ↦
    match request.msg with
    | .GETS => .ok c.setSharedLine
    | .GETM => .ok (c.setSharedLine.setState getmState)
    | .DATA => fill c request
    | _ => unexpected message

/-- The data has arrived: answer the processor. -/
def fillWith (state : σ) : Handler σ := fun c request ↦ do
  let c ← c.sendDATAToProc request.addr
  return c.setState state

/-- The data of a read has arrived; the shared wire tells whether another cache has the block. -/
def fillByWire (sharedState exclusiveState : σ) : Handler σ := fun c request ↦
  if c.getSharedLine then do
    let c ← c.setSharedLine.sendDATAToProc request.addr
    return c.setState sharedState
  else do
    let c ← c.sendDATAToProc request.addr
    return c.setState exclusiveState

/-- `do_snoop_OM` on a foreign or own `GETM`: the data is sent, and a foreign request takes the
copy away. -/
def surrender (demotedState : σ) : Handler σ := fun c request ↦ do
  let c ← c.setSharedLine.sendDATAOnBus request.addr request.srcMid
  if request.srcMid ≠ c.moduleID then
    return c.setState demotedState
  else
    return c

end Handler

/-- A coherence protocol: the class `Protocol` with its virtual functions. -/
structure Protocol where
  State : Type
  /-- The state in which the constructor leaves a new entry. -/
  initial : State
  processCacheRequest : Handler State
  processSnoopRequest : Handler State

end ArchSim.Coherence
