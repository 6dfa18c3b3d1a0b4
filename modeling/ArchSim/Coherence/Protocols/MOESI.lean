import ArchSim.Coherence.Protocol

/-!
# The MOESI protocol
-/

namespace ArchSim.Coherence.MOESI

open Handler

inductive State where
  | I | S | E | O | M | IM | ISE | SM | OM
  deriving DecidableEq, Repr

/-! ## Requests of the processor -/

def doCacheI : Handler State :=
  missBoth Ctx.sendGETS .ISE .IM "Client: I state shouldn't see this message\n"

/-- A load that hits also drives the shared wire. -/
def doCacheS : Handler State := fun c request ↦
  match request.msg with
  | .LOAD => do
      let c ← c.sendDATAToProc request.addr
      return c.setSharedLine
  | .STORE => do
      let c ← c.sendGETM request.addr
      return (c.setState .SM).countMiss
  | _ => unexpected "Client: S state shouldn't see this message\n"

def doCacheE : Handler State := hitUpgrade .M "Client: S state shouldn't see this message\n"

def doCacheO : Handler State := hitLoad .OM "Client: S state shouldn't see this message\n"

def doCacheM : Handler State := hitBoth "Client: M state shouldn't see this message\n"

def doCacheIM : Handler State := busy "Client: IM state shouldn't see this message\n"

def doCacheISE : Handler State := busy "Client: IS state shouldn't see this message\n"

def doCacheSM : Handler State := busy "Client: I state shouldn't see this message\n"

def doCacheOM : Handler State := busy "Client: I state shouldn't see this message\n"

/-! ## Messages snooped on the bus -/

def doSnoopI : Handler State := snoopNothing "Client: I state shouldn't see this message\n"

def doSnoopS : Handler State := snoopShared .I "Client: S state shouldn't see this message\n"

def doSnoopE : Handler State := fun c request ↦
  match request.msg with
  | .GETS => do
      let c ← c.sendDATAOnBus request.addr request.srcMid
      return c.setSharedLine.setState .S
  | .GETM => do
      let c ← c.sendDATAOnBus request.addr request.srcMid
      return c.setSharedLine.setState .I
  | .DATA => hasTheLine
  | _ => unexpected "Client: M state shouldn't see this message\n"

/-- On `GETS` the owner sends the data without driving the shared wire. -/
def doSnoopO : Handler State := fun c request ↦
  match request.msg with
  | .GETS => c.sendDATAOnBus request.addr request.srcMid
  | .GETM => do
      let c ← c.setSharedLine.sendDATAOnBus request.addr request.srcMid
      return c.setState .I
  | .DATA => hasTheLine
  | _ => unexpected "Client: S state shouldn't see this message\n"

def doSnoopM : Handler State := snoopOwner .O .I "Client: M state shouldn't see this message\n"

def doSnoopIM : Handler State :=
  snoopWaiting (fillWith .M) "Client: I state shouldn't see this message\n"

def doSnoopISE : Handler State :=
  snoopWaiting (fillByWire .S .E) "Client: IS state shouldn't see this message\n"

def doSnoopSM : Handler State :=
  snoopUpgrading .SM (fillWith .M) "Client: SM state shouldn't see this message\n"

/-- On `GETS` this handler answers the node's own processor and becomes `M`; it sends no data on
the bus, and its own `GETM` is still queued. -/
def doSnoopOM : Handler State := fun c request ↦
  match request.msg with
  | .GETS => do
      let c ← c.setSharedLine.sendDATAToProc request.addr
      return c.setState .M
  | .GETM => surrender .IM c request
  | .DATA => fillWith .M c request
  | _ => unexpected "Client: SM state shouldn't see this message\n"

def processCacheRequest : Handler State := fun c request ↦
  match c.state with
  | .I => doCacheI c request
  | .S => doCacheS c request
  | .E => doCacheE c request
  | .O => doCacheO c request
  | .M => doCacheM c request
  | .IM => doCacheIM c request
  | .ISE => doCacheISE c request
  | .SM => doCacheSM c request
  | .OM => doCacheOM c request

def processSnoopRequest : Handler State := fun c request ↦
  match c.state with
  | .I => doSnoopI c request
  | .S => doSnoopS c request
  | .E => doSnoopE c request
  | .O => doSnoopO c request
  | .M => doSnoopM c request
  | .IM => doSnoopIM c request
  | .ISE => doSnoopISE c request
  | .SM => doSnoopSM c request
  | .OM => doSnoopOM c request

abbrev protocol : Protocol where
  State := State
  initial := .I
  processCacheRequest := processCacheRequest
  processSnoopRequest := processSnoopRequest

end ArchSim.Coherence.MOESI
