import ArchSim.Coherence.Protocol

/-!
# The MESI protocol

A read whose data arrives while the shared wire is down gets the block exclusively, and a later
store to it is silent.
-/

namespace ArchSim.Coherence.MESI

open Handler

inductive State where
  | I | S | E | M | IM | ISE | SM
  deriving DecidableEq, Repr

/-! ## Requests of the processor -/

def doCacheI : Handler State :=
  missBoth Ctx.sendGETS .ISE .IM "Client: I state shouldn't see this message\n"

def doCacheS : Handler State := hitLoad .SM "Client: S state shouldn't see this message\n"

def doCacheE : Handler State := hitUpgrade .M "Client: S state shouldn't see this message\n"

def doCacheM : Handler State := hitBoth "Client: M state shouldn't see this message\n"

def doCacheIM : Handler State := busy "Client: IM state shouldn't see this message\n"

def doCacheISE : Handler State := busy "Client: IS state shouldn't see this message\n"

def doCacheSM : Handler State := busy "Client: I state shouldn't see this message\n"

/-! ## Messages snooped on the bus -/

def doSnoopI : Handler State := snoopNothing "Client: I state shouldn't see this message\n"

def doSnoopS : Handler State := snoopShared .I "Client: S state shouldn't see this message\n"

/-- On `GETM` the data is sent before the wire is driven. -/
def doSnoopE : Handler State := fun c request ↦
  match request.msg with
  | .GETS => do
      let c ← c.setSharedLine.sendDATAOnBus request.addr request.srcMid
      return c.setState .S
  | .GETM => do
      let c ← c.sendDATAOnBus request.addr request.srcMid
      return c.setSharedLine.setState .I
  | .DATA => hasTheLine
  | _ => unexpected "Client: M state shouldn't see this message\n"

def doSnoopM : Handler State := snoopOwner .S .I "Client: M state shouldn't see this message\n"

def doSnoopIM : Handler State :=
  snoopWaiting (fillWith .M) "Client: I state shouldn't see this message\n"

def doSnoopISE : Handler State :=
  snoopWaiting (fillByWire .S .E) "Client: IS state shouldn't see this message\n"

def doSnoopSM : Handler State :=
  snoopUpgrading .SM (fillWith .M) "Client: SM state shouldn't see this message\n"

def processCacheRequest : Handler State := fun c request ↦
  match c.state with
  | .I => doCacheI c request
  | .S => doCacheS c request
  | .E => doCacheE c request
  | .M => doCacheM c request
  | .IM => doCacheIM c request
  | .ISE => doCacheISE c request
  | .SM => doCacheSM c request

def processSnoopRequest : Handler State := fun c request ↦
  match c.state with
  | .I => doSnoopI c request
  | .S => doSnoopS c request
  | .E => doSnoopE c request
  | .M => doSnoopM c request
  | .IM => doSnoopIM c request
  | .ISE => doSnoopISE c request
  | .SM => doSnoopSM c request

abbrev protocol : Protocol where
  State := State
  initial := .I
  processCacheRequest := processCacheRequest
  processSnoopRequest := processSnoopRequest

end ArchSim.Coherence.MESI
