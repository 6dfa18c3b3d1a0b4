import ArchSim.Coherence.Protocol

/-!
# The MOSI protocol

A dirty copy that is read by others stays their owner. Unlike in MSI, a `GETM` turns `SM` into
`IM`, whether it is a foreign one or the node's own.
-/

namespace ArchSim.Coherence.MOSI

open Handler

inductive State where
  | I | S | O | M | IM | IS | SM | OM
  deriving DecidableEq, Repr

/-! ## Requests of the processor -/

def doCacheI : Handler State :=
  missBoth Ctx.sendGETS .IS .IM "Client: I state shouldn't see this message\n"

def doCacheS : Handler State := hitLoad .SM "Client: S state shouldn't see this message\n"

def doCacheO : Handler State := hitLoad .OM "Client: S state shouldn't see this message\n"

def doCacheM : Handler State := hitBoth "Client: M state shouldn't see this message\n"

def doCacheIM : Handler State := busy "Client: IM state shouldn't see this message\n"

def doCacheIS : Handler State := busy "Client: IS state shouldn't see this message\n"

def doCacheSM : Handler State := busy "Client: I state shouldn't see this message\n"

def doCacheOM : Handler State := busy "Client: I state shouldn't see this message\n"

/-! ## Messages snooped on the bus -/

def doSnoopI : Handler State := snoopNothing "Client: I state shouldn't see this message\n"

def doSnoopS : Handler State := snoopShared .I "Client: S state shouldn't see this message\n"

def doSnoopO : Handler State := snoopOwner .O .I "Client: S state shouldn't see this message\n"

def doSnoopM : Handler State := snoopOwner .O .I "Client: M state shouldn't see this message\n"

def doSnoopIM : Handler State :=
  snoopWaiting (fillWith .M) "Client: I state shouldn't see this message\n"

def doSnoopIS : Handler State :=
  snoopWaiting (fillWith .S) "Client: IS state shouldn't see this message\n"

def doSnoopSM : Handler State :=
  snoopUpgrading .IM (fillWith .M) "Client: SM state shouldn't see this message\n"

/-- An owner that waits to write still answers: a read keeps it the owner, and its own `GETM` is
answered by itself. -/
def doSnoopOM : Handler State := fun c request ↦
  match request.msg with
  | .GETS => c.setSharedLine.sendDATAOnBus request.addr request.srcMid
  | .GETM => surrender .IM c request
  | .DATA => fillWith .M c request
  | _ => unexpected "Client: SM state shouldn't see this message\n"

def processCacheRequest : Handler State := fun c request ↦
  match c.state with
  | .I => doCacheI c request
  | .S => doCacheS c request
  | .O => doCacheO c request
  | .M => doCacheM c request
  | .IM => doCacheIM c request
  | .IS => doCacheIS c request
  | .SM => doCacheSM c request
  | .OM => doCacheOM c request

def processSnoopRequest : Handler State := fun c request ↦
  match c.state with
  | .I => doSnoopI c request
  | .S => doSnoopS c request
  | .O => doSnoopO c request
  | .M => doSnoopM c request
  | .IM => doSnoopIM c request
  | .IS => doSnoopIS c request
  | .SM => doSnoopSM c request
  | .OM => doSnoopOM c request

abbrev protocol : Protocol where
  State := State
  initial := .I
  processCacheRequest := processCacheRequest
  processSnoopRequest := processSnoopRequest

end ArchSim.Coherence.MOSI
