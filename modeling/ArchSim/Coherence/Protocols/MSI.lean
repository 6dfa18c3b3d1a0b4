import ArchSim.Coherence.Protocol

/-!
# The MSI protocol

A line in `SM` that snoops a foreign `GETM` stays in `SM`: its copy is stale from then on, and is
replaced when the data of its own request arrives.
-/

namespace ArchSim.Coherence.MSI

open Handler

inductive State where
  | I | IM | IS | M | S | SM
  deriving DecidableEq, Repr

/-! ## Requests of the processor -/

def doCacheI : Handler State :=
  missBoth Ctx.sendGETS .IS .IM "Client: I state shouldn't see this message\n"

def doCacheIM : Handler State := busy "Client: IM state shouldn't see this message\n"

def doCacheIS : Handler State := busy "Client: IS state shouldn't see this message\n"

def doCacheM : Handler State := hitBoth "Client: M state shouldn't see this message\n"

def doCacheS : Handler State := hitLoad .SM "Client: S state shouldn't see this message\n"

def doCacheSM : Handler State := busy "Client: SM state shouldn't see this message\n"

/-! ## Messages snooped on the bus -/

def doSnoopI : Handler State := snoopNothing "Client: I state shouldn't see this message\n"

def doSnoopIM : Handler State :=
  snoopWaiting (fillWith .M) "Client: IM state shouldn't see this message\n"

def doSnoopIS : Handler State :=
  snoopWaiting (fillWith .S) "Client: IS state shouldn't see this message\n"

def doSnoopM : Handler State := snoopOwner .S .I "Client: M state shouldn't see this message\n"

def doSnoopS : Handler State := snoopShared .I "Client: S state shouldn't see this message\n"

def doSnoopSM : Handler State :=
  snoopUpgrading .SM (fillWith .M) "Client: SM state shouldn't see this message\n"

def processCacheRequest : Handler State := fun c request ↦
  match c.state with
  | .I => doCacheI c request
  | .IM => doCacheIM c request
  | .IS => doCacheIS c request
  | .M => doCacheM c request
  | .S => doCacheS c request
  | .SM => doCacheSM c request

def processSnoopRequest : Handler State := fun c request ↦
  match c.state with
  | .I => doSnoopI c request
  | .IM => doSnoopIM c request
  | .IS => doSnoopIS c request
  | .M => doSnoopM c request
  | .S => doSnoopS c request
  | .SM => doSnoopSM c request

abbrev protocol : Protocol where
  State := State
  initial := .I
  processCacheRequest := processCacheRequest
  processSnoopRequest := processSnoopRequest

end ArchSim.Coherence.MSI
