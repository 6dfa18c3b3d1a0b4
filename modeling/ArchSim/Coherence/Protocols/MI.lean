import ArchSim.Coherence.Protocol

/-!
# The MI protocol

A line is either invalid or the only copy, so loads ask for the block with `GETM` as well.
-/

namespace ArchSim.Coherence.MI

open Handler

inductive State where
  | I | IM | M
  deriving DecidableEq, Repr

/-! ## Requests of the processor -/

def doCacheI : Handler State :=
  missBoth Ctx.sendGETM .IM .IM "Client: I state shouldn't see this message\n"

def doCacheIM : Handler State := busy "Client: IM state shouldn't see this message\n"

def doCacheM : Handler State := hitBoth "Client: M state shouldn't see this message\n"

/-! ## Messages snooped on the bus -/

def doSnoopI : Handler State := snoopNothing "Client: I state shouldn't see this message\n"

def doSnoopIM : Handler State :=
  snoopWaiting (fillWith .M) "Client: IM state shouldn't see this message\n"

def doSnoopM : Handler State := snoopOwner .I .I "Client: M state shouldn't see this message\n"

def processCacheRequest : Handler State := fun c request ↦
  match c.state with
  | .I => doCacheI c request
  | .IM => doCacheIM c request
  | .M => doCacheM c request

def processSnoopRequest : Handler State := fun c request ↦
  match c.state with
  | .I => doSnoopI c request
  | .IM => doSnoopIM c request
  | .M => doSnoopM c request

abbrev protocol : Protocol where
  State := State
  initial := .I
  processCacheRequest := processCacheRequest
  processSnoopRequest := processSnoopRequest

end ArchSim.Coherence.MI
