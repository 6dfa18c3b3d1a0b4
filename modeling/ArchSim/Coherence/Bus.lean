import Mathlib.Data.Int.Notation
import Mathlib.Data.Nat.Notation

/-!
# Messages and the snooping bus

The bus of the coherence simulator carries one message per cycle. A request stays in progress
from the cycle in which it is popped from `pendingRequests` until the cycle in which its `DATA` is
taken from `dataReply` onto the bus; while it is in progress no other request is popped. Everything
here is a direct transcription of `mreq.cpp` and `bus.cpp`; pointers are options and `NULL` is
`none`.
-/

namespace ArchSim.Coherence

abbrev PAddr := BitVec 64

/-- The two ways in which the simulator stops early. -/
inductive Abort where
  | fatalError (message : String)
  | assertFailed (condition : String)
  deriving DecidableEq, Repr

inductive ModuleT where
  | NI | PR | L1 | L2 | L3 | MC | invalid
  deriving DecidableEq, Repr

structure ModuleID where
  nodeID : ℤ
  moduleIndex : ModuleT
  deriving DecidableEq, Repr

def ModuleID.none : ModuleID := ⟨-1, .invalid⟩

/-- `message_t`, less the counter `MREQ_MESSAGE_NUM`. -/
inductive Message where
  | NOP | LOAD | STORE | GETS | GETM | DATA | invalid
  deriving DecidableEq, Repr

/-- The fields of a request that the simulator reads. -/
structure Mreq where
  msg : Message
  addr : PAddr
  srcMid : ModuleID
  destMid : ModuleID
  deriving DecidableEq, Repr

/-- `cache_line_size_log2` as `set_defaults` leaves it. -/
def cacheLineSizeLog2 : ℕ := 6

/-- The address of the block that contains `addr`. -/
def blockAddr (addr : PAddr) : PAddr := addr &&& (BitVec.allOnes 64 <<< cacheLineSizeLog2)

@[simp] theorem blockAddr_blockAddr (addr : PAddr) :
    blockAddr (blockAddr addr) = blockAddr addr := by
  simp only [blockAddr, BitVec.and_assoc, BitVec.and_self]

/-- The constructor `Mreq::Mreq`, which keeps only the block address. -/
def Mreq.new (msg : Message) (addr : PAddr) (srcMid destMid : ModuleID := .none) : Mreq :=
  ⟨msg, blockAddr addr, srcMid, destMid⟩

structure Bus where
  currentRequest : Option Mreq := none
  pendingRequests : List Mreq := []
  dataReply : Option Mreq := none
  requestInProgress : Bool := false
  sharedLine : Bool := false

namespace Bus

def tick (bus : Bus) : Bus :=
  if bus.requestInProgress then
    match bus.dataReply with
    | some reply =>
        { bus with currentRequest := some reply, dataReply := none, requestInProgress := false }
    | none => { bus with currentRequest := none }
  else
    match bus.pendingRequests with
    | request :: rest =>
        { bus with
          sharedLine := false
          currentRequest := some request
          pendingRequests := rest
          requestInProgress := true }
    | [] => { bus with currentRequest := none }

section Tick

variable {bus : Bus}

theorem tick_of_nil (hprogress : bus.requestInProgress = false)
    (hpending : bus.pendingRequests = []) : bus.tick = { bus with currentRequest := none } := by
  simp [tick, hprogress, hpending]

theorem tick_of_cons {request : Mreq} {rest : List Mreq}
    (hprogress : bus.requestInProgress = false)
    (hpending : bus.pendingRequests = request :: rest) :
    bus.tick = { bus with
      sharedLine := false
      currentRequest := some request
      pendingRequests := rest
      requestInProgress := true } := by
  simp [tick, hprogress, hpending]

theorem tick_of_none (hprogress : bus.requestInProgress = true) (hreply : bus.dataReply = none) :
    bus.tick = { bus with currentRequest := none } := by
  simp [tick, hprogress, hreply]

theorem tick_of_some {reply : Mreq} (hprogress : bus.requestInProgress = true)
    (hreply : bus.dataReply = some reply) :
    bus.tick = { bus with
      currentRequest := some reply, dataReply := none, requestInProgress := false } := by
  simp [tick, hprogress, hreply]

/-- Only a request that is taken from the queue clears the wire. -/
theorem tick_sharedLine_of_none (hnone : bus.tick.currentRequest = none) :
    bus.tick.sharedLine = bus.sharedLine := by
  unfold tick at hnone ⊢
  split at hnone <;> split at hnone <;> simp_all

end Tick

def busRequest (bus : Bus) (request : Mreq) : Except Abort Bus :=
  if request.msg = .DATA then
    if bus.dataReply.isNone then
      .ok { bus with dataReply := some request }
    else
      .error (.assertFailed "data_reply == NULL")
  else
    .ok { bus with pendingRequests := bus.pendingRequests ++ [request] }

/-- Every module reads its own copy of the message on the bus. -/
def busSnoop (bus : Bus) : Option Mreq := bus.currentRequest

end Bus

end ArchSim.Coherence
