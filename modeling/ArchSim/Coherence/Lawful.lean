import ArchSim.Coherence.Protocol
import ArchSim.Library.Snooping

/-!
# Lawful protocols

What the simulator's proofs need to know about a protocol: how its states are seen as lines of the
snooping machine, and that each handler makes a move of that machine and has the effects on the
bus and on the processor that belong to the move. The shapes of `Protocol` are run here once.
-/

namespace ArchSim.Coherence

open Library AtomicMemory Snooping

def opMessage : Op → Message
  | .load => .LOAD
  | .store => .STORE

def kindMessage : Kind → Message
  | .read => .GETS
  | .write => .GETM

/-- What a handler does besides changing its entry's state. -/
structure Effect where
  /-- It queues a request. -/
  request : Option Kind := none
  /-- It sends the block to a cache. -/
  reply : Option ModuleID := none
  /-- It answers the processor. -/
  answer : Bool := false
  /-- It drives the shared wire. -/
  shared : Bool := false

/-- The message of cache `source` about the block of `addr`. -/
def cacheMessage (msg : Message) (addr : PAddr) (source : ModuleID) (dest : ModuleID := .none) :
    Mreq :=
  ⟨msg, blockAddr addr, source, dest⟩

variable {σ : Type}

/-- Between `c` and `c'` the effect has happened, and nothing else apart from the counters. -/
structure Acts (c c' : Ctx σ) (addr : PAddr) (effect : Effect) : Prop where
  pendingRequests : c'.bus.pendingRequests = c.bus.pendingRequests ++
    (effect.request.map fun k ↦ cacheMessage (kindMessage k) addr c.moduleID).toList
  dataReply : c'.bus.dataReply =
    (effect.reply.map fun dest ↦ cacheMessage .DATA addr c.moduleID dest).or c.bus.dataReply
  sharedLine : c'.bus.sharedLine = (c.bus.sharedLine || effect.shared)
  currentRequest : c'.bus.currentRequest = c.bus.currentRequest
  requestInProgress : c'.bus.requestInProgress = c.bus.requestInProgress
  inboundRequestBuf : c'.inboundRequestBuf =
    if effect.answer then some (cacheMessage .DATA addr c.moduleID) else c.inboundRequestBuf
  moduleID : c'.moduleID = c.moduleID

namespace Acts

variable {c c' : Ctx σ} {addr : PAddr} {effect : Effect}

theorem pendingRequests_eq (h : Acts c c' addr effect) (hrequest : effect.request = none) :
    c'.bus.pendingRequests = c.bus.pendingRequests := by
  rw [h.pendingRequests, hrequest]
  exact List.append_nil _

theorem sharedLine_eq (h : Acts c c' addr effect) (hshared : effect.shared = false) :
    c'.bus.sharedLine = c.bus.sharedLine := by
  rw [h.sharedLine, hshared, Bool.or_false]

end Acts

/-- From `c` the handler succeeds, with the effect, and leaves the entry in the state `next`. -/
def Runs (x : Except Abort (Ctx σ)) (c : Ctx σ) (addr : PAddr) (next : σ) (effect : Effect) :
    Prop :=
  ∃ c', x = .ok c' ∧ c'.state = next ∧ Acts c c' addr effect

/-! ## The functions of `protocol.cpp` -/

section Send

variable (c : Ctx σ) (addr : PAddr)

theorem sendGETS_runs : Runs (c.sendGETS addr) c addr c.state { request := some .read } :=
  ⟨_, rfl, rfl, by constructor <;> simp [cacheMessage, kindMessage, Mreq.new]⟩

theorem sendGETM_runs : Runs (c.sendGETM addr) c addr c.state { request := some .write } :=
  ⟨_, rfl, rfl, by constructor <;> simp [cacheMessage, kindMessage, Mreq.new]⟩

theorem sendDATAOnBus_runs (hreply : c.bus.dataReply = none) (dest : ModuleID) :
    Runs (c.sendDATAOnBus addr dest) c addr c.state { reply := some dest } := by
  have hbus (request : Mreq) (hmsg : request.msg = .DATA) :
      c.bus.busRequest request = .ok { c.bus with dataReply := some request } := by
    simp [Bus.busRequest, hmsg, hreply]
  rw [Ctx.sendDATAOnBus, Ctx.writeToBus, hbus _ rfl]
  exact ⟨_, rfl, rfl, by constructor <;> simp [cacheMessage, Mreq.new]⟩

theorem sendDATAToProc_runs (hbuf : c.inboundRequestBuf = none) :
    Runs (c.sendDATAToProc addr) c addr c.state { answer := true } := by
  rw [Ctx.sendDATAToProc, Ctx.writeToProc, hbuf]
  exact ⟨_, rfl, rfl, by constructor <;> simp [cacheMessage, Mreq.new]⟩

end Send

namespace Acts

variable {c c' : Ctx σ} {addr : PAddr} {effect : Effect}

theorem setState (h : Acts c c' addr effect) (state : σ) : Acts c (c'.setState state) addr effect :=
  ⟨h.1, h.2, h.3, h.4, h.5, h.6, h.7⟩

theorem countMiss (h : Acts c c' addr effect) : Acts c c'.countMiss addr effect :=
  ⟨h.1, h.2, h.3, h.4, h.5, h.6, h.7⟩

theorem countSilentUpgrade (h : Acts c c' addr effect) : Acts c c'.countSilentUpgrade addr effect :=
  ⟨h.1, h.2, h.3, h.4, h.5, h.6, h.7⟩

theorem refl (c : Ctx σ) (addr : PAddr) : Acts c c addr {} := by
  constructor <;> simp

/-- The wire may be driven after the rest. -/
theorem setSharedLine (h : Acts c c' addr effect) :
    Acts c c'.setSharedLine addr { effect with shared := true } :=
  ⟨h.1, h.2, by simp [Ctx.setSharedLine], h.4, h.5, h.6, h.7⟩

/-- The wire may be driven before the rest. -/
theorem of_setSharedLine (h : Acts c.setSharedLine c' addr effect) :
    Acts c c' addr { effect with shared := true } :=
  ⟨h.1, h.2, by simp [h.3, Ctx.setSharedLine], h.4, h.5, h.6, h.7⟩

end Acts

namespace Runs

variable {c : Ctx σ} {addr : PAddr} {next next' : σ} {effect effect' : Effect}
  {x : Except Abort (Ctx σ)}

theorem refl (c : Ctx σ) (addr : PAddr) : Runs (.ok c) c addr c.state {} :=
  ⟨c, rfl, rfl, .refl c addr⟩

theorem map (h : Runs x c addr next effect) (f : Ctx σ → Ctx σ)
    (hstate : ∀ c', c'.state = next → (f c').state = next')
    (hacts : ∀ c', Acts c c' addr effect → Acts c (f c') addr effect') :
    Runs (x >>= fun c ↦ pure (f c)) c addr next' effect' := by
  obtain ⟨c', rfl, hnext, h⟩ := h
  exact ⟨f c', rfl, hstate c' hnext, hacts c' h⟩

theorem setState (h : Runs x c addr next effect) (state : σ) :
    Runs (do let c ← x; return c.setState state) c addr state effect :=
  h.map (·.setState state) (fun _ _ ↦ rfl) fun _ h ↦ h.setState state

theorem setStateCountMiss (h : Runs x c addr next effect) (state : σ) :
    Runs (do let c ← x; return (c.setState state).countMiss) c addr state effect :=
  h.map (fun c ↦ (c.setState state).countMiss) (fun _ _ ↦ rfl)
    fun _ h ↦ (h.setState state).countMiss

theorem of_setSharedLine (h : Runs x c.setSharedLine addr next effect) :
    Runs x c addr next { effect with shared := true } := by
  obtain ⟨c', hx, hnext, h⟩ := h
  exact ⟨c', hx, hnext, h.of_setSharedLine⟩

end Runs

/-! ## The shapes of handlers -/

namespace Handler

variable {c : Ctx σ} {request : Mreq} {message : String}

section Cache

theorem missBoth_load {sendLoad : Ctx σ → PAddr → Except Abort (Ctx σ)} {loadState storeState : σ}
    {next : σ} {effect : Effect} (hmsg : request.msg = .LOAD)
    (hsend : Runs (sendLoad c request.addr) c request.addr next effect) :
    Runs (missBoth sendLoad loadState storeState message c request) c request.addr loadState
      effect := by
  simp only [missBoth, hmsg]
  exact hsend.setStateCountMiss loadState

theorem missBoth_store {sendLoad : Ctx σ → PAddr → Except Abort (Ctx σ)} {loadState storeState : σ}
    (hmsg : request.msg = .STORE) :
    Runs (missBoth sendLoad loadState storeState message c request) c request.addr storeState
      { request := some .write } := by
  simp only [missBoth, hmsg]
  exact (sendGETM_runs c request.addr).setStateCountMiss storeState

theorem hitLoad_load {upgradeState : σ} (hmsg : request.msg = .LOAD)
    (hbuf : c.inboundRequestBuf = none) :
    Runs (hitLoad upgradeState message c request) c request.addr c.state { answer := true } := by
  simp only [hitLoad, hmsg]
  exact sendDATAToProc_runs c request.addr hbuf

theorem hitLoad_store {upgradeState : σ} (hmsg : request.msg = .STORE) :
    Runs (hitLoad upgradeState message c request) c request.addr upgradeState
      { request := some .write } := by
  simp only [hitLoad, hmsg]
  exact (sendGETM_runs c request.addr).setStateCountMiss upgradeState

theorem hitUpgrade_load {dirtyState : σ} (hmsg : request.msg = .LOAD)
    (hbuf : c.inboundRequestBuf = none) :
    Runs (hitUpgrade dirtyState message c request) c request.addr c.state { answer := true } := by
  simp only [hitUpgrade, hmsg]
  exact sendDATAToProc_runs c request.addr hbuf

theorem hitUpgrade_store {dirtyState : σ} (hmsg : request.msg = .STORE)
    (hbuf : c.inboundRequestBuf = none) :
    Runs (hitUpgrade dirtyState message c request) c request.addr dirtyState
      { answer := true } := by
  simp only [hitUpgrade, hmsg]
  exact (sendDATAToProc_runs c request.addr hbuf).map
    (fun c ↦ (c.setState dirtyState).countSilentUpgrade) (fun _ _ ↦ rfl)
    fun _ h ↦ (h.setState dirtyState).countSilentUpgrade

theorem hitBoth_runs {op : Op} (hmsg : request.msg = opMessage op)
    (hbuf : c.inboundRequestBuf = none) :
    Runs (hitBoth message c request) c request.addr c.state { answer := true } := by
  cases op <;> simp only [hitBoth, hmsg, opMessage] <;>
    exact sendDATAToProc_runs c request.addr hbuf

end Cache

section Snoop

theorem snoopNothing_runs {k : Kind} (hmsg : request.msg = kindMessage k) :
    Runs (snoopNothing message c request) c request.addr c.state {} := by
  cases k <;> simp only [snoopNothing, hmsg, kindMessage] <;> exact .refl c request.addr

theorem snoopWaiting_runs {fill : Handler σ} {k : Kind} (hmsg : request.msg = kindMessage k) :
    Runs (snoopWaiting fill message c request) c request.addr c.state {} := by
  cases k <;> simp only [snoopWaiting, hmsg, kindMessage] <;> exact .refl c request.addr

theorem snoopShared_read {invalidState : σ} (hmsg : request.msg = .GETS) :
    Runs (snoopShared invalidState message c request) c request.addr c.state
      { shared := true } := by
  simp only [snoopShared, hmsg]
  exact (Runs.refl c.setSharedLine request.addr).of_setSharedLine

theorem snoopShared_write {invalidState : σ} (hmsg : request.msg = .GETM) :
    Runs (snoopShared invalidState message c request) c request.addr invalidState
      { shared := true } := by
  simp only [snoopShared, hmsg]
  exact ((Runs.refl c.setSharedLine request.addr).setState invalidState).of_setSharedLine

theorem snoopUpgrading_read {getmState : σ} {fill : Handler σ} (hmsg : request.msg = .GETS) :
    Runs (snoopUpgrading getmState fill message c request) c request.addr c.state
      { shared := true } := by
  simp only [snoopUpgrading, hmsg]
  exact (Runs.refl c.setSharedLine request.addr).of_setSharedLine

theorem snoopUpgrading_write {getmState : σ} {fill : Handler σ} (hmsg : request.msg = .GETM) :
    Runs (snoopUpgrading getmState fill message c request) c request.addr getmState
      { shared := true } := by
  simp only [snoopUpgrading, hmsg]
  exact ((Runs.refl c.setSharedLine request.addr).setState getmState).of_setSharedLine

/-- The data is sent after the wire has been driven. -/
theorem wireThenReply_runs (hreply : c.bus.dataReply = none) :
    Runs (c.setSharedLine.sendDATAOnBus request.addr request.srcMid)
      c request.addr c.state { reply := some request.srcMid, shared := true } :=
  (sendDATAOnBus_runs c.setSharedLine request.addr hreply request.srcMid).of_setSharedLine

/-- The data is sent before the wire is driven. -/
theorem replyThenWire_runs (hreply : c.bus.dataReply = none) (next : σ) :
    Runs (do let c ← c.sendDATAOnBus request.addr request.srcMid
             return c.setSharedLine.setState next)
      c request.addr next { reply := some request.srcMid, shared := true } :=
  (sendDATAOnBus_runs c request.addr hreply request.srcMid).map
    (fun c ↦ c.setSharedLine.setState next) (fun _ _ ↦ rfl)
    fun _ h ↦ h.setSharedLine.setState next

theorem snoopOwner_read {getsState getmState : σ} (hmsg : request.msg = .GETS)
    (hreply : c.bus.dataReply = none) :
    Runs (snoopOwner getsState getmState message c request) c request.addr getsState
      { reply := some request.srcMid, shared := true } := by
  simp only [snoopOwner, hmsg]
  exact (wireThenReply_runs hreply).setState getsState

theorem snoopOwner_write {getsState getmState : σ} (hmsg : request.msg = .GETM)
    (hreply : c.bus.dataReply = none) :
    Runs (snoopOwner getsState getmState message c request) c request.addr getmState
      { reply := some request.srcMid, shared := true } := by
  simp only [snoopOwner, hmsg]
  exact (wireThenReply_runs hreply).setState getmState

/-- An owner that waits to write loses its copy to a foreign writer only. -/
theorem surrender_runs {demotedState : σ} (hreply : c.bus.dataReply = none) :
    Runs (surrender demotedState c request) c request.addr
      (if request.srcMid = c.moduleID then c.state else demotedState)
      { reply := some request.srcMid, shared := true } := by
  have hruns : Runs (c.setSharedLine.sendDATAOnBus request.addr request.srcMid) c request.addr
      c.state { reply := some request.srcMid, shared := true } := wireThenReply_runs hreply
  obtain ⟨c', hsend, hstate, hacts⟩ := hruns
  rw [surrender, hsend]
  by_cases hown : request.srcMid = c.moduleID
  · refine ⟨c', ?_, by rw [if_pos hown, hstate], hacts⟩
    simp [bind, Except.bind, pure, Except.pure, hown, hacts.moduleID]
  · refine ⟨c'.setState demotedState, ?_, by rw [if_neg hown]; rfl, hacts.setState _⟩
    simp [bind, Except.bind, pure, Except.pure, hown, hacts.moduleID]

theorem snoopWaiting_data {fill : Handler σ} {next : σ} {effect : Effect}
    (hmsg : request.msg = .DATA) (hfill : Runs (fill c request) c request.addr next effect) :
    Runs (snoopWaiting fill message c request) c request.addr next effect := by
  simpa only [snoopWaiting, hmsg] using hfill

theorem snoopUpgrading_data {getmState next : σ} {fill : Handler σ} {effect : Effect}
    (hmsg : request.msg = .DATA)
    (hfill : Runs (fill c request) c request.addr next effect) :
    Runs (snoopUpgrading getmState fill message c request) c request.addr next effect := by
  simpa only [snoopUpgrading, hmsg] using hfill

theorem fillWith_runs {state : σ} (hbuf : c.inboundRequestBuf = none) :
    Runs (fillWith state c request) c request.addr state { answer := true } :=
  (sendDATAToProc_runs c request.addr hbuf).setState state

theorem fillByWire_runs {sharedState exclusiveState : σ} (hbuf : c.inboundRequestBuf = none) :
    Runs (fillByWire sharedState exclusiveState c request) c request.addr
      (if c.bus.sharedLine then sharedState else exclusiveState) { answer := true } := by
  by_cases hwire : c.bus.sharedLine
  · -- the wire is already up, so driving it again changes nothing
    have hsame : c.setSharedLine = c := by rw [Ctx.setSharedLine, ← hwire]
    simp only [fillByWire, Ctx.getSharedLine, hwire, if_true, hsame]
    exact (sendDATAToProc_runs c request.addr hbuf).setState sharedState
  · simp only [fillByWire, Ctx.getSharedLine, hwire, Bool.false_eq_true, if_false]
    exact (sendDATAToProc_runs c request.addr hbuf).setState exclusiveState

end Snoop

end Handler

/-! ## Laws -/

/-- A request of the processor hits or misses, as the moves of the machine allow. -/
inductive Responds (view : σ → Line) (op : Op) (c : Ctx σ) (addr : PAddr)
    (x : Except Abort (Ctx σ)) : Prop where
  | hit (next : σ) {wire : Bool} : Access (view c.state) op (view next) →
      Runs x c addr next { answer := true, shared := wire } → Responds view op c addr x
  | miss (next : σ) {k : Kind} : Miss (view c.state) op k (view next) →
      Runs x c addr next { request := some k } → Responds view op c addr x

/-- A request on the bus is snooped, as the moves of the machine allow. -/
inductive Snoops (demotes : Bool) (view : σ → Line) (k : Kind) (c : Ctx σ) (request : Mreq)
    (x : Except Abort (Ctx σ)) : Prop where
  | silent (next : σ) {wire : Bool} :
      Snoop demotes k (decide (request.srcMid = c.moduleID)) (view c.state) false wire (view next) →
      Runs x c request.addr next { shared := wire } → Snoops demotes view k c request x
  | reply (next : σ) {wire : Bool} :
      Snoop demotes k (decide (request.srcMid = c.moduleID)) (view c.state) true wire (view next) →
      Runs x c request.addr next { reply := some request.srcMid, shared := wire } →
      Snoops demotes view k c request x

/-- What `do_snoop_OM` does on a `GETM` is a move of the machine, for a foreign one and its own. -/
theorem Snoops.of_surrender {demotes : Bool} {view : σ → Line} {c : Ctx σ} {request : Mreq}
    {x : Except Abort (Ctx σ)} {demotedState : σ} (hview : view c.state = .OM)
    (hdemoted : view demotedState = .IM)
    (hruns : Runs x c request.addr (if request.srcMid = c.moduleID then c.state else demotedState)
      { reply := some request.srcMid, shared := true }) :
    Snoops demotes view .write c request x := by
  by_cases hown : request.srcMid = c.moduleID
  · rw [if_pos hown] at hruns
    refine .reply c.state ?_ hruns
    rw [decide_eq_true hown, hview]
    exact .keep
  · rw [if_neg hown] at hruns
    refine .reply demotedState ?_ hruns
    rw [decide_eq_false hown, hview, hdemoted]
    exact .surrender

/-- The protocol `P` is one of the snooping machine's. With `stalls`, an owner that waits to write
is not required to answer a read. -/
structure Lawful (P : Protocol) (demotes stalls : Bool) where
  view : P.State → Line
  view_initial : view P.initial = .I
  cache : ∀ {c request op}, request.msg = opMessage op → (view c.state).pending = none →
    c.inboundRequestBuf = none →
    Responds view op c request.addr (P.processCacheRequest c request)
  snoop : ∀ {c request k}, request.msg = kindMessage k →
    (stalls → k = .read → view c.state ≠ .OM) →
    ((view c.state).owner → c.bus.dataReply = none) →
    Snoops demotes view k c request (P.processSnoopRequest c request)
  fill : ∀ {c request}, request.msg = .DATA → (view c.state).pending.isSome →
    c.inboundRequestBuf = none →
    ∃ next, Fill (view c.state) c.bus.sharedLine (view next) ∧
      Runs (P.processSnoopRequest c request) c request.addr next { answer := true }

end ArchSim.Coherence
