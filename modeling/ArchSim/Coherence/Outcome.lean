import ArchSim.Coherence.Lawful
import ArchSim.Coherence.ProtocolTable

/-!
# What a handler does, whatever else is on the bus

A handler never looks at the requests that wait for the bus, and it reads the shared wire only when
data arrives. So what it does is fixed by the state of its entry and the message, apart from the
assertions of `bus_request` and `write_to_proc`: it can be read off a run of the handler in an
otherwise empty simulator.
-/

namespace ArchSim.Coherence

open Library Snooping

variable {σ : Type}

namespace Ctx

variable (c : Ctx σ)

@[simp] theorem setState_bus (state : σ) : (c.setState state).bus = c.bus := rfl

@[simp] theorem countMiss_bus : c.countMiss.bus = c.bus := rfl

@[simp] theorem countSilentUpgrade_bus : c.countSilentUpgrade.bus = c.bus := rfl

@[simp] theorem setSharedLine_bus : c.setSharedLine.bus = { c.bus with sharedLine := true } := rfl

@[simp] theorem setSharedLine_moduleID : c.setSharedLine.moduleID = c.moduleID := rfl

end Ctx

/-! ## Traffic -/

/-- What caches do to the bus and to the counters. -/
structure Traffic where
  /-- The requests that are queued; a miss is counted for each. -/
  requests : List Mreq := []
  /-- The data that is sent to a cache; a transfer is counted for it. -/
  reply : Option Mreq := none
  /-- The shared wire is driven. -/
  shared : Bool := false
  accesses : ℕ := 0
  silentUpgrades : ℕ := 0

namespace Traffic

def onBus (x : Traffic) (bus : Bus) : Bus :=
  { bus with
    pendingRequests := bus.pendingRequests ++ x.requests
    dataReply := x.reply.or bus.dataReply
    sharedLine := bus.sharedLine || x.shared }

def onStats (x : Traffic) (stats : Stats) : Stats where
  cacheMisses := stats.cacheMisses + x.requests.length
  cacheAccesses := stats.cacheAccesses + x.accesses
  silentUpgrades := stats.silentUpgrades + x.silentUpgrades
  cacheToCacheTransfers := stats.cacheToCacheTransfers + x.reply.toList.length

/-- First `x` and then `y`. -/
def append (x y : Traffic) : Traffic where
  requests := x.requests ++ y.requests
  reply := y.reply.or x.reply
  shared := x.shared || y.shared
  accesses := x.accesses + y.accesses
  silentUpgrades := x.silentUpgrades + y.silentUpgrades

@[simp] theorem onBus_empty (bus : Bus) : ({} : Traffic).onBus bus = bus := by
  simp [onBus]

@[simp] theorem onStats_empty (stats : Stats) : ({} : Traffic).onStats stats = stats := rfl

theorem onBus_append (x y : Traffic) (bus : Bus) :
    (x.append y).onBus bus = y.onBus (x.onBus bus) := by
  simp [onBus, append, Option.or_assoc, Bool.or_assoc]

/-- At most one of two pieces of traffic sends data. -/
theorem onStats_append {x y : Traffic} (hreply : y.reply.isSome → x.reply = none) (stats : Stats) :
    (x.append y).onStats stats = y.onStats (x.onStats stats) := by
  cases hy : y.reply with
  | none => simp [onStats, append, hy, Nat.add_assoc]
  | some d => simp [onStats, append, hy, hreply (hy ▸ rfl), Nat.add_assoc]

end Traffic

/-! ## Outcomes -/

structure Outcome (σ : Type) extends Traffic where
  state : σ
  /-- The answer to the processor. -/
  answer : Option Mreq := none

namespace Outcome

/-- The handler has done what `o` says. -/
def apply (o : Outcome σ) (c : Ctx σ) : Ctx σ where
  moduleID := c.moduleID
  state := o.state
  bus := o.toTraffic.onBus c.bus
  inboundRequestBuf := o.answer.or c.inboundRequestBuf
  stats := o.toTraffic.onStats c.stats

/-- The assertions of `bus_request` and `write_to_proc` come first. -/
def perform (o : Outcome σ) (c : Ctx σ) : Except Abort (Ctx σ) :=
  if o.reply.isSome && c.bus.dataReply.isSome then
    .error (.assertFailed "data_reply == NULL")
  else if o.answer.isSome && c.inboundRequestBuf.isSome then
    .error (.assertFailed "!pr->inbound_request_buf")
  else
    .ok (o.apply c)

variable {o : Outcome σ} {c c' : Ctx σ}

theorem perform_eq (hreply : o.reply.isSome → c.bus.dataReply = none)
    (hanswer : o.answer.isSome → c.inboundRequestBuf = none) : o.perform c = .ok (o.apply c) := by
  have hreply' : ¬ (o.reply.isSome && c.bus.dataReply.isSome) = true := by
    rw [Bool.and_eq_true, not_and, Option.not_isSome_iff_eq_none]
    exact hreply
  have hanswer' : ¬ (o.answer.isSome && c.inboundRequestBuf.isSome) = true := by
    rw [Bool.and_eq_true, not_and, Option.not_isSome_iff_eq_none]
    exact hanswer
  rw [perform, if_neg hreply', if_neg hanswer']

theorem of_perform (h : o.perform c = .ok c') : c' = o.apply c ∧
    (o.reply.isSome → c.bus.dataReply = none) ∧
    (o.answer.isSome → c.inboundRequestBuf = none) := by
  unfold perform at h
  split at h
  · cases h
  · rename_i hreply
    split at h
    · cases h
    · rename_i hanswer
      rw [Bool.and_eq_true, not_and, Option.not_isSome_iff_eq_none] at hreply hanswer
      exact ⟨(Except.ok.inj h).symm, hreply, hanswer⟩

section Then

/-- An outcome may be followed by what cannot fail. -/
theorem perform_bind (o' : Outcome σ) {f : Ctx σ → Except Abort (Ctx σ)}
    (hreply : o'.reply = o.reply) (hanswer : o'.answer = o.answer)
    (hf : f (o.apply c) = .ok (o'.apply c)) : o.perform c >>= f = o'.perform c := by
  unfold perform
  rw [hreply, hanswer]
  split
  · rfl
  · split
    · rfl
    · exact hf

theorem perform_setState (next : σ) :
    (do let c ← o.perform c; return c.setState next) = { o with state := next }.perform c :=
  perform_bind { o with state := next } rfl rfl rfl

theorem perform_setSharedLine :
    (do let c ← o.perform c; return c.setSharedLine) = { o with shared := true }.perform c := by
  refine perform_bind { o with shared := true } (by rfl) (by rfl) ?_
  simp [Ctx.setSharedLine, apply, Traffic.onBus, Traffic.onStats, pure, Except.pure]

/-- The wire may be driven before the rest. -/
theorem perform_of_setSharedLine :
    o.perform c.setSharedLine = { o with shared := true }.perform c := by
  simp [perform, Ctx.setSharedLine, apply, Traffic.onBus, Traffic.onStats]

end Then

end Outcome

/-! ## The functions of `protocol.cpp` -/

section Send

variable (c : Ctx σ) (addr : PAddr)

/-- `send_GETS` and `send_GETM`, as the handlers use them. -/
theorem sendGETS_eq (next : σ) : (do let c ← c.sendGETS addr; return (c.setState next).countMiss) =
    { state := next, requests := [cacheMessage .GETS addr c.moduleID] : Outcome σ }.perform c := by
  simp [Ctx.sendGETS, Ctx.writeToBus, Bus.busRequest, Mreq.new, cacheMessage, Ctx.setState,
    Ctx.countMiss, Outcome.perform, Outcome.apply, Traffic.onBus, Traffic.onStats, bind,
    Except.bind, pure, Except.pure]

theorem sendGETM_eq (next : σ) : (do let c ← c.sendGETM addr; return (c.setState next).countMiss) =
    { state := next, requests := [cacheMessage .GETM addr c.moduleID] : Outcome σ }.perform c := by
  simp [Ctx.sendGETM, Ctx.writeToBus, Bus.busRequest, Mreq.new, cacheMessage, Ctx.setState,
    Ctx.countMiss, Outcome.perform, Outcome.apply, Traffic.onBus, Traffic.onStats, bind,
    Except.bind, pure, Except.pure]

theorem sendDATAOnBus_eq (dest : ModuleID) : c.sendDATAOnBus addr dest =
    { state := c.state
      reply := some (cacheMessage .DATA addr c.moduleID dest) : Outcome σ }.perform c := by
  cases hreply : c.bus.dataReply <;>
    simp [Ctx.sendDATAOnBus, Ctx.writeToBus, Bus.busRequest, Mreq.new, cacheMessage,
      Outcome.perform, Outcome.apply, Traffic.onBus, Traffic.onStats, bind, Except.bind, pure,
      Except.pure, hreply]

theorem sendDATAToProc_eq : c.sendDATAToProc addr =
    { state := c.state
      answer := some (cacheMessage .DATA addr c.moduleID) : Outcome σ }.perform c := by
  cases hbuf : c.inboundRequestBuf <;>
    simp [Ctx.sendDATAToProc, Ctx.writeToProc, Mreq.new, cacheMessage, Outcome.perform,
      Outcome.apply, Traffic.onBus, Traffic.onStats, hbuf]

end Send

/-! ## Uniform handlers -/

/-- The entry in `state`, in an otherwise empty simulator in which the shared wire is at `wire`. -/
def Ctx.blank (mid : ModuleID) (state : σ) (wire : Bool) : Ctx σ :=
  ⟨mid, state, { sharedLine := wire }, none, {}⟩

namespace Handler

/-- What the handler does to that entry. -/
def outcome (h : Handler σ) (mid : ModuleID) (state : σ) (wire : Bool) (request : Mreq) :
    Except Abort (Outcome σ) := do
  let c ← h (.blank mid state wire) request
  return {
    state := c.state
    requests := c.bus.pendingRequests
    reply := c.bus.dataReply
    answer := c.inboundRequestBuf
    shared := !wire && c.bus.sharedLine
    silentUpgrades := c.stats.silentUpgrades }

/-- A handler that performs `o` in the empty simulator has this outcome. -/
theorem outcome_eq {h : Handler σ} {mid : ModuleID} {state : σ} {wire : Bool} {request : Mreq}
    (o : Outcome σ) (heq : h (.blank mid state wire) request = o.perform (.blank mid state wire)) :
    h.outcome mid state wire request =
      .ok { o with shared := !wire && (wire || o.shared), accesses := 0 } := by
  rw [outcome, heq, Outcome.perform_eq (fun _ ↦ rfl) fun _ ↦ rfl]
  simp [Outcome.apply, Ctx.blank, Traffic.onBus, Traffic.onStats, bind, Except.bind, pure,
    Except.pure]

/-- What a handler can know of the shared wire. -/
def wireSeen (c : Ctx σ) (request : Mreq) : Bool := request.msg = .DATA && c.bus.sharedLine

/-- The handler does to `c` what it would do in an empty simulator. -/
def UniformAt (h : Handler σ) (c : Ctx σ) (request : Mreq) : Prop :=
  h c request = h.outcome c.moduleID c.state (wireSeen c request) request >>= (·.perform c)

def Uniform (h : Handler σ) : Prop := ∀ c request, h.UniformAt c request

namespace UniformAt

variable {h g : Handler σ} {c : Ctx σ} {request : Mreq}

theorem congr (heq : ∀ c' : Ctx σ, c'.state = c.state → h c' request = g c' request)
    (hg : g.UniformAt c request) : h.UniformAt c request := by
  unfold UniformAt outcome
  rw [heq c rfl, heq (.blank c.moduleID c.state _) rfl]
  exact hg

theorem of_error {e : Abort} (heq : ∀ c' : Ctx σ, h c' request = .error e) :
    h.UniformAt c request := by
  unfold UniformAt outcome
  rw [heq c, heq _]
  rfl

theorem of_perform (o : Outcome σ) (haccesses : o.accesses = 0)
    (heq : ∀ c' : Ctx σ, c'.moduleID = c.moduleID → c'.state = c.state →
      (request.msg = .DATA → c'.bus.sharedLine = c.bus.sharedLine) →
      h c' request = o.perform c') : h.UniformAt c request := by
  have hblank : h.outcome c.moduleID c.state (wireSeen c request) request = _ :=
    outcome_eq o (heq (.blank _ _ _) rfl rfl fun hdata ↦ by simp [wireSeen, Ctx.blank, hdata])
  have hshared : (c.bus.sharedLine ||
      (!wireSeen c request && (wireSeen c request || o.shared))) =
      (c.bus.sharedLine || o.shared) := by
    cases hwire : c.bus.sharedLine <;> cases o.shared <;> simp [wireSeen, hwire]
  rw [UniformAt, heq c rfl rfl fun _ ↦ rfl, hblank]
  simp [bind, Except.bind, Outcome.perform, Outcome.apply, Traffic.onBus, Traffic.onStats,
    haccesses, hshared]

end UniformAt

/-- A handler that leaves the work in each state to a uniform one is uniform. -/
theorem Uniform.of_states {h : Handler σ} (hstates : ∀ state, ∃ g : Handler σ,
    (∀ (c : Ctx σ) request, h (c.setState state) request = g (c.setState state) request) ∧
      ∀ c request, g.UniformAt c request) : h.Uniform := by
  intro c request
  obtain ⟨g, heq, hg⟩ := hstates c.state
  refine UniformAt.congr (fun c' hc' ↦ ?_) (hg c request)
  have hset : c'.setState c.state = c' := by
    rw [← hc']
    rfl
  rw [← hset]
  exact heq c' request

/-! ## The shapes of handlers -/

section Shapes

variable {c : Ctx σ} {request : Mreq} {message : String}

theorem missBoth_uniform {sendLoad : Ctx σ → PAddr → Except Abort (Ctx σ)} {msg : Message}
    {loadState storeState : σ}
    (hsend : ∀ (c : Ctx σ) addr,
      (do let c ← sendLoad c addr; return (c.setState loadState).countMiss) =
        { state := loadState
          requests := [cacheMessage msg addr c.moduleID] : Outcome σ }.perform c) :
    (missBoth sendLoad loadState storeState message).UniformAt c request := by
  cases hmsg : request.msg with
  | LOAD =>
    apply UniformAt.of_perform
      { state := loadState, requests := [cacheMessage msg request.addr c.moduleID] } rfl
    intro c' hmid _ _
    simp only [missBoth, hmsg, hsend, hmid]
  | STORE =>
    apply UniformAt.of_perform
      { state := storeState, requests := [cacheMessage .GETM request.addr c.moduleID] } rfl
    intro c' hmid _ _
    simp only [missBoth, hmsg, sendGETM_eq, hmid]
  | _ => exact UniformAt.of_error fun c' ↦ by simp only [missBoth, hmsg]; rfl

theorem hitLoad_uniform {upgradeState : σ} :
    (hitLoad upgradeState message).UniformAt c request := by
  cases hmsg : request.msg with
  | LOAD =>
    apply UniformAt.of_perform
      { state := c.state, answer := some (cacheMessage .DATA request.addr c.moduleID) } rfl
    intro c' hmid hstate _
    simp only [hitLoad, hmsg, sendDATAToProc_eq, hmid, hstate]
  | STORE =>
    apply UniformAt.of_perform
      { state := upgradeState, requests := [cacheMessage .GETM request.addr c.moduleID] } rfl
    intro c' hmid _ _
    simp only [hitLoad, hmsg, sendGETM_eq, hmid]
  | _ => exact UniformAt.of_error fun c' ↦ by simp only [hitLoad, hmsg]; rfl

theorem hitUpgrade_uniform {dirtyState : σ} :
    (hitUpgrade dirtyState message).UniformAt c request := by
  cases hmsg : request.msg with
  | LOAD =>
    apply UniformAt.of_perform
      { state := c.state, answer := some (cacheMessage .DATA request.addr c.moduleID) } rfl
    intro c' hmid hstate _
    simp only [hitUpgrade, hmsg, sendDATAToProc_eq, hmid, hstate]
  | STORE =>
    apply UniformAt.of_perform
      { state := dirtyState
        answer := some (cacheMessage .DATA request.addr c.moduleID)
        silentUpgrades := 1 } rfl
    intro c' hmid _ _
    simp only [hitUpgrade, hmsg, sendDATAToProc_eq, hmid]
    exact Outcome.perform_bind _ rfl rfl rfl
  | _ => exact UniformAt.of_error fun c' ↦ by simp only [hitUpgrade, hmsg]; rfl

theorem hitBoth_uniform : (hitBoth message : Handler σ).UniformAt c request := by
  have hanswer (hmsg : request.msg = .LOAD ∨ request.msg = .STORE) :
      (hitBoth message : Handler σ).UniformAt c request := by
    apply UniformAt.of_perform
      { state := c.state, answer := some (cacheMessage .DATA request.addr c.moduleID) } rfl
    intro c' hmid hstate _
    rcases hmsg with hmsg | hmsg <;> simp only [hitBoth, hmsg, sendDATAToProc_eq, hmid, hstate]
  cases hmsg : request.msg with
  | LOAD => exact hanswer (.inl hmsg)
  | STORE => exact hanswer (.inr hmsg)
  | _ => exact UniformAt.of_error fun c' ↦ by simp only [hitBoth, hmsg]; rfl

theorem busy_uniform : (busy message : Handler σ).UniformAt c request := by
  cases hmsg : request.msg <;>
    exact UniformAt.of_error fun c' ↦ by simp only [busy, hmsg]; rfl

/-- Nothing is done, apart from the new state and the wire. -/
theorem quiet_uniform {h : Handler σ} (next : σ) (shared : Bool)
    (heq : ∀ c' : Ctx σ, c'.state = c.state → h c' request =
      .ok ((if shared then c'.setSharedLine else c').setState next)) : h.UniformAt c request := by
  apply UniformAt.of_perform { state := next, shared := shared } rfl
  intro c' _ hstate _
  rw [heq c' hstate, Outcome.perform_eq (by simp) (by simp)]
  cases shared <;>
    simp [Ctx.setSharedLine, Ctx.setState, Outcome.apply, Traffic.onBus, Traffic.onStats]

theorem snoopNothing_uniform : (snoopNothing message : Handler σ).UniformAt c request := by
  have hnothing (heq : ∀ c' : Ctx σ, snoopNothing message c' request = .ok c') :
      (snoopNothing message : Handler σ).UniformAt c request := by
    refine quiet_uniform c.state false fun c' hstate ↦ ?_
    rw [heq, ← hstate]
    rfl
  cases hmsg : request.msg with
  | GETS | GETM | DATA => exact hnothing fun c' ↦ by simp only [snoopNothing, hmsg]
  | _ => exact UniformAt.of_error fun c' ↦ by simp only [snoopNothing, hmsg]; rfl

theorem snoopShared_uniform {invalidState : σ} :
    (snoopShared invalidState message).UniformAt c request := by
  cases hmsg : request.msg with
  | GETS =>
    refine quiet_uniform c.state true fun c' hstate ↦ ?_
    simp only [snoopShared, hmsg, ← hstate]
    rfl
  | GETM =>
    refine quiet_uniform invalidState true fun c' _ ↦ ?_
    simp only [snoopShared, hmsg]
    rfl
  | _ => exact UniformAt.of_error fun c' ↦ by simp only [snoopShared, hmsg]; rfl

/-- The data is sent after the wire has been driven. -/
theorem wireThenReply_eq (c : Ctx σ) (request : Mreq) :
    c.setSharedLine.sendDATAOnBus request.addr request.srcMid =
      { state := c.state
        reply := some (cacheMessage .DATA request.addr c.moduleID request.srcMid)
        shared := true : Outcome σ }.perform c := by
  rw [sendDATAOnBus_eq, Outcome.perform_of_setSharedLine]
  rfl

/-- The data is sent before the wire is driven. -/
theorem replyThenWire_eq (c : Ctx σ) (request : Mreq) (next : σ) :
    (do let c ← c.sendDATAOnBus request.addr request.srcMid
        return c.setSharedLine.setState next) =
      { state := next
        reply := some (cacheMessage .DATA request.addr c.moduleID request.srcMid)
        shared := true : Outcome σ }.perform c := by
  rw [sendDATAOnBus_eq]
  refine Outcome.perform_bind _ (by rfl) (by rfl) ?_
  simp [Ctx.setSharedLine, Ctx.setState, Outcome.apply, Traffic.onBus, Traffic.onStats, pure,
    Except.pure]

theorem reply_uniform {h : Handler σ} (next : σ) (shared : Bool)
    (heq : ∀ c' : Ctx σ, c'.moduleID = c.moduleID → c'.state = c.state → h c' request =
      { state := next
        reply := some (cacheMessage .DATA request.addr c'.moduleID request.srcMid)
        shared := shared : Outcome σ }.perform c') : h.UniformAt c request :=
  UniformAt.of_perform
    { state := next
      reply := some (cacheMessage .DATA request.addr c.moduleID request.srcMid)
      shared := shared } rfl fun c' hmid hstate _ ↦ hmid ▸ heq c' hmid hstate

theorem snoopOwner_uniform {getsState getmState : σ} :
    (snoopOwner getsState getmState message).UniformAt c request := by
  cases hmsg : request.msg with
  | GETS =>
    refine reply_uniform getsState true fun c' _ _ ↦ ?_
    simp only [snoopOwner, hmsg, wireThenReply_eq, Outcome.perform_setState]
  | GETM =>
    refine reply_uniform getmState true fun c' _ _ ↦ ?_
    simp only [snoopOwner, hmsg, wireThenReply_eq, Outcome.perform_setState]
  | _ => exact UniformAt.of_error fun c' ↦ by simp only [snoopOwner, hmsg]; rfl

theorem surrender_eq (demotedState : σ) (c : Ctx σ) (request : Mreq) :
    surrender demotedState c request =
      { state := if request.srcMid = c.moduleID then c.state else demotedState
        reply := some (cacheMessage .DATA request.addr c.moduleID request.srcMid)
        shared := true : Outcome σ }.perform c := by
  rw [surrender, wireThenReply_eq]
  refine Outcome.perform_bind _ (by rfl) (by rfl) ?_
  by_cases hown : request.srcMid = c.moduleID
  · simp only [Outcome.apply, hown, ne_eq, not_true_eq_false, if_false, if_true]
    rfl
  · simp only [Outcome.apply, hown, ne_eq, not_false_eq_true, if_false, if_true]
    rfl

theorem surrender_uniform {demotedState : σ} : (surrender demotedState).UniformAt c request :=
  reply_uniform (if request.srcMid = c.moduleID then c.state else demotedState) true
    fun c' hmid hstate ↦ by rw [surrender_eq, hmid, hstate]

theorem snoopWaiting_uniform {fill : Handler σ}
    (hfill : request.msg = .DATA → fill.UniformAt c request) :
    (snoopWaiting fill message).UniformAt c request := by
  cases hmsg : request.msg with
  | GETS | GETM =>
    refine quiet_uniform c.state false fun c' hstate ↦ ?_
    simp only [snoopWaiting, hmsg, ← hstate]
    rfl
  | DATA => exact (hfill hmsg).congr fun c' _ ↦ by simp only [snoopWaiting, hmsg]
  | _ => exact UniformAt.of_error fun c' ↦ by simp only [snoopWaiting, hmsg]; rfl

theorem snoopUpgrading_uniform {getmState : σ} {fill : Handler σ}
    (hfill : request.msg = .DATA → fill.UniformAt c request) :
    (snoopUpgrading getmState fill message).UniformAt c request := by
  cases hmsg : request.msg with
  | GETS =>
    refine quiet_uniform c.state true fun c' hstate ↦ ?_
    simp only [snoopUpgrading, hmsg, ← hstate]
    rfl
  | GETM =>
    refine quiet_uniform getmState true fun c' _ ↦ ?_
    simp only [snoopUpgrading, hmsg]
    rfl
  | DATA => exact (hfill hmsg).congr fun c' _ ↦ by simp only [snoopUpgrading, hmsg]
  | _ => exact UniformAt.of_error fun c' ↦ by simp only [snoopUpgrading, hmsg]; rfl

theorem fillWith_uniform {next : σ} : (fillWith next).UniformAt c request := by
  apply UniformAt.of_perform
    { state := next, answer := some (cacheMessage .DATA request.addr c.moduleID) } rfl
  intro c' hmid _ _
  simp only [fillWith, sendDATAToProc_eq, hmid, Outcome.perform_setState]

theorem fillByWire_uniform {sharedState exclusiveState : σ} (hmsg : request.msg = .DATA) :
    (fillByWire sharedState exclusiveState).UniformAt c request := by
  apply UniformAt.of_perform
    { state := if c.bus.sharedLine then sharedState else exclusiveState
      answer := some (cacheMessage .DATA request.addr c.moduleID) } rfl
  intro c' hmid _ hseen
  have hwire : c'.bus.sharedLine = c.bus.sharedLine := hseen hmsg
  cases hup : c.bus.sharedLine with
  | true =>
    -- the wire is already up, so driving it again changes nothing
    have hsame : c'.setSharedLine = c' := by rw [Ctx.setSharedLine, ← hup, ← hwire]
    simp only [fillByWire, Ctx.getSharedLine, hwire, hup, if_true, hsame, sendDATAToProc_eq, hmid,
      Outcome.perform_setState]
  | false =>
    simp only [fillByWire, Ctx.getSharedLine, hwire, hup, Bool.false_eq_true, if_false,
      sendDATAToProc_eq, hmid, Outcome.perform_setState]

end Shapes

end Handler

end ArchSim.Coherence
