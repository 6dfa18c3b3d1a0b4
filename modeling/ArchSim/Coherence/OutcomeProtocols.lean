import ArchSim.Coherence.Outcome

/-!
# The outcomes of the protocols' handlers

The handlers of the five protocols are uniform. A processor's request sends no data, a message on
the bus queues no request, and of the five only `MOESI` drives the shared wire for a processor.
-/

namespace ArchSim.Coherence

open Handler

section

variable {σ : Type}

/-- What the cache `mid` may do at a request of its processor; only with `drives` may it drive the
wire. -/
structure Asks (drives : Bool) (mid : ModuleID) (request : Mreq) (o : Outcome σ) : Prop where
  msg : request.msg = .LOAD ∨ request.msg = .STORE
  requests : ∀ r ∈ o.requests, r = cacheMessage .GETS request.addr mid ∨
    r = cacheMessage .GETM request.addr mid
  reply : o.reply = none
  shared : o.shared = true → drives = true

/-- What the cache `mid` may do at a message on the bus. -/
structure Snooped (mid : ModuleID) (request : Mreq) (o : Outcome σ) : Prop where
  requests : o.requests = []
  reply : ∀ d ∈ o.reply, d = cacheMessage .DATA request.addr mid request.srcMid
  data : request.msg = .DATA → o.reply = none ∧ o.shared = false

end

/-- The handlers of `P` are uniform and do only what a cache may do. -/
structure Regular (P : Protocol) (drives : Bool) : Prop where
  cache : P.processCacheRequest.Uniform
  snoop : P.processSnoopRequest.Uniform
  asks : ∀ {mid state wire request o},
    P.processCacheRequest.outcome mid state wire request = .ok o → Asks drives mid request o
  snooped : ∀ {mid state wire request o},
    P.processSnoopRequest.outcome mid state wire request = .ok o → Snooped mid request o

/-! ## MI -/

namespace MI

theorem processCacheRequest_uniform : processCacheRequest.Uniform := by
  refine .of_states fun state ↦ ?_
  cases state with
  | I =>
    exact ⟨doCacheI, fun _ _ ↦ rfl, fun _ _ ↦ missBoth_uniform fun c addr ↦ sendGETM_eq c addr _⟩
  | IM => exact ⟨doCacheIM, fun _ _ ↦ rfl, fun _ _ ↦ busy_uniform⟩
  | M => exact ⟨doCacheM, fun _ _ ↦ rfl, fun _ _ ↦ hitBoth_uniform⟩

theorem processSnoopRequest_uniform : processSnoopRequest.Uniform := by
  refine .of_states fun state ↦ ?_
  cases state with
  | I => exact ⟨doSnoopI, fun _ _ ↦ rfl, fun _ _ ↦ snoopNothing_uniform⟩
  | IM => exact ⟨doSnoopIM, fun _ _ ↦ rfl, fun _ _ ↦ snoopWaiting_uniform fun _ ↦ fillWith_uniform⟩
  | M => exact ⟨doSnoopM, fun _ _ ↦ rfl, fun _ _ ↦ snoopOwner_uniform⟩

end MI

/-! ## MSI -/

namespace MSI

theorem processCacheRequest_uniform : processCacheRequest.Uniform := by
  refine .of_states fun state ↦ ?_
  cases state with
  | I =>
    exact ⟨doCacheI, fun _ _ ↦ rfl, fun _ _ ↦ missBoth_uniform fun c addr ↦ sendGETS_eq c addr _⟩
  | IM => exact ⟨doCacheIM, fun _ _ ↦ rfl, fun _ _ ↦ busy_uniform⟩
  | IS => exact ⟨doCacheIS, fun _ _ ↦ rfl, fun _ _ ↦ busy_uniform⟩
  | M => exact ⟨doCacheM, fun _ _ ↦ rfl, fun _ _ ↦ hitBoth_uniform⟩
  | S => exact ⟨doCacheS, fun _ _ ↦ rfl, fun _ _ ↦ hitLoad_uniform⟩
  | SM => exact ⟨doCacheSM, fun _ _ ↦ rfl, fun _ _ ↦ busy_uniform⟩

theorem processSnoopRequest_uniform : processSnoopRequest.Uniform := by
  refine .of_states fun state ↦ ?_
  cases state with
  | I => exact ⟨doSnoopI, fun _ _ ↦ rfl, fun _ _ ↦ snoopNothing_uniform⟩
  | IM => exact ⟨doSnoopIM, fun _ _ ↦ rfl, fun _ _ ↦ snoopWaiting_uniform fun _ ↦ fillWith_uniform⟩
  | IS => exact ⟨doSnoopIS, fun _ _ ↦ rfl, fun _ _ ↦ snoopWaiting_uniform fun _ ↦ fillWith_uniform⟩
  | M => exact ⟨doSnoopM, fun _ _ ↦ rfl, fun _ _ ↦ snoopOwner_uniform⟩
  | S => exact ⟨doSnoopS, fun _ _ ↦ rfl, fun _ _ ↦ snoopShared_uniform⟩
  | SM =>
    exact ⟨doSnoopSM, fun _ _ ↦ rfl, fun _ _ ↦ snoopUpgrading_uniform fun _ ↦ fillWith_uniform⟩

end MSI

/-! ## MESI -/

namespace MESI

theorem doSnoopE_uniform {c : Ctx State} {request : Mreq} : doSnoopE.UniformAt c request := by
  cases hmsg : request.msg with
  | GETS =>
    refine reply_uniform .S true fun c' _ _ ↦ ?_
    simp only [doSnoopE, hmsg, wireThenReply_eq, Outcome.perform_setState]
  | GETM =>
    refine reply_uniform .I true fun c' _ _ ↦ ?_
    simp only [doSnoopE, hmsg, replyThenWire_eq]
  | _ => exact UniformAt.of_error fun c' ↦ by simp only [doSnoopE, hmsg]; rfl

theorem processCacheRequest_uniform : processCacheRequest.Uniform := by
  refine .of_states fun state ↦ ?_
  cases state with
  | I =>
    exact ⟨doCacheI, fun _ _ ↦ rfl, fun _ _ ↦ missBoth_uniform fun c addr ↦ sendGETS_eq c addr _⟩
  | S => exact ⟨doCacheS, fun _ _ ↦ rfl, fun _ _ ↦ hitLoad_uniform⟩
  | E => exact ⟨doCacheE, fun _ _ ↦ rfl, fun _ _ ↦ hitUpgrade_uniform⟩
  | M => exact ⟨doCacheM, fun _ _ ↦ rfl, fun _ _ ↦ hitBoth_uniform⟩
  | IM => exact ⟨doCacheIM, fun _ _ ↦ rfl, fun _ _ ↦ busy_uniform⟩
  | ISE => exact ⟨doCacheISE, fun _ _ ↦ rfl, fun _ _ ↦ busy_uniform⟩
  | SM => exact ⟨doCacheSM, fun _ _ ↦ rfl, fun _ _ ↦ busy_uniform⟩

theorem processSnoopRequest_uniform : processSnoopRequest.Uniform := by
  refine .of_states fun state ↦ ?_
  cases state with
  | I => exact ⟨doSnoopI, fun _ _ ↦ rfl, fun _ _ ↦ snoopNothing_uniform⟩
  | S => exact ⟨doSnoopS, fun _ _ ↦ rfl, fun _ _ ↦ snoopShared_uniform⟩
  | E => exact ⟨doSnoopE, fun _ _ ↦ rfl, fun _ _ ↦ doSnoopE_uniform⟩
  | M => exact ⟨doSnoopM, fun _ _ ↦ rfl, fun _ _ ↦ snoopOwner_uniform⟩
  | IM => exact ⟨doSnoopIM, fun _ _ ↦ rfl, fun _ _ ↦ snoopWaiting_uniform fun _ ↦ fillWith_uniform⟩
  | ISE => exact ⟨doSnoopISE, fun _ _ ↦ rfl, fun _ _ ↦ snoopWaiting_uniform fillByWire_uniform⟩
  | SM =>
    exact ⟨doSnoopSM, fun _ _ ↦ rfl, fun _ _ ↦ snoopUpgrading_uniform fun _ ↦ fillWith_uniform⟩

end MESI

/-! ## MOSI -/

namespace MOSI

theorem doSnoopOM_uniform {c : Ctx State} {request : Mreq} : doSnoopOM.UniformAt c request := by
  cases hmsg : request.msg with
  | GETS =>
    refine reply_uniform c.state true fun c' _ hstate ↦ ?_
    simp only [doSnoopOM, hmsg, wireThenReply_eq, hstate]
  | GETM =>
    apply UniformAt.congr (g := surrender .IM)
    · exact fun c' _ ↦ by simp only [doSnoopOM, hmsg]
    · exact surrender_uniform
  | DATA =>
    apply UniformAt.congr (g := fillWith .M)
    · exact fun c' _ ↦ by simp only [doSnoopOM, hmsg]
    · exact fillWith_uniform
  | _ => exact UniformAt.of_error fun c' ↦ by simp only [doSnoopOM, hmsg]; rfl

theorem processCacheRequest_uniform : processCacheRequest.Uniform := by
  refine .of_states fun state ↦ ?_
  cases state with
  | I =>
    exact ⟨doCacheI, fun _ _ ↦ rfl, fun _ _ ↦ missBoth_uniform fun c addr ↦ sendGETS_eq c addr _⟩
  | S => exact ⟨doCacheS, fun _ _ ↦ rfl, fun _ _ ↦ hitLoad_uniform⟩
  | O => exact ⟨doCacheO, fun _ _ ↦ rfl, fun _ _ ↦ hitLoad_uniform⟩
  | M => exact ⟨doCacheM, fun _ _ ↦ rfl, fun _ _ ↦ hitBoth_uniform⟩
  | IM => exact ⟨doCacheIM, fun _ _ ↦ rfl, fun _ _ ↦ busy_uniform⟩
  | IS => exact ⟨doCacheIS, fun _ _ ↦ rfl, fun _ _ ↦ busy_uniform⟩
  | SM => exact ⟨doCacheSM, fun _ _ ↦ rfl, fun _ _ ↦ busy_uniform⟩
  | OM => exact ⟨doCacheOM, fun _ _ ↦ rfl, fun _ _ ↦ busy_uniform⟩

theorem processSnoopRequest_uniform : processSnoopRequest.Uniform := by
  refine .of_states fun state ↦ ?_
  cases state with
  | I => exact ⟨doSnoopI, fun _ _ ↦ rfl, fun _ _ ↦ snoopNothing_uniform⟩
  | S => exact ⟨doSnoopS, fun _ _ ↦ rfl, fun _ _ ↦ snoopShared_uniform⟩
  | O => exact ⟨doSnoopO, fun _ _ ↦ rfl, fun _ _ ↦ snoopOwner_uniform⟩
  | M => exact ⟨doSnoopM, fun _ _ ↦ rfl, fun _ _ ↦ snoopOwner_uniform⟩
  | IM => exact ⟨doSnoopIM, fun _ _ ↦ rfl, fun _ _ ↦ snoopWaiting_uniform fun _ ↦ fillWith_uniform⟩
  | IS => exact ⟨doSnoopIS, fun _ _ ↦ rfl, fun _ _ ↦ snoopWaiting_uniform fun _ ↦ fillWith_uniform⟩
  | SM =>
    exact ⟨doSnoopSM, fun _ _ ↦ rfl, fun _ _ ↦ snoopUpgrading_uniform fun _ ↦ fillWith_uniform⟩
  | OM => exact ⟨doSnoopOM, fun _ _ ↦ rfl, fun _ _ ↦ doSnoopOM_uniform⟩

variable {mid : ModuleID} {wire : Bool} {request : Mreq}

/-- What `do_snoop_OM` does on a `GETM`. -/
theorem outcome_surrender (hmsg : request.msg = .GETM) :
    processSnoopRequest.outcome mid .OM wire request = .ok
      { state := if request.srcMid = mid then .OM else .IM
        reply := some (cacheMessage .DATA request.addr mid request.srcMid)
        shared := !wire && (wire || true) } := by
  have hsurrender : processSnoopRequest (.blank mid .OM wire) request =
      surrender .IM (.blank mid .OM wire) request := by
    simp only [processSnoopRequest, doSnoopOM, Ctx.blank, hmsg]
  exact outcome_eq _ (hsurrender.trans (surrender_eq _ _ _))

end MOSI

/-! ## MOESI -/

namespace MOESI

theorem doCacheS_uniform {c : Ctx State} {request : Mreq} : doCacheS.UniformAt c request := by
  cases hmsg : request.msg with
  | LOAD =>
    apply UniformAt.of_perform
      { state := c.state
        answer := some (cacheMessage .DATA request.addr c.moduleID)
        shared := true } rfl
    intro c' hmid hstate _
    simp only [doCacheS, hmsg, sendDATAToProc_eq, Outcome.perform_setSharedLine, hmid, hstate]
  | STORE =>
    apply UniformAt.of_perform
      { state := .SM, requests := [cacheMessage .GETM request.addr c.moduleID] } rfl
    intro c' hmid _ _
    simp only [doCacheS, hmsg, sendGETM_eq, hmid]
  | _ => exact UniformAt.of_error fun c' ↦ by simp only [doCacheS, hmsg]; rfl

theorem doSnoopE_uniform {c : Ctx State} {request : Mreq} : doSnoopE.UniformAt c request := by
  cases hmsg : request.msg with
  | GETS =>
    refine reply_uniform .S true fun c' _ _ ↦ ?_
    simp only [doSnoopE, hmsg, replyThenWire_eq]
  | GETM =>
    refine reply_uniform .I true fun c' _ _ ↦ ?_
    simp only [doSnoopE, hmsg, replyThenWire_eq]
  | _ => exact UniformAt.of_error fun c' ↦ by simp only [doSnoopE, hmsg]; rfl

theorem doSnoopO_uniform {c : Ctx State} {request : Mreq} : doSnoopO.UniformAt c request := by
  cases hmsg : request.msg with
  | GETS =>
    refine reply_uniform c.state false fun c' _ hstate ↦ ?_
    simp only [doSnoopO, hmsg, sendDATAOnBus_eq, hstate]
  | GETM =>
    refine reply_uniform .I true fun c' _ _ ↦ ?_
    simp only [doSnoopO, hmsg, wireThenReply_eq, Outcome.perform_setState]
  | _ => exact UniformAt.of_error fun c' ↦ by simp only [doSnoopO, hmsg]; rfl

/-- On a read the node's own processor is answered. -/
theorem doSnoopOM_uniform {c : Ctx State} {request : Mreq} : doSnoopOM.UniformAt c request := by
  cases hmsg : request.msg with
  | GETS =>
    apply UniformAt.of_perform
      { state := .M
        answer := some (cacheMessage .DATA request.addr c.moduleID)
        shared := true } rfl
    intro c' hmid _ _
    simp only [doSnoopOM, hmsg, sendDATAToProc_eq, Outcome.perform_of_setSharedLine,
      Outcome.perform_setState]
    rw [← hmid]
    rfl
  | GETM =>
    apply UniformAt.congr (g := surrender .IM)
    · exact fun c' _ ↦ by simp only [doSnoopOM, hmsg]
    · exact surrender_uniform
  | DATA =>
    apply UniformAt.congr (g := fillWith .M)
    · exact fun c' _ ↦ by simp only [doSnoopOM, hmsg]
    · exact fillWith_uniform
  | _ => exact UniformAt.of_error fun c' ↦ by simp only [doSnoopOM, hmsg]; rfl

theorem processCacheRequest_uniform : processCacheRequest.Uniform := by
  refine .of_states fun state ↦ ?_
  cases state with
  | I =>
    exact ⟨doCacheI, fun _ _ ↦ rfl, fun _ _ ↦ missBoth_uniform fun c addr ↦ sendGETS_eq c addr _⟩
  | S => exact ⟨doCacheS, fun _ _ ↦ rfl, fun _ _ ↦ doCacheS_uniform⟩
  | E => exact ⟨doCacheE, fun _ _ ↦ rfl, fun _ _ ↦ hitUpgrade_uniform⟩
  | O => exact ⟨doCacheO, fun _ _ ↦ rfl, fun _ _ ↦ hitLoad_uniform⟩
  | M => exact ⟨doCacheM, fun _ _ ↦ rfl, fun _ _ ↦ hitBoth_uniform⟩
  | IM => exact ⟨doCacheIM, fun _ _ ↦ rfl, fun _ _ ↦ busy_uniform⟩
  | ISE => exact ⟨doCacheISE, fun _ _ ↦ rfl, fun _ _ ↦ busy_uniform⟩
  | SM => exact ⟨doCacheSM, fun _ _ ↦ rfl, fun _ _ ↦ busy_uniform⟩
  | OM => exact ⟨doCacheOM, fun _ _ ↦ rfl, fun _ _ ↦ busy_uniform⟩

theorem processSnoopRequest_uniform : processSnoopRequest.Uniform := by
  refine .of_states fun state ↦ ?_
  cases state with
  | I => exact ⟨doSnoopI, fun _ _ ↦ rfl, fun _ _ ↦ snoopNothing_uniform⟩
  | S => exact ⟨doSnoopS, fun _ _ ↦ rfl, fun _ _ ↦ snoopShared_uniform⟩
  | E => exact ⟨doSnoopE, fun _ _ ↦ rfl, fun _ _ ↦ doSnoopE_uniform⟩
  | O => exact ⟨doSnoopO, fun _ _ ↦ rfl, fun _ _ ↦ doSnoopO_uniform⟩
  | M => exact ⟨doSnoopM, fun _ _ ↦ rfl, fun _ _ ↦ snoopOwner_uniform⟩
  | IM => exact ⟨doSnoopIM, fun _ _ ↦ rfl, fun _ _ ↦ snoopWaiting_uniform fun _ ↦ fillWith_uniform⟩
  | ISE => exact ⟨doSnoopISE, fun _ _ ↦ rfl, fun _ _ ↦ snoopWaiting_uniform fillByWire_uniform⟩
  | SM =>
    exact ⟨doSnoopSM, fun _ _ ↦ rfl, fun _ _ ↦ snoopUpgrading_uniform fun _ ↦ fillWith_uniform⟩
  | OM => exact ⟨doSnoopOM, fun _ _ ↦ rfl, fun _ _ ↦ doSnoopOM_uniform⟩

variable {mid : ModuleID} {wire : Bool} {request : Mreq}

/-- What `do_snoop_OM` does on a `GETM`. -/
theorem outcome_surrender (hmsg : request.msg = .GETM) :
    processSnoopRequest.outcome mid .OM wire request = .ok
      { state := if request.srcMid = mid then .OM else .IM
        reply := some (cacheMessage .DATA request.addr mid request.srcMid)
        shared := !wire && (wire || true) } := by
  have hsurrender : processSnoopRequest (.blank mid .OM wire) request =
      surrender .IM (.blank mid .OM wire) request := by
    simp only [processSnoopRequest, doSnoopOM, Ctx.blank, hmsg]
  exact outcome_eq _ (hsurrender.trans (surrender_eq _ _ _))

end MOESI

/-! ## The table -/

/-- The protocol that drives the shared wire for a processor. -/
def ProtocolT.drives : ProtocolT → Bool
  | MOESI_PRO => true
  | _ => false

theorem ProtocolT.drives_eq_false {t : ProtocolT} (ht : t ≠ .MOESI_PRO) : t.drives = false := by
  cases t <;> first | rfl | exact absurd rfl ht

section

variable (t : ProtocolT) {mid : ModuleID} {wire : Bool} {request : Mreq} {state : t.protocol.State}
  {o : Outcome t.protocol.State}

theorem ProtocolT.asks (h : t.protocol.processCacheRequest.outcome mid state wire request = .ok o) :
    Asks t.drives mid request o := by
  obtain ⟨msg, addr, source, dest⟩ := request
  cases t <;> cases state <;> cases msg <;> cases h
  all_goals constructor <;> simp [Ctx.blank, Mreq.new, cacheMessage, drives]

theorem ProtocolT.snooped
    (h : t.protocol.processSnoopRequest.outcome mid state wire request = .ok o) :
    Snooped mid request o := by
  obtain ⟨msg, addr, source, dest⟩ := request
  cases t <;> cases state <;> cases msg <;>
    first
      | cases wire <;> cases h
      -- what `OM` makes of a `GETM` depends on who has sent it
      | obtain rfl := Except.ok.inj (h.symm.trans (MOSI.outcome_surrender rfl))
      | obtain rfl := Except.ok.inj (h.symm.trans (MOESI.outcome_surrender rfl))
  all_goals constructor <;> simp [Ctx.blank, Ctx.setSharedLine, Mreq.new, cacheMessage]

end

theorem ProtocolT.regular (t : ProtocolT) : Regular t.protocol t.drives where
  cache :=
    match t with
    | MI_PRO => MI.processCacheRequest_uniform
    | MSI_PRO => MSI.processCacheRequest_uniform
    | MESI_PRO => MESI.processCacheRequest_uniform
    | MOESI_PRO => MOESI.processCacheRequest_uniform
    | MOSI_PRO => MOSI.processCacheRequest_uniform
  snoop :=
    match t with
    | MI_PRO => MI.processSnoopRequest_uniform
    | MSI_PRO => MSI.processSnoopRequest_uniform
    | MESI_PRO => MESI.processSnoopRequest_uniform
    | MOESI_PRO => MOESI.processSnoopRequest_uniform
    | MOSI_PRO => MOSI.processSnoopRequest_uniform
  asks := t.asks
  snooped := t.snooped

theorem MI.regular : Regular MI.protocol false := ProtocolT.regular .MI_PRO

theorem MSI.regular : Regular MSI.protocol false := ProtocolT.regular .MSI_PRO

theorem MESI.regular : Regular MESI.protocol false := ProtocolT.regular .MESI_PRO

theorem MOSI.regular : Regular MOSI.protocol false := ProtocolT.regular .MOSI_PRO

theorem MOESI.regular : Regular MOESI.protocol true := ProtocolT.regular .MOESI_PRO

end ArchSim.Coherence
