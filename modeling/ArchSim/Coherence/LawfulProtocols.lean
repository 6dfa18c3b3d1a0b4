import ArchSim.Coherence.Lawful
import ArchSim.Coherence.ProtocolTable

/-!
# The five protocols are lawful

One case for every state and message. `MOSI` gives up every copy that waits to write; `MSI`,
`MESI` and `MOESI` leave stale `SM` copies behind. `MOESI` is lawful only with `stalls`, since its
`do_snoop_OM` does not put the data on the bus for a read.
-/

namespace ArchSim.Coherence

open Library AtomicMemory Snooping Handler

/-! ## MI -/

namespace MI

def view : State → Line
  | .I => .I
  | .IM => .IM
  | .M => .M

/-- A load fetches the block for writing too. -/
theorem processCacheRequest_responds {c : Ctx State} {request : Mreq} {op : Op}
    (hmsg : request.msg = opMessage op) (hidle : (view c.state).pending = none)
    (hbuf : c.inboundRequestBuf = none) :
    Responds view op c request.addr (processCacheRequest c request) := by
  obtain ⟨mid, state, bus, buf, stats⟩ := c
  cases state with
  | I => cases op with
    | load => exact .miss .IM .readForWriting (missBoth_load hmsg (sendGETM_runs _ _))
    | store => exact .miss .IM .write (missBoth_store hmsg)
  | M => cases op with
    | load => exact .hit .M (.load rfl) (hitBoth_runs hmsg hbuf)
    | store => exact .hit .M .dirty (hitBoth_runs hmsg hbuf)
  | IM => cases hidle

theorem processSnoopRequest_snoops {c : Ctx State} {request : Mreq} {k : Kind}
    (hmsg : request.msg = kindMessage k) (hreply : (view c.state).owner → c.bus.dataReply = none) :
    Snoops true view k c request (processSnoopRequest c request) := by
  obtain ⟨mid, state, bus, buf, stats⟩ := c
  cases state with
  | I => exact .silent .I (.absent rfl) (snoopNothing_runs hmsg)
  | IM => exact .silent .IM (.absent rfl) (snoopWaiting_runs hmsg)
  | M => cases k with
    | read =>
      exact .reply .I (.exclusiveRead rfl (.inr (.inr rfl))) (snoopOwner_read hmsg (hreply rfl))
    | write => exact .reply .I (.ownerWrite rfl rfl) (snoopOwner_write hmsg (hreply rfl))

theorem processSnoopRequest_fills {c : Ctx State} {request : Mreq} (hmsg : request.msg = .DATA)
    (hpending : (view c.state).pending.isSome) (hbuf : c.inboundRequestBuf = none) :
    ∃ next, Fill (view c.state) c.bus.sharedLine (view next) ∧
      Runs (processSnoopRequest c request) c request.addr next { answer := true } := by
  obtain ⟨mid, state, bus, buf, stats⟩ := c
  cases state with
  | I | M => cases hpending
  | IM => exact ⟨.M, .write rfl, snoopWaiting_data hmsg (fillWith_runs hbuf)⟩

def lawful : Lawful protocol true false where
  view := view
  view_initial := rfl
  cache := processCacheRequest_responds
  snoop hmsg _ := processSnoopRequest_snoops hmsg
  fill := processSnoopRequest_fills

end MI

/-! ## MSI -/

namespace MSI

def view : State → Line
  | .I => .I
  | .S => .S
  | .M => .M
  | .IM => .IM
  | .IS => .IS
  | .SM => .SM

theorem processCacheRequest_responds {c : Ctx State} {request : Mreq} {op : Op}
    (hmsg : request.msg = opMessage op) (hidle : (view c.state).pending = none)
    (hbuf : c.inboundRequestBuf = none) :
    Responds view op c request.addr (processCacheRequest c request) := by
  obtain ⟨mid, state, bus, buf, stats⟩ := c
  cases state with
  | I => cases op with
    | load => exact .miss .IS .read (missBoth_load hmsg (sendGETS_runs _ _))
    | store => exact .miss .IM .write (missBoth_store hmsg)
  | S => cases op with
    | load => exact .hit .S (.load rfl) (hitLoad_load hmsg hbuf)
    | store => exact .miss .SM .upgrade (hitLoad_store hmsg)
  | M => cases op with
    | load => exact .hit .M (.load rfl) (hitBoth_runs hmsg hbuf)
    | store => exact .hit .M .dirty (hitBoth_runs hmsg hbuf)
  | IM | IS | SM => cases hidle

theorem processSnoopRequest_snoops {c : Ctx State} {request : Mreq} {k : Kind}
    (hmsg : request.msg = kindMessage k) (hreply : (view c.state).owner → c.bus.dataReply = none) :
    Snoops false view k c request (processSnoopRequest c request) := by
  obtain ⟨mid, state, bus, buf, stats⟩ := c
  cases state with
  | I => exact .silent .I (.absent rfl) (snoopNothing_runs hmsg)
  | IM => exact .silent .IM (.absent rfl) (snoopWaiting_runs hmsg)
  | IS => exact .silent .IS (.absent rfl) (snoopWaiting_runs hmsg)
  | S => cases k with
    | read => exact .silent .S (.sharerRead rfl) (snoopShared_read hmsg)
    | write => exact .silent .I .sharedWrite (snoopShared_write hmsg)
  | SM => cases k with
    | read => exact .silent .SM (.sharerRead rfl) (snoopUpgrading_read hmsg)
    | write => exact .silent .SM (.upgradingWrite rfl) (snoopUpgrading_write hmsg)
  | M => cases k with
    | read => exact .reply .S (.exclusiveRead rfl (.inl rfl)) (snoopOwner_read hmsg (hreply rfl))
    | write => exact .reply .I (.ownerWrite rfl rfl) (snoopOwner_write hmsg (hreply rfl))

theorem processSnoopRequest_fills {c : Ctx State} {request : Mreq} (hmsg : request.msg = .DATA)
    (hpending : (view c.state).pending.isSome) (hbuf : c.inboundRequestBuf = none) :
    ∃ next, Fill (view c.state) c.bus.sharedLine (view next) ∧
      Runs (processSnoopRequest c request) c request.addr next { answer := true } := by
  obtain ⟨mid, state, bus, buf, stats⟩ := c
  cases state with
  | I | S | M => cases hpending
  | IM => exact ⟨.M, .write rfl, snoopWaiting_data hmsg (fillWith_runs hbuf)⟩
  | IS => exact ⟨.S, .shared, snoopWaiting_data hmsg (fillWith_runs hbuf)⟩
  | SM => exact ⟨.M, .write rfl, snoopUpgrading_data hmsg (fillWith_runs hbuf)⟩

def lawful : Lawful protocol false false where
  view := view
  view_initial := rfl
  cache := processCacheRequest_responds
  snoop hmsg _ := processSnoopRequest_snoops hmsg
  fill := processSnoopRequest_fills

end MSI

/-! ## MESI -/

namespace MESI

def view : State → Line
  | .I => .I
  | .S => .S
  | .E => .E
  | .M => .M
  | .IM => .IM
  | .ISE => .IS
  | .SM => .SM

theorem processCacheRequest_responds {c : Ctx State} {request : Mreq} {op : Op}
    (hmsg : request.msg = opMessage op) (hidle : (view c.state).pending = none)
    (hbuf : c.inboundRequestBuf = none) :
    Responds view op c request.addr (processCacheRequest c request) := by
  obtain ⟨mid, state, bus, buf, stats⟩ := c
  cases state with
  | I => cases op with
    | load => exact .miss .ISE .read (missBoth_load hmsg (sendGETS_runs _ _))
    | store => exact .miss .IM .write (missBoth_store hmsg)
  | S => cases op with
    | load => exact .hit .S (.load rfl) (hitLoad_load hmsg hbuf)
    | store => exact .miss .SM .upgrade (hitLoad_store hmsg)
  | E => cases op with
    | load => exact .hit .E (.load rfl) (hitUpgrade_load hmsg hbuf)
    | store => exact .hit .M .upgrade (hitUpgrade_store hmsg hbuf)
  | M => cases op with
    | load => exact .hit .M (.load rfl) (hitBoth_runs hmsg hbuf)
    | store => exact .hit .M .dirty (hitBoth_runs hmsg hbuf)
  | IM | ISE | SM => cases hidle

theorem processSnoopRequest_snoops {c : Ctx State} {request : Mreq} {k : Kind}
    (hmsg : request.msg = kindMessage k) (hreply : (view c.state).owner → c.bus.dataReply = none) :
    Snoops false view k c request (processSnoopRequest c request) := by
  obtain ⟨mid, state, bus, buf, stats⟩ := c
  cases state with
  | I => exact .silent .I (.absent rfl) (snoopNothing_runs hmsg)
  | IM => exact .silent .IM (.absent rfl) (snoopWaiting_runs hmsg)
  | ISE => exact .silent .ISE (.absent rfl) (snoopWaiting_runs hmsg)
  | S => cases k with
    | read => exact .silent .S (.sharerRead rfl) (snoopShared_read hmsg)
    | write => exact .silent .I .sharedWrite (snoopShared_write hmsg)
  | SM => cases k with
    | read => exact .silent .SM (.sharerRead rfl) (snoopUpgrading_read hmsg)
    | write => exact .silent .SM (.upgradingWrite rfl) (snoopUpgrading_write hmsg)
  | E => cases k with
    | read =>
      apply Snoops.reply .S (.exclusiveRead rfl (.inl rfl))
      simpa only [processSnoopRequest, doSnoopE, hmsg, kindMessage] using
        (wireThenReply_runs (hreply rfl)).setState _
    | write =>
      apply Snoops.reply .I (.ownerWrite rfl rfl)
      simpa only [processSnoopRequest, doSnoopE, hmsg, kindMessage] using
        replyThenWire_runs (hreply rfl) _
  | M => cases k with
    | read => exact .reply .S (.exclusiveRead rfl (.inl rfl)) (snoopOwner_read hmsg (hreply rfl))
    | write => exact .reply .I (.ownerWrite rfl rfl) (snoopOwner_write hmsg (hreply rfl))

theorem processSnoopRequest_fills {c : Ctx State} {request : Mreq} (hmsg : request.msg = .DATA)
    (hpending : (view c.state).pending.isSome) (hbuf : c.inboundRequestBuf = none) :
    ∃ next, Fill (view c.state) c.bus.sharedLine (view next) ∧
      Runs (processSnoopRequest c request) c request.addr next { answer := true } := by
  obtain ⟨mid, state, bus, buf, stats⟩ := c
  cases state with
  | I | S | E | M => cases hpending
  | IM => exact ⟨.M, .write rfl, snoopWaiting_data hmsg (fillWith_runs hbuf)⟩
  | ISE =>
    refine ⟨if bus.sharedLine then .S else .E, ?_,
      snoopWaiting_data hmsg (fillByWire_runs hbuf)⟩
    cases bus.sharedLine with
    | false => exact .exclusive
    | true => exact .shared
  | SM => exact ⟨.M, .write rfl, snoopUpgrading_data hmsg (fillWith_runs hbuf)⟩

def lawful : Lawful protocol false false where
  view := view
  view_initial := rfl
  cache := processCacheRequest_responds
  snoop hmsg _ := processSnoopRequest_snoops hmsg
  fill := processSnoopRequest_fills

end MESI

/-! ## MOSI -/

namespace MOSI

def view : State → Line
  | .I => .I
  | .S => .S
  | .O => .O
  | .M => .M
  | .IM => .IM
  | .IS => .IS
  | .SM => .SM
  | .OM => .OM

theorem processCacheRequest_responds {c : Ctx State} {request : Mreq} {op : Op}
    (hmsg : request.msg = opMessage op) (hidle : (view c.state).pending = none)
    (hbuf : c.inboundRequestBuf = none) :
    Responds view op c request.addr (processCacheRequest c request) := by
  obtain ⟨mid, state, bus, buf, stats⟩ := c
  cases state with
  | I => cases op with
    | load => exact .miss .IS .read (missBoth_load hmsg (sendGETS_runs _ _))
    | store => exact .miss .IM .write (missBoth_store hmsg)
  | S => cases op with
    | load => exact .hit .S (.load rfl) (hitLoad_load hmsg hbuf)
    | store => exact .miss .SM .upgrade (hitLoad_store hmsg)
  | O => cases op with
    | load => exact .hit .O (.load rfl) (hitLoad_load hmsg hbuf)
    | store => exact .miss .OM .ownerUpgrade (hitLoad_store hmsg)
  | M => cases op with
    | load => exact .hit .M (.load rfl) (hitBoth_runs hmsg hbuf)
    | store => exact .hit .M .dirty (hitBoth_runs hmsg hbuf)
  | IM | IS | SM | OM => cases hidle

theorem processSnoopRequest_snoops {c : Ctx State} {request : Mreq} {k : Kind}
    (hmsg : request.msg = kindMessage k) (hreply : (view c.state).owner → c.bus.dataReply = none) :
    Snoops true view k c request (processSnoopRequest c request) := by
  obtain ⟨mid, state, bus, buf, stats⟩ := c
  cases state with
  | I => exact .silent .I (.absent rfl) (snoopNothing_runs hmsg)
  | IM => exact .silent .IM (.absent rfl) (snoopWaiting_runs hmsg)
  | IS => exact .silent .IS (.absent rfl) (snoopWaiting_runs hmsg)
  | S => cases k with
    | read => exact .silent .S (.sharerRead rfl) (snoopShared_read hmsg)
    | write => exact .silent .I .sharedWrite (snoopShared_write hmsg)
  | SM => cases k with
    | read => exact .silent .SM (.sharerRead rfl) (snoopUpgrading_read hmsg)
    | write => exact .silent .IM .demotedWrite (snoopUpgrading_write hmsg)
  | O => cases k with
    | read => exact .reply .O (.ownerRead rfl) (snoopOwner_read hmsg (hreply rfl))
    | write => exact .reply .I (.ownerWrite rfl rfl) (snoopOwner_write hmsg (hreply rfl))
  | M => cases k with
    | read =>
      exact .reply .O (.exclusiveRead rfl (.inr (.inl rfl))) (snoopOwner_read hmsg (hreply rfl))
    | write => exact .reply .I (.ownerWrite rfl rfl) (snoopOwner_write hmsg (hreply rfl))
  | OM => cases k with
    | read =>
      have hruns : Runs (processSnoopRequest ⟨mid, .OM, bus, buf, stats⟩ request)
          ⟨mid, .OM, bus, buf, stats⟩ request.addr .OM
          { reply := some request.srcMid, shared := true } := by
        simpa only [processSnoopRequest, doSnoopOM, hmsg, kindMessage] using
          wireThenReply_runs (hreply rfl)
      exact .reply .OM (.ownerRead rfl) hruns
    | write =>
      apply Snoops.of_surrender rfl (rfl : view .IM = .IM)
      simpa only [processSnoopRequest, doSnoopOM, hmsg, kindMessage] using
        surrender_runs (hreply rfl)

theorem processSnoopRequest_fills {c : Ctx State} {request : Mreq} (hmsg : request.msg = .DATA)
    (hpending : (view c.state).pending.isSome) (hbuf : c.inboundRequestBuf = none) :
    ∃ next, Fill (view c.state) c.bus.sharedLine (view next) ∧
      Runs (processSnoopRequest c request) c request.addr next { answer := true } := by
  obtain ⟨mid, state, bus, buf, stats⟩ := c
  cases state with
  | I | S | O | M => cases hpending
  | IM => exact ⟨.M, .write rfl, snoopWaiting_data hmsg (fillWith_runs hbuf)⟩
  | IS => exact ⟨.S, .shared, snoopWaiting_data hmsg (fillWith_runs hbuf)⟩
  | SM => exact ⟨.M, .write rfl, snoopUpgrading_data hmsg (fillWith_runs hbuf)⟩
  | OM =>
    refine ⟨.M, .write rfl, ?_⟩
    simpa only [processSnoopRequest, doSnoopOM, hmsg] using fillWith_runs hbuf

def lawful : Lawful protocol true false where
  view := view
  view_initial := rfl
  cache := processCacheRequest_responds
  snoop hmsg _ := processSnoopRequest_snoops hmsg
  fill := processSnoopRequest_fills

end MOSI

/-! ## MOESI -/

namespace MOESI

def view : State → Line
  | .I => .I
  | .S => .S
  | .E => .E
  | .O => .O
  | .M => .M
  | .IM => .IM
  | .ISE => .IS
  | .SM => .SM
  | .OM => .OM

theorem processCacheRequest_responds {c : Ctx State} {request : Mreq} {op : Op}
    (hmsg : request.msg = opMessage op) (hidle : (view c.state).pending = none)
    (hbuf : c.inboundRequestBuf = none) :
    Responds view op c request.addr (processCacheRequest c request) := by
  obtain ⟨mid, state, bus, buf, stats⟩ := c
  cases state with
  | I => cases op with
    | load => exact .miss .ISE .read (missBoth_load hmsg (sendGETS_runs _ _))
    | store => exact .miss .IM .write (missBoth_store hmsg)
  | S => cases op with
    | load =>
      have hruns : Runs (processCacheRequest ⟨mid, .S, bus, buf, stats⟩ request)
          ⟨mid, .S, bus, buf, stats⟩ request.addr .S { answer := true, shared := true } := by
        simpa only [processCacheRequest, doCacheS, hmsg, opMessage] using
          (sendDATAToProc_runs _ request.addr hbuf).map Ctx.setSharedLine (fun _ h ↦ h)
            fun _ h ↦ h.setSharedLine
      exact .hit .S (.load rfl) hruns
    | store =>
      apply Responds.miss .SM .upgrade
      simpa only [processCacheRequest, doCacheS, hmsg, opMessage] using
        (sendGETM_runs _ request.addr).setStateCountMiss State.SM
  | E => cases op with
    | load => exact .hit .E (.load rfl) (hitUpgrade_load hmsg hbuf)
    | store => exact .hit .M .upgrade (hitUpgrade_store hmsg hbuf)
  | O => cases op with
    | load => exact .hit .O (.load rfl) (hitLoad_load hmsg hbuf)
    | store => exact .miss .OM .ownerUpgrade (hitLoad_store hmsg)
  | M => cases op with
    | load => exact .hit .M (.load rfl) (hitBoth_runs hmsg hbuf)
    | store => exact .hit .M .dirty (hitBoth_runs hmsg hbuf)
  | IM | ISE | SM | OM => cases hidle

theorem view_injective : Function.Injective view := by
  intro state state' h
  revert h
  cases state <;> cases state' <;> simp [view]

/-- Every message but a read in `OM`, which `do_snoop_OM` answers to its own processor. -/
theorem processSnoopRequest_snoops {c : Ctx State} {request : Mreq} {k : Kind}
    (hmsg : request.msg = kindMessage k) (hserves : true → k = .read → view c.state ≠ .OM)
    (hreply : (view c.state).owner → c.bus.dataReply = none) :
    Snoops false view k c request (processSnoopRequest c request) := by
  obtain ⟨mid, state, bus, buf, stats⟩ := c
  cases state with
  | I => exact .silent .I (.absent rfl) (snoopNothing_runs hmsg)
  | IM => exact .silent .IM (.absent rfl) (snoopWaiting_runs hmsg)
  | ISE => exact .silent .ISE (.absent rfl) (snoopWaiting_runs hmsg)
  | S => cases k with
    | read => exact .silent .S (.sharerRead rfl) (snoopShared_read hmsg)
    | write => exact .silent .I .sharedWrite (snoopShared_write hmsg)
  | SM => cases k with
    | read => exact .silent .SM (.sharerRead rfl) (snoopUpgrading_read hmsg)
    | write => exact .silent .SM (.upgradingWrite rfl) (snoopUpgrading_write hmsg)
  | E => cases k with
    | read =>
      apply Snoops.reply .S (.exclusiveRead rfl (.inl rfl))
      simpa only [processSnoopRequest, doSnoopE, hmsg, kindMessage] using
        replyThenWire_runs (hreply rfl) _
    | write =>
      apply Snoops.reply .I (.ownerWrite rfl rfl)
      simpa only [processSnoopRequest, doSnoopE, hmsg, kindMessage] using
        replyThenWire_runs (hreply rfl) _
  | O => cases k with
    | read =>
      have hruns : Runs (processSnoopRequest ⟨mid, .O, bus, buf, stats⟩ request)
          ⟨mid, .O, bus, buf, stats⟩ request.addr .O { reply := some request.srcMid } := by
        simpa only [processSnoopRequest, doSnoopO, hmsg, kindMessage] using
          sendDATAOnBus_runs _ request.addr (hreply rfl) request.srcMid
      exact .reply .O (.ownerRead rfl) hruns
    | write =>
      apply Snoops.reply .I (.ownerWrite rfl rfl)
      simpa only [processSnoopRequest, doSnoopO, hmsg, kindMessage] using
        (wireThenReply_runs (hreply rfl)).setState _
  | M => cases k with
    | read =>
      exact .reply .O (.exclusiveRead rfl (.inr (.inl rfl))) (snoopOwner_read hmsg (hreply rfl))
    | write => exact .reply .I (.ownerWrite rfl rfl) (snoopOwner_write hmsg (hreply rfl))
  | OM => cases k with
    | read => exact absurd rfl (hserves rfl rfl)
    | write =>
      apply Snoops.of_surrender rfl (rfl : view .IM = .IM)
      simpa only [processSnoopRequest, doSnoopOM, hmsg, kindMessage] using
        surrender_runs (hreply rfl)

theorem processSnoopRequest_fills {c : Ctx State} {request : Mreq} (hmsg : request.msg = .DATA)
    (hpending : (view c.state).pending.isSome) (hbuf : c.inboundRequestBuf = none) :
    ∃ next, Fill (view c.state) c.bus.sharedLine (view next) ∧
      Runs (processSnoopRequest c request) c request.addr next { answer := true } := by
  obtain ⟨mid, state, bus, buf, stats⟩ := c
  cases state with
  | I | S | E | O | M => cases hpending
  | IM => exact ⟨.M, .write rfl, snoopWaiting_data hmsg (fillWith_runs hbuf)⟩
  | ISE =>
    refine ⟨if bus.sharedLine then .S else .E, ?_, snoopWaiting_data hmsg (fillByWire_runs hbuf)⟩
    cases bus.sharedLine with
    | false => exact .exclusive
    | true => exact .shared
  | SM => exact ⟨.M, .write rfl, snoopUpgrading_data hmsg (fillWith_runs hbuf)⟩
  | OM =>
    refine ⟨.M, .write rfl, ?_⟩
    simpa only [processSnoopRequest, doSnoopOM, hmsg] using fillWith_runs hbuf

def lawful : Lawful protocol false true where
  view := view
  view_initial := rfl
  cache := processCacheRequest_responds
  snoop := processSnoopRequest_snoops
  fill := processSnoopRequest_fills

end MOESI

/-! ## The table -/

namespace ProtocolT

/-- The protocols that give up every copy that waits to write. -/
def demotes : ProtocolT → Bool
  | MI_PRO | MOSI_PRO => true
  | _ => false

/-- The protocol that does not answer a read in `OM`. -/
def stalls : ProtocolT → Bool
  | MOESI_PRO => true
  | _ => false

def lawful : (t : ProtocolT) → Lawful t.protocol t.demotes t.stalls
  | MI_PRO => MI.lawful
  | MSI_PRO => MSI.lawful
  | MESI_PRO => MESI.lawful
  | MOESI_PRO => MOESI.lawful
  | MOSI_PRO => MOSI.lawful

theorem stable_of_pending (t : ProtocolT) {state : t.protocol.State}
    (hidle : (t.lawful.view state).pending = none) : t.stable state = true := by
  cases t <;> cases state <;> first | rfl | cases hidle

theorem stalls_eq_false {t : ProtocolT} (ht : t ≠ MOESI_PRO) : t.stalls = false := by
  cases t <;> first | rfl | exact absurd rfl ht

end ProtocolT

end ArchSim.Coherence
