import ArchSim.Coherence.Answered
import ArchSim.Coherence.Ownership

/-!
# Dirty ownership in MOSI

Once a store to a block has been answered, some cache owns the block, or its data is on the way from
the last owner to a writer. The memory looks up only blocks without an owner, so it never sends that
block again.
-/

namespace ArchSim.Coherence

open Library AtomicMemory Snooping

namespace MOSI

/-! ## The handlers -/

section

variable {mid : ModuleID} {state : State} {wire : Bool} {request : Mreq} {o : Outcome State}

/-- An owner sends data for every request. -/
theorem reply_of_owner (h : processSnoopRequest.outcome mid state wire request = .ok o)
    (hmsg : request.msg = .GETS ∨ request.msg = .GETM) (howner : (view state).owner) :
    o.reply.isSome := by
  cases state with
  | OM =>
    rcases hmsg with hGETS | hGETM
    · obtain ⟨msg, addr, source, dest⟩ := request
      subst hGETS
      cases h
      rfl
    · rw [outcome_surrender hGETM] at h
      exact (Except.ok.inj h) ▸ rfl
  | O | M =>
    obtain ⟨msg, addr, source, dest⟩ := request
    rcases hmsg with rfl | rfl <;> cases h <;> rfl
  | I | S | IM | IS | SM => cases howner

/-- A request makes no owner. -/
theorem owner_of_request (h : processSnoopRequest.outcome mid state wire request = .ok o)
    (hmsg : request.msg = .GETS ∨ request.msg = .GETM) (howner : (view o.state).owner) :
    (view state).owner := by
  obtain ⟨msg, addr, source, dest⟩ := request
  cases state with
  | O | M | OM => rfl
  | I | S | IM | IS | SM => rcases hmsg with rfl | rfl <;> cases h <;> cases howner

theorem owner_of_GETS (h : processSnoopRequest.outcome mid state wire request = .ok o)
    (hmsg : request.msg = .GETS) (howner : (view state).owner) : (view o.state).owner := by
  obtain ⟨msg, addr, source, dest⟩ := request
  subst hmsg
  cases state with
  | O | M | OM =>
    cases h
    rfl
  | I | S | IM | IS | SM => cases howner

/-- Of the owners only one that upgrades its copy may receive data. -/
theorem owner_of_DATA (h : processSnoopRequest.outcome mid state wire request = .ok o)
    (hmsg : request.msg = .DATA) (howner : (view state).owner) : (view o.state).owner := by
  obtain ⟨msg, addr, source, dest⟩ := request
  subst hmsg
  cases state with
  | OM =>
    cases h
    rfl
  | O | M => cases h
  | I | S | IM | IS | SM => cases howner

theorem eq_M_of_answer (h : processCacheRequest.outcome mid state wire request = .ok o)
    (hmsg : request.msg = .STORE) (hanswer : o.answer.isSome) : state = .M := by
  obtain ⟨msg, addr, source, dest⟩ := request
  subst hmsg
  cases state <;> cases h <;> first | rfl | cases hanswer

theorem pending_of_STORE (h : processCacheRequest.outcome mid state wire request = .ok o)
    (hmsg : request.msg = .STORE) : (view o.state).pending ≠ some .read := by
  obtain ⟨msg, addr, source, dest⟩ := request
  subst hmsg
  cases state <;> cases h <;> exact nofun

/-- Only data for a line that waits makes a cache answer its processor. -/
theorem pending_of_answer (h : processSnoopRequest.outcome mid state wire request = .ok o)
    (hanswer : o.answer.isSome) : request.msg = .DATA ∧ (view state).pending.isSome := by
  by_cases hsurrender : state = .OM ∧ request.msg = .GETM
  · obtain ⟨rfl, hGETM⟩ := hsurrender
    rw [outcome_surrender hGETM] at h
    obtain rfl := Except.ok.inj h
    cases hanswer
  · obtain ⟨msg, addr, source, dest⟩ := request
    cases state <;> cases msg <;>
      first | exact absurd ⟨rfl, rfl⟩ hsurrender | exact ⟨rfl, rfl⟩ | cases h <;> cases hanswer

end

variable {n : ℕ} {s s₁ s₂ s₃ s' : Simulator protocol n} {effect : Fin n → CacheEffect State}
  {x : Traffic} {settings : Settings n} {versions : PAddr → ℕ} {y y' : Traced protocol n}
  {tr tr' : Transaction} {q d : Mreq} {i j : Fin n} {b : PAddr}

/-! ## The memory and the owners -/

/-- Some cache owns the block `b`. -/
def Owned (s : Simulator protocol n) (b : PAddr) : Prop := ∃ i, (view (s.entry i b)).owner

theorem l1_ne_memory (i : Fin n) : l1 i ≠ ⟨n, .MC⟩ :=
  fun h ↦ nomatch congrArg ModuleID.moduleIndex h

/-- The request that the memory answers. -/
def fromMemory (n : ℕ) : Transaction → Option Mreq
  | .quiet => none
  | .lookup q => some q
  | .replied q d => if d.srcMid = ⟨n, .MC⟩ then some q else none

/-- The block that the memory looks up, or whose data it has sent, has no owner. -/
def NoStaleReply (s : Simulator protocol n) (tr : Transaction) : Prop :=
  ∀ q ∈ fromMemory n tr, ¬ Owned s q.addr

/-- In a cycle without a message for the block its owners remain the same. -/
theorem owner_passed (hran : CycleRan false s s₁ s₂ s₃ s' effect x)
    (hnot : ∀ q ∈ s.busTick.bus.currentRequest, q.addr = b → q.msg = .DATA ∧ q.destMid ≠ l1 i) :
    (view (s'.entry i b)).owner = (view (s.entry i b)).owner :=
  (hran.entry_passed hnot).owner_eq owning

/-- An owner sends data for a request on the bus, and no other cache becomes an owner. -/
theorem request_snooped (hran : CycleRan false s s₁ s₂ s₃ s' effect x)
    (hcurrent : s.busTick.bus.currentRequest = some q) (hq : IsRequest n q) (i : Fin n) :
    ((view (s.entry i q.addr)).owner → ∃ d, x.reply = some d ∧ d.srcMid = l1 i) ∧
      ((view (s'.entry i q.addr)).owner → (view (s.entry i q.addr)).owner) := by
  obtain ⟨σ, o, wire, -, hmove, hout, hstate, hreply, -⟩ :=
    hran.entry_snooped (i := i) regular hcurrent fun hdata ↦ absurd hdata hq.msg_ne
  have hsame : (view σ).owner = (view (s.entry i q.addr)).owner := hmove.owner_eq owning
  rw [hstate, ← hsame]
  refine ⟨fun howner ↦ ?_, owner_of_request hout hq.msg_eq⟩
  obtain ⟨d, hd⟩ := Option.isSome_iff_exists.mp (reply_of_owner hout hq.msg_eq howner)
  refine ⟨d, (hran.caches.reply d).mpr ⟨i, i.isLt, hreply.trans hd⟩, ?_⟩
  rw [(regular.snooped hout).reply d hd]
  rfl

theorem NoStaleReply.cycle (h : NoStaleReply s tr)
    (hran : CycleRan false s s₁ s₂ s₃ s' effect x)
    (hnext : Transaction.Next n s.busTick.bus.currentRequest x.reply tr tr') :
    NoStaleReply s' tr' := by
  have hpassed (hcurrent : s.busTick.bus.currentRequest = none) {b : PAddr}
      (hb : ¬ Owned s b) : ¬ Owned s' b := by
    rintro ⟨i, howner⟩
    exact hb ⟨i, (owner_passed hran (by simp [hcurrent])).symm.trans howner⟩
  generalize hcurrent : s.busTick.bus.currentRequest = message at hnext
  generalize hreply : x.reply = reply at hnext
  intro q hq
  cases hnext with
  | idle | deliver _ => cases hq
  | grant hrequest =>
    obtain rfl := Option.some.inj hq
    rintro ⟨i, howner⟩
    obtain ⟨hsends, hkeeps⟩ := request_snooped hran hcurrent hrequest i
    obtain ⟨d, hd, -⟩ := hsends (hkeeps howner)
    cases hreply.symm.trans hd
  | @answer _ d i _ hd =>
    have hcache : d.srcMid ≠ ⟨n, .MC⟩ := hd ▸ l1_ne_memory i
    rw [fromMemory, if_neg hcache] at hq
    cases hq
  | wait =>
    obtain rfl := Option.some.inj hq
    exact hpassed hcurrent (h _ rfl)
  | supply =>
    rw [fromMemory, if_pos (memoryData_srcMid _)] at hq
    obtain rfl := Option.some.inj hq
    exact hpassed hcurrent (h _ rfl)

/-! ## From owner to owner -/

/-- The data for the `GETM` of cache `i` for the block `b`, which `q` records, has been put on the
bus by its owner `j` and is to be delivered. -/
structure Handover (y : Traced protocol n) (b : PAddr) (q : Appearance protocol n) (i j : Fin n) :
    Prop where
  appeared : ∃ pre, y.appeared = pre ++ [q]
  msg : q.message.msg = .GETM
  addr : q.message.addr = b
  requester : q.message.srcMid = l1 i
  owner : q.before j b ∈ [State.M, .O, .OM]
  inProgress : y.sim.bus.requestInProgress = true
  reply : ∃ d, y.sim.bus.dataReply = some d ∧ Answers n q.message d ∧ d.srcMid = l1 j
  waiting : y.sim.entry i b ∈ [State.IM, .OM]

/-- Some cache owns the block, or it is on its way from its owner to a writer. -/
def Dirty (y : Traced protocol n) (b : PAddr) : Prop :=
  Owned y.sim b ∨ ∃ q i j, Handover y b q i j

theorem owner_iff (state : State) : (view state).owner ↔ state ∈ [State.M, .O, .OM] := by
  cases state <;> decide

theorem pending_of_waiting {state : State} (h : state ∈ [State.IM, .OM]) :
    (view state).pending = some .write := by
  revert h
  cases state <;> decide

/-- Without a message for the block it keeps an owner. -/
theorem Owned.passed (h : Owned s b) (hran : CycleRan false s s₁ s₂ s₃ s' effect x)
    (hnot : ∀ q ∈ s.busTick.bus.currentRequest, q.addr ≠ b) : Owned s' b := by
  obtain ⟨i, howner⟩ := h
  exact ⟨i, (owner_passed hran fun q hq haddr ↦ absurd haddr (hnot q hq)).trans howner⟩

/-- An owner that receives data remains one, and so does one that receives none. -/
theorem Owned.delivered (h : Owned s b) (hran : CycleRan false s s₁ s₂ s₃ s' effect x)
    (hcurrent : s.busTick.bus.currentRequest = some d) (hmsg : d.msg = .DATA) : Owned s' b := by
  obtain ⟨i, howner⟩ := h
  refine ⟨i, ?_⟩
  by_cases hmine : d.addr = b ∧ d.destMid = l1 i
  · obtain ⟨rfl, hdest⟩ := hmine
    obtain ⟨σ, o, wire, -, hmove, hout, hstate, -, -⟩ :=
      hran.entry_snooped (i := i) regular hcurrent fun _ ↦ hdest
    rw [hstate]
    exact owner_of_DATA hout hmsg ((hmove.owner_eq owning).trans howner)
  · refine (owner_passed hran fun q hq haddr ↦ ?_).trans howner
    obtain rfl := Option.some.inj (hcurrent.symm.trans hq)
    exact ⟨hmsg, fun hdest ↦ hmine ⟨haddr, hdest⟩⟩

/-- A request for the block leaves it to its owner, or hands it over to a writer. -/
theorem Owned.granted (h : Owned y.sim q.addr) (hserved : Served settings y .quiet)
    (hsim : Simulated lawful settings versions y.state)
    (hran : CycleRan false y.sim s₁ s₂ s₃ y'.sim effect x) (hy' : y.cycle = .ok y')
    (hcurrent : y.sim.busTick.bus.currentRequest = some q)
    (hnext : Transaction.Next n (some q) x.reply .quiet tr') (hold' : tr'.Holds y'.sim) :
    Dirty y' q.addr := by
  have hq : IsRequest n q := hnext.isRequest
  have hmine (i : Fin n) : q.msg = .DATA → q.destMid = l1 i := fun hdata ↦ absurd hdata hq.msg_ne
  obtain ⟨j, howner⟩ := h
  obtain ⟨d, hd, hsource⟩ := (request_snooped hran hcurrent hq j).1 howner
  rw [hd] at hnext
  cases hnext with
  | answer _ _ =>
    obtain ⟨-, hanswers, hprogress, hslot⟩ := hold'
    rcases hq.msg_eq with hGETS | hGETM
    · left
      obtain ⟨σ, o, wire, -, hmove, hout, hstate, -, -⟩ :=
        hran.entry_snooped (i := j) regular hcurrent (hmine j)
      refine ⟨j, ?_⟩
      rw [hstate]
      exact owner_of_GETS hout hGETS ((hmove.owner_eq owning).trans howner)
    · right
      obtain ⟨i, hi⟩ : ∃ i : Fin n, q.srcMid = l1 i := by
        obtain ⟨r, rfl⟩ := hq
        exact ⟨r.node, rfl⟩
      obtain ⟨m, p, hrefines, -⟩ := hsim
      obtain ⟨rest, hpending⟩ := hserved.holds.pending_of_current hcurrent
      have hwrite : (view (y.sim.entry i q.addr)).pending = some .write :=
        hrefines.pending_of_request (by rw [hpending]; exact List.mem_cons_self) (k := .write)
          hGETM hi
      obtain ⟨σ, o, wire, -, hmove, hout, hstate, -, -⟩ :=
        hran.entry_snooped (i := i) regular hcurrent (hmine i)
      obtain rfl := hmove.eq_of_pending owning (hwrite ▸ rfl)
      refine ⟨⟨q, y.sim.entry, y'.sim.entry⟩, i, j, ?_⟩
      exact {
        appeared := ⟨y.appeared, Traced.appeared_of_cycle hy' hcurrent⟩
        msg := hGETM
        addr := rfl
        requester := hi
        owner := (owner_iff _).mp howner
        inProgress := hprogress
        reply := ⟨d, hslot, hanswers, hsource⟩
        waiting := by
          rw [hstate]
          rcases state_of_GETM hout hGETM hwrite with ho | ho <;> simp [ho] }

/-- The writer that receives the block owns it. -/
theorem Handover.delivered {a : Appearance protocol n} (h : Handover y b a i j)
    (hran : CycleRan false y.sim s₁ s₂ s₃ s' effect x)
    (hcurrent : y.sim.busTick.bus.currentRequest = some d) (hanswers : Answers n a.message d) :
    Owned s' b := by
  obtain ⟨σ, o, wire, -, hmove, hout, hstate, -, -⟩ :=
    hran.entry_snooped (i := i) regular hcurrent fun _ ↦ hanswers.destMid.trans h.requester
  rw [hanswers.addr, h.addr] at hmove hstate
  have hwrite := pending_of_waiting h.waiting
  obtain rfl := hmove.eq_of_pending owning (hwrite ▸ rfl)
  refine ⟨i, ?_⟩
  rw [hstate, owning.filled hout hwrite hanswers.msg]
  rfl

/-- The data of a handover is what the transaction on the bus has been answered with. -/
theorem Handover.eq_replied {a : Appearance protocol n} (h : Handover y b a i j)
    (hold : tr.Holds y.sim) : ∃ q d, tr = .replied q d ∧ Answers n a.message d := by
  obtain ⟨d, hd, hanswers, -⟩ := h.reply
  cases tr with
  | quiet => cases hold.2.1.symm.trans hd
  | lookup q => cases hold.dataReply.symm.trans hd
  | replied q d' =>
    obtain rfl := Option.some.inj (hold.2.2.2.symm.trans hd)
    exact ⟨q, d', rfl, hanswers⟩

/-- A block that is owned, or on its way to a writer, is so after the next cycle. -/
theorem Dirty.cycle (h : Dirty y b) (hserved : Served settings y tr)
    (hsim : Simulated lawful settings versions y.state)
    (hran : CycleRan false y.sim s₁ s₂ s₃ y'.sim effect x) (hy' : y.cycle = .ok y')
    (hnext : Transaction.Next n y.sim.busTick.bus.currentRequest x.reply tr tr')
    (hold' : tr'.Holds y'.sim) : Dirty y' b := by
  rcases h with howned | ⟨a, i, j, hhandover⟩
  · cases tr with
    | quiet =>
      cases hcurrent : y.sim.busTick.bus.currentRequest with
      | none => exact .inl (howned.passed hran (by simp [hcurrent]))
      | some q =>
        by_cases haddr : q.addr = b
        · subst haddr
          exact howned.granted hserved hsim hran hy' hcurrent (hcurrent ▸ hnext) hold'
        · refine .inl (howned.passed hran fun q' hq' ↦ ?_)
          rwa [Option.some.inj (hq'.symm.trans hcurrent)]
    | lookup q => exact .inl (howned.passed hran (by simp [hnext.of_lookup]))
    | replied q d => exact .inl (howned.delivered hran hnext.of_replied.1 hnext.of_replied.2)
  · obtain ⟨q, d, rfl, hanswers⟩ := hhandover.eq_replied hserved.holds
    exact .inl (hhandover.delivered hran hnext.of_replied.1 hanswers)

/-! ## Stores -/

/-- A store is answered to an owner, or makes one. -/
theorem owner_of_answered {v : Versioned protocol n} (hsim : Simulated lawful settings versions v)
    {state : protocol.State}
    (h : TickAnswers protocol (l1 i) (v.sim.nodes i) (v.want i) .store b state) :
    (view (v.sim.entry i b)).owner ∨ (view state).owner := by
  have hmsg {request : Mreq} (hop : request.op = .store) : request.msg = .STORE := by
    by_contra hne
    rw [Mreq.op, if_neg hne] at hop
    cases hop
  obtain ⟨m, p, hrefines, -⟩ := hsim
  obtain ⟨status, hnode⟩ := hrefines.agrees.node i
  cases h with
  | asked hrequest hop _ hout hanswer =>
    left
    rw [Simulator.entry, eq_M_of_answer hout (hmsg hop) hanswer]
    rfl
  | @snooped request σ wire o hmove hout _ hanswer hop =>
    obtain ⟨hdata, hwaits⟩ := pending_of_answer hout hanswer
    obtain ⟨k, hk⟩ := Option.isSome_iff_exists.mp hwaits
    cases k with
    | write =>
      right
      rw [owning.filled hout hk hdata]
      rfl
    | read =>
      exfalso
      cases hmove with
      | same =>
        -- a line that waits to read has not been asked for a store
        have hread : (m.line i b).pending = some .read := hrefines.agrees.line i b ▸ hk
        obtain ⟨op, addr, hwrite, rfl, -⟩ := hnode.waiting_of_pending (b := b) hread
        have hnone : (v.sim.nodes i).cache.procRequest = none := hnode.procRequest
        have hwant : v.want i = op := hnode.want rfl
        rw [hnone, Option.elim_none, hwant] at hop
        cases hwrite hop.symm
      | asked hrequest _ hout' =>
        rw [hrequest, Option.elim_some] at hop
        exact pending_of_STORE hout' (hmsg hop.symm) hk

/-- Every block to which a store has been answered is owned or on its way, and the memory sends
only blocks without an owner. -/
structure Kept (settings : Settings n) (y : Traced protocol n) (tr : Transaction) : Prop where
  served : Served settings y tr
  noStaleReply : NoStaleReply y.sim tr
  stored : ∀ a ∈ y.state.answers, a.op = .store → Dirty y a.addr

theorem kept_initial (settings : Settings n) (versions : PAddr → ℕ) :
    Kept settings (.initial protocol settings versions) .quiet :=
  ⟨served_initial settings versions, fun _ hq ↦ absurd hq (Option.not_mem_none _),
    fun _ ha ↦ absurd ha List.not_mem_nil⟩

theorem Kept.cycle (h : Kept settings y tr) (hsim : Simulated lawful settings versions y.state)
    (hy' : y.cycle = .ok y') : ∃ tr', Kept settings y' tr' := by
  obtain ⟨s₁, s₂, s₃, effect, x, tr', hran, hnext, hserved'⟩ := h.served.cycle regular hy'
  refine ⟨tr', hserved', h.noStaleReply.cycle hran hnext, fun a ha hstore ↦ ?_⟩
  obtain ⟨hstate, -, -⟩ := Traced.of_cycle hy'
  have hdirty (hold : Dirty y a.addr) : Dirty y' a.addr :=
    hold.cycle h.served hsim hran hy' hnext hserved'.holds
  rcases answered_of_cycle regular hstate ha with hold | hanswered
  · exact hdirty (h.stored a hold hstore)
  · rw [hstore] at hanswered
    rcases owner_of_answered hsim hanswered with howner | howner
    · exact hdirty (.inl ⟨a.node, howner⟩)
    · exact .inl ⟨a.node, howner⟩

/-- The memory has not sent a block that is owned or on its way. -/
theorem Kept.ne_memory (h : Kept settings y tr) (hdirty : Dirty y b)
    (hd : y.sim.bus.dataReply = some d) (haddr : d.addr = b) : d.srcMid ≠ ⟨n, .MC⟩ := by
  rcases hdirty with howned | ⟨q, i, j, hhandover⟩
  · have hold := h.served.holds
    cases tr with
    | quiet => cases hd.symm.trans hold.2.1
    | lookup q => cases hd.symm.trans hold.dataReply
    | replied q d' =>
      obtain ⟨-, hanswers, -, hslot⟩ := hold
      obtain rfl := Option.some.inj (hslot.symm.trans hd)
      intro hsource
      have hmem : q ∈ fromMemory n (.replied q d') := if_pos hsource
      apply h.noStaleReply q hmem
      rw [← hanswers.addr, haddr]
      exact howned
  · obtain ⟨d', hd', -, hsource⟩ := hhandover.reply
    obtain rfl := Option.some.inj (hd.symm.trans hd')
    rw [hsource]
    exact l1_ne_memory j

theorem kept_of_endOfCycle (h : Traced.EndOfCycle settings versions y) :
    ∃ tr, Kept settings y tr := by
  refine h.preserved (I := fun y ↦ ∃ tr, Kept settings y tr)
    ⟨.quiet, kept_initial settings versions⟩ ?_
  rintro y y' hhead - hy' ⟨tr, hkept⟩
  have hstate : Versioned.LoopHeadWhile settings versions (fun _ ↦ True) y.state :=
    Traced.LoopHeadWhile.state hhead
  exact hkept.cycle (simulated_of_loopHead (fun _ _ ↦ nofun) hstate) hy'

end MOSI

/-- Once a store to a block has been answered, at the end of every cycle either exactly one cache
has the block in `M`, `O` or `OM`, or its last owner has put the data for a `GETM` on the bus and
the requester waits for it in `IM` or `OM`; and the memory has not sent the block. -/
theorem MOSI_dirty_owner {n : ℕ} {settings : Settings n} {versions : PAddr → ℕ}
    {y : Traced MOSI.protocol n} (h : Traced.EndOfCycle settings versions y)
    {a : Answer (Fin n) PAddr} (ha : a ∈ y.state.answers) (hstore : a.op = .store) :
    ((∃! i, y.sim.entry i a.addr ∈ [MOSI.State.M, .O, .OM]) ∨
        ∃ q i j, MOSI.Handover y a.addr q i j) ∧
      ∀ d ∈ y.sim.bus.dataReply, d.addr = a.addr → d.srcMid ≠ ⟨n, .MC⟩ := by
  obtain ⟨tr, hkept⟩ := MOSI.kept_of_endOfCycle h
  obtain ⟨m, p, hrefines, -⟩ :=
    simulated_of_endOfCycle (L := MOSI.lawful) (fun _ _ ↦ nofun) h.state
  have hdirty := hkept.stored a ha hstore
  constructor
  · refine hdirty.imp_left ?_
    rintro ⟨i, howner⟩
    refine ⟨i, (MOSI.owner_iff _).mp howner, fun j hj ↦ ?_⟩
    have howner' := (MOSI.owner_iff _).mpr hj
    have hline (k : Fin n) : m.line k a.addr = MOSI.view (y.sim.entry k a.addr) :=
      hrefines.agrees.line k a.addr
    rw [← hline] at howner howner'
    exact hrefines.inv.alone.owner howner' howner
  · intro d hd haddr
    exact hkept.ne_memory hdirty hd haddr

theorem MOSI_dirty_owner_storeRace : ∃ y : Traced MOSI.protocol 2,
    Traced.EndOfCycle storeRace (fun _ ↦ 0) y ∧
      (∀ i, y.sim.entry i 0 ∉ [MOSI.State.M, .O, .OM]) ∧ ∃ q i j, MOSI.Handover y 0 q i j := by
  obtain ⟨y, hy, ⟨a, ha, hstore, haddr⟩, hnone⟩ : ∃ y : Traced MOSI.protocol 2,
      Traced.EndOfCycle storeRace (fun _ ↦ 0) y ∧
        (∃ a ∈ y.state.answers, a.op = .store ∧ a.addr = 0) ∧
        ∀ i, y.sim.entry i 0 ∉ [MOSI.State.M, .O, .OM] :=
    Loop.exists_endOfBody 5 (by decide +kernel)
  obtain ⟨hdirty, -⟩ := MOSI_dirty_owner hy ha hstore
  rw [haddr] at hdirty
  refine ⟨y, hy, hnone, hdirty.resolve_left ?_⟩
  rintro ⟨i, howner, -⟩
  exact hnone i howner

end ArchSim.Coherence
