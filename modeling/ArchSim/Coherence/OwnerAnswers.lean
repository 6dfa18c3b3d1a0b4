import ArchSim.Coherence.Ownership

/-!
# Owners that answer, and upgrades that succeed, in MOESI

As long as no read is granted for a block whose owner upgrades its copy, the owner of a block sends
the data for every request that appears, and a cache whose `GETM` has been answered has its block in
`M`.
-/

namespace ArchSim.Coherence

open Library AtomicMemory Snooping

namespace MOESI

/-! ## The handlers -/

section

variable {mid : ModuleID} {state : State} {wire : Bool} {request : Mreq} {o : Outcome State}

theorem of_processCacheRequest_OM
    (h : processCacheRequest.outcome mid state wire request = .ok o) (ho : o.state = .OM) :
    state = .O ∧ request.msg = .STORE := by
  obtain ⟨msg, addr, source, dest⟩ := request
  cases state <;> cases msg <;> cases h <;> first | exact ⟨rfl, rfl⟩ | cases ho

/-- An owner sends data, unless it upgrades its copy and the request is a read. -/
theorem reply_of_owner (h : processSnoopRequest.outcome mid state wire request = .ok o)
    (howner : (view state).owner) (hmsg : request.msg = .GETS ∨ request.msg = .GETM)
    (hOM : state = .OM → request.msg = .GETM) : o.reply.isSome := by
  cases state with
  | OM =>
    rw [outcome_surrender (hOM rfl)] at h
    exact (Except.ok.inj h) ▸ rfl
  | E | O | M =>
    obtain ⟨msg, addr, source, dest⟩ := request
    rcases hmsg with rfl | rfl <;> cases h <;> rfl
  | I | S | IM | ISE | SM => cases howner

end

variable {n : ℕ} {s s₁ s₂ s₃ s' : Simulator protocol n} {effect : Fin n → CacheEffect State}
  {x : Traffic} {q : Mreq} {i : Fin n} {addr : PAddr}

/-! ## From the request to its data -/

/-- A read that is about to be granted meets no upgrade, and a `GETM` comes from a line that waits
to write. -/
structure Grantable (s : Simulator protocol n) : Prop where
  noReadMeetsUpgrade : NoReadMeetsUpgrade s
  pending : ∀ q ∈ s.bus.pendingRequests, q.msg = .GETM → ∀ i, q.srcMid = l1 i →
    (view (s.entry i q.addr)).pending = some .write

theorem grantable_of_loopHead {settings : Settings n} {versions : PAddr → ℕ}
    {y : Traced protocol n} (h : Traced.LoopHeadWhile settings versions NoReadMeetsUpgrade y)
    (hcond : NoReadMeetsUpgrade y.sim) : Grantable y.sim := by
  obtain ⟨m, p, hrefines, -⟩ :=
    simulated_of_loopHead (L := lawful) (fun _ hs _ ↦ clear_of_noReadMeetsUpgrade hs) h.state
  exact ⟨hcond, fun q hq hmsg i hsource ↦
    hrefines.pending_of_request hq (k := .write) hmsg hsource⟩

/-- While a request is in progress, the data of the block's owner is in `dataReply`, and the line
that a `GETM` comes from waits to write. -/
structure Owed (a : Appearance protocol n) (s : Simulator protocol n) : Prop where
  reply : ∀ i, (view (a.before i a.message.addr)).owner →
    ∃ d, s.bus.dataReply = some d ∧ d.srcMid = l1 i
  pending : a.message.msg = .GETM → ∀ i, a.message.srcMid = l1 i →
    (view (s.entry i a.message.addr)).pending = some .write

/-- The data `d` for the request `a` comes from the block's owner, and a `GETM` has led to `M`. -/
structure Settled (a d : Appearance protocol n) : Prop where
  source : ∀ i, (view (a.before i a.message.addr)).owner → d.message.srcMid = l1 i
  state : a.message.msg = .GETM → ∀ i, a.message.srcMid = l1 i → d.after i a.message.addr = .M

/-- No owner upgrades its copy when it snoops a read. -/
theorem Grantable.ne_OM (h : Grantable s) (hquiet : Transaction.quiet.Holds s) {rest : List Mreq}
    (hpending : s.bus.pendingRequests = q :: rest) (hmsg : q.msg = .GETS) {state : State}
    (hmove : ProcMove protocol (l1 i) (s.nodes i) q.addr state) : state ≠ .OM := by
  obtain ⟨hOM, hO⟩ := h.noReadMeetsUpgrade hquiet.1 q (by rw [hpending]; rfl) hmsg i
  exact match hmove with
  | .same => hOM
  | .asked hrequest haddr hout => fun hstate ↦ by
    obtain ⟨hbefore, hstore⟩ := of_processCacheRequest_OM hout hstate
    exact hO hbefore _ hrequest hstore haddr

theorem owed_of_granted (hgood : Grantable s) (hquiet : Transaction.quiet.Holds s)
    {rest : List Mreq} (hpending : s.bus.pendingRequests = q :: rest)
    (hran : CycleRan true s s₁ s₂ s₃ s' effect x) {tr' : Transaction}
    (hnext : Transaction.Next n (some q) x.reply .quiet tr') (hold' : tr'.Holds s') :
    Owed ⟨q, s.entry, s'.entry⟩ s' := by
  have hcurrent : s.busTick.bus.currentRequest = some q := by
    rw [hquiet.busTick_of_cons hpending]
  have hrequest : IsRequest n q := hnext.isRequest
  have hmine (i : Fin n) : q.msg = .DATA → q.destMid = l1 i := fun hdata ↦
    absurd hdata hrequest.msg_ne
  constructor
  · intro i (howner : (view (s.entry i q.addr)).owner)
    obtain ⟨σ, o, wire, -, hmove, hout, -, hreply, -⟩ :=
      hran.entry_snooped regular hcurrent (hmine i)
    have hsends : o.reply.isSome := by
      refine reply_of_owner hout ((hmove.owner_eq owning).trans howner) hrequest.msg_eq fun hOM ↦ ?_
      refine hrequest.msg_eq.resolve_left fun hmsg ↦ ?_
      exact hgood.ne_OM hquiet hpending hmsg hmove hOM
    obtain ⟨d, hd⟩ := Option.isSome_iff_exists.mp hsends
    have hx : x.reply = some d := (hran.caches.reply d).mpr ⟨i, i.isLt, hreply.trans hd⟩
    have hsource : d.srcMid = l1 i := by
      rw [(regular.snooped hout).reply d hd]
      rfl
    rw [hx] at hnext
    cases hnext with
    | answer _ _ => exact ⟨d, hold'.2.2.2, hsource⟩
  · intro (hmsg : q.msg = .GETM) i (hsource : q.srcMid = l1 i)
    have hwrite := hgood.pending q (by rw [hpending]; exact List.mem_cons_self) hmsg i hsource
    obtain ⟨σ, o, wire, -, hmove, hout, hstate, -, -⟩ :=
      hran.entry_snooped regular hcurrent (hmine i)
    obtain rfl := hmove.eq_of_pending owning (hwrite ▸ rfl)
    change (view (s'.entry i q.addr)).pending = _
    rw [hstate]
    exact owning.upgrading hout hwrite hmsg

theorem Owed.wait {a : Appearance protocol n} (h : Owed a s)
    (hold : (Transaction.lookup a.message).Holds s)
    (hran : CycleRan true s s₁ s₂ s₃ s' effect x) : Owed a s' := by
  have hnone : s.busTick.bus.currentRequest = none := by
    rw [hold.busTick_of_lookup]
  constructor
  · intro i howner
    obtain ⟨d, hd, -⟩ := h.reply i howner
    cases hold.dataReply.symm.trans hd
  · intro hmsg i hsource
    have hwrite := h.pending hmsg i hsource
    have hmove : ProcMove protocol (l1 i) (s.nodes i) a.message.addr (s'.entry i a.message.addr) :=
      hran.entry_passed (by simp [hnone])
    rw [hmove.eq_of_pending owning (hwrite ▸ rfl)]
    exact hwrite

theorem Owed.finish {a : Appearance protocol n} (h : Owed a s) {d : Mreq}
    (hold : (Transaction.replied a.message d).Holds s)
    (hran : CycleRan true s s₁ s₂ s₃ s' effect x) : Settled a ⟨d, s.entry, s'.entry⟩ := by
  have hcurrent : s.busTick.bus.currentRequest = some d := by
    rw [hold.busTick_of_replied]
  obtain ⟨-, hanswers, -, hslot⟩ := hold
  constructor
  · intro i howner
    obtain ⟨d', hd', hsource⟩ := h.reply i howner
    rw [← Option.some.inj (hd'.symm.trans hslot)]
    exact hsource
  · intro hmsg i hsource
    have hmine : d.msg = .DATA → d.destMid = l1 i := fun _ ↦ hanswers.destMid.trans hsource
    have hwrite := h.pending hmsg i hsource
    obtain ⟨σ, o, wire, -, hmove, hout, hstate, -, -⟩ :=
      hran.entry_snooped regular hcurrent hmine
    rw [hanswers.addr] at hmove hstate
    obtain rfl := hmove.eq_of_pending owning (hwrite ▸ rfl)
    change s'.entry i a.message.addr = _
    rw [hstate]
    exact view_injective (owning.filled hout hwrite hanswers.msg)

theorem carries_owed : Carries true (Grantable (n := n)) Owed Settled where
  start hgood hquiet hpending hran hnext hold' :=
    owed_of_granted hgood hquiet hpending hran hnext hold'
  wait hold h hran := h.wait hold hran
  finish hold h hran := h.finish hold hran

end MOESI

/-- In a run in which no read is granted for a block that its owner upgrades: if some cache owns the
block when a request for it appears on the bus, the data comes from that cache, and the data for a
`GETM` leaves the requester's entry in `M`. -/
theorem MOESI_owner_answers {n : ℕ} {settings : Settings n} {versions : PAddr → ℕ}
    {y : Traced MOESI.protocol n}
    (h : Traced.EndOfCycleWhile settings versions MOESI.NoReadMeetsUpgrade y)
    {pre post : List (Appearance MOESI.protocol n)} {q d : Appearance MOESI.protocol n}
    (happeared : y.appeared = pre ++ q :: d :: post)
    (hmsg : q.message.msg = .GETS ∨ q.message.msg = .GETM) :
    Answers n q.message d.message ∧
      (∀ j, q.before j q.message.addr ∈ [MOESI.State.E, .O, .M, .OM] →
        d.message.srcMid = l1 j) ∧
      (q.message.msg = .GETM → ∀ i, q.message.srcMid = l1 i →
        d.after i q.message.addr = .M) := by
  have hrequest : q.message.isRequest = true := by simpa [Mreq.isRequest] using hmsg
  obtain ⟨hanswers, hsettled⟩ := paired_of_endOfCycle MOESI.regular MOESI.carries_owed
    (fun _ hhead hcond ↦ MOESI.grantable_of_loopHead hhead hcond) h happeared hrequest
  refine ⟨hanswers, fun j hj ↦ hsettled.source j ?_, hsettled.state⟩
  revert hj
  cases q.before j q.message.addr <;> decide

theorem MOESI_owner_answers_storeRace : ∃ y : Traced MOESI.protocol 2,
    Traced.EndOfCycleWhile storeRace (fun _ ↦ 0) MOESI.NoReadMeetsUpgrade y ∧
      ∃ q ∈ y.appeared[2]?, ∃ d ∈ y.appeared[3]?, q.before 0 0 = .M ∧
        d.message.srcMid = l1 (0 : Fin 2) ∧ d.after 1 0 = .M := by
  obtain ⟨y, hy, q, hq, d, hd, hqmsg, hqsource, hqaddr, hqbefore⟩ :
      ∃ y : Traced MOESI.protocol 2,
        Traced.EndOfCycleWhile storeRace (fun _ ↦ 0) MOESI.NoReadMeetsUpgrade y ∧
          ∃ q ∈ y.appeared[2]?, ∃ d ∈ y.appeared[3]?, q.message.msg = .GETM ∧
            q.message.srcMid = l1 (1 : Fin 2) ∧ q.message.addr = 0 ∧ q.before 0 0 = .M :=
    Loop.exists_endOfBody 6 (by decide +kernel)
  obtain ⟨pre, post, happeared⟩ := Paired.exists_neighbours hq hd
  obtain ⟨-, hsource, hstate⟩ := MOESI_owner_answers hy happeared (.inr hqmsg)
  rw [hqaddr] at hsource hstate
  exact ⟨y, hy, q, hq, d, hd, hqbefore, hsource 0 (by rw [hqbefore]; decide),
    hstate hqmsg 1 hqsource⟩

/-- The second read appears while node 0 is in `OM`, and the memory sends the data. -/
theorem MOESI_owner_silent : ∃ y : Traced MOESI.protocol 3,
    Traced.EndOfCycle MOESI.upgradeRace (fun _ ↦ 0) y ∧
      ∃ pre q d post, y.appeared = pre ++ q :: d :: post ∧ q.message.msg = .GETS ∧
        q.before 0 q.message.addr = .OM ∧ d.message.srcMid = ⟨3, .MC⟩ := by
  obtain ⟨y, hy, q, hq, d, hd, hsilent⟩ : ∃ y : Traced MOESI.protocol 3,
      Traced.EndOfCycle MOESI.upgradeRace (fun _ ↦ 0) y ∧
        ∃ q ∈ y.appeared[4]?, ∃ d ∈ y.appeared[5]?, q.message.msg = .GETS ∧
          q.before 0 q.message.addr = .OM ∧ d.message.srcMid = ⟨3, .MC⟩ :=
    Loop.exists_endOfBody 207 (by decide +kernel)
  obtain ⟨pre, post, happeared⟩ := Paired.exists_neighbours hq hd
  exact ⟨y, hy, pre, q, d, post, happeared, hsilent⟩

end ArchSim.Coherence
