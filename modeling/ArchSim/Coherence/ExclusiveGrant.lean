import ArchSim.Coherence.Paired

/-!
# When MESI grants a block exclusively

Every cache with a copy drives the shared wire when it snoops a `GETS`, and nothing drives or clears
it from then until the data arrives; the requests of the processors change no copy into none, and
none into a copy. So the wire that the requester reads tells whether there was another copy in the
cycle in which its `GETS` appeared.
-/

namespace ArchSim.Coherence.MESI

open Library Snooping

/-- The entry is a copy of the block. -/
def State.holds : State → Bool
  | S | E | M | SM => true
  | I | IM | ISE => false

theorem State.holds_iff (state : State) : state.holds = true ↔ state ∈ [S, E, M, SM] := by
  cases state <;> decide

/-! ## The handlers -/

section

variable {mid : ModuleID} {state : State} {wire : Bool} {request : Mreq} {o : Outcome State}

theorem holds_of_processCacheRequest
    (h : processCacheRequest.outcome mid state wire request = .ok o) :
    o.state.holds = state.holds := by
  obtain ⟨msg, addr, source, dest⟩ := request
  cases state <;> cases msg <;> cases h <;> rfl

theorem processCacheRequest_ISE : processCacheRequest.outcome mid .ISE wire request ≠ .ok o := by
  obtain ⟨msg, addr, source, dest⟩ := request
  cases msg <;> exact nofun

/-- A copy that snoops a read drives the wire and remains a copy. -/
theorem holds_of_GETS (h : processSnoopRequest.outcome mid state false request = .ok o)
    (hmsg : request.msg = .GETS) : o.shared = state.holds ∧ o.state.holds = state.holds := by
  obtain ⟨msg, addr, source, dest⟩ := request
  subst hmsg
  cases state <;> cases h <;> exact ⟨rfl, rfl⟩

theorem state_of_DATA (h : processSnoopRequest.outcome mid .ISE wire request = .ok o)
    (hmsg : request.msg = .DATA) : o.state = if wire then .S else .E := by
  obtain ⟨msg, addr, source, dest⟩ := request
  subst hmsg
  cases wire <;> cases h <;> rfl

end

variable {n : ℕ} {s s₁ s₂ s₃ s' : Simulator protocol n} {effect : Fin n → CacheEffect State}
  {x : Traffic} {q : Mreq} {i : Fin n} {addr : PAddr}

theorem holds_of_move {node : Node State} {mid : ModuleID} {state : State}
    (h : ProcMove protocol mid node addr state) :
    state.holds = (node.cache.myEntries addr).holds :=
  h.preserves holds_of_processCacheRequest

theorem eq_ISE_of_move {node : Node State} {mid : ModuleID} {state : State}
    (h : ProcMove protocol mid node addr state) (hISE : node.cache.myEntries addr = .ISE) :
    state = .ISE :=
  (h.eq_of_stalled (hISE ▸ processCacheRequest_ISE)).trans hISE

/-! ## From the request to its data -/

/-- The cycle in which a message appears makes no copy of its block and gives none up. -/
def SameCopies (a : Appearance protocol n) : Prop :=
  ∀ j, (a.after j a.message.addr).holds = (a.before j a.message.addr).holds

/-- While a `GETS` is in progress the wire is up if some entry was a copy when it appeared, and the
same entries still are. -/
def Driven (a : Appearance protocol n) (s : Simulator protocol n) : Prop :=
  a.message.msg = .GETS → SameCopies a ∧
    (s.bus.sharedLine = true ↔ ∃ j, (a.before j a.message.addr).holds) ∧
    ∀ j, (s.entry j a.message.addr).holds = (a.before j a.message.addr).holds

/-- The requester reads from the wire whether there was another copy. -/
def Granted (a d : Appearance protocol n) : Prop :=
  a.message.msg = .GETS → SameCopies a ∧
    ∀ i, a.message.srcMid = l1 i → d.before i a.message.addr = .ISE →
      d.after i a.message.addr =
        if ∃ j ≠ i, (a.before j a.message.addr).holds then .S else .E

theorem driven_of_granted (hquiet : Transaction.quiet.Holds s)
    {rest : List Mreq} (hpending : s.bus.pendingRequests = q :: rest)
    (hran : CycleRan false s s₁ s₂ s₃ s' effect x) : Driven ⟨q, s.entry, s'.entry⟩ s' := by
  intro (hmsg : q.msg = .GETS)
  have hbus := hquiet.busTick_of_cons hpending
  have hcurrent : s.busTick.bus.currentRequest = some q := by rw [hbus]
  have hentry (j : Fin n) : (effect j).shared = (s.entry j q.addr).holds ∧
      (s'.entry j q.addr).holds = (s.entry j q.addr).holds := by
    obtain ⟨σ, o, wire, -, hmove, hout, hstate, -, hshared⟩ :=
      hran.entry_snooped (i := j) regular hcurrent (by simp [hmsg])
    have hfalse : (decide (q.msg = .DATA) && wire) = false := by simp [hmsg]
    rw [hfalse] at hout
    obtain ⟨hdrives, hholds⟩ := holds_of_GETS hout hmsg
    rw [hshared rfl, hdrives, hstate, hholds, holds_of_move hmove]
    exact ⟨rfl, rfl⟩
  refine ⟨fun j ↦ (hentry j).2, ?_, fun j ↦ (hentry j).2⟩
  rw [hran.sharedLine_eq, hbus, Bool.false_or, hran.caches.shared]
  constructor
  · rintro ⟨j, -, hj⟩
    exact ⟨j, (hentry j).1 ▸ hj⟩
  · rintro ⟨j, hj⟩
    exact ⟨j, j.isLt, (hentry j).1.trans hj⟩

theorem Driven.wait {a : Appearance protocol n} (h : Driven a s)
    (hold : (Transaction.lookup a.message).Holds s)
    (hran : CycleRan false s s₁ s₂ s₃ s' effect x) : Driven a s' := by
  intro hmsg
  obtain ⟨hcopies, hwire, hholds⟩ := h hmsg
  have hbus := hold.busTick_of_lookup
  have hnone : s.busTick.bus.currentRequest = none := by rw [hbus]
  refine ⟨hcopies, ?_, fun j ↦ ?_⟩
  · rw [hran.sharedLine_eq, hran.caches.shared_eq regular (by simp [hnone]), hbus, Bool.or_false]
    exact hwire
  · rw [holds_of_move (hran.entry_passed (by simp [hnone]))]
    exact hholds j

theorem Driven.finish {a : Appearance protocol n} (h : Driven a s) {d : Mreq}
    (hold : (Transaction.replied a.message d).Holds s)
    (hran : CycleRan false s s₁ s₂ s₃ s' effect x) : Granted a ⟨d, s.entry, s'.entry⟩ := by
  intro hmsg
  obtain ⟨hcopies, hdriven, hholds⟩ := h hmsg
  refine ⟨hcopies, fun i hsource (hISE : s.entry i a.message.addr = .ISE) ↦ ?_⟩
  have hbus := hold.busTick_of_replied
  obtain ⟨-, hanswers, -, -⟩ := hold
  have hcurrent : s.busTick.bus.currentRequest = some d := by rw [hbus]
  have hmine : d.msg = .DATA → d.destMid = l1 i := fun _ ↦ hanswers.destMid.trans hsource
  obtain ⟨σ, o, wire, hwire, hmove, hout, hstate, -, -⟩ :=
    hran.entry_snooped regular hcurrent hmine
  rw [hanswers.addr] at hmove hstate
  have hwire' : wire = s.bus.sharedLine := by rw [hwire rfl, hbus]
  obtain rfl : σ = .ISE := eq_ISE_of_move hmove hISE
  have hfilled : o.state = if s.bus.sharedLine then .S else .E := by
    rw [state_of_DATA hout hanswers.msg, hwire', decide_eq_true hanswers.msg, Bool.true_and]
  -- the requester has no copy, so another cache has driven the wire
  have hother : s.bus.sharedLine = true ↔ ∃ j ≠ i, (a.before j a.message.addr).holds := by
    rw [hdriven]
    refine exists_congr fun j ↦ ⟨fun hj ↦ ⟨?_, hj⟩, And.right⟩
    rintro rfl
    rw [← hholds, hISE] at hj
    cases hj
  change s'.entry i a.message.addr = _
  rw [hstate, hfilled]
  exact if_congr hother rfl rfl

theorem carries_driven : Carries false (fun _ : Simulator protocol n ↦ True) Driven Granted where
  start _ hquiet hpending hran _ _ := driven_of_granted hquiet hpending hran
  wait hold h hran := h.wait hold hran
  finish hold h hran := h.finish hold hran

end ArchSim.Coherence.MESI

namespace ArchSim.Coherence

open Library

/-- A cache in `ISE` that receives the data of its `GETS` goes to `E` if no other cache had a copy
in the cycle in which the `GETS` appeared on the bus, and to `S` if one had. -/
theorem MESI_exclusive_iff_unshared {n : ℕ} {settings : Settings n} {versions : PAddr → ℕ}
    {y : Traced MESI.protocol n} (h : Traced.EndOfCycle settings versions y)
    {pre post : List (Appearance MESI.protocol n)} {q d : Appearance MESI.protocol n}
    (happeared : y.appeared = pre ++ q :: d :: post) (hmsg : q.message.msg = .GETS) {i : Fin n}
    (hsource : q.message.srcMid = l1 i) (hISE : d.before i q.message.addr = .ISE) :
    Answers n q.message d.message ∧
      (∀ j, q.after j q.message.addr ∈ [MESI.State.S, .E, .M, .SM] ↔
        q.before j q.message.addr ∈ [MESI.State.S, .E, .M, .SM]) ∧
      ((∀ j ≠ i, q.before j q.message.addr ∉ [MESI.State.S, .E, .M, .SM]) →
        d.after i q.message.addr = .E) ∧
      ((∃ j ≠ i, q.before j q.message.addr ∈ [MESI.State.S, .E, .M, .SM]) →
        d.after i q.message.addr = .S) := by
  have hrequest : q.message.isRequest = true := by simp [Mreq.isRequest, hmsg]
  obtain ⟨hanswers, hgranted⟩ := paired_of_endOfCycle MESI.regular MESI.carries_driven
    (fun _ _ _ ↦ trivial) h happeared hrequest
  obtain ⟨hcopies, hstate⟩ := hgranted hmsg
  simp only [← MESI.State.holds_iff]
  refine ⟨hanswers, fun j ↦ by rw [hcopies j], fun hnone ↦ ?_, fun hsome ↦ ?_⟩
  · rw [hstate i hsource hISE, if_neg]
    rintro ⟨j, hne, hj⟩
    exact hnone j hne hj
  · rw [hstate i hsource hISE, if_pos hsome]

theorem MESI_exclusive_iff_unshared_readRace : ∃ y : Traced MESI.protocol 2,
    Traced.EndOfCycle MESI.readRace (fun _ ↦ 0) y ∧
      (∃ d ∈ y.appeared[1]?, d.after 0 0 = .E) ∧ ∃ d ∈ y.appeared[3]?, d.after 1 0 = .S := by
  obtain ⟨y, hy, ⟨q, hq, hqmsg, hqsource, hqaddr, hqnone⟩, ⟨d, hd, hdISE⟩,
      ⟨q', hq', hqmsg', hqsource', hqaddr', hqsome'⟩, d', hd', hdISE'⟩ :
      ∃ y : Traced MESI.protocol 2, Traced.EndOfCycle MESI.readRace (fun _ ↦ 0) y ∧
        (∃ q ∈ y.appeared[0]?, q.message.msg = .GETS ∧ q.message.srcMid = l1 (0 : Fin 2) ∧
          q.message.addr = 0 ∧ ∀ j ≠ 0, q.before j 0 ∉ [MESI.State.S, .E, .M, .SM]) ∧
        (∃ d ∈ y.appeared[1]?, d.before 0 0 = .ISE) ∧
        (∃ q ∈ y.appeared[2]?, q.message.msg = .GETS ∧ q.message.srcMid = l1 (1 : Fin 2) ∧
          q.message.addr = 0 ∧ ∃ j ≠ 1, q.before j 0 ∈ [MESI.State.S, .E, .M, .SM]) ∧
        ∃ d ∈ y.appeared[3]?, d.before 1 0 = .ISE :=
    Loop.exists_endOfBody 7 (by decide +kernel)
  obtain ⟨pre, post, happeared⟩ := Paired.exists_neighbours hq hd
  obtain ⟨pre', post', happeared'⟩ := Paired.exists_neighbours hq' hd'
  refine ⟨y, hy, ⟨d, hd, ?_⟩, d', hd', ?_⟩
  · have hE := (MESI_exclusive_iff_unshared hy happeared hqmsg hqsource (hqaddr ▸ hdISE)).2.2.1
    rw [hqaddr] at hE
    exact hE hqnone
  · have hS := (MESI_exclusive_iff_unshared hy happeared' hqmsg' hqsource' (hqaddr' ▸ hdISE')).2.2.2
    rw [hqaddr'] at hS
    exact hS hqsome'

end ArchSim.Coherence
