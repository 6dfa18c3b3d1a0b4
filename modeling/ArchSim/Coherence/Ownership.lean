import ArchSim.Coherence.Paired

/-!
# Owners and waiting lines

What `MOSI` and `MOESI` have in common. A request of the processor makes no owner and unmakes none,
and is refused while its line waits; a `GETM` leaves a line that waits to write waiting, and the
data makes it `M`.
-/

namespace ArchSim.Coherence

open Library AtomicMemory Snooping Handler

/-- How the handlers of `P` treat owners and the lines that wait to write. -/
structure Owning (P : Protocol) (view : P.State → Line) : Prop where
  asked : ∀ {mid state wire request o},
    P.processCacheRequest.outcome mid state wire request = .ok o →
    (view o.state).owner = (view state).owner ∧ (view state).pending = none
  upgrading : ∀ {mid state wire request o},
    P.processSnoopRequest.outcome mid state wire request = .ok o →
    (view state).pending = some .write → request.msg = .GETM →
    (view o.state).pending = some .write
  filled : ∀ {mid state wire request o},
    P.processSnoopRequest.outcome mid state wire request = .ok o →
    (view state).pending = some .write → request.msg = .DATA → view o.state = .M

section

variable {P : Protocol} {view : P.State → Line} {mid : ModuleID} {node : Node P.State}
  {addr : PAddr} {state : P.State}

theorem ProcMove.owner_eq (hP : Owning P view) (h : ProcMove P mid node addr state) :
    (view state).owner = (view (node.cache.myEntries addr)).owner :=
  h.preserves (f := fun state ↦ (view state).owner) fun hout ↦ (hP.asked hout).1

theorem ProcMove.eq_of_pending (hP : Owning P view) (h : ProcMove P mid node addr state)
    (hpending : (view (node.cache.myEntries addr)).pending.isSome) :
    state = node.cache.myEntries addr := by
  refine h.eq_of_stalled fun hout ↦ ?_
  rw [(hP.asked hout).2] at hpending
  cases hpending

end

/-- The line of a node whose request waits for the bus waits for its data. -/
theorem Refines.pending_of_request {P : Protocol} {n : ℕ} {demotes stalls : Bool}
    {L : Lawful P demotes stalls} {settings : Settings n} {versions : PAddr → ℕ}
    {v : Versioned P n} {m : Machine (Fin n) PAddr} (h : Refines L settings versions v m) {q : Mreq}
    (hq : q ∈ v.sim.bus.pendingRequests) {k : Kind} (hmsg : q.msg = kindMessage k) {i : Fin n}
    (hsource : q.srcMid = l1 i) : (L.view (v.sim.entry i q.addr)).pending = some k := by
  rw [h.agrees.queue, List.mem_map] at hq
  obtain ⟨r, hr, rfl⟩ := hq
  have hmem : r ∈ m.requests := List.mem_append_right _ hr
  have hnode : r.node = i := l1_injective hsource
  have hkind : r.kind = k := by
    revert hmsg
    change kindMessage r.kind = _ → _
    cases r.kind <;> cases k <;> simp [kindMessage]
  have haddr : (requestMessage r).addr = r.addr := h.blockAddr_of_mem hmem
  rw [haddr, ← hnode, ← hkind, Simulator.entry, ← h.agrees.line]
  exact h.inv.queued.pending r hmem

/-! ## The protocols -/

namespace MOSI

variable {mid : ModuleID} {state : State} {wire : Bool} {request : Mreq} {o : Outcome State}

theorem processCacheRequest_asked
    (h : processCacheRequest.outcome mid state wire request = .ok o) :
    (view o.state).owner = (view state).owner ∧ (view state).pending = none := by
  obtain ⟨msg, addr, source, dest⟩ := request
  cases state <;> cases msg <;> cases h <;> exact ⟨rfl, rfl⟩

/-- A writer waits in `IM` or `OM` for its data. -/
theorem state_of_GETM (h : processSnoopRequest.outcome mid state wire request = .ok o)
    (hmsg : request.msg = .GETM) (hpending : (view state).pending = some .write) :
    o.state = .IM ∨ o.state = .OM := by
  cases state with
  | OM =>
    rw [outcome_surrender hmsg] at h
    obtain rfl := Except.ok.inj h
    change (if request.srcMid = mid then State.OM else .IM) = .IM ∨ _ = State.OM
    split
    · exact .inr rfl
    · exact .inl rfl
  | IM | SM =>
    obtain ⟨msg, addr, source, dest⟩ := request
    subst hmsg
    cases h
    exact .inl rfl
  | I | S | O | M | IS => cases hpending

theorem processSnoopRequest_upgrading
    (h : processSnoopRequest.outcome mid state wire request = .ok o)
    (hpending : (view state).pending = some .write) (hmsg : request.msg = .GETM) :
    (view o.state).pending = some .write := by
  rcases state_of_GETM h hmsg hpending with ho | ho <;> rw [ho] <;> rfl

theorem processSnoopRequest_filled
    (h : processSnoopRequest.outcome mid state wire request = .ok o)
    (hpending : (view state).pending = some .write) (hmsg : request.msg = .DATA) :
    view o.state = .M := by
  obtain ⟨msg, addr, source, dest⟩ := request
  subst hmsg
  cases state with
  | IM | SM | OM =>
    cases h
    rfl
  | I | S | O | M | IS => cases hpending

theorem owning : Owning protocol view where
  asked := processCacheRequest_asked
  upgrading := processSnoopRequest_upgrading
  filled := processSnoopRequest_filled

end MOSI

namespace MOESI

variable {mid : ModuleID} {state : State} {wire : Bool} {request : Mreq} {o : Outcome State}

theorem processCacheRequest_asked
    (h : processCacheRequest.outcome mid state wire request = .ok o) :
    (view o.state).owner = (view state).owner ∧ (view state).pending = none := by
  obtain ⟨msg, addr, source, dest⟩ := request
  cases state <;> cases msg <;> cases h <;> exact ⟨rfl, rfl⟩

theorem processSnoopRequest_upgrading
    (h : processSnoopRequest.outcome mid state wire request = .ok o)
    (hpending : (view state).pending = some .write) (hmsg : request.msg = .GETM) :
    (view o.state).pending = some .write := by
  cases state with
  | OM =>
    rw [outcome_surrender hmsg] at h
    obtain rfl := Except.ok.inj h
    change (view (if request.srcMid = mid then .OM else .IM)).pending = _
    split <;> rfl
  | IM | SM =>
    obtain ⟨msg, addr, source, dest⟩ := request
    subst hmsg
    cases h
    rfl
  | I | S | E | O | M | ISE => cases hpending

theorem processSnoopRequest_filled
    (h : processSnoopRequest.outcome mid state wire request = .ok o)
    (hpending : (view state).pending = some .write) (hmsg : request.msg = .DATA) :
    view o.state = .M := by
  obtain ⟨msg, addr, source, dest⟩ := request
  subst hmsg
  cases state with
  | IM | SM | OM =>
    cases h
    rfl
  | I | S | E | O | M | ISE => cases hpending

theorem owning : Owning protocol view where
  asked := processCacheRequest_asked
  upgrading := processSnoopRequest_upgrading
  filled := processSnoopRequest_filled

end MOESI

end ArchSim.Coherence
