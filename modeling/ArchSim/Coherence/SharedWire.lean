import ArchSim.Coherence.Paired

/-!
# What drives the shared wire under MOESI

The wire that tells a requester in `ISE` whether its block is shared is one wire for all blocks.
A load that hits a copy in `S` drives it too, whatever its block, and a copy in `O` that answers the
`GETS` does not. So the requester reads from the wire what its protocol wants to know only under a
condition on the caches and on the requests of the processors, from the cycle of the `GETS` to that
of the data.
-/

namespace ArchSim.Coherence

open Library Snooping

/-! ## From a message to the next -/

namespace Simulator

variable {P : Protocol} {n : ℕ}

/-- The message `q` has appeared in the cycle that starts in `s`, and nothing since. The cycles from
that one on have started in `cycles`, and the last one has led to `t`. -/
inductive SilentSince (settings : Settings n) (s : Simulator P n) (q : Mreq) :
    List (Simulator P n) → Simulator P n → Prop where
  | appeared {t} : LoopHead settings s → s.busTick.bus.currentRequest = some q →
      s.cycle = .ok t → t.done = false → SilentSince settings s q [s] t
  | waited {cycles t t'} : SilentSince settings s q cycles t →
      t.busTick.bus.currentRequest = none → t.cycle = .ok t' → t'.done = false →
      SilentSince settings s q (cycles ++ [t]) t'

/-- The state after the cycle from `s` and `m` more, if nothing appears in these and each starts in
a state with `good`. -/
def afterSilence (good : Simulator P n → Prop) [DecidablePred good] (m : ℕ) (s : Simulator P n) :
    Option (Simulator P n) :=
  ((loop P n).iterate (fun _ ↦ True) 1 s).bind
    ((loop P n).iterate (fun u ↦ u.busTick.bus.currentRequest = none ∧ good u) m)

end Simulator

variable {P : Protocol} {n : ℕ} {drives : Bool} {settings : Settings n} {s t t' : Simulator P n}
  {q d : Mreq} {cycles : List (Simulator P n)} {tr : Transaction}

theorem Simulator.SilentSince.iterate {good : Simulator P n → Prop} [DecidablePred good] {m : ℕ}
    (h : SilentSince settings s q cycles t)
    (ht' : (loop P n).iterate (fun u ↦ u.busTick.bus.currentRequest = none ∧ good u) m t =
      some t') :
    ∃ cycles', SilentSince settings s q (cycles ++ cycles') t' ∧ ∀ u ∈ cycles', good u := by
  induction m generalizing t cycles with
  | zero =>
    obtain rfl := Option.some.inj ht'
    exact ⟨[], by simpa using h, by simp⟩
  | succ m ih =>
    obtain ⟨⟨hnone, hgood⟩, t₁, ht₁, hdone, hrest⟩ := Loop.iterate_succ_eq_some.mp ht'
    obtain ⟨cycles', h', hgood'⟩ := ih (h.waited hnone ht₁ hdone) hrest
    exact ⟨t :: cycles', by simpa using h', by simpa using ⟨hgood, hgood'⟩⟩

/-- A silence found by running the loop. -/
theorem Simulator.exists_silentSince {good : Simulator P n → Prop} [DecidablePred good] {m : ℕ}
    (hs : LoopHead settings s) (hq : s.busTick.bus.currentRequest = some q)
    (ht : s.afterSilence good m = some t) :
    ∃ cycles, SilentSince settings s q cycles t ∧ ∀ u ∈ cycles, u = s ∨ good u := by
  obtain ⟨t₀, hfirst, hrest⟩ := Option.bind_eq_some_iff.mp ht
  obtain ⟨-, t₁, ht₁, hdone, hsame⟩ := Loop.iterate_succ_eq_some.mp hfirst
  obtain rfl := Option.some.inj hsame
  obtain ⟨cycles', h, hgood⟩ := (SilentSince.appeared hs hq ht₁ hdone).iterate hrest
  exact ⟨s :: cycles', h, by simpa using fun u hu ↦ .inr (hgood u hu)⟩

theorem exists_served (hP : Regular P drives) (h : Simulator.LoopHead settings s) :
    ∃ y : Traced P n, ∃ tr, Served settings y tr ∧ y.sim = s := by
  obtain ⟨y, hy, rfl⟩ := Traced.exists_of_loopHeadWhile (fun _ ↦ 0) h
  obtain ⟨tr, hserved⟩ := served_of_loopHead hP hy
  exact ⟨y, tr, hserved, rfl⟩

/-- Only a quiet bus takes a request. -/
theorem Transaction.Holds.eq_quiet (h : tr.Holds s)
    (hq : s.busTick.bus.currentRequest = some q) (hrequest : q.isRequest = true) :
    tr = .quiet := by
  cases tr with
  | quiet => rfl
  | lookup q' =>
    rw [h.busTick_of_lookup] at hq
    cases hq
  | replied q' d =>
    rw [h.busTick_of_replied] at hq
    obtain rfl := Option.some.inj hq
    cases hrequest.symm.trans h.2.1.isRequest

/-- The message that ends the silence after a request is its data. -/
theorem Transaction.Holds.replied (h : tr.Holds t) (hrequest : tr.request = some q)
    (hd : t.busTick.bus.currentRequest = some d) : (Transaction.replied q d).Holds t := by
  cases tr with
  | quiet => cases hrequest
  | lookup q' =>
    rw [h.busTick_of_lookup] at hd
    cases hd
  | replied q' d' =>
    obtain rfl := Option.some.inj hrequest
    rw [h.busTick_of_replied] at hd
    exact Option.some.inj hd ▸ h

theorem Simulator.SilentSince.served (hP : Regular P drives)
    (h : SilentSince settings s q cycles t) (hrequest : q.isRequest = true) :
    ∃ y : Traced P n, ∃ tr, Served settings y tr ∧ y.sim = t ∧ tr.request = some q := by
  induction h with
  | appeared hhead hq ht _ =>
    obtain ⟨y, tr, hserved, rfl⟩ := exists_served hP hhead
    obtain rfl := hserved.holds.eq_quiet hq hrequest
    obtain ⟨y', hy', rfl⟩ := (ht ▸ Traced.cycle_erases y : Erases Traced.sim _ (.ok _)).of_ok
    obtain ⟨-, -, -, -, x, tr', -, hnext, hserved'⟩ := hserved.cycle hP hy'
    rw [hq] at hnext
    refine ⟨y', tr', hserved', rfl, ?_⟩
    generalize x.reply = reply at hnext
    cases hnext <;> rfl
  | waited _ hnone ht' _ ih =>
    obtain ⟨y, tr, hserved, rfl, htr⟩ := ih
    obtain ⟨y', hy', rfl⟩ := (ht' ▸ Traced.cycle_erases y : Erases Traced.sim _ (.ok _)).of_ok
    obtain ⟨-, -, -, -, x, tr', -, hnext, hserved'⟩ := hserved.cycle hP hy'
    rw [hnone] at hnext
    refine ⟨y', tr', hserved', rfl, ?_⟩
    generalize x.reply = reply at hnext
    cases hnext with
    | idle => cases htr
    | wait | supply => exact htr

namespace MOESI

/-- The entry is a copy of the block. -/
def State.holds : State → Bool
  | S | E | O | M | SM | OM => true
  | I | IM | ISE => false

/-- The entry drives the wire when it snoops a `GETS`. -/
def State.drivesWire : State → Bool
  | S | E | M | SM | OM => true
  | I | O | IM | ISE => false

/-- The request of the processor is a load that hits a copy in `S`, which drives the wire. -/
def hitsShared (node : Node State) : Bool :=
  node.cache.procRequest.any fun request ↦
    request.msg = .LOAD && node.cache.myEntries request.addr = .S

/-- The request of the processor is a store to `addr`. -/
def stores (node : Node State) (addr : PAddr) : Bool :=
  node.cache.procRequest.any fun request ↦ request.msg = .STORE && request.addr = addr

/-- In a cycle with a `GETS` for `addr` on the bus the entry drives the wire when it snoops it. A
copy in `O` does so only if a store has just made it `OM`. -/
def drivesRead (node : Node State) (addr : PAddr) : Bool :=
  (node.cache.myEntries addr).drivesWire || (node.cache.myEntries addr = .O && stores node addr)

/-! ## The handlers -/

section

variable {mid : ModuleID} {state : State} {wire : Bool} {request : Mreq} {o : Outcome State}

theorem of_processCacheRequest
    (h : processCacheRequest.outcome mid state wire request = .ok o) :
    o.state.holds = state.holds ∧ state ≠ .ISE := by
  obtain ⟨msg, addr, source, dest⟩ := request
  cases state <;> cases msg <;> cases h <;> exact ⟨rfl, nofun⟩

theorem wire_of_processCacheRequest
    (h : processCacheRequest.outcome mid state false request = .ok o) :
    o.shared = (request.msg = .LOAD && state = .S) ∧
      o.state.drivesWire = (state.drivesWire || request.msg = .STORE && state = .O) := by
  obtain ⟨msg, addr, source, dest⟩ := request
  cases state <;> cases msg <;> cases h <;> exact ⟨rfl, rfl⟩

theorem of_GETS (h : processSnoopRequest.outcome mid state false request = .ok o)
    (hmsg : request.msg = .GETS) : o.shared = state.drivesWire ∧ o.state.holds = state.holds := by
  obtain ⟨msg, addr, source, dest⟩ := request
  subst hmsg
  cases state <;> cases h <;> exact ⟨rfl, rfl⟩

/-- Whatever the wire, the data of a read is passed on to the processor. -/
theorem outcome_DATA (hmsg : request.msg = .DATA) (wire : Bool) :
    processSnoopRequest.outcome mid .ISE wire request = .ok
      { state := if wire then .S else .E
        answer := some (cacheMessage .DATA request.addr mid) } := by
  obtain ⟨msg, addr, source, dest⟩ := request
  subst hmsg
  cases wire <;> rfl

end

/-! ## One cycle -/

section

variable {mid : ModuleID} {node : Node State} {message : Option Mreq} {wire : Bool}
  {e : CacheEffect protocol.State} {addr : PAddr}

theorem holds_of_move {state : State} (h : ProcMove protocol mid node addr state) :
    state.holds = (node.cache.myEntries addr).holds :=
  h.preserves fun hout ↦ (of_processCacheRequest hout).1

theorem eq_ISE_of_move {state : State} (h : ProcMove protocol mid node addr state)
    (hISE : node.cache.myEntries addr = .ISE) : state = .ISE :=
  (h.eq_of_stalled fun hout ↦ (of_processCacheRequest hout).2 hISE).trans hISE

theorem wire_of_procEffect (h : ProcEffect protocol mid node e) (addr : PAddr) :
    e.shared = hitsShared node ∧
      (e.node.cache.myEntries addr).drivesWire = drivesRead node addr := by
  cases h with
  | idle hnone => simp [hitsShared, drivesRead, stores, hnone]
  | @handled request o hrequest hout _ =>
    obtain ⟨hshared, hdrives⟩ := wire_of_processCacheRequest hout
    refine ⟨by simp [hitsShared, hrequest, hshared], ?_⟩
    change (Function.update node.cache.myEntries request.addr o.state addr).drivesWire = _
    by_cases haddr : addr = request.addr
    · subst haddr
      rw [Function.update_self, hdrives]
      simp [drivesRead, stores, hrequest, Bool.and_comm]
    · rw [Function.update_of_ne haddr]
      simp [drivesRead, stores, hrequest, Ne.symm haddr]

/-- Without a request on the bus only a load that hits a copy in `S` drives the wire. -/
theorem shared_of_tick (h : TickEffect protocol mid message wire node e)
    (hdata : ∀ q ∈ message, q.msg = .DATA) : e.shared = hitsShared node := by
  obtain ⟨e₁, e₂, he₁, he₂, rfl⟩ := h
  have hfalse : e₂.shared = false := by
    apply eq_false_of_ne_true
    intro hshared
    obtain ⟨q, hq, hne⟩ := he₂.request_of_shared regular hshared
    exact hne (hdata q hq)
  change (e₁.shared || e₂.shared) = _
  rw [hfalse, Bool.or_false, (wire_of_procEffect he₁ 0).1]

theorem shared_of_GETS (h : TickEffect protocol mid (some q) wire node e) (hmsg : q.msg = .GETS) :
    e.shared = (hitsShared node || drivesRead node q.addr) := by
  obtain ⟨e₁, e₂, he₁, he₂, rfl⟩ := h
  obtain ⟨hhits, hdrives⟩ := wire_of_procEffect he₁ q.addr
  obtain ⟨o, hout, -, htraffic⟩ := he₂.entry_snooped rfl (by simp [hmsg])
  simp only [hmsg, reduceCtorEq, decide_false, Bool.false_and] at hout
  change (e₁.shared || e₂.shared) = _
  rw [htraffic, ← hhits, ← hdrives, ← (of_GETS hout hmsg).1]

end

section

variable {s s₁ s₂ s₃ s' : Simulator protocol n} {effect : Fin n → CacheEffect State} {x : Traffic}
  {addr : PAddr} {j : Fin n}

/-- Until the data comes the copies of the block stay what they are. -/
theorem holds_of_cycle (hran : CycleRan true s s₁ s₂ s₃ s' effect x)
    (hread : ∀ q ∈ s.busTick.bus.currentRequest, q.addr = addr ∧ q.msg = .GETS) :
    (s'.entry j addr).holds = (s.entry j addr).holds := by
  cases hcurrent : s.busTick.bus.currentRequest with
  | none => exact holds_of_move (hran.entry_passed (by simp [hcurrent]))
  | some q =>
    obtain ⟨rfl, hmsg⟩ := hread q hcurrent
    obtain ⟨σ, o, wire, -, hmove, hout, hstate, -⟩ :=
      hran.entry_snooped (i := j) regular hcurrent (by simp [hmsg])
    simp only [hmsg, reduceCtorEq, decide_false, Bool.false_and] at hout
    rw [hstate, (of_GETS hout hmsg).2]
    exact holds_of_move hmove

theorem shared_of_silent (hran : CycleRan true s s₁ s₂ s₃ s' effect x)
    (hnone : s.busTick.bus.currentRequest = none) :
    x.shared = true ↔ ∃ j, hitsShared (s.nodes j) = true := by
  have hshared (j : Fin n) : (effect j).shared = hitsShared (s.nodes j) := by
    obtain ⟨wire, -, htick⟩ := hran.caches.tick j j.isLt
    exact shared_of_tick htick (by simp [hnone])
  simp only [hran.caches.shared, hshared, Fin.is_lt, true_and]

theorem shared_of_read {q : Mreq} (hran : CycleRan true s s₁ s₂ s₃ s' effect x)
    (hq : s.busTick.bus.currentRequest = some q) (hmsg : q.msg = .GETS) :
    x.shared = true ↔ (∃ j, drivesRead (s.nodes j) q.addr = true) ∨
      ∃ j, hitsShared (s.nodes j) = true := by
  have hshared (j : Fin n) :
      (effect j).shared = (hitsShared (s.nodes j) || drivesRead (s.nodes j) q.addr) := by
    obtain ⟨wire, -, htick⟩ := hran.caches.tick j j.isLt
    exact shared_of_GETS (hq ▸ htick) hmsg
  simp only [hran.caches.shared, hshared, Fin.is_lt, true_and, Bool.or_eq_true, exists_or]
  exact or_comm

end

/-! ## From a `GETS` to its data -/

variable {n : ℕ} {settings : Settings n} {s t t' u : Simulator protocol n}
  {cycles : List (Simulator protocol n)} {q d : Mreq} {i : Fin n}

/-- While a read is in progress the wire tells which entries have driven it when they snooped the
`GETS`, and whether a load has hit a copy in `S` since. -/
theorem wire_of_silentSince (h : Simulator.SilentSince settings s q cycles t)
    (hmsg : q.msg = .GETS) :
    (t.bus.sharedLine = true ↔ (∃ j, drivesRead (s.nodes j) q.addr = true) ∨
      ∃ u ∈ cycles, ∃ j, hitsShared (u.nodes j) = true) ∧
    ∀ j, (t.entry j q.addr).holds = (s.entry j q.addr).holds := by
  have hrequest : q.isRequest = true := by simp [Mreq.isRequest, hmsg]
  induction h with
  | appeared hhead hq ht _ =>
    obtain ⟨y, tr, hserved, rfl⟩ := exists_served regular hhead
    obtain rfl := hserved.holds.eq_quiet hq hrequest
    obtain ⟨rest, hpending⟩ := hserved.holds.pending_of_current hq
    have hdown : y.sim.busTick.bus.sharedLine = false := by
      rw [hserved.holds.busTick_of_cons hpending]
    obtain ⟨_, _, _, _, x, hran⟩ := cycle_ran regular ht
    refine ⟨?_, fun j ↦ holds_of_cycle hran (by simp [hq, hmsg])⟩
    rw [hran.sharedLine_eq, hdown, Bool.false_or, shared_of_read hran hq hmsg]
    simp
  | @waited cycles t _ _ hnone ht' _ ih =>
    obtain ⟨hwire, hholds⟩ := ih
    have hkept : t.busTick.bus.sharedLine = t.bus.sharedLine := Bus.tick_sharedLine_of_none hnone
    obtain ⟨_, _, _, _, x, hran⟩ := cycle_ran regular ht'
    refine ⟨?_, fun j ↦ (holds_of_cycle hran (by simp [hnone])).trans (hholds j)⟩
    rw [hran.sharedLine_eq, hkept, Bool.or_eq_true, hwire, shared_of_silent hran hnone]
    simp only [List.mem_append, List.mem_singleton, or_and_right, exists_or, exists_eq_left,
      or_assoc]

/-! ## The cycle of the data -/

/-- With the data `d` on the bus the cache `mid` can be ticked, whatever the wire. Its load may
drive the wire, and if the data is for it, it reads the wire after that. -/
def CanTick (d : Mreq) (mid : ModuleID) (node : Node State) : Prop :=
  ∀ wire, ∃ e : CacheEffect protocol.State, TickEffect protocol mid (some d) wire node e ∧
    e.reply = none ∧ e.shared = hitsShared node ∧
    (d.destMid = mid → e.node.cache.myEntries d.addr = if wire || hitsShared node then .S else .E)

theorem canTick_of_tick {mid : ModuleID} {node : Node State} {wire : Bool}
    {e : CacheEffect protocol.State} (h : TickEffect protocol mid (some d) wire node e)
    (hmsg : d.msg = .DATA) (hISE : d.destMid = mid → node.cache.myEntries d.addr = .ISE) :
    CanTick d mid node := by
  intro wire'
  obtain ⟨e₁, e₂, he₁, he₂, rfl⟩ := h
  have hreply : e₁.reply = none := he₁.reply_eq regular
  have hshared {f : CacheEffect protocol.State}
      (hf : SnoopEffect protocol mid (some d) (wire' || e₁.shared) e₁.node f) :
      (e₁.andThen f).shared = hitsShared node :=
    shared_of_tick ⟨e₁, f, he₁, hf, rfl⟩ (by simp [hmsg])
  cases he₂ with
  | idle hidle =>
    have hf : SnoopEffect protocol mid (some d) (wire' || e₁.shared) e₁.node _ := .idle hidle
    refine ⟨_, ⟨e₁, _, he₁, hf, rfl⟩, hreply, hshared hf, fun hdest ↦ ?_⟩
    exact absurd hdest (hidle d rfl).2
  | @handled request o hd hmine hout hanswer =>
    obtain rfl := Option.some.inj hd
    have hdest : d.destMid = mid := not_not.mp fun hne ↦ hmine ⟨hmsg, hne⟩
    have hstate : e₁.node.cache.myEntries d.addr = .ISE :=
      eq_ISE_of_move (he₁.move d.addr) (hISE hdest)
    have hfill (wire : Bool) :
        processSnoopRequest.outcome mid (e₁.node.cache.myEntries d.addr) wire d = .ok
          { state := if wire then .S else .E
            answer := some (cacheMessage .DATA d.addr mid) } := by
      rw [hstate]
      exact outcome_DATA hmsg wire
    obtain rfl := Except.ok.inj ((hfill _).symm.trans hout)
    have hf : SnoopEffect protocol mid (some d) (wire' || e₁.shared) e₁.node _ :=
      .handled rfl hmine (hfill _) hanswer
    refine ⟨_, ⟨e₁, _, he₁, hf, rfl⟩, hreply, hshared hf, fun _ ↦ ?_⟩
    change Function.update _ _ _ _ = _
    rw [Function.update_self, (wire_of_procEffect he₁ d.addr).1, decide_eq_true hmsg,
      Bool.true_and]

theorem tickCache_of_canTick (hcurrent : u.bus.currentRequest = some d)
    (hcan : CanTick d (l1 i) (u.nodes i)) : ∃ e : CacheEffect protocol.State,
      u.tickCache i = .ok (e.apply i u) ∧ (e.apply i u).bus.currentRequest = some d ∧
      (e.apply i u).bus.sharedLine = (u.bus.sharedLine || hitsShared (u.nodes i)) ∧
      (d.destMid = l1 i → e.node.cache.myEntries d.addr =
        if u.bus.sharedLine || hitsShared (u.nodes i) then .S else .E) := by
  obtain ⟨e, he, hreply, hshared, hentry⟩ := hcan u.bus.sharedLine
  have htick : u.TickEffect i e := by
    unfold Simulator.TickEffect
    rwa [hcurrent]
  refine ⟨e, (tickCache_ok_iff regular).mpr ⟨e, htick, by simp [hreply], rfl⟩, hcurrent, ?_, hentry⟩
  rw [← hshared]
  rfl

/-- A loop over some of the caches can be run in any order; after it the wire tells whether one of
these has driven it. -/
theorem tickCaches_of_canTick {order : List (Fin n)} (hnodup : order.Nodup)
    (hcurrent : u.bus.currentRequest = some d)
    (hcan : ∀ j ∈ order, CanTick d (l1 j) (u.nodes j)) :
    ∃ u', order.foldlM Simulator.tickCache u = .ok u' ∧ u'.bus.currentRequest = some d ∧
      (∀ j ∉ order, u'.nodes j = u.nodes j) ∧
      (u'.bus.sharedLine = true ↔
        u.bus.sharedLine = true ∨ ∃ j ∈ order, hitsShared (u.nodes j) = true) := by
  induction order generalizing u with
  | nil => exact ⟨u, rfl, hcurrent, fun _ _ ↦ rfl, by simp⟩
  | cons i order ih =>
    obtain ⟨hi, hnodup'⟩ := List.nodup_cons.mp hnodup
    obtain ⟨e, htick, hcurrent₁, hwire₁, -⟩ :=
      tickCache_of_canTick hcurrent (hcan i List.mem_cons_self)
    have hnode {j : Fin n} (hj : j ∈ order) : (e.apply i u).nodes j = u.nodes j :=
      e.apply_of_ne (ne_of_mem_of_not_mem hj hi) u
    obtain ⟨u', hu', hcurrent', hothers, hwire⟩ := ih hnodup' hcurrent₁ fun j hj ↦ by
      rw [hnode hj]
      exact hcan j (List.mem_cons_of_mem i hj)
    refine ⟨u', by rw [List.foldlM_cons, htick]; exact hu', hcurrent', fun j hj ↦ ?_, ?_⟩
    · obtain ⟨hne, hj'⟩ := List.ne_and_not_mem_of_not_mem_cons hj
      rw [hothers j hj', e.apply_of_ne hne]
    · have hlater : (∃ j ∈ order, hitsShared ((e.apply i u).nodes j) = true) ↔
          ∃ j ∈ order, hitsShared (u.nodes j) = true :=
        exists_congr fun j ↦ and_congr_right fun hj ↦ by rw [hnode hj]
      rw [hwire, hlater, hwire₁, Bool.or_eq_true, or_assoc, List.exists_mem_cons_iff]

/-- The requester reads from the wire what was on it before the cycle and what the caches before it
and its own load have put there. -/
theorem entry_of_canTick {before after : List (Fin n)} (hnodup : (before ++ i :: after).Nodup)
    (hcurrent : u.bus.currentRequest = some d) (hdest : d.destMid = l1 i)
    (hcan : ∀ j, CanTick d (l1 j) (u.nodes j)) :
    ∃ u', (before ++ i :: after).foldlM Simulator.tickCache u = .ok u' ∧
      u'.entry i d.addr = if u.bus.sharedLine = true ∨
          (∃ j ∈ before, hitsShared (u.nodes j) = true) ∨ hitsShared (u.nodes i) = true
        then .S else .E := by
  obtain ⟨hbefore, hrest, hdisjoint⟩ := List.nodup_append.mp hnodup
  obtain ⟨hi, hafter⟩ := List.nodup_cons.mp hrest
  obtain ⟨u₁, hu₁, hcurrent₁, hothers₁, hwire₁⟩ :=
    tickCaches_of_canTick hbefore hcurrent fun j _ ↦ hcan j
  have hnode₁ {j : Fin n} (hj : j ∈ i :: after) : u₁.nodes j = u.nodes j :=
    hothers₁ j fun hmem ↦ hdisjoint j hmem j hj rfl
  have hi₁ : u₁.nodes i = u.nodes i := hnode₁ List.mem_cons_self
  obtain ⟨e, htick, hcurrent₂, -, hentry⟩ := tickCache_of_canTick hcurrent₁ (hi₁ ▸ hcan i)
  obtain ⟨u', hu', -, hothers, -⟩ :=
    tickCaches_of_canTick (u := e.apply i u₁) hafter hcurrent₂ fun j hj ↦ by
      rw [e.apply_of_ne (ne_of_mem_of_not_mem hj hi), hnode₁ (List.mem_cons_of_mem i hj)]
      exact hcan j
  refine ⟨u', ?_, ?_⟩
  · rw [List.foldlM_append, hu₁]
    change (i :: after).foldlM Simulator.tickCache u₁ = _
    rw [List.foldlM_cons, htick]
    exact hu'
  · rw [Simulator.entry, hothers i hi, CacheEffect.apply_node, hentry hdest, hi₁]
    refine if_congr ?_ rfl rfl
    rw [Bool.or_eq_true, hwire₁, or_assoc]

/-- The state in which the requester's entry should be after the data: `E` if no other cache had a
copy in the cycle of the `GETS`, which starts in `s`. -/
def granted (s : Simulator protocol n) (i : Fin n) (addr : PAddr) : State :=
  if ∃ j ≠ i, (s.entry j addr).holds = true then .S else .E

/-- The cycle of the data leads from `t` to `t'`, and leaves the requester's entry in the state in
which it should be, and so it does if the caches are ticked in any other order. -/
structure Granted (s t t' : Simulator protocol n) (i : Fin n) (addr : PAddr) : Prop where
  entry : t'.entry i addr = granted s i addr
  anyOrder : ∀ order : List (Fin n), order.Perm (List.finRange n) →
    ∃ t₁, order.foldlM Simulator.tickCache t.busTick = .ok t₁ ∧ t₁.entry i addr = granted s i addr

theorem grant_eq_iff {p r : Prop} [Decidable p] [Decidable r] :
    ((if p then .S else .E : State) = if r then .S else .E) ↔ (p ↔ r) := by
  by_cases hp : p <;> by_cases hr : r <;> simp [hp, hr]

/-- The requester's entry is as it should be if in every order of the caches the wire has told the
truth when its turn comes. -/
theorem granted_iff (hcurrent : t.busTick.bus.currentRequest = some d)
    (hmsg : d.msg = .DATA) (hdest : d.destMid = l1 i) (hISE : t.entry i d.addr = .ISE)
    (ht' : t.cycle = .ok t') :
    Granted s t t' i d.addr ↔
      ∀ before after, (before ++ i :: after).Perm (List.finRange n) →
        ((t.busTick.bus.sharedLine = true ∨ (∃ j ∈ before, hitsShared (t.nodes j) = true) ∨
          hitsShared (t.nodes i) = true) ↔ ∃ j ≠ i, (s.entry j d.addr).holds = true) := by
  obtain ⟨s₁, s₂, s₃, effect, x, hran⟩ := cycle_ran regular ht'
  have hcan (j : Fin n) : CanTick d (l1 j) (t.busTick.nodes j) := by
    obtain ⟨wire, -, htick⟩ := hran.caches.tick j j.isLt
    rw [hcurrent] at htick
    refine canTick_of_tick htick hmsg fun hj ↦ ?_
    obtain rfl : i = j := l1_injective (hdest.symm.trans hj)
    exact hISE
  have hentry {before after : List (Fin n)}
      (horder : (before ++ i :: after).Perm (List.finRange n)) :=
    entry_of_canTick (horder.nodup_iff.mpr (List.nodup_finRange n)) hcurrent hdest hcan
  constructor
  · intro h before after horder
    obtain ⟨u, hu, hui⟩ := hentry horder
    obtain ⟨t₁, ht₁, hgranted⟩ := h.anyOrder _ horder
    obtain rfl := Except.ok.inj (hu.symm.trans ht₁)
    exact grant_eq_iff.mp (hui.symm.trans hgranted)
  · intro h
    have hany (order : List (Fin n)) (horder : order.Perm (List.finRange n)) :
        ∃ t₁, order.foldlM Simulator.tickCache t.busTick = .ok t₁ ∧
          t₁.entry i d.addr = granted s i d.addr := by
      obtain ⟨before, after, rfl⟩ := List.append_of_mem (horder.mem_iff.mpr (List.mem_finRange i))
      obtain ⟨u, hu, hui⟩ := hentry horder
      exact ⟨u, hu, hui.trans (grant_eq_iff.mpr (h before after horder))⟩
    refine ⟨?_, hany⟩
    obtain ⟨t₁, ht₁, hgranted⟩ := hany _ (.refl _)
    obtain rfl := Except.ok.inj (ht₁.symm.trans hran.loop)
    rw [← hgranted, Simulator.entry, hran.entries, ← hran.caches.node i i.isLt]
    rfl

/-- What holds of the caches before the requester in every order holds if the requester comes first
and if it comes last. -/
theorem forall_order_iff {wire held : Prop} {hits : Fin n → Prop} :
    (∀ before after, (before ++ i :: after).Perm (List.finRange n) →
        (wire ∨ (∃ j ∈ before, hits j) ∨ hits i ↔ held)) ↔
      (held → wire ∨ hits i) ∧ (¬ held → ¬ wire ∧ ∀ j, ¬ hits j) := by
  constructor
  · intro h
    have hfirst : ([] ++ i :: (List.finRange n).erase i).Perm (List.finRange n) :=
      (List.perm_cons_erase (List.mem_finRange i)).symm
    have hlast : ((List.finRange n).erase i ++ [i]).Perm (List.finRange n) :=
      (List.perm_append_singleton i _).trans hfirst
    refine ⟨fun hheld ↦ ?_, fun hnot ↦ ?_⟩
    · simpa using (h _ _ hfirst).mpr hheld
    · have hdown := fun hup ↦ hnot ((h _ _ hlast).mp hup)
      refine ⟨fun hwire ↦ hdown (.inl hwire), fun j hj ↦ hdown (.inr ?_)⟩
      by_cases hji : j = i
      · exact .inr (hji ▸ hj)
      · exact .inl ⟨j, (List.mem_erase_of_ne hji).mpr (List.mem_finRange j), hj⟩
  · rintro ⟨hup, hdown⟩ before after -
    constructor
    · intro htold
      by_contra hnot
      obtain ⟨hwire, hhits⟩ := hdown hnot
      rcases htold with hw | ⟨j, -, hj⟩ | hi
      · exact hwire hw
      · exact hhits j hj
      · exact hhits i hi
    · intro hheld
      exact (hup hheld).imp_right .inr

theorem holds_of_drivesRead {node : Node State} {addr : PAddr}
    (h : drivesRead node addr = true) : (node.cache.myEntries addr).holds = true := by
  unfold drivesRead at h
  cases hstate : node.cache.myEntries addr <;> simp_all [State.drivesWire, State.holds]

end MOESI

/-- A cache in `ISE` that receives the data of its `GETS` goes to `E` if no other cache had a copy
in the cycle in which the `GETS` appeared, and to `S` if one had, whatever the order of the caches,
exactly if the following holds. If there was another copy, one has driven the wire when it snooped
the `GETS`, or a load has hit a copy in `S` of any block since, or the requester's own does now; if
there was none, no load has hit a copy in `S`. -/
theorem MOESI_granted_iff {n : ℕ} {settings : Settings n} {s t t' : Simulator MOESI.protocol n}
    {q d : Mreq} {cycles : List (Simulator MOESI.protocol n)} {i : Fin n}
    (h : Simulator.SilentSince settings s q cycles t) (hmsg : q.msg = .GETS)
    (hsource : q.srcMid = l1 i) (hcurrent : t.busTick.bus.currentRequest = some d)
    (hISE : t.entry i q.addr = .ISE) (ht' : t.cycle = .ok t') :
    Answers n q d ∧ (∀ j, (t.entry j q.addr).holds = (s.entry j q.addr).holds) ∧
      (MOESI.Granted s t t' i q.addr ↔
        ((∃ j ≠ i, (s.entry j q.addr).holds) →
          (∃ j ≠ i, MOESI.drivesRead (s.nodes j) q.addr) ∨
          (∃ u ∈ cycles, ∃ j, MOESI.hitsShared (u.nodes j)) ∨ MOESI.hitsShared (t.nodes i)) ∧
        ((¬ ∃ j ≠ i, (s.entry j q.addr).holds) →
          ∀ u ∈ cycles ++ [t], ∀ j, ¬ MOESI.hitsShared (u.nodes j))) := by
  have hrequest : q.isRequest = true := by simp [Mreq.isRequest, hmsg]
  obtain ⟨y, tr, hserved, rfl, htr⟩ := h.served MOESI.regular hrequest
  have hreplied := hserved.holds.replied htr hcurrent
  have hanswers : Answers n q d := hreplied.2.1
  obtain ⟨hwire, hholds⟩ := MOESI.wire_of_silentSince h hmsg
  have hkept : y.sim.busTick.bus.sharedLine = y.sim.bus.sharedLine := by
    rw [hreplied.busTick_of_replied]
  refine ⟨hanswers, hholds, ?_⟩
  rw [← hanswers.addr] at hISE hholds hwire ⊢
  rw [MOESI.granted_iff hcurrent hanswers.msg (hanswers.destMid.trans hsource) hISE ht',
    MOESI.forall_order_iff, hkept, hwire]
  -- the requester itself has no copy
  have hother {j : Fin n} (hj : MOESI.drivesRead (s.nodes j) d.addr = true) :
      j ≠ i ∧ (s.entry j d.addr).holds = true := by
    have hcopy : (s.entry j d.addr).holds = true := MOESI.holds_of_drivesRead hj
    refine ⟨?_, hcopy⟩
    rintro rfl
    rw [← hholds, hISE] at hcopy
    cases hcopy
  have hdriven : (∃ j, MOESI.drivesRead (s.nodes j) d.addr = true) ↔
      ∃ j ≠ i, MOESI.drivesRead (s.nodes j) d.addr = true :=
    exists_congr fun j ↦ ⟨fun hj ↦ ⟨(hother hj).1, hj⟩, And.right⟩
  refine and_congr (by rw [hdriven, or_assoc]) (imp_congr_right fun hnone ↦ ?_)
  constructor
  · rintro ⟨hdown, hhits⟩ u hu j hj
    rcases List.mem_append.mp hu with hu | hu
    · exact hdown (.inr ⟨u, hu, j, hj⟩)
    · obtain rfl := List.mem_singleton.mp hu
      exact hhits j hj
  · intro hhits
    refine ⟨?_, hhits _ (by simp)⟩
    rintro (⟨j, hj⟩ | ⟨u, hu, j, hj⟩)
    · exact hnone ⟨j, hother hj⟩
    · exact hhits u (List.mem_append_left _ hu) j hj

theorem MOESI_granted_iff_oneRead : ∃ (s t t' : Simulator MOESI.protocol 2) (q d : Mreq)
    (cycles : List (Simulator MOESI.protocol 2)),
    Simulator.SilentSince (MOESI.twoBlocks 1) s q cycles t ∧ Answers 2 q d ∧
      MOESI.Granted s t t' 0 q.addr ∧ t'.entry 0 q.addr = .E := by
  obtain ⟨s, hs, q, hq, hmsg, hsource, hnone, hhits, t, ht, hISE, hhits', d, hd, t', ht', hE⟩ :
      ∃ s : Simulator MOESI.protocol 2, Simulator.LoopHead (MOESI.twoBlocks 1) s ∧
        ∃ q ∈ s.busTick.bus.currentRequest, q.msg = .GETS ∧ q.srcMid = l1 (0 : Fin 2) ∧
        (¬ ∃ j ≠ 0, (s.entry j q.addr).holds) ∧ (∀ j, ¬ MOESI.hitsShared (s.nodes j)) ∧
        ∃ t ∈ s.afterSilence (fun u : Simulator MOESI.protocol 2 ↦
          ∀ j, ¬ MOESI.hitsShared (u.nodes j)) 100,
        t.entry 0 q.addr = .ISE ∧ (∀ j, ¬ MOESI.hitsShared (t.nodes j)) ∧
        ∃ d ∈ t.busTick.bus.currentRequest, ∃ t' ∈ t.cycle.toOption, t'.entry 0 q.addr = .E :=
    Loop.exists_head 106 (by decide +kernel)
  obtain ⟨cycles, h, hsilent⟩ := Simulator.exists_silentSince hs hq ht
  obtain ⟨hanswers, -, hiff⟩ :=
    MOESI_granted_iff h hmsg hsource hd hISE (toOption_eq_some.mp ht')
  refine ⟨s, t, t', q, d, cycles, h, hanswers, hiff.mpr ⟨fun hsome ↦ absurd hsome hnone, ?_⟩, hE⟩
  intro _ u hu
  rcases List.mem_append.mp hu with hu | hu
  · rcases hsilent u hu with rfl | hu
    · exact hhits
    · exact hu
  · exact List.mem_singleton.mp hu ▸ hhits'

/-- While node 0 waits for block 1, node 1 reads block 0 again: node 0 goes to `S`, although no
other cache has a copy of block 1. -/
theorem not_MOESI_granted_threeReads : ∃ (s t t' : Simulator MOESI.protocol 2) (q d : Mreq)
    (cycles : List (Simulator MOESI.protocol 2)),
    Simulator.SilentSince (MOESI.twoBlocks 3) s q cycles t ∧ q.msg = .GETS ∧
      q.srcMid = l1 (0 : Fin 2) ∧ t.busTick.bus.currentRequest = some d ∧
      t.entry 0 q.addr = .ISE ∧ t.cycle = .ok t' ∧
      (¬ ∃ j ≠ 0, (s.entry j q.addr).holds) ∧ t'.entry 0 q.addr = .S ∧
      ¬ MOESI.Granted s t t' 0 q.addr := by
  obtain ⟨s, hs, q, hq, hmsg, hsource, hnone, t, ht, hISE, d, hd, t', ht', hS⟩ :
      ∃ s : Simulator MOESI.protocol 2, Simulator.LoopHead (MOESI.twoBlocks 3) s ∧
        ∃ q ∈ s.busTick.bus.currentRequest, q.msg = .GETS ∧ q.srcMid = l1 (0 : Fin 2) ∧
        (¬ ∃ j ≠ 0, (s.entry j q.addr).holds) ∧
        ∃ t ∈ s.afterSilence (fun _ ↦ True) 100, t.entry 0 q.addr = .ISE ∧
        ∃ d ∈ t.busTick.bus.currentRequest, ∃ t' ∈ t.cycle.toOption, t'.entry 0 q.addr = .S :=
    Loop.exists_head 106 (by decide +kernel)
  obtain ⟨cycles, h, -⟩ := Simulator.exists_silentSince hs hq ht
  refine ⟨s, t, t', q, d, cycles, h, hmsg, hsource, hd, hISE, toOption_eq_some.mp ht', hnone, hS,
    fun hgranted ↦ ?_⟩
  have hE := hgranted.entry
  rw [hS, MOESI.granted, if_neg hnone] at hE
  cases hE

end ArchSim.Coherence
