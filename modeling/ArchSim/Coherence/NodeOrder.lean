import ArchSim.Coherence.CacheEffect
import ArchSim.Coherence.Runs

/-!
# The order of the caches in a cycle

The caches share the bus, but the ticks of two of them may be swapped: at most one sends data, none
drives the wire while another may read it, and the queue is only appended to. So the loop over the
caches may go through the nodes in any order. `MOESI` is left out: there a load that hits drives
the wire while the data for another cache is on the bus.
-/

namespace ArchSim.Coherence

open Library

variable {P : Protocol} {n : ℕ} {s s' t : Simulator P n} {i j : Fin n}

/-- The two differ at most in the order of the requests that wait for the bus. -/
structure SameButQueue (s t : Simulator P n) : Prop where
  rest : { s with bus := { s.bus with pendingRequests := t.bus.pendingRequests } } = t
  queue : s.bus.pendingRequests.Perm t.bus.pendingRequests

namespace SameButQueue

theorem refl (s : Simulator P n) : SameButQueue s s := ⟨rfl, .refl _⟩

theorem trans {u : Simulator P n} (h : SameButQueue s t) (h' : SameButQueue t u) :
    SameButQueue s u := by
  refine ⟨?_, h.queue.trans h'.queue⟩
  rw [← h'.rest, ← h.rest]

theorem apply (h : SameButQueue s t) (e : CacheEffect P.State) (i : Fin n) :
    SameButQueue (e.apply i s) (e.apply i t) := by
  refine ⟨?_, h.queue.append_right e.requests⟩
  rw [← h.rest]
  rfl

end SameButQueue

theorem tickCache_congr (hP : Regular P false) (hst : SameButQueue s t)
    (hs' : s.tickCache i = .ok s') : ∃ t', t.tickCache i = .ok t' ∧ SameButQueue s' t' := by
  obtain ⟨e, he, hreply, rfl⟩ := (tickCache_ok_iff hP).mp hs'
  have hrest := hst.rest
  refine ⟨e.apply i t, (tickCache_ok_iff hP).mpr ⟨e, ?_, ?_, rfl⟩, hst.apply e i⟩
  · rw [← hrest]
    exact he
  · rw [← hrest]
    exact hreply

/-- The traffic of two caches, of which at most one sends data, adds up in either order. -/
theorem apply_comm (hne : i ≠ j) {e f : CacheEffect P.State}
    (hreply : f.reply.isSome → e.reply = none) (s : Simulator P n) :
    SameButQueue (f.apply j (e.apply i s)) (e.apply i (f.apply j s)) := by
  have hnodes : Function.update (Function.update s.nodes i e.node) j f.node =
      Function.update (Function.update s.nodes j f.node) i e.node :=
    Function.update_comm hne _ _ _
  have hslot : f.reply.or (e.reply.or s.bus.dataReply) =
      e.reply.or (f.reply.or s.bus.dataReply) := by
    cases hf : f.reply with
    | none => simp
    | some d => simp [hreply (by rw [hf]; rfl)]
  have hwire : (s.bus.sharedLine || e.shared || f.shared) =
      (s.bus.sharedLine || f.shared || e.shared) := by
    rw [Bool.or_assoc, Bool.or_assoc, Bool.or_comm e.shared]
  constructor
  · simp only [CacheEffect.apply, Simulator.setNode, Traffic.onBus, Traffic.onStats, hnodes, hslot,
      hwire, Nat.add_right_comm]
  · simp only [CacheEffect.apply, Traffic.onBus, List.append_assoc]
    exact (List.perm_append_comm).append_left _

/-- Two caches may be ticked in either order. -/
theorem tickCache_swap (hP : Regular P false) (hne : i ≠ j) {s₁ s₂ : Simulator P n}
    (hs₁ : s.tickCache i = .ok s₁) (hs₂ : s₁.tickCache j = .ok s₂) :
    ∃ t₁ t₂, s.tickCache j = .ok t₁ ∧ t₁.tickCache i = .ok t₂ ∧ SameButQueue s₂ t₂ := by
  obtain ⟨e, he, hreplyE, rfl⟩ := (tickCache_ok_iff hP).mp hs₁
  obtain ⟨f, hf, hreplyF, rfl⟩ := (tickCache_ok_iff hP).mp hs₂
  have hslots (hsend : f.reply.isSome) : e.reply = none ∧ s.bus.dataReply = none :=
    Option.or_eq_none_iff.mp (hreplyF hsend)
  -- neither tick changes what the other sees
  have hsees {i j : Fin n} (hne : j ≠ i) {e f : CacheEffect P.State} (he : s.TickEffect i e) :
      (e.apply i s).TickEffect j f ↔ s.TickEffect j f := by
    have hwire {request : Mreq} (hcurrent : request ∈ s.bus.currentRequest)
        (hdata : request.msg = .DATA) : (e.apply i s).bus.sharedLine = s.bus.sharedLine := by
      have hshared : e.shared = false := he.shared_eq hP fun request' hcurrent' ↦ by
        rwa [Option.mem_unique hcurrent' hcurrent]
      simp [CacheEffect.apply, Traffic.onBus, hshared]
    unfold Simulator.TickEffect
    rw [e.apply_of_ne hne]
    exact ⟨fun h ↦ h.congr_wire fun _ hcurrent hdata ↦ (hwire hcurrent hdata).symm,
      fun h ↦ h.congr_wire fun _ hcurrent hdata ↦ hwire hcurrent hdata⟩
  have hf' : s.TickEffect j f := (hsees hne.symm he).mp hf
  have he' : (f.apply j s).TickEffect i e := (hsees hne hf').mpr he
  refine ⟨f.apply j s, e.apply i (f.apply j s), ?_, ?_, apply_comm hne (fun h ↦ (hslots h).1) s⟩
  · exact (tickCache_ok_iff hP).mpr ⟨f, hf', fun hsend ↦ (hslots hsend).2, rfl⟩
  · refine (tickCache_ok_iff hP).mpr ⟨e, he', fun hsend ↦ ?_, rfl⟩
    have hf₀ : f.reply = none := by
      apply Option.not_isSome_iff_eq_none.mp
      intro hsend'
      simp [(hslots hsend').1] at hsend
    simp [CacheEffect.apply, Traffic.onBus, hf₀, hreplyE hsend]

/-- The ticks of the caches may be swapped. -/
theorem tickCache_swappable (hP : Regular P false) :
    Swappable (SameButQueue (P := P) (n := n)) Simulator.tickCache where
  refl := .refl
  trans := .trans
  congr := tickCache_congr hP
  swap hne := tickCache_swap hP hne

/-- The caches only append to the queue. -/
theorem tickCaches_appends (hP : Regular P drives) {order : List (Fin n)}
    (hs' : order.foldlM Simulator.tickCache s = .ok s') :
    s.bus.pendingRequests <+: s'.bus.pendingRequests := by
  refine foldlM_invariant (I := fun s' : Simulator P n ↦
    s.bus.pendingRequests <+: s'.bus.pendingRequests) hs' ?_ (List.prefix_refl _)
  intro i _ s₁ _ htick hs₁
  obtain ⟨e, -, -, rfl⟩ := (tickCache_ok_iff hP).mp htick
  exact hs₁.trans (List.prefix_append _ _)

/-- The loop over the caches does not abort in a state that a run reaches. -/
theorem tickCaches_ok {t : ProtocolT} (ht : t ≠ .MOESI_PRO) {settings : Settings n}
    {s : Simulator t.protocol n} (hs : Simulator.LoopHead settings s) :
    ∃ s₁, (List.finRange n).foldlM Simulator.tickCache s.busTick = .ok s₁ := by
  obtain ⟨v, hv, rfl⟩ := Versioned.exists_of_loopHeadWhile (fun _ ↦ 0) hs
  have hclear := t.clear_of_ne (n := n) ht
  obtain ⟨m, p, hrefines, hend⟩ := simulated_of_loopHead (fun s _ ↦ hclear s) hv
  obtain ⟨m₁, hrefines₁, hphase₁⟩ := busTick_refines hrefines hend
  have hloop : Yields False ((List.finRange n).foldlM Versioned.tickCache v.busTick) _ :=
    tickCaches_refines hrefines₁ hphase₁ fun hstalls ↦ by
      rw [t.stalls_eq_false ht] at hstalls
      cases hstalls
  obtain ⟨v', hv', -⟩ := hloop.exists_of_not not_false
  have herases : Except.map Versioned.sim _ = _ :=
    Erases.foldlM Versioned.tickCache_erases (List.finRange n) v.busTick
  rw [hv'] at herases
  exact ⟨v'.sim, herases.symm⟩

/-- With any protocol but MOESI, in every state that a run reaches, the loop over the caches may go
through the nodes in any order: the nodes, the wire, the reply slot and the counters are the same
afterwards, and so are the requests that have been queued, up to their order. -/
theorem tickCaches_any_order {t : ProtocolT} (ht : t ≠ .MOESI_PRO) {n : ℕ} {settings : Settings n}
    {s : Simulator t.protocol n} (hs : Simulator.LoopHead settings s) {order : List (Fin n)}
    (horder : order.Perm (List.finRange n)) :
    ∃ s₁ s₂, (List.finRange n).foldlM Simulator.tickCache s.busTick = .ok s₁ ∧
      order.foldlM Simulator.tickCache s.busTick = .ok s₂ ∧ s₂.nodes = s₁.nodes ∧
      s₂.bus.sharedLine = s₁.bus.sharedLine ∧ s₂.bus.dataReply = s₁.bus.dataReply ∧
      s₂.stats = s₁.stats ∧ ∃ queued queued', queued'.Perm queued ∧
        s₁.bus.pendingRequests = s.busTick.bus.pendingRequests ++ queued ∧
        s₂.bus.pendingRequests = s.busTick.bus.pendingRequests ++ queued' := by
  have hP : Regular t.protocol false := t.drives_eq_false ht ▸ t.regular
  obtain ⟨s₁, hs₁⟩ := tickCaches_ok ht hs
  obtain ⟨s₂, hs₂, hsame⟩ := (tickCache_swappable hP).foldlM_perm horder.symm hs₁
  obtain ⟨queued, hqueued⟩ := tickCaches_appends hP hs₁
  obtain ⟨queued', hqueued'⟩ := tickCaches_appends hP hs₂
  have hperm := hsame.queue
  rw [← hqueued, ← hqueued', List.perm_append_left_iff] at hperm
  have hrest := hsame.rest
  refine ⟨s₁, s₂, hs₁, hs₂, ?_, ?_, ?_, ?_, queued, queued', hperm.symm, hqueued.symm,
    hqueued'.symm⟩
  · rw [← hrest]
  · rw [← hrest]
  · rw [← hrest]
  · rw [← hrest]

/-- Both processors have a store to make, and node 1 goes first. -/
theorem tickCaches_any_order_storeRace : ∃ s s₁ s₂ : Simulator MSI.protocol 2,
    Simulator.LoopHead storeRace s ∧ (∀ i, (s.nodes i).cache.procRequest.isSome) ∧
      (List.finRange 2).foldlM Simulator.tickCache s.busTick = .ok s₁ ∧
      [1, 0].foldlM Simulator.tickCache s.busTick = .ok s₂ ∧ s₂.nodes = s₁.nodes ∧
      s₂.stats = s₁.stats ∧ s₂.bus.pendingRequests.Perm s₁.bus.pendingRequests := by
  obtain ⟨s, hs, hissued⟩ : ∃ s : Simulator MSI.protocol 2,
      Simulator.LoopHead storeRace s ∧ ∀ i, (s.nodes i).cache.procRequest.isSome :=
    Loop.exists_head 1 (by decide +kernel)
  have horder : List.Perm [1, 0] (List.finRange 2) := by decide
  obtain ⟨s₁, s₂, hs₁, hs₂, hnodes, -, -, hstats, queued, queued', hperm, hqueued, hqueued'⟩ :=
    tickCaches_any_order (t := .MSI_PRO) (by decide) hs horder
  refine ⟨s, s₁, s₂, hs, hissued, hs₁, hs₂, hnodes, hstats, ?_⟩
  rw [hqueued, hqueued']
  exact hperm.append_left _

end ArchSim.Coherence
