import ArchSim.Coherence.Paired

/-!
# The accesses that a cycle answers

An access is answered in the loop over the caches: by the handler of the processor's request, or
by the handler of a message on the bus.
-/

namespace ArchSim.Coherence

open Library AtomicMemory Snooping

variable {P : Protocol} {n : ℕ} {drives : Bool} {v v' : Versioned P n} {i : Fin n}

/-- The tick of the cache `mid`, which finds `node` and has last been asked for `want`, answers the
access `op` to `addr` and leaves the entry in the given state. -/
inductive TickAnswers (P : Protocol) (mid : ModuleID) (node : Node P.State) (want op : Op)
    (addr : PAddr) : P.State → Prop where
  | asked {request o state} : node.cache.procRequest = some request → request.op = op →
      request.addr = addr →
      P.processCacheRequest.outcome mid (node.cache.myEntries addr) false request = .ok o →
      o.answer.isSome → TickAnswers P mid node want op addr state
  | snooped {request σ wire o} : ProcMove P mid node addr σ →
      P.processSnoopRequest.outcome mid σ wire request = .ok o → request.addr = addr →
      o.answer.isSome → op = node.cache.procRequest.elim want Mreq.op →
      TickAnswers P mid node want op addr o.state

namespace Versioned

theorem receive_frame (v : Versioned P n) (i : Fin n) (request : Mreq) :
    (v.receive i request).sim = v.sim ∧ (v.receive i request).want = v.want ∧
      (v.receive i request).answers = v.answers := by
  unfold receive
  split <;> exact ⟨rfl, rfl, rfl⟩

theorem observe_want (v : Versioned P n) (sim : Simulator P n) (i : Fin n) (addr : PAddr)
    (op : Op) :
    (v.observe sim i addr op).want = v.want := by
  unfold observe answer
  dsimp only
  split <;> split <;> rfl

/-- A handler that has run answers if it has filled the processor's buffer. -/
theorem mem_observe {sim : Simulator P n} {addr : PAddr} {op : Op} {a : Answer (Fin n) PAddr}
    (h : a ∈ (v.observe sim i addr op).answers) : a ∈ v.answers ∨
      (a.node = i ∧ a.op = op ∧ a.addr = addr) ∧
        (v.sim.nodes i).pr.inboundRequestBuf = none ∧
        (sim.nodes i).pr.inboundRequestBuf.isSome := by
  unfold observe at h
  cases hnew : (v.sim.nodes i).pr.inboundRequestBuf.isNone &&
      (sim.nodes i).pr.inboundRequestBuf.isSome with
  | false =>
    left
    simp only [hnew, Bool.false_eq_true, if_false] at h
    split at h <;> exact h
  | true =>
    rw [Bool.and_eq_true, Option.isNone_iff_eq_none] at hnew
    simp only [hnew.1, hnew.2, Option.isNone_none, Bool.and_self, if_true] at h
    have hmem : a ∈ ⟨i, op, addr, op.next (v.copy i addr)⟩ :: v.answers := by
      split at h <;> exact h
    rcases List.mem_cons.mp hmem with rfl | hold
    · exact .inr ⟨⟨rfl, rfl, rfl⟩, hnew⟩
    · exact .inl hold

/-- What the first half of a tick does besides changing the simulator. -/
theorem of_tickProcRequest (hP : Regular P drives) (h : v.tickProcRequest i = .ok v') :
    (∃ e, ProcEffect P (l1 i) (v.sim.nodes i) e ∧ v'.sim = e.apply i v.sim) ∧
      v'.want = Function.update v.want i
        ((v.sim.nodes i).cache.procRequest.elim (v.want i) Mreq.op) ∧
      ∀ a ∈ v'.answers, a ∈ v.answers ∨ a.node = i ∧ ∀ state,
        TickAnswers P (l1 i) (v.sim.nodes i) (v.want i) a.op a.addr state := by
  unfold tickProcRequest at h
  obtain ⟨sim, hsim, h⟩ := bind_eq_ok.mp h
  obtain ⟨e, he, rfl⟩ := (tickProcRequest_ok_iff hP).mp hsim
  cases hrequest : (v.sim.nodes i).cache.procRequest with
  | none =>
    rw [hrequest] at h
    obtain rfl := Except.ok.inj h
    exact ⟨⟨e, he, rfl⟩, (Function.update_eq_self i v.want).symm, fun a ha ↦ .inl ha⟩
  | some request =>
    rw [hrequest] at h
    obtain rfl := Except.ok.inj h
    refine ⟨⟨e, he, rfl⟩, rfl, fun a ha ↦ (mem_observe ha).imp_right ?_⟩
    rintro ⟨⟨hnode, hop, haddr⟩, hbuf, hfull⟩
    refine ⟨hnode, fun state ↦ ?_⟩
    rw [CacheEffect.apply_node] at hfull
    cases he with
    | idle hnone => cases hrequest.symm.trans hnone
    | @handled request' o hrequest' hout _ =>
      obtain rfl := Option.some.inj (hrequest.symm.trans hrequest')
      have hanswer : o.answer.isSome := by
        change (o.answer.or (v.sim.nodes i).pr.inboundRequestBuf).isSome at hfull
        rwa [hbuf, Option.or_none] at hfull
      exact .asked hrequest hop.symm haddr.symm (haddr ▸ hout) hanswer

/-- What the second half of a tick does besides changing the simulator. -/
theorem of_tickSnoop (hP : Regular P drives) (h : v.tickSnoop i = .ok v') :
    (∃ e : CacheEffect P.State, v'.sim = e.apply i v.sim) ∧ v'.want = v.want ∧
      ∀ a ∈ v'.answers, a ∈ v.answers ∨ (a.node = i ∧ a.op = v.want i) ∧
        ∃ request wire o, P.processSnoopRequest.outcome (l1 i) (v.sim.entry i a.addr) wire request =
            .ok o ∧ request.addr = a.addr ∧ o.answer.isSome ∧
          v'.sim.entry i a.addr = o.state := by
  unfold tickSnoop at h
  obtain ⟨sim, hsim, h⟩ := bind_eq_ok.mp h
  obtain ⟨e, he, -, rfl⟩ := (tickSnoop_ok_iff hP).mp hsim
  cases hcurrent : v.sim.bus.busSnoop with
  | none =>
    rw [hcurrent] at h
    obtain rfl := Except.ok.inj h
    exact ⟨⟨e, rfl⟩, rfl, fun a ha ↦ .inl ha⟩
  | some request =>
    rw [hcurrent] at h
    obtain rfl := Except.ok.inj h
    obtain ⟨hsame, hwant, hanswers⟩ := receive_frame v i request
    refine ⟨⟨e, rfl⟩, (observe_want _ _ _ _ _).trans hwant, fun a ha ↦ ?_⟩
    rcases mem_observe ha with hold | ⟨⟨hnode, hop, haddr⟩, hbuf, hfull⟩
    · exact .inl (hanswers ▸ hold)
    rw [hsame] at hbuf
    rw [CacheEffect.apply_node] at hfull
    refine .inr ⟨⟨hnode, hop⟩, ?_⟩
    cases he with
    | idle _ => simp [hbuf] at hfull
    | @handled request' o hcurrent' _ hout _ =>
      obtain rfl := Option.some.inj (hcurrent.symm.trans hcurrent')
      have hanswer : o.answer.isSome := by
        change (o.answer.or (v.sim.nodes i).pr.inboundRequestBuf).isSome at hfull
        rwa [hbuf, Option.or_none] at hfull
      refine ⟨request, _, o, haddr ▸ hout, haddr.symm, hanswer, ?_⟩
      change ((CacheEffect.apply _ i v.sim).nodes i).cache.myEntries a.addr = o.state
      rw [CacheEffect.apply_node, haddr]
      exact Function.update_self _ _ _

/-- What cache `i` answers in its tick. -/
theorem of_tickCache (hP : Regular P drives) (h : v.tickCache i = .ok v') :
    (∀ j ≠ i, v'.sim.nodes j = v.sim.nodes j ∧ v'.want j = v.want j) ∧
      ∀ a ∈ v'.answers, a ∈ v.answers ∨ a.node = i ∧
        TickAnswers P (l1 i) (v.sim.nodes i) (v.want i) a.op a.addr (v'.sim.entry i a.addr) := by
  unfold tickCache at h
  obtain ⟨v₁, hproc, h⟩ := bind_eq_ok.mp h
  obtain ⟨⟨e₁, he₁, hsim₁⟩, hwant₁, hanswers₁⟩ := of_tickProcRequest hP hproc
  obtain ⟨⟨e₂, hsim₂⟩, hwant₂, hanswers₂⟩ := of_tickSnoop hP h
  refine ⟨fun j hne ↦ ⟨?_, ?_⟩, fun a ha ↦ ?_⟩
  · rw [hsim₂, e₂.apply_of_ne hne, hsim₁, e₁.apply_of_ne hne]
  · rw [hwant₂, hwant₁, Function.update_of_ne hne]
  · rcases hanswers₂ a ha with hold |
      ⟨⟨hnode, hop⟩, request, wire, o, hout, haddr, hanswer, hstate⟩
    · exact (hanswers₁ a hold).imp_right fun ⟨hnode, hasked⟩ ↦ ⟨hnode, hasked _⟩
    · refine .inr ⟨hnode, ?_⟩
      have hmove : ProcMove P (l1 i) (v.sim.nodes i) a.addr (v₁.sim.entry i a.addr) := by
        rw [hsim₁, Simulator.entry, CacheEffect.apply_node]
        exact he₁.move a.addr
      rw [hstate]
      refine .snooped hmove hout haddr hanswer ?_
      rw [hop, hwant₁, Function.update_self]

end Versioned

/-- The loop over the caches has passed the first `k` of them; what it has answered. -/
structure CachesAnswered (k : ℕ) (v v' : Versioned P n) : Prop where
  others : ∀ j : Fin n, k ≤ (j : ℕ) → v'.sim.nodes j = v.sim.nodes j ∧ v'.want j = v.want j
  answers : ∀ a ∈ v'.answers, a ∈ v.answers ∨ (a.node : ℕ) < k ∧
    TickAnswers P (l1 a.node) (v.sim.nodes a.node) (v.want a.node) a.op a.addr
      (v'.sim.entry a.node a.addr)

theorem CachesAnswered.next (hP : Regular P drives) {v₁ v₂ : Versioned P n}
    (h : CachesAnswered i v v₁) (htick : v₁.tickCache i = .ok v₂) :
    CachesAnswered (i + 1) v v₂ := by
  obtain ⟨hothers₂, hanswers₂⟩ := Versioned.of_tickCache hP htick
  refine ⟨fun j hj ↦ ?_, fun a ha ↦ ?_⟩
  · have hne : j ≠ i := by
      rintro rfl
      omega
    obtain ⟨hnodes, hwant⟩ := hothers₂ j hne
    obtain ⟨hnodes₁, hwant₁⟩ := h.others j (by omega)
    exact ⟨hnodes.trans hnodes₁, hwant.trans hwant₁⟩
  · rcases hanswers₂ a ha with hold | ⟨rfl, hticked⟩
    · refine (h.answers a hold).imp_right fun ⟨hlt, hticked⟩ ↦ ⟨Nat.lt_succ_of_lt hlt, ?_⟩
      have hne : a.node ≠ i := by
        rintro rfl
        omega
      rwa [Simulator.entry, (hothers₂ a.node hne).1]
    · obtain ⟨hnodes, hwant⟩ := h.others a.node le_rfl
      rw [hnodes, hwant] at hticked
      exact .inr ⟨Nat.lt_succ_self _, hticked⟩

theorem tickCaches_answered (hP : Regular P drives)
    (h : (List.finRange n).foldlM Versioned.tickCache v = .ok v') : CachesAnswered n v v' := by
  refine foldlM_finRange_invariant (I := fun k ↦ CachesAnswered k v) h ?_ ?_
  · exact fun i v₁ v₂ htick h₁ ↦ h₁.next hP htick
  · exact ⟨fun _ _ ↦ ⟨rfl, rfl⟩, fun a ha ↦ .inl ha⟩

/-! ## The whole cycle -/

namespace Versioned

theorem tickPr_answers (h : v.tickPr i = .ok v') : v'.answers = v.answers := by
  unfold tickPr at h
  obtain ⟨sim, -, rfl⟩ := bind_pure_eq_ok.mp h
  rfl

theorem mcSnoop_answers (h : v.mcSnoop = .ok v') : v'.answers = v.answers := by
  unfold mcSnoop at h
  obtain ⟨sim, -, h⟩ := bind_eq_ok.mp h
  split at h
  · exact (Except.ok.inj h) ▸ rfl
  · split at h <;> exact (Except.ok.inj h) ▸ rfl

theorem mcSend_answers (h : v.mcSend = .ok v') : v'.answers = v.answers := by
  unfold mcSend at h
  obtain ⟨sim, -, h⟩ := bind_eq_ok.mp h
  split at h <;> exact (Except.ok.inj h) ▸ rfl

/-- After the loop over the caches nothing is answered. -/
theorem answers_of_cycle (h : v.cycle = .ok v') : ∃ v₁,
    (List.finRange n).foldlM tickCache v.busTick = .ok v₁ ∧ v'.answers = v₁.answers := by
  unfold cycle at h
  obtain ⟨v₁, hcaches, h⟩ := bind_eq_ok.mp h
  obtain ⟨v₂, hprs, h⟩ := bind_eq_ok.mp h
  obtain ⟨v₃, hmc, rfl⟩ := bind_pure_eq_ok.mp h
  obtain ⟨v₄, hsnoop, hsend⟩ := bind_eq_ok.mp hmc
  refine ⟨v₁, hcaches, ?_⟩
  calc v₃.answers
      = v₄.answers := mcSend_answers hsend
    _ = v₂.answers := mcSnoop_answers hsnoop
    _ = v₁.answers := foldlM_invariant (I := fun v ↦ v.answers = v₁.answers) hprs
        (fun _ _ _ _ htick hv ↦ (tickPr_answers htick).trans hv) rfl

end Versioned

/-- What a cycle answers, by the nodes at its start and the entries at its end. -/
theorem answered_of_cycle (hP : Regular P drives) (h : v.cycle = .ok v')
    {a : Answer (Fin n) PAddr} (ha : a ∈ v'.answers) :
    a ∈ v.answers ∨ TickAnswers P (l1 a.node) (v.sim.nodes a.node) (v.want a.node) a.op a.addr
      (v'.sim.entry a.node a.addr) := by
  obtain ⟨v₁, hcaches, hanswers⟩ := Versioned.answers_of_cycle h
  have hsim : v.sim.cycle = .ok v'.sim := by
    rw [← Versioned.cycle_erases v, h]
    rfl
  obtain ⟨s₁, s₂, s₃, effect, x, hran⟩ := cycle_ran hP hsim
  have herased : Erases Versioned.sim ((List.finRange n).foldlM Versioned.tickCache v.busTick)
      ((List.finRange n).foldlM Simulator.tickCache v.sim.busTick) :=
    Erases.foldlM Versioned.tickCache_erases (List.finRange n) v.busTick
  rw [hcaches, hran.loop] at herased
  have hsame : v₁.sim = s₁ := Except.ok.inj herased
  have hentry : v'.sim.entry a.node a.addr = v₁.sim.entry a.node a.addr := by
    rw [hsame]
    unfold Simulator.entry
    rw [hran.entries, hran.caches.node a.node a.node.isLt]
  rw [hentry]
  rw [hanswers] at ha
  exact ((tickCaches_answered hP hcaches).answers a ha).imp_right And.right

end ArchSim.Coherence
