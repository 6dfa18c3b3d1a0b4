import ArchSim.Coherence.CacheEffect
import ArchSim.Coherence.Cycle

/-!
# The parts of a cycle

What the loops over the caches and over the processors, the memory controller, and the last loop
over the processors do to a simulator in any state, if they do not abort. The nodes, the bus and
the counters are described apart from each other.
-/

namespace ArchSim.Coherence

open Library Snooping

variable {P : Protocol} {n : ℕ} {drives : Bool} {s s' : Simulator P n} {i : Fin n}

theorem cycle_ok_iff : s.cycle = .ok s' ↔ ∃ s₁ s₂ s₃,
    (List.finRange n).foldlM Simulator.tickCache s.busTick = .ok s₁ ∧
      (List.finRange n).foldlM Simulator.tickPr s₁ = .ok s₂ ∧ s₂.tickMc = .ok s₃ ∧
      s' = s₃.tockAll.advanceClock := by
  unfold Simulator.cycle
  simp only [bind_eq_ok, exists_and_left, pure, Except.pure, Except.ok.injEq, eq_comm (a := s')]

/-! ## The loop over the caches -/

/-- The loop over the caches has passed the first `k` of them; `effect i` is what the tick of cache
`i` has done, and `x` is the traffic of all together. -/
structure CachesPassed (drives : Bool) (k : ℕ) (s s' : Simulator P n)
    (effect : Fin n → CacheEffect P.State) (x : Traffic) : Prop where
  node : ∀ i : Fin n, i < k → s'.nodes i = (effect i).node
  tick : ∀ i : Fin n, i < k → ∃ wire, (drives = false → wire = s.bus.sharedLine) ∧
    TickEffect P (l1 i) s.bus.currentRequest wire (s.nodes i) (effect i)
  others : ∀ i : Fin n, k ≤ i → s'.nodes i = s.nodes i
  bus : s'.bus = x.onBus s.bus
  stats : s'.stats = x.onStats s.stats
  mc : s'.mc = s.mc ∧ s'.globalClock = s.globalClock
  requests : ∀ r ∈ x.requests, ∃ q : Request (Fin n) PAddr, r = requestMessage q
  reply : ∀ d, x.reply = some d ↔ ∃ i : Fin n, i < k ∧ (effect i).reply = some d
  free : x.reply.isSome → s.bus.dataReply = none
  shared : x.shared = true ↔ ∃ i : Fin n, i < k ∧ (effect i).shared = true

/-- The indices that a loop has passed after `i`. -/
theorem lt_succ_cases {i j : Fin n} (hj : (j : ℕ) < i + 1) : j = i ∨ j ≠ i ∧ (j : ℕ) < i := by
  by_cases heq : j = i
  · exact .inl heq
  · exact .inr ⟨heq, lt_of_le_of_ne (Nat.lt_succ_iff.mp hj) fun hv ↦ heq (Fin.ext hv)⟩

theorem exists_lt_succ_update {α : Type} {f : Fin n → α} {y : α} {Q : α → Prop} :
    (∃ j : Fin n, (j : ℕ) < i + 1 ∧ Q (Function.update f i y j)) ↔
      (∃ j : Fin n, (j : ℕ) < i ∧ Q (f j)) ∨ Q y := by
  constructor
  · rintro ⟨j, hj, hQ⟩
    rcases lt_succ_cases hj with rfl | ⟨hne, hlt⟩
    · exact .inr (by simpa using hQ)
    · exact .inl ⟨j, hlt, by simpa [hne] using hQ⟩
  · rintro (⟨j, hj, hQ⟩ | hQ)
    · have hne : j ≠ i := fun heq ↦ absurd (congrArg Fin.val heq) hj.ne
      exact ⟨j, Nat.lt_succ_of_lt hj, by simpa [hne] using hQ⟩
    · exact ⟨i, Nat.lt_succ_self _, by simpa using hQ⟩

namespace CachesPassed

variable {effect : Fin n → CacheEffect P.State} {x : Traffic} {s₁ : Simulator P n}
  {e : CacheEffect P.State}

/-- Without a request on the bus the wire is not driven. -/
theorem shared_eq {k : ℕ} (hP : Regular P false) (h : CachesPassed false k s s₁ effect x)
    (hdata : ∀ request ∈ s.bus.currentRequest, request.msg = .DATA) : x.shared = false := by
  apply eq_false_of_ne_true
  intro hshared
  obtain ⟨i, hi, hishared⟩ := h.shared.mp hshared
  obtain ⟨wire, -, htick⟩ := h.tick i hi
  rw [htick.shared_eq hP hdata] at hishared
  cases hishared

/-- What cache `i` sees when its turn comes. -/
theorem tickEffect (hP : Regular P drives) (h : CachesPassed drives i s s₁ effect x)
    (he : s₁.TickEffect i e) : ∃ wire, (drives = false → wire = s.bus.sharedLine) ∧
      TickEffect P (l1 i) s.bus.currentRequest wire (s.nodes i) e := by
  have hcurrent : s₁.bus.currentRequest = s.bus.currentRequest := by rw [h.bus]; rfl
  unfold Simulator.TickEffect at he
  rw [h.others i le_rfl, hcurrent] at he
  cases hdrives : drives with
  | true => exact ⟨_, nofun, he⟩
  | false =>
    subst hdrives
    refine ⟨_, fun _ ↦ rfl, he.congr_wire fun request hrequest hdata ↦ ?_⟩
    -- no cache before it has driven the wire while data is on the bus
    have hshared : x.shared = false := h.shared_eq hP fun request' hrequest' ↦ by
      rwa [Option.mem_unique hrequest' hrequest]
    rw [h.bus]
    simp [Traffic.onBus, hshared]

theorem next (hP : Regular P drives) (h : CachesPassed drives i s s₁ effect x)
    (he : s₁.TickEffect i e) (hreply : e.reply.isSome → s₁.bus.dataReply = none) :
    CachesPassed drives (i + 1) s (e.apply i s₁) (Function.update effect i e)
      (x.append e.toTraffic) := by
  have hslot (hsend : e.reply.isSome) : x.reply = none ∧ s.bus.dataReply = none := by
    have hnone := hreply hsend
    rw [h.bus] at hnone
    exact Option.or_eq_none_iff.mp hnone
  constructor
  case node =>
    intro j hj
    rcases lt_succ_cases hj with rfl | ⟨hne, hlt⟩
    · rw [CacheEffect.apply_node, Function.update_self]
    · rw [e.apply_of_ne hne, Function.update_of_ne hne, h.node j hlt]
  case tick =>
    intro j hj
    rcases lt_succ_cases hj with rfl | ⟨hne, hlt⟩
    · rw [Function.update_self]
      exact h.tickEffect hP he
    · rw [Function.update_of_ne hne]
      exact h.tick j hlt
  case others =>
    intro j hj
    have hne : j ≠ i := by
      rintro rfl
      omega
    rw [e.apply_of_ne hne, h.others j (by omega)]
  case bus =>
    rw [Traffic.onBus_append, ← h.bus]
    rfl
  case stats =>
    rw [Traffic.onStats_append fun hsend ↦ (hslot hsend).1, ← h.stats]
    rfl
  case mc => exact h.mc
  case requests =>
    intro r hr
    rcases List.mem_append.mp hr with hr | hr
    · exact h.requests r hr
    · obtain ⟨wire, -, htick⟩ := h.tickEffect hP he
      obtain ⟨k, addr, rfl⟩ := htick.requests hP hr
      exact ⟨⟨i, k, addr⟩, rfl⟩
  case reply =>
    intro d
    refine Iff.trans ?_
      (exists_lt_succ_update (Q := fun e : CacheEffect P.State ↦ e.reply = some d)).symm
    rw [← h.reply d]
    change e.reply.or x.reply = some d ↔ _
    cases hsend : e.reply with
    | none => simp
    | some d' => simp [(hslot (by rw [hsend]; rfl)).1]
  case free =>
    intro hsend
    change (e.reply.or x.reply).isSome at hsend
    rw [Option.isSome_or, Bool.or_eq_true] at hsend
    rcases hsend with hsend | hsend
    · exact (hslot hsend).2
    · exact h.free hsend
  case shared =>
    refine Iff.trans ?_
      (exists_lt_succ_update (Q := fun e : CacheEffect P.State ↦ e.shared = true)).symm
    rw [← h.shared]
    exact Bool.or_eq_true _ _ ▸ Iff.rfl

end CachesPassed

theorem tickCaches_passed (hP : Regular P drives)
    (hs' : (List.finRange n).foldlM Simulator.tickCache s = .ok s') :
    ∃ effect x, CachesPassed drives n s s' effect x := by
  refine foldlM_finRange_invariant (I := fun k s' ↦
    ∃ effect x, CachesPassed drives k s s' effect x) hs' ?_ ?_
  · rintro i s₁ _ htick ⟨effect, x, h⟩
    obtain ⟨e, he, hreply, rfl⟩ := (tickCache_ok_iff hP).mp htick
    exact ⟨Function.update effect i e, x.append e.toTraffic, h.next hP he hreply⟩
  · refine ⟨fun i ↦ { node := s.nodes i }, {}, ?_, ?_, fun _ _ ↦ rfl, ?_, rfl, ⟨rfl, rfl⟩, ?_, ?_,
      ?_, ?_⟩ <;> simp

/-! ## The processors -/

/-- A line that a processor has yet to fetch, or has fetched and not yet passed to its cache. -/
def Node.unseen {σ : Type} (node : Node σ) : ℕ :=
  node.pr.infile.length + node.cache.procRequest.toList.length

theorem Node.of_tickPr {σ : Type} {node node' : Node σ} {nodeID : ℤ}
    (h : node.tickPr nodeID = .ok node') : node'.cache.myEntries = node.cache.myEntries ∧
      (node.cache.procRequest = none → node'.unseen = node.unseen) := by
  unfold Node.tickPr at h
  obtain ⟨pr, hpr, h⟩ := bind_eq_ok.mp h
  have hinfile : pr.infile = node.pr.infile := by
    unfold Processor.complete at hpr
    split at hpr
    · split at hpr
      · exact (Except.ok.inj hpr) ▸ rfl
      · cases hpr
    · exact (Except.ok.inj hpr) ▸ rfl
  unfold Node.fetch at h
  split at h
  · obtain rfl := Except.ok.inj h
    exact ⟨rfl, fun _ ↦ by simp [Node.unseen, hinfile]⟩
  · split at h
    · obtain rfl := Except.ok.inj h
      exact ⟨rfl, fun _ ↦ by simp [Node.unseen, hinfile]⟩
    · rename_i line rest hlines
      obtain ⟨request, -, rfl⟩ := bind_pure_eq_ok.mp h
      have hlines' : node.pr.infile = line :: rest := hinfile ▸ hlines
      exact ⟨rfl, fun hnone ↦ by simp [Node.unseen, hlines', hnone]⟩

/-- The loop over the processors changes nothing but the nodes. -/
theorem tickPrs_passed (hs' : (List.finRange n).foldlM Simulator.tickPr s = .ok s') :
    s' = { s with nodes := s'.nodes } ∧ ∀ i, (s.nodes i).tickPr i = .ok (s'.nodes i) := by
  have hloop : s' = { s with nodes := s'.nodes } ∧
      (∀ i : Fin n, i < n → (s.nodes i).tickPr i = .ok (s'.nodes i)) ∧
      ∀ i : Fin n, n ≤ i → s'.nodes i = s.nodes i := by
    refine foldlM_finRange_invariant (I := fun k (s' : Simulator P n) ↦
      s' = { s with nodes := s'.nodes } ∧
      (∀ i : Fin n, i < k → (s.nodes i).tickPr i = .ok (s'.nodes i)) ∧
      ∀ i : Fin n, k ≤ i → s'.nodes i = s.nodes i) hs' ?_ ?_
    · rintro i s₁ _ htick ⟨hrest, hnodes, hothers⟩
      unfold Simulator.tickPr at htick
      obtain ⟨node, hnode, rfl⟩ := bind_pure_eq_ok.mp htick
      rw [hothers i le_rfl] at hnode
      refine ⟨?_, fun j hj ↦ ?_, fun j hj ↦ ?_⟩
      · rw [hrest]
        rfl
      · rcases lt_succ_cases hj with rfl | ⟨hne, hlt⟩
        · simpa [Simulator.setNode] using hnode
        · simpa [Simulator.setNode, hne] using hnodes j hlt
      · have hne : j ≠ i := by
          rintro rfl
          omega
        simpa [Simulator.setNode, hne] using hothers j (by omega)
    · exact ⟨rfl, fun _ hj ↦ absurd hj (by simp), fun _ _ ↦ rfl⟩
  exact ⟨hloop.1, fun i ↦ hloop.2.1 i i.isLt⟩

/-! ## The memory controller -/

/-- The data that the memory sends for the request `q`. -/
def memoryData (n : ℕ) (q : Mreq) : Mreq := Mreq.new .DATA q.addr ⟨n, .MC⟩ q.srcMid

@[simp] theorem memoryData_srcMid (q : Mreq) : (memoryData n q).srcMid = ⟨n, .MC⟩ := rfl

/-- The memory controller has taken the request `q`. -/
def Simulator.startLookup (s : Simulator P n) (q : Mreq) : Simulator P n :=
  { s with mc := { s.mc with
    requestInProgress := true
    dataAddr := q.addr
    dataTarget := q.srcMid
    dataTime := s.globalClock + s.mc.hitTime } }

def Simulator.endLookup (s : Simulator P n) : Simulator P n :=
  { s with mc := { s.mc with requestInProgress := false } }

theorem Simulator.mcSend_of_not_due
    (hnot : ¬ (s.mc.requestInProgress ∧ s.mc.dataTime ≤ s.globalClock)) :
    s.mcSend = .ok s := by
  rw [Simulator.mcSend, if_neg hnot]

/-- The memory sends data when the look-up is over. -/
theorem mcSend_cases (h : s.mcSend = .ok s') :
    s' = s ∧ ¬ (s.mc.requestInProgress ∧ s.mc.dataTime ≤ s.globalClock) ∨
    s.mc.requestInProgress ∧ s.bus.dataReply = none ∧ s' = { s.endLookup with
      bus := { s.bus with
        dataReply := some (Mreq.new .DATA s.mc.dataAddr ⟨n, .MC⟩ s.mc.dataTarget) } } := by
  by_cases hdue : s.mc.requestInProgress ∧ s.mc.dataTime ≤ s.globalClock
  · right
    rw [Simulator.mcSend, if_pos hdue, bind_pure_eq_ok] at h
    obtain ⟨bus, hbus, rfl⟩ := h
    cases hreply : s.bus.dataReply with
    | none =>
      have hbus' : bus = { s.bus with
          dataReply := some (Mreq.new .DATA s.mc.dataAddr ⟨n, .MC⟩ s.mc.dataTarget) } := by
        simpa [Bus.busRequest, Mreq.new, hreply, eq_comm] using hbus
      exact ⟨hdue.1, rfl, by rw [hbus']; rfl⟩
    | some d => simp [Bus.busRequest, Mreq.new, hreply] at hbus
  · rw [Simulator.mcSend_of_not_due hdue] at h
    exact .inl ⟨(Except.ok.inj h).symm, hdue⟩

theorem tickMc_of_request {q : Mreq} (hcurrent : s.bus.currentRequest = some q)
    (hmsg : q.msg ≠ .DATA) (hpos : 0 < s.mc.hitTime) (h : s.tickMc = .ok s') :
    s' = s.startLookup q := by
  have hsend : (s.startLookup q).mcSend = .ok (s.startLookup q) := by
    apply Simulator.mcSend_of_not_due
    rintro ⟨-, hdue⟩
    have : s.globalClock + s.mc.hitTime ≤ s.globalClock := hdue
    omega
  have hsnoop : s.mcSnoop = if s.mc.requestInProgress then
      .error (.assertFailed "!request_in_progress") else .ok (s.startLookup q) := by
    unfold Simulator.mcSnoop Bus.busSnoop
    simp only [hcurrent]
    rw [if_pos hmsg]
    rfl
  rw [Simulator.tickMc, hsnoop] at h
  split at h
  · cases h
  · exact (Except.ok.inj (hsend.symm.trans h)).symm

theorem tickMc_of_data {d : Mreq} (hcurrent : s.bus.currentRequest = some d)
    (hmsg : d.msg = .DATA) : s.tickMc = .ok s.endLookup := by
  have hsnoop : s.mcSnoop = .ok s.endLookup := by
    unfold Simulator.mcSnoop Bus.busSnoop
    simp only [hcurrent]
    rw [if_neg fun hne ↦ hne hmsg]
    rfl
  have hsend : s.endLookup.mcSend = .ok s.endLookup :=
    Simulator.mcSend_of_not_due (by simp [Simulator.endLookup])
  rw [Simulator.tickMc, hsnoop]
  exact hsend

theorem tickMc_of_none (hcurrent : s.bus.currentRequest = none) : s.tickMc = s.mcSend := by
  have hsnoop : s.mcSnoop = .ok s := by
    unfold Simulator.mcSnoop Bus.busSnoop
    simp only [hcurrent]
  rw [Simulator.tickMc, hsnoop]
  rfl

/-- Of the bus the memory controller changes only `dataReply`. -/
theorem tickMc_frame (h : s.tickMc = .ok s') :
    s'.nodes = s.nodes ∧ s'.stats = s.stats ∧ s'.globalClock = s.globalClock ∧
      s'.mc.hitTime = s.mc.hitTime ∧
      s'.bus = { s.bus with dataReply := s'.bus.dataReply } := by
  have hsend {s₁ s₂ : Simulator P n} (hs₂ : s₁.mcSend = .ok s₂) : s₂.nodes = s₁.nodes ∧
      s₂.stats = s₁.stats ∧ s₂.globalClock = s₁.globalClock ∧ s₂.mc.hitTime = s₁.mc.hitTime ∧
      s₂.bus = { s₁.bus with dataReply := s₂.bus.dataReply } := by
    rcases mcSend_cases hs₂ with ⟨rfl, -⟩ | ⟨-, -, rfl⟩
    · exact ⟨rfl, rfl, rfl, rfl, rfl⟩
    · exact ⟨rfl, rfl, rfl, rfl, rfl⟩
  unfold Simulator.tickMc at h
  obtain ⟨s₁, hsnoop, h⟩ := bind_eq_ok.mp h
  obtain ⟨hnodes, hstats, hclock, hhit, hbus⟩ := hsend h
  have hsame : s₁ = { s with mc := s₁.mc } ∧ s₁.mc.hitTime = s.mc.hitTime := by
    unfold Simulator.mcSnoop Bus.busSnoop at hsnoop
    split at hsnoop
    · obtain rfl := Except.ok.inj hsnoop
      exact ⟨rfl, rfl⟩
    · split at hsnoop
      · split at hsnoop
        · cases hsnoop
        · obtain rfl := Except.ok.inj hsnoop
          exact ⟨rfl, rfl⟩
      · obtain rfl := Except.ok.inj hsnoop
        exact ⟨rfl, rfl⟩
  rw [hsame.1] at hnodes hstats hclock hbus
  exact ⟨hnodes, hstats, hclock, hhit.trans hsame.2, hbus⟩

/-! ## The whole cycle -/

/-- A cycle leads from `s` to `s'`; `s₁` is the state after the loop over the caches, and `s₃` the
one after the memory controller's tick. -/
structure CycleRan (drives : Bool) (s s₁ s₂ s₃ s' : Simulator P n)
    (effect : Fin n → CacheEffect P.State) (x : Traffic) : Prop where
  loop : (List.finRange n).foldlM Simulator.tickCache s.busTick = .ok s₁
  caches : CachesPassed drives n s.busTick s₁ effect x
  entries : ∀ i, (s'.nodes i).cache.myEntries = (effect i).node.cache.myEntries
  unseen : ∀ i, (effect i).node.cache.procRequest = none →
    (s'.nodes i).unseen = (effect i).node.unseen
  memory : s₂.tickMc = .ok s₃
  before : s₂ = { s₁ with nodes := s₂.nodes }
  after : s' = { s₃ with nodes := s'.nodes, globalClock := s.globalClock + 1 }
  stats : s'.stats = x.onStats s.stats
  hitTime : s'.mc.hitTime = s.mc.hitTime
  bus : s'.bus = { x.onBus s.busTick.bus with dataReply := s'.bus.dataReply }

theorem Node.tock_frame {σ : Type} (node : Node σ) :
    node.tock.cache = node.cache ∧ node.tock.unseen = node.unseen := by
  unfold Node.tock Processor.tock
  split <;> exact ⟨rfl, rfl⟩

theorem cycle_ran (hP : Regular P drives) (h : s.cycle = .ok s') :
    ∃ s₁ s₂ s₃ effect x, CycleRan drives s s₁ s₂ s₃ s' effect x := by
  obtain ⟨s₁, s₂, s₃, hcaches, hprs, hmc, rfl⟩ := cycle_ok_iff.mp h
  obtain ⟨effect, x, hpassed⟩ := tickCaches_passed hP hcaches
  obtain ⟨hrest, hticked⟩ := tickPrs_passed hprs
  obtain ⟨hnodes, hstats, hclock, hhit, hbus⟩ := tickMc_frame hmc
  have hsame : s₂.bus = s₁.bus ∧ s₂.stats = s₁.stats ∧ s₂.mc = s₁.mc ∧
      s₂.globalClock = s₁.globalClock := by
    rw [hrest]
    exact ⟨rfl, rfl, rfl, rfl⟩
  obtain ⟨hbus₂, hstats₂, hmc₂, hclock₂⟩ := hsame
  refine ⟨s₁, s₂, s₃, effect, x, hcaches, hpassed, fun i ↦ ?_, fun i hnone ↦ ?_, hmc, hrest, ?_, ?_,
    ?_, ?_⟩
  · rw [tockAll_eq]
    change ((s₃.nodes i).tock).cache.myEntries = _
    rw [(Node.tock_frame _).1, hnodes, (Node.of_tickPr (hticked i)).1, hpassed.node i i.isLt]
  · rw [tockAll_eq]
    change ((s₃.nodes i).tock).unseen = _
    rw [← hpassed.node i i.isLt] at hnone ⊢
    rw [(Node.tock_frame _).2, hnodes, (Node.of_tickPr (hticked i)).2 hnone]
  · rw [tockAll_eq]
    have hclock₃ : s₃.globalClock = s.globalClock :=
      hclock.trans (hclock₂.trans hpassed.mc.2)
    rw [← hclock₃]
    rfl
  · rw [tockAll_eq]
    exact hstats.trans (hstats₂.trans hpassed.stats)
  · rw [tockAll_eq]
    exact hhit.trans (by rw [hmc₂, hpassed.mc.1]; rfl)
  · rw [tockAll_eq]
    change s₃.bus = { x.onBus s.busTick.bus with dataReply := s₃.bus.dataReply }
    rw [← hpassed.bus, ← hbus₂]
    exact hbus

end ArchSim.Coherence
