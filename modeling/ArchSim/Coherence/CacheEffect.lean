import ArchSim.Coherence.CacheSteps
import ArchSim.Coherence.OutcomeProtocols

/-!
# What the tick of a cache does

The tick of a cache changes its own node and adds to the traffic. What it does depends only on the
node, the message on the bus, and, if that is data, on the shared wire. `tickCache_ok_iff` says
when a tick succeeds and what it makes of the simulator.
-/

namespace ArchSim.Coherence

open Library Snooping

/-- The node after a tick, or half of one, and the traffic. -/
structure CacheEffect (σ : Type) extends Traffic where
  node : Node σ

section

variable {σ : Type}

/-- First `e` and then `f`. -/
def CacheEffect.andThen (e f : CacheEffect σ) : CacheEffect σ :=
  { e.toTraffic.append f.toTraffic with node := f.node }

/-- A handler of the entry for `addr` has had the outcome `o`. -/
def Outcome.onNode (o : Outcome σ) (node : Node σ) (addr : PAddr) : Node σ where
  cache := { node.cache with myEntries := Function.update node.cache.myEntries addr o.state }
  pr := { node.pr with inboundRequestBuf := o.answer.or node.pr.inboundRequestBuf }

def Node.clearProcRequest (node : Node σ) : Node σ :=
  { node with cache := { node.cache with procRequest := none } }

end

/-- What the first half of a tick does to the node of the cache `mid`. -/
inductive ProcEffect (P : Protocol) (mid : ModuleID) (node : Node P.State) :
    CacheEffect P.State → Prop where
  | idle : node.cache.procRequest = none → ProcEffect P mid node { node := node }
  | handled {request o} : node.cache.procRequest = some request →
      P.processCacheRequest.outcome mid (node.cache.myEntries request.addr) false request = .ok o →
      (o.answer.isSome → node.pr.inboundRequestBuf = none) →
      ProcEffect P mid node
        { o.toTraffic with
          accesses := 1, node := (o.onNode node request.addr).clearProcRequest }

/-- What the second half does, with `message` on the bus. -/
inductive SnoopEffect (P : Protocol) (mid : ModuleID) (message : Option Mreq) (wire : Bool)
    (node : Node P.State) : CacheEffect P.State → Prop where
  | idle : (∀ request ∈ message, request.msg = .DATA ∧ request.destMid ≠ mid) →
      SnoopEffect P mid message wire node { node := node }
  | handled {request o} : message = some request →
      ¬ (request.msg = .DATA ∧ request.destMid ≠ mid) →
      P.processSnoopRequest.outcome mid (node.cache.myEntries request.addr)
        (request.msg = .DATA && wire) request = .ok o →
      (o.answer.isSome → node.pr.inboundRequestBuf = none) →
      SnoopEffect P mid message wire node
        { o.toTraffic with accesses := 0, node := o.onNode node request.addr }

variable {P : Protocol} {n : ℕ} {drives : Bool}

/-- The tick of cache `i` has had the effect `e`. -/
def CacheEffect.apply (e : CacheEffect P.State) (i : Fin n) (s : Simulator P n) : Simulator P n :=
  { s.setNode i e.node with
    bus := e.toTraffic.onBus s.bus
    stats := e.toTraffic.onStats s.stats }

variable {s s' : Simulator P n} {i : Fin n} {e f : CacheEffect P.State}

theorem CacheEffect.apply_andThen (hreply : f.reply.isSome → e.reply = none) (i : Fin n)
    (s : Simulator P n) : (e.andThen f).apply i s = f.apply i (e.apply i s) := by
  simp [apply, andThen, Simulator.setNode, Traffic.onBus_append, Traffic.onStats_append hreply]

@[simp] theorem CacheEffect.apply_node (e : CacheEffect P.State) (i : Fin n)
    (s : Simulator P n) : (e.apply i s).nodes i = e.node := by
  simp [apply, Simulator.setNode]

theorem CacheEffect.apply_of_ne (e : CacheEffect P.State) {j : Fin n} (hne : j ≠ i)
    (s : Simulator P n) : (e.apply i s).nodes j = s.nodes j := by
  simp [apply, Simulator.setNode, hne]

@[simp] theorem CacheEffect.apply_idle (i : Fin n) (s : Simulator P n) :
    ({ node := s.nodes i } : CacheEffect P.State).apply i s = s := by
  simp [apply, Simulator.setNode]

/-- A handler succeeds if it has an outcome and the assertions hold. -/
theorem Handler.Uniform.ok_iff {h : Handler P.State} (hh : h.Uniform) {c c' : Ctx P.State}
    {request : Mreq} : h c request = .ok c' ↔
      ∃ o, h.outcome c.moduleID c.state (wireSeen c request) request = .ok o ∧
        (o.reply.isSome → c.bus.dataReply = none) ∧
        (o.answer.isSome → c.inboundRequestBuf = none) ∧ c' = o.apply c := by
  rw [hh c request, bind_eq_ok]
  refine exists_congr fun o ↦ and_congr_right fun _ ↦ ⟨fun hc ↦ ?_, ?_⟩
  · obtain ⟨hc', hreply, hanswer⟩ := Outcome.of_perform hc
    exact ⟨hreply, hanswer, hc'⟩
  · rintro ⟨hreply, hanswer, rfl⟩
    exact Outcome.perform_eq hreply hanswer

theorem Handler.accesses_eq_zero {h : Handler P.State} {mid : ModuleID} {state : P.State}
    {wire : Bool} {request : Mreq} {o : Outcome P.State}
    (hout : h.outcome mid state wire request = .ok o) : o.accesses = 0 := by
  unfold Handler.outcome at hout
  obtain ⟨c, -, rfl⟩ := bind_pure_eq_ok.mp hout
  rfl

/-- The outcome of a processor's request, put back into the simulator. -/
theorem putCtx_procRequest {o : Outcome P.State} (haccesses : o.accesses = 0) (addr : PAddr) :
    (s.countAccess.putCtx i addr (o.apply (s.countAccess.ctx i addr))).clearProcRequest i =
      CacheEffect.apply { o.toTraffic with
        accesses := 1, node := (o.onNode (s.nodes i) addr).clearProcRequest } i s := by
  simp [CacheEffect.apply, Simulator.clearProcRequest, Simulator.putCtx, Simulator.setNode,
    Simulator.countAccess, Simulator.ctx, Outcome.apply, Outcome.onNode, Node.clearProcRequest,
    Traffic.onBus, Traffic.onStats, haccesses]

/-- The outcome of a message on the bus, put back into the simulator. -/
theorem putCtx_snoop {o : Outcome P.State} (haccesses : o.accesses = 0) (addr : PAddr) :
    s.putCtx i addr (o.apply (s.ctx i addr)) =
      CacheEffect.apply { o.toTraffic with accesses := 0, node := o.onNode (s.nodes i) addr }
        i s := by
  simp [CacheEffect.apply, Simulator.putCtx, Simulator.setNode, Simulator.ctx, Outcome.apply,
    Outcome.onNode, Traffic.onBus, Traffic.onStats, haccesses]

theorem tickProcRequest_ok_iff (hP : Regular P drives) :
    s.tickProcRequest i = .ok s' ↔ ∃ e, ProcEffect P (l1 i) (s.nodes i) e ∧ s' = e.apply i s := by
  unfold Simulator.tickProcRequest
  cases hproc : (s.nodes i).cache.procRequest with
  | none =>
    constructor
    · intro h
      exact ⟨_, .idle hproc, (Except.ok.inj h) ▸ (CacheEffect.apply_idle i s).symm⟩
    · rintro ⟨e, he, rfl⟩
      cases he with
      | idle _ => rw [CacheEffect.apply_idle]
      | handled hrequest _ _ => cases hproc.symm.trans hrequest
  | some request =>
    have hwire (hmsg : request.msg = .LOAD ∨ request.msg = .STORE) :
        Handler.wireSeen (s.countAccess.ctx i request.addr) request = false := by
      rcases hmsg with hmsg | hmsg <;> simp [Handler.wireSeen, hmsg]
    simp only [bind_pure_eq_ok, hP.cache.ok_iff]
    constructor
    · rintro ⟨_, ⟨o, hout, hreply, hanswer, rfl⟩, rfl⟩
      rw [hwire (hP.asks hout).msg] at hout
      refine ⟨_, .handled hproc hout hanswer, ?_⟩
      exact putCtx_procRequest (Handler.accesses_eq_zero hout) request.addr
    · rintro ⟨e, he, rfl⟩
      cases he with
      | idle hnone => cases hproc.symm.trans hnone
      | @handled request' o hrequest hout hanswer =>
        obtain rfl := Option.some.inj (hproc.symm.trans hrequest)
        have hasks := hP.asks hout
        refine ⟨_, ⟨o, ?_, fun hreply ↦ ?_, hanswer, rfl⟩, ?_⟩
        · rw [hwire hasks.msg]
          exact hout
        · simp [hasks.reply] at hreply
        · exact (putCtx_procRequest (Handler.accesses_eq_zero hout) request.addr).symm

theorem tickSnoop_of_idle
    (hidle : ∀ request ∈ s.bus.currentRequest, request.msg = .DATA ∧ request.destMid ≠ l1 i) :
    s.tickSnoop i = .ok s := by
  unfold Simulator.tickSnoop Bus.busSnoop
  cases hcurrent : s.bus.currentRequest with
  | none => rfl
  | some request => exact if_pos (hidle request hcurrent)

theorem tickSnoop_of_some {request : Mreq} (hcurrent : s.bus.currentRequest = some request)
    (hmine : ¬ (request.msg = .DATA ∧ request.destMid ≠ l1 i)) :
    s.tickSnoop i = do
      let c ← P.processSnoopRequest (s.ctx i request.addr) request
      return s.putCtx i request.addr c := by
  unfold Simulator.tickSnoop Bus.busSnoop
  rw [hcurrent]
  exact if_neg hmine

theorem tickSnoop_ok_iff (hP : Regular P drives) :
    s.tickSnoop i = .ok s' ↔
      ∃ e, SnoopEffect P (l1 i) s.bus.currentRequest s.bus.sharedLine (s.nodes i) e ∧
        (e.reply.isSome → s.bus.dataReply = none) ∧ s' = e.apply i s := by
  by_cases hidle : ∀ request ∈ s.bus.currentRequest, request.msg = .DATA ∧ request.destMid ≠ l1 i
  · rw [tickSnoop_of_idle hidle]
    constructor
    · intro h
      refine ⟨_, .idle hidle, fun hreply ↦ ?_,
        (Except.ok.inj h) ▸ (CacheEffect.apply_idle i s).symm⟩
      cases hreply
    · rintro ⟨e, he, -, rfl⟩
      cases he with
      | idle _ => rw [CacheEffect.apply_idle]
      | handled hcurrent hmine _ _ => exact absurd (hidle _ hcurrent) hmine
  · obtain ⟨request, hcurrent, hmine⟩ : ∃ request, s.bus.currentRequest = some request ∧
        ¬ (request.msg = .DATA ∧ request.destMid ≠ l1 i) := by
      simpa only [not_forall, exists_prop, Option.mem_def] using hidle
    rw [tickSnoop_of_some hcurrent hmine]
    simp only [bind_pure_eq_ok, hP.snoop.ok_iff]
    constructor
    · rintro ⟨_, ⟨o, hout, hreply, hanswer, rfl⟩, rfl⟩
      refine ⟨_, .handled hcurrent hmine hout hanswer, hreply, ?_⟩
      exact putCtx_snoop (Handler.accesses_eq_zero hout) request.addr
    · rintro ⟨e, he, hreply, rfl⟩
      cases he with
      | idle hidle' => exact absurd hidle' hidle
      | @handled request' o hcurrent' _ hout hanswer =>
        obtain rfl := Option.some.inj (hcurrent.symm.trans hcurrent')
        refine ⟨_, ⟨o, hout, hreply, hanswer, rfl⟩, ?_⟩
        exact (putCtx_snoop (Handler.accesses_eq_zero hout) request.addr).symm

/-! ## The whole tick -/

/-- What a tick does to the node of the cache `mid`, with `message` on the bus. -/
def TickEffect (P : Protocol) (mid : ModuleID) (message : Option Mreq) (wire : Bool)
    (node : Node P.State) (effect : CacheEffect P.State) : Prop :=
  ∃ e f, ProcEffect P mid node e ∧ SnoopEffect P mid message (wire || e.shared) e.node f ∧
    effect = e.andThen f

/-- The tick of cache `i` may have the effect `effect`. -/
abbrev Simulator.TickEffect (s : Simulator P n) (i : Fin n) (effect : CacheEffect P.State) : Prop :=
  ArchSim.Coherence.TickEffect P (l1 i) s.bus.currentRequest s.bus.sharedLine (s.nodes i) effect

section

variable {mid : ModuleID} {node : Node P.State} {message : Option Mreq} {wire : Bool}

theorem ProcEffect.reply_eq (hP : Regular P drives) (h : ProcEffect P mid node e) :
    e.reply = none := by
  cases h with
  | idle _ => rfl
  | handled _ hout _ => exact (hP.asks hout).reply

theorem ProcEffect.drives_of_shared (hP : Regular P drives) (h : ProcEffect P mid node e)
    (hshared : e.shared = true) : drives = true := by
  cases h with
  | idle _ => cases hshared
  | handled _ hout _ => exact (hP.asks hout).shared hshared

/-- Only a request on the bus makes a cache drive the wire. -/
theorem SnoopEffect.request_of_shared (hP : Regular P drives)
    (h : SnoopEffect P mid message wire node e) (hshared : e.shared = true) :
    ∃ request, message = some request ∧ request.msg ≠ .DATA := by
  cases h with
  | idle _ => cases hshared
  | @handled request o hmessage _ hout _ =>
    refine ⟨request, hmessage, fun hdata ↦ ?_⟩
    cases hshared.symm.trans ((hP.snooped hout).data hdata).2

/-- Only to a request on the bus, and to its sender, does a cache send data. -/
theorem SnoopEffect.request_of_reply (hP : Regular P drives)
    (h : SnoopEffect P mid message wire node e) {d : Mreq} (hreply : e.reply = some d) :
    ∃ request, message = some request ∧ request.msg ≠ .DATA ∧
      d = cacheMessage .DATA request.addr mid request.srcMid := by
  cases h with
  | idle _ => cases hreply
  | @handled request o hmessage _ hout _ =>
    refine ⟨request, hmessage, fun hdata ↦ ?_, (hP.snooped hout).reply d hreply⟩
    cases hreply.symm.trans ((hP.snooped hout).data hdata).1

theorem SnoopEffect.congr_wire {wire' : Bool} (h : SnoopEffect P mid message wire node e)
    (hwire : ∀ request ∈ message, request.msg = .DATA → wire' = wire) :
    SnoopEffect P mid message wire' node e := by
  cases h with
  | idle hidle => exact .idle hidle
  | @handled request o hmessage hmine hout hanswer =>
    refine .handled hmessage hmine ?_ hanswer
    have hseen : (request.msg = .DATA && wire') = (request.msg = .DATA && wire) := by
      by_cases hmsg : request.msg = .DATA
      · rw [hwire request hmessage hmsg]
      · simp [hmsg]
    rw [hseen]
    exact hout

theorem TickEffect.reply_eq (hP : Regular P drives) (h : TickEffect P mid message wire node e)
    {d : Mreq} (hreply : e.reply = some d) : ∃ request, message = some request ∧
      request.msg ≠ .DATA ∧ d = cacheMessage .DATA request.addr mid request.srcMid := by
  obtain ⟨e₁, e₂, he₁, he₂, rfl⟩ := h
  apply he₂.request_of_reply hP
  simpa [CacheEffect.andThen, Traffic.append, he₁.reply_eq hP] using hreply

/-- A cache queues only requests of its own, for block addresses. -/
theorem TickEffect.requests (hP : Regular P drives) (h : TickEffect P mid message wire node e)
    {r : Mreq} (hr : r ∈ e.requests) : ∃ k addr, r = cacheMessage (kindMessage k) addr mid := by
  obtain ⟨e₁, e₂, he₁, he₂, rfl⟩ := h
  have hnone : e₂.requests = [] := by
    cases he₂ with
    | idle _ => rfl
    | handled _ _ hout _ => exact (hP.snooped hout).requests
  have hr₁ : r ∈ e₁.requests := by
    simpa [CacheEffect.andThen, Traffic.append, hnone] using hr
  cases he₁ with
  | idle _ => cases hr₁
  | @handled request o _ hout _ =>
    rcases (hP.asks hout).requests r hr₁ with heq | heq
    · exact ⟨.read, request.addr, heq⟩
    · exact ⟨.write, request.addr, heq⟩

/-- Of the wire the tick depends only if data is on the bus. -/
theorem TickEffect.congr_wire {wire' : Bool} (h : TickEffect P mid message wire node e)
    (hwire : ∀ request ∈ message, request.msg = .DATA → wire' = wire) :
    TickEffect P mid message wire' node e := by
  obtain ⟨e₁, e₂, he₁, he₂, rfl⟩ := h
  refine ⟨e₁, e₂, he₁, he₂.congr_wire fun request hrequest hdata ↦ ?_, rfl⟩
  rw [hwire request hrequest hdata]

/-- Without a request on the bus no cache drives the wire. -/
theorem TickEffect.shared_eq (hP : Regular P false) (h : TickEffect P mid message wire node e)
    (hdata : ∀ request ∈ message, request.msg = .DATA) : e.shared = false := by
  obtain ⟨e₁, e₂, he₁, he₂, rfl⟩ := h
  have h₁ : e₁.shared = false :=
    eq_false_of_ne_true fun hshared ↦ nomatch he₁.drives_of_shared hP hshared
  have h₂ : e₂.shared = false := by
    apply eq_false_of_ne_true
    intro hshared
    obtain ⟨request, hmessage, hne⟩ := he₂.request_of_shared hP hshared
    exact hne (hdata request hmessage)
  simp [CacheEffect.andThen, Traffic.append, h₁, h₂]

end

/-- The tick of a cache succeeds if it has an effect and the reply slot is free for what is
sent. -/
theorem tickCache_ok_iff (hP : Regular P drives) :
    s.tickCache i = .ok s' ↔ ∃ effect, s.TickEffect i effect ∧
      (effect.reply.isSome → s.bus.dataReply = none) ∧ s' = effect.apply i s := by
  have hthen {e f : CacheEffect P.State} (he : ProcEffect P (l1 i) (s.nodes i) e) :
      (e.andThen f).reply = f.reply ∧ (e.apply i s).bus.dataReply = s.bus.dataReply ∧
        (e.andThen f).apply i s = f.apply i (e.apply i s) := by
    have hreply := he.reply_eq hP
    refine ⟨?_, ?_, CacheEffect.apply_andThen (fun _ ↦ hreply) i s⟩
    · simp [CacheEffect.andThen, Traffic.append, hreply]
    · simp [CacheEffect.apply, Traffic.onBus, hreply]
  unfold Simulator.tickCache
  simp only [bind_eq_ok, tickProcRequest_ok_iff hP, tickSnoop_ok_iff hP]
  constructor
  · rintro ⟨_, ⟨e, he, rfl⟩, f, hf, hreply, rfl⟩
    obtain ⟨hsame, hslot, happly⟩ := hthen (f := f) he
    rw [CacheEffect.apply_node] at hf
    refine ⟨e.andThen f, ⟨e, f, he, hf, rfl⟩, ?_, happly.symm⟩
    rwa [hsame, ← hslot]
  · rintro ⟨_, ⟨e, f, he, hf, rfl⟩, hreply, rfl⟩
    obtain ⟨hsame, hslot, happly⟩ := hthen (f := f) he
    rw [hsame, ← hslot] at hreply
    refine ⟨_, ⟨e, he, rfl⟩, f, ?_, hreply, happly⟩
    rw [CacheEffect.apply_node]
    exact hf

end ArchSim.Coherence
