import ArchSim.Coherence.Ownership

/-!
# Why a cache makes a request

A cache asks for a block that it has never had, or that another cache has taken away from it. So the
requests of one cache for one block are counted by those of the others: there is at most one `GETS`
more than there are `GETM`s of other caches, and at most one `GETM` more than there are requests of
other caches. The first request of all is the one more.
-/

namespace ArchSim.Coherence

open Library AtomicMemory Snooping

/-! ## What the states allow -/

/-- In a state with `left` a cache may make that many of the requests that `counted` tells before
another cache makes one of those that `refills` tells. -/
structure Allows (P : Protocol) (view : P.State → Line) (left : P.State → ℕ)
    (counted refills : Message → Bool) : Prop where
  initial : left P.initial ≤ 1
  counts : ∀ {msg}, counted msg = true → msg = .GETS ∨ msg = .GETM
  refilled : ∀ {msg}, refills msg = true → msg = .GETS ∨ msg = .GETM
  asked : ∀ {mid state wire request o},
    P.processCacheRequest.outcome mid state wire request = .ok o →
    (view state).pending = none ∧
      (o.requests.countP fun r ↦ counted r.msg) + left o.state ≤ left state
  snooped : ∀ {mid state wire request o},
    P.processSnoopRequest.outcome mid state wire request = .ok o →
    left o.state ≤ left state + (refills request.msg).toNat
  waiting : ∀ {mid state wire request o},
    P.processSnoopRequest.outcome mid state wire request = .ok o →
    (view state).pending.isSome → left o.state ≤ left state

def Message.isGETS (msg : Message) : Bool := msg = .GETS

def Message.isGETM (msg : Message) : Bool := msg = .GETM

def Message.isRequest (msg : Message) : Bool := msg = .GETS || msg = .GETM

/-- A line without a copy may be fetched for reading. -/
def readsLeft : Line → ℕ
  | .I => 1
  | _ => 0

/-- A line without permission to write may be upgraded. -/
def writesLeft : Line → ℕ
  | .I | .IS | .S | .O => 1
  | _ => 0

/-- The `GETS` that a cache may make before another one makes a `GETM`; in `MI` it never makes
any. -/
def ProtocolT.reads : (t : ProtocolT) → t.protocol.State → ℕ
  | MI_PRO, _ => 0
  | MSI_PRO, state => readsLeft (MSI.view state)
  | MESI_PRO, state => readsLeft (MESI.view state)
  | MOESI_PRO, state => readsLeft (MOESI.view state)
  | MOSI_PRO, state => readsLeft (MOSI.view state)

/-- The `GETM`s that a cache may make before another one makes a request. -/
def ProtocolT.writes (t : ProtocolT) (state : t.protocol.State) : ℕ :=
  writesLeft (t.lawful.view state)

/-- What a handler of the processor's requests has used up. -/
def Spends (t : ProtocolT) (state : t.protocol.State) (o : Outcome t.protocol.State) : Prop :=
  (t.lawful.view state).pending = none ∧
    (o.requests.countP fun r ↦ r.msg.isGETS) + t.reads o.state ≤ t.reads state ∧
    (o.requests.countP fun r ↦ r.msg.isGETM) + t.writes o.state ≤ t.writes state

/-- What a message on the bus has given back; nothing if the line waits. -/
abbrev Refills (t : ProtocolT) (state : t.protocol.State) (msg : Message)
    (o : Outcome t.protocol.State) : Prop :=
  (t.reads o.state ≤ t.reads state + msg.isGETM.toNat ∧
    t.writes o.state ≤ t.writes state + msg.isRequest.toNat) ∧
  ((t.lawful.view state).pending.isSome →
    t.reads o.state ≤ t.reads state ∧ t.writes o.state ≤ t.writes state)

theorem ProtocolT.spends (t : ProtocolT) {mid : ModuleID} {wire : Bool} {request : Mreq}
    {state : t.protocol.State} {o : Outcome t.protocol.State}
    (h : t.protocol.processCacheRequest.outcome mid state wire request = .ok o) :
    Spends t state o := by
  obtain ⟨msg, addr, source, dest⟩ := request
  cases t <;> cases state <;> cases msg <;> cases h <;>
    exact ⟨rfl, Nat.le_of_ble_eq_true rfl, Nat.le_of_ble_eq_true rfl⟩

theorem ProtocolT.refills (t : ProtocolT) {mid : ModuleID} {wire : Bool} {request : Mreq}
    {state : t.protocol.State} {o : Outcome t.protocol.State}
    (h : t.protocol.processSnoopRequest.outcome mid state wire request = .ok o) :
    Refills t state request.msg o := by
  obtain ⟨msg, addr, source, dest⟩ := request
  cases t <;> cases state <;> cases msg <;>
    first
      | cases wire <;> cases h <;> exact of_decide_eq_true rfl
      -- what `OM` makes of a `GETM` depends on who has sent it
      | obtain rfl := Except.ok.inj (h.symm.trans (MOSI.outcome_surrender rfl))
        split <;> exact of_decide_eq_true rfl
      | obtain rfl := Except.ok.inj (h.symm.trans (MOESI.outcome_surrender rfl))
        split <;> exact of_decide_eq_true rfl

theorem ProtocolT.allows_reads (t : ProtocolT) :
    Allows t.protocol t.lawful.view t.reads Message.isGETS Message.isGETM where
  initial := by cases t <;> decide
  counts hmsg := .inl (of_decide_eq_true hmsg)
  refilled hmsg := .inr (of_decide_eq_true hmsg)
  asked h := ⟨(t.spends h).1, (t.spends h).2.1⟩
  snooped h := (t.refills h).1.1
  waiting h hpending := ((t.refills h).2 hpending).1

theorem ProtocolT.allows_writes (t : ProtocolT) :
    Allows t.protocol t.lawful.view t.writes Message.isGETM Message.isRequest where
  initial := by cases t <;> decide
  counts hmsg := .inr (of_decide_eq_true hmsg)
  refilled hmsg := by simpa [Message.isRequest] using hmsg
  asked h := ⟨(t.spends h).1, (t.spends h).2.2⟩
  snooped h := (t.refills h).1.2
  waiting h hpending := ((t.refills h).2 hpending).2

/-! ## One tick -/

/-- The message is one of the requests that `counted` tells, by the cache `source` for `addr`. -/
def Mreq.askedBy (counted : Message → Bool) (source : ModuleID) (addr : PAddr) (q : Mreq) : Bool :=
  counted q.msg && q.srcMid = source && q.addr = addr

/-- The message is one of the requests that `refills` tells, by another cache. -/
def Mreq.askedByOther (refills : Message → Bool) (source : ModuleID) (addr : PAddr) (q : Mreq) :
    Bool :=
  refills q.msg && !decide (q.srcMid = source) && q.addr = addr

variable {P : Protocol} {n : ℕ} {drives demotes stalls : Bool} {view : P.State → Line}
  {left : P.State → ℕ} {counted refills : Message → Bool}

section

variable {mid : ModuleID} {message : Option Mreq} {wire : Bool} {node : Node P.State}
  {e : CacheEffect P.State} {addr : PAddr}

theorem Mreq.askedBy_eq_false_of_addr {q : Mreq} (hne : q.addr ≠ addr) :
    q.askedBy counted mid addr = false := by
  simp [Mreq.askedBy, hne]

/-- The processor's request uses up what the state of its entry allows. -/
theorem ProcEffect.spends (hP : Regular P drives) (hA : Allows P view left counted refills)
    (addr : PAddr) (h : ProcEffect P mid node e)
    (hblock : ∀ request ∈ node.cache.procRequest, blockAddr request.addr = request.addr) :
    e.requests.countP (Mreq.askedBy counted mid addr) + left (e.node.cache.myEntries addr) ≤
      left (node.cache.myEntries addr) := by
  cases h with
  | idle _ => simp
  | @handled request o hrequest hout _ =>
    change o.requests.countP _ + left (Function.update node.cache.myEntries request.addr o.state
      addr) ≤ _
    by_cases haddr : addr = request.addr
    · subst haddr
      rw [Function.update_self]
      have hle : o.requests.countP (Mreq.askedBy counted mid request.addr) ≤
          o.requests.countP fun r ↦ counted r.msg :=
        List.countP_mono_left fun r _ hr ↦ by
          simp only [Mreq.askedBy, Bool.and_eq_true] at hr
          exact hr.1.1
      exact (Nat.add_le_add_right hle _).trans (hA.asked hout).2
    · have hnone : o.requests.countP (Mreq.askedBy counted mid addr) = 0 := by
        refine List.countP_eq_zero.mpr fun r hr ↦ ?_
        have hr' : r.addr = blockAddr request.addr := by
          rcases (hP.asks hout).requests r hr with rfl | rfl <;> rfl
        have hne : r.addr ≠ addr := by
          rw [hr', hblock request hrequest]
          exact Ne.symm haddr
        simp [Mreq.askedBy_eq_false_of_addr hne]
      rw [Function.update_of_ne haddr, hnone, Nat.zero_add]

/-- A message on the bus gives back at most what it refills. -/
theorem SnoopEffect.left_le (hA : Allows P view left counted refills) (addr : PAddr)
    (h : SnoopEffect P mid message wire node e)
    (hwaits : ∀ q ∈ message, q.addr = addr → q.srcMid = mid → q.msg = .GETS ∨ q.msg = .GETM →
      (view (node.cache.myEntries addr)).pending.isSome) :
    left (e.node.cache.myEntries addr) ≤ left (node.cache.myEntries addr) +
      message.toList.countP (Mreq.askedByOther refills mid addr) := by
  cases h with
  | idle _ => exact Nat.le_add_right _ _
  | @handled q o hmessage _ hout _ =>
    change left (Function.update node.cache.myEntries q.addr o.state addr) ≤ _
    by_cases haddr : addr = q.addr
    · subst haddr
      rw [Function.update_self, hmessage, Option.toList_some, List.countP_singleton]
      by_cases hother : q.srcMid = mid
      · cases hrefills : refills q.msg with
        | false =>
          have hle := hA.snooped hout
          simpa [Mreq.askedByOther, hrefills] using hle
        | true =>
          have hle := hA.waiting hout (hwaits q hmessage rfl hother (hA.refilled hrefills))
          exact hle.trans (Nat.le_add_right _ _)
      · have hle := hA.snooped hout
        cases hrefills : refills q.msg <;> simpa [Mreq.askedByOther, hrefills, hother] using hle
    · rw [Function.update_of_ne haddr]
      exact Nat.le_add_right _ _

/-- What the tick of a cache does to what its entry for `addr` allows. -/
theorem TickEffect.allowance (hP : Regular P drives) (hA : Allows P view left counted refills)
    (h : TickEffect P mid message wire node e)
    (hblock : ∀ request ∈ node.cache.procRequest, blockAddr request.addr = request.addr)
    (hwaits : ∀ q ∈ message, q.addr = addr → q.srcMid = mid → q.msg = .GETS ∨ q.msg = .GETM →
      (view (node.cache.myEntries addr)).pending.isSome) :
    e.requests.countP (Mreq.askedBy counted mid addr) + left (e.node.cache.myEntries addr) ≤
      left (node.cache.myEntries addr) +
        message.toList.countP (Mreq.askedByOther refills mid addr) := by
  obtain ⟨e₁, e₂, he₁, he₂, rfl⟩ := h
  have hproc := he₁.spends hP hA addr hblock
  have hnone : e₂.requests = [] := by
    cases he₂ with
    | idle _ => rfl
    | handled _ _ hout _ => exact (hP.snooped hout).requests
  have hsnoop := he₂.left_le hA addr fun q hq haddr hsource hmsg ↦ by
    -- a line that waits takes no request of the processor
    have hpending := hwaits q hq haddr hsource hmsg
    have hsame : e₁.node.cache.myEntries addr = node.cache.myEntries addr :=
      (he₁.move addr).eq_of_stalled fun hout ↦ by
        rw [(hA.asked hout).1] at hpending
        cases hpending
    rwa [hsame]
  change (e₁.requests ++ e₂.requests).countP _ + left (e₂.node.cache.myEntries addr) ≤ _
  rw [hnone, List.append_nil]
  omega

end

/-! ## One cycle -/

section

variable {s s' : Simulator P n}

/-- What the loop over the caches does to what the entry of cache `i` allows. -/
theorem tickCaches_allowance (hP : Regular P drives) (hA : Allows P view left counted refills)
    (i : Fin n) (addr : PAddr)
    (h : (List.finRange n).foldlM Simulator.tickCache s = .ok s')
    (hblock : ∀ request ∈ (s.nodes i).cache.procRequest, blockAddr request.addr = request.addr)
    (hwaits : ∀ q ∈ s.bus.currentRequest, q.addr = addr → q.srcMid = l1 i →
      q.msg = .GETS ∨ q.msg = .GETM → (view (s.entry i addr)).pending.isSome) :
    s'.bus.pendingRequests.countP (Mreq.askedBy counted (l1 i) addr) + left (s'.entry i addr) ≤
      s.bus.pendingRequests.countP (Mreq.askedBy counted (l1 i) addr) + left (s.entry i addr) +
        s.bus.currentRequest.toList.countP (Mreq.askedByOther refills (l1 i) addr) := by
  let asked (s : Simulator P n) :=
    s.bus.pendingRequests.countP (Mreq.askedBy counted (l1 i) addr)
  let given := s.bus.currentRequest.toList.countP (Mreq.askedByOther refills (l1 i) addr)
  have hloop : s'.bus.currentRequest = s.bus.currentRequest ∧
      (∀ j : Fin n, n ≤ (j : ℕ) → s'.nodes j = s.nodes j) ∧
      asked s' + left (s'.entry i addr) ≤
        asked s + left (s.entry i addr) + if (i : ℕ) < n then given else 0 := by
    refine foldlM_finRange_invariant (I := fun k (s' : Simulator P n) ↦
      s'.bus.currentRequest = s.bus.currentRequest ∧
      (∀ j : Fin n, k ≤ (j : ℕ) → s'.nodes j = s.nodes j) ∧
      asked s' + left (s'.entry i addr) ≤
        asked s + left (s.entry i addr) + if (i : ℕ) < k then given else 0) h ?_ ?_
    · rintro j s₁ _ htick ⟨hcurrent, hothers, hle⟩
      obtain ⟨e, he, -, rfl⟩ := (tickCache_ok_iff hP).mp htick
      have hasked : asked (e.apply j s₁) =
          asked s₁ + e.requests.countP (Mreq.askedBy counted (l1 i) addr) :=
        List.countP_append
      refine ⟨hcurrent, fun k hk ↦ ?_, ?_⟩
      · have hne : k ≠ j := by
          rintro rfl
          omega
        rw [e.apply_of_ne hne, hothers k (by omega)]
      · by_cases hji : j = i
        · subst hji
          unfold Simulator.TickEffect at he
          rw [hothers j le_rfl, hcurrent] at he
          have hspent := he.allowance hP hA hblock hwaits
          rw [hasked, Simulator.entry, CacheEffect.apply_node, if_pos (Nat.lt_succ_self _)]
          rw [if_neg (lt_irrefl _), Simulator.entry, hothers j le_rfl] at hle
          change _ ≤ left ((s.nodes j).cache.myEntries addr) + given at hspent
          change _ ≤ asked s + left ((s.nodes j).cache.myEntries addr) + given
          change _ ≤ asked s + left ((s.nodes j).cache.myEntries addr) + 0 at hle
          omega
        · have hnone : e.requests.countP (Mreq.askedBy counted (l1 i) addr) = 0 := by
            refine List.countP_eq_zero.mpr fun r hr ↦ ?_
            obtain ⟨k, a, rfl⟩ := he.requests hP hr
            have hne : l1 j ≠ l1 i := fun heq ↦ hji (l1_injective heq)
            simp [Mreq.askedBy, cacheMessage, hne]
          have hmono : (if (i : ℕ) < j then given else 0) ≤
              if (i : ℕ) < j + 1 then given else 0 := by
            split <;> split <;> omega
          rw [hasked, hnone, Simulator.entry, e.apply_of_ne (Ne.symm hji), Nat.add_zero]
          exact hle.trans (Nat.add_le_add_left hmono _)
    · exact ⟨rfl, fun _ _ ↦ rfl, Nat.le_add_right _ _⟩
  rw [if_pos i.isLt] at hloop
  exact hloop.2.2

end

/-! ## Runs -/

section

variable {L : Lawful P demotes stalls} {settings : Settings n} {versions : PAddr → ℕ}
  {cond : Simulator P n → Prop} {y y' : Traced P n} {tr : Transaction} {i : Fin n} {addr : PAddr}

theorem Refines.blockAddr_of_procRequest {v : Versioned P n} {m : Machine (Fin n) PAddr}
    (h : Refines L settings versions v m) (i : Fin n) :
    ∀ request ∈ (v.sim.nodes i).cache.procRequest, blockAddr request.addr = request.addr := by
  intro request hrequest
  obtain ⟨status, hnode⟩ := h.agrees.node i
  rw [hnode.procRequest] at hrequest
  cases status with
  | issued op addr =>
    obtain rfl := Option.some.inj hrequest
    exact blockAddr_blockAddr addr
  | idle | waiting _ _ _ _ | buffered _ | answered _ => cases hrequest

/-- The requests for `addr` that cache `i` has made, and those it may still make, are at most one
more than the requests of the others that refill them. -/
def Covered (left : P.State → ℕ) (counted refills : Message → Bool) (i : Fin n) (addr : PAddr)
    (y : Traced P n) : Prop :=
  (y.messages ++ y.sim.bus.pendingRequests).countP (Mreq.askedBy counted (l1 i) addr) +
      left (y.sim.entry i addr) ≤
    1 + y.messages.countP (Mreq.askedByOther refills (l1 i) addr)

/-- A request that the bus takes up has been waiting. -/
theorem Served.mem_pending (h : Served settings y tr) {q : Mreq}
    (hq : q ∈ y.sim.busTick.bus.currentRequest) (hmsg : q.msg = .GETS ∨ q.msg = .GETM) :
    q ∈ y.sim.bus.pendingRequests := by
  rw [h.holds.busTick_pending h.pending]
  refine List.mem_append_left _ (List.mem_filter.mpr ⟨Option.mem_toList.mpr hq, ?_⟩)
  rcases hmsg with hmsg | hmsg <;> simp [Mreq.isRequest, hmsg]

theorem Covered.cycle (hP : Regular P drives) (hA : Allows P L.view left counted refills)
    (h : Covered left counted refills i addr y) (hserved : Served settings y tr)
    (hsimulated : Simulated L settings versions y.state) (hy' : y.cycle = .ok y') :
    Covered left counted refills i addr y' := by
  obtain ⟨m, p, hrefines, -⟩ := hsimulated
  obtain ⟨-, hsim, hrecord⟩ := Traced.of_cycle hy'
  obtain ⟨s₁, s₂, s₃, effect, x, hran⟩ := cycle_ran hP hsim
  have hloop := tickCaches_allowance hP hA i addr hran.loop
    (hrefines.blockAddr_of_procRequest i) fun q hq haddr hsource hmsg ↦ by
      have hpending := hserved.mem_pending hq hmsg
      have hwaits : ∃ k, (L.view (y.sim.entry i q.addr)).pending = some k := by
        rcases hmsg with hmsg | hmsg
        · exact ⟨.read, hrefines.pending_of_request hpending (k := .read) hmsg hsource⟩
        · exact ⟨.write, hrefines.pending_of_request hpending (k := .write) hmsg hsource⟩
      rw [haddr] at hwaits
      exact Option.isSome_iff_exists.mpr hwaits
  have hpending : y'.sim.bus.pendingRequests = s₁.bus.pendingRequests := by
    rw [hran.pendingRequests_eq, hran.caches.bus]
    rfl
  have hentry : y'.sim.entry i addr = s₁.entry i addr := by
    rw [Simulator.entry, hran.entries, Simulator.entry, hran.caches.node i i.isLt]
  have hmessages : y'.messages = y.messages ++ y.sim.busTick.bus.currentRequest.toList := by
    rw [hrecord, Traced.record_messages]
  -- of the message on the bus only a request is counted
  have hcurrent : y.sim.busTick.bus.currentRequest.toList.countP
      (Mreq.askedBy counted (l1 i) addr) ≤
      (y.sim.busTick.bus.currentRequest.toList.filter Mreq.isRequest).countP
        (Mreq.askedBy counted (l1 i) addr) := by
    rw [List.countP_filter]
    refine List.countP_mono_left fun q _ hq ↦ ?_
    have hrequest : q.isRequest = true := by
      simp only [Mreq.askedBy, Bool.and_eq_true] at hq
      rcases hA.counts hq.1.1 with hmsg | hmsg <;> simp [Mreq.isRequest, hmsg]
    simp [hq, hrequest]
  unfold Covered at h ⊢
  rw [hserved.holds.busTick_pending hserved.pending] at h
  rw [hpending, hentry, hmessages]
  simp only [List.countP_append] at h ⊢
  change _ ≤ _ + left (y.sim.entry i addr) + _ at hloop
  omega

theorem covered_of_endOfCycle (hP : Regular P drives) (hA : Allows P L.view left counted refills)
    (hcond : ∀ s, cond s → stalls → L.Clear s)
    (hy : Traced.EndOfCycleWhile settings versions cond y) (i : Fin n) (addr : PAddr) :
    Covered left counted refills i addr y := by
  refine hy.preserved (I := Covered left counted refills i addr) ?_ fun y y' hhead _ hy' h ↦ ?_
  · exact (Nat.zero_add _).le.trans hA.initial
  · obtain ⟨tr, hserved⟩ := served_of_loopHead hP hhead
    have hstate := Traced.LoopHeadWhile.state hhead
    exact h.cycle hP hA hserved (simulated_of_loopHead hcond hstate) hy'

/-- A cache makes at most one of the requests that `counted` tells more than the others make of
those that `refills` tells. -/
theorem askedBy_le (hP : Regular P drives) (hA : Allows P L.view left counted refills)
    (hcond : ∀ s, cond s → stalls → L.Clear s)
    (hy : Traced.EndOfCycleWhile settings versions cond y) (i : Fin n) (addr : PAddr) :
    y.messages.countP (Mreq.askedBy counted (l1 i) addr) ≤
      1 + y.messages.countP (Mreq.askedByOther refills (l1 i) addr) := by
  have hcovered := covered_of_endOfCycle hP hA hcond hy i addr
  unfold Covered at hcovered
  rw [List.countP_append] at hcovered
  omega

end

/-- Of the requests for `addr` that have appeared on the bus, those of cache `i` are caused by those
of the other caches, but for the first. -/
structure Caused (messages : List Mreq) (i : Fin n) (addr : PAddr) : Prop where
  reads : messages.countP (Mreq.askedBy Message.isGETS (l1 i) addr) ≤
    1 + messages.countP (Mreq.askedByOther Message.isGETM (l1 i) addr)
  writes : messages.countP (Mreq.askedBy Message.isGETM (l1 i) addr) ≤
    1 + messages.countP (Mreq.askedByOther Message.isRequest (l1 i) addr)

theorem ProtocolT.caused (t : ProtocolT) {n : ℕ} {settings : Settings n} {versions : PAddr → ℕ}
    {cond : Simulator t.protocol n → Prop} (hcond : ∀ s, cond s → t.stalls → t.lawful.Clear s)
    {y : Traced t.protocol n} (hy : Traced.EndOfCycleWhile settings versions cond y) (i : Fin n)
    (addr : PAddr) : Caused y.messages i addr where
  reads := askedBy_le t.regular t.allows_reads hcond hy i addr
  writes := askedBy_le t.regular t.allows_writes hcond hy i addr

/-- With every protocol, a cache asks for a block again only if another cache has asked for it: for
reading only after a `GETM`, for writing only after a request. With `MOESI` this holds as long as no
read is granted for a block that its owner upgrades. -/
theorem requests_caused {n : ℕ} (settings : Settings n) (versions : PAddr → ℕ) (i : Fin n)
    (addr : PAddr) :
    (∀ t ≠ ProtocolT.MOESI_PRO, ∀ y : Traced t.protocol n,
      Traced.EndOfCycle settings versions y → Caused y.messages i addr) ∧
    ∀ y : Traced MOESI.protocol n,
      Traced.EndOfCycleWhile settings versions MOESI.NoReadMeetsUpgrade y →
        Caused y.messages i addr :=
  ⟨fun t ht _ hy ↦ t.caused (fun s _ ↦ t.clear_of_ne ht s) hy i addr,
    fun _ hy ↦ ProtocolT.MOESI_PRO.caused
      (fun _ hs _ ↦ MOESI.clear_of_noReadMeetsUpgrade hs) hy i addr⟩

/-- Both nodes have written block 0, each after one `GETM`. -/
theorem requests_caused_storeRace : ∃ y : Traced MSI.protocol 2,
    Traced.EndOfCycle storeRace (fun _ ↦ 0) y ∧
      y.messages.map Mreq.msg = [.GETM, .DATA, .GETM, .DATA] ∧ Caused y.messages (1 : Fin 2) 0 := by
  obtain ⟨y, hy, hmessages⟩ : ∃ y : Traced MSI.protocol 2,
      Traced.EndOfCycle storeRace (fun _ ↦ 0) y ∧
        y.messages.map Mreq.msg = [.GETM, .DATA, .GETM, .DATA] :=
    Loop.exists_endOfBody 6 (by decide +kernel)
  exact ⟨y, hy, hmessages,
    (requests_caused storeRace (fun _ ↦ 0) 1 0).1 .MSI_PRO (by decide) y hy⟩

end ArchSim.Coherence
