import ArchSim.Coherence.BusCycle
import ArchSim.Coherence.Traced

/-!
# Transactions

A request stays on the bus until its data has been put there. Between two cycles the bus is quiet,
or the memory looks a block up, or data waits in `dataReply`; bus, caches and memory controller
agree on which of these it is. This needs nothing of the protocol but that its handlers are
regular.
-/

namespace ArchSim.Coherence

open Library Snooping

variable {P : Protocol} {n : ℕ} {drives : Bool}

/-- The message is a `GETS` or a `GETM` of some cache. -/
def IsRequest (n : ℕ) (q : Mreq) : Prop := ∃ r : Request (Fin n) PAddr, q = requestMessage r

/-- The message `d` is the data for the request `q`. -/
structure Answers (n : ℕ) (q d : Mreq) : Prop where
  msg : d.msg = .DATA
  addr : d.addr = q.addr
  destMid : d.destMid = q.srcMid
  source : d.srcMid = ⟨n, .MC⟩ ∨ ∃ i : Fin n, d.srcMid = l1 i

theorem IsRequest.msg_ne {q : Mreq} (h : IsRequest n q) : q.msg ≠ .DATA := by
  obtain ⟨r, rfl⟩ := h
  exact requestMessage_msg_ne

theorem IsRequest.msg_eq {q : Mreq} (h : IsRequest n q) : q.msg = .GETS ∨ q.msg = .GETM := by
  obtain ⟨⟨node, kind, addr⟩, rfl⟩ := h
  cases kind
  · exact .inl rfl
  · exact .inr rfl

theorem IsRequest.blockAddr_eq {q : Mreq} (h : IsRequest n q) : blockAddr q.addr = q.addr := by
  obtain ⟨r, rfl⟩ := h
  exact blockAddr_blockAddr r.addr

/-- Where the transaction on the bus is. -/
inductive Transaction where
  | quiet
  /-- The memory looks up the block of the request `q`. -/
  | lookup (q : Mreq)
  /-- The data `d` for the request `q` is in `dataReply`. -/
  | replied (q d : Mreq)

namespace Transaction

/-- The request in progress. -/
def request : Transaction → Option Mreq
  | quiet => none
  | lookup q | replied q _ => some q

/-- One cycle, with `message` on the bus and the data `reply` sent by a cache. -/
inductive Next (n : ℕ) : Option Mreq → Option Mreq → Transaction → Transaction → Prop where
  | idle : Next n none none quiet quiet
  | grant {q} : IsRequest n q → Next n (some q) none quiet (lookup q)
  | answer {q d} {i : Fin n} : IsRequest n q → d = cacheMessage .DATA q.addr (l1 i) q.srcMid →
      Next n (some q) (some d) quiet (replied q d)
  | wait {q} : Next n none none (lookup q) (lookup q)
  | supply {q} : Next n none none (lookup q) (replied q (memoryData n q))
  | deliver {q d} : d.msg = .DATA → Next n (some d) none (replied q d) quiet

theorem Next.isRequest {q : Mreq} {reply : Option Mreq} {tr : Transaction}
    (h : Next n (some q) reply quiet tr) : IsRequest n q := by
  cases h with
  | grant hq | answer hq _ => exact hq

theorem Next.of_lookup {q : Mreq} {message reply : Option Mreq} {tr : Transaction}
    (h : Next n message reply (lookup q) tr) : message = none := by
  cases h with
  | wait | supply => rfl

theorem Next.of_replied {q d : Mreq} {message reply : Option Mreq} {tr : Transaction}
    (h : Next n message reply (replied q d) tr) : message = some d ∧ d.msg = .DATA := by
  cases h with
  | deliver hd => exact ⟨rfl, hd⟩

/-- The memory has taken the request `q`, and no cache has answered it. -/
structure LooksUp (s : Simulator P n) (q : Mreq) : Prop where
  request : IsRequest n q
  requestInProgress : s.bus.requestInProgress = true
  dataReply : s.bus.dataReply = none
  mc : s.mc.requestInProgress = true
  addr : s.mc.dataAddr = q.addr
  target : s.mc.dataTarget = q.srcMid
  dataTime : s.mc.dataTime ≤ s.globalClock + s.mc.hitTime

/-- Bus and memory controller agree on the transaction. -/
def Holds (s : Simulator P n) : Transaction → Prop
  | quiet => s.bus.requestInProgress = false ∧ s.bus.dataReply = none ∧
      s.mc.requestInProgress = false
  | lookup q => LooksUp s q
  | replied q d => IsRequest n q ∧ Answers n q d ∧ s.bus.requestInProgress = true ∧
      s.bus.dataReply = some d

section

variable {s : Simulator P n} {q d : Mreq} {rest : List Mreq}

theorem Holds.busTick_of_nil (h : quiet.Holds s) (hpending : s.bus.pendingRequests = []) :
    s.busTick.bus = { s.bus with currentRequest := none } :=
  Bus.tick_of_nil h.1 hpending

theorem Holds.busTick_of_cons (h : quiet.Holds s) (hpending : s.bus.pendingRequests = q :: rest) :
    s.busTick.bus = { s.bus with
      sharedLine := false
      currentRequest := some q
      pendingRequests := rest
      requestInProgress := true } :=
  Bus.tick_of_cons h.1 hpending

theorem Holds.busTick_of_lookup (h : (lookup q).Holds s) :
    s.busTick.bus = { s.bus with currentRequest := none } :=
  Bus.tick_of_none h.requestInProgress h.dataReply

theorem Holds.busTick_of_replied (h : (replied q d).Holds s) :
    s.busTick.bus = { s.bus with
      currentRequest := some d, dataReply := none, requestInProgress := false } :=
  Bus.tick_of_some h.2.2.1 h.2.2.2

end

end Transaction

theorem answers_cacheMessage {q : Mreq} (hq : IsRequest n q) (i : Fin n) :
    Answers n q (cacheMessage .DATA q.addr (l1 i) q.srcMid) :=
  ⟨rfl, hq.blockAddr_eq, rfl, .inr ⟨i, rfl⟩⟩

theorem answers_memoryData {q : Mreq} (hq : IsRequest n q) : Answers n q (memoryData n q) :=
  ⟨rfl, hq.blockAddr_eq, rfl, .inl rfl⟩

variable {s s₁ s₂ s₃ s' : Simulator P n} {effect : Fin n → CacheEffect P.State} {x : Traffic}

/-- Only a request on the bus makes a cache send data. -/
theorem CachesPassed.reply_cases (hP : Regular P drives) (h : CachesPassed drives n s s' effect x)
    {d : Mreq} (hd : x.reply = some d) : ∃ q, ∃ i : Fin n, s.bus.currentRequest = some q ∧
      q.msg ≠ .DATA ∧ d = cacheMessage .DATA q.addr (l1 i) q.srcMid ∧
      (effect i).reply = some d := by
  obtain ⟨i, hi, hreply⟩ := (h.reply d).mp hd
  obtain ⟨wire, -, htick⟩ := h.tick i hi
  obtain ⟨q, hcurrent, hmsg, heq⟩ := htick.reply_eq hP hreply
  exact ⟨q, i, hcurrent, hmsg, heq, hreply⟩

theorem CachesPassed.reply_eq_none (hP : Regular P drives)
    (h : CachesPassed drives n s s' effect x)
    (hcurrent : ∀ q ∈ s.bus.currentRequest, q.msg = .DATA) : x.reply = none := by
  cases hreply : x.reply with
  | none => rfl
  | some d =>
    obtain ⟨q, -, hq, hmsg, -⟩ := h.reply_cases hP hreply
    exact absurd (hcurrent q hq) hmsg

namespace CycleRan

theorem bus₂ (h : CycleRan drives s s₁ s₂ s₃ s' effect x) :
    s₂.bus = x.onBus s.busTick.bus := by
  rw [h.before]
  exact h.caches.bus

theorem mc₂ (h : CycleRan drives s s₁ s₂ s₃ s' effect x) :
    s₂.mc = s.mc ∧ s₂.globalClock = s.globalClock := by
  rw [h.before]
  exact h.caches.mc

theorem end_eq (h : CycleRan drives s s₁ s₂ s₃ s' effect x) :
    s'.bus = s₃.bus ∧ s'.mc = s₃.mc ∧ s'.globalClock = s.globalClock + 1 := by
  rw [h.after]
  exact ⟨rfl, rfl, rfl⟩

theorem requestInProgress_eq (h : CycleRan drives s s₁ s₂ s₃ s' effect x) :
    s'.bus.requestInProgress = s.busTick.bus.requestInProgress := by
  rw [h.bus]
  rfl

theorem pendingRequests_eq (h : CycleRan drives s s₁ s₂ s₃ s' effect x) :
    s'.bus.pendingRequests = s.busTick.bus.pendingRequests ++ x.requests := by
  rw [h.bus]
  rfl

theorem sharedLine_eq (h : CycleRan drives s s₁ s₂ s₃ s' effect x) :
    s'.bus.sharedLine = (s.busTick.bus.sharedLine || x.shared) := by
  rw [h.bus]
  rfl

/-- Nothing is on the bus: no cache sends data, and the memory only if it looks a block up. -/
theorem silent (hP : Regular P drives) (h : CycleRan drives s s₁ s₂ s₃ s' effect x)
    (hbus : s.busTick.bus = { s.bus with currentRequest := none }) :
    x.reply = none ∧ s₂.mcSend = .ok s₃ ∧ s₂.bus.dataReply = s.bus.dataReply := by
  have hcurrent : s.busTick.bus.currentRequest = none := by rw [hbus]
  have hreply : x.reply = none :=
    h.caches.reply_eq_none hP fun q hq ↦ nomatch hcurrent.symm.trans hq
  have hbus₂ : s₂.bus = x.onBus { s.bus with currentRequest := none } := hbus ▸ h.bus₂
  have hcurrent₂ : s₂.bus.currentRequest = none := by rw [hbus₂]; rfl
  refine ⟨hreply, ?_, ?_⟩
  · rw [← tickMc_of_none hcurrent₂]
    exact h.memory
  · rw [hbus₂]
    simp [Traffic.onBus, hreply]

variable {q : Mreq} {rest : List Mreq}

theorem next_idle (hP : Regular P drives) (h : CycleRan drives s s₁ s₂ s₃ s' effect x)
    (hold : Transaction.quiet.Holds s) (hpending : s.bus.pendingRequests = []) :
    Transaction.Next n s.busTick.bus.currentRequest x.reply .quiet .quiet ∧
      Transaction.quiet.Holds s' := by
  have hbus := hold.busTick_of_nil hpending
  obtain ⟨hprogress, hslot, hmc⟩ := hold
  obtain ⟨hreply, hsend, hslot₂⟩ := h.silent hP hbus
  have hcurrent : s.busTick.bus.currentRequest = none := by rw [hbus]
  refine ⟨by rw [hcurrent, hreply]; exact .idle, ?_, ?_, ?_⟩
  · rw [h.requestInProgress_eq, hbus]
    exact hprogress
  all_goals
    rcases mcSend_cases hsend with ⟨rfl, -⟩ | ⟨hlookup, -⟩
  · rw [h.end_eq.1, hslot₂, hslot]
  · rw [h.mc₂.1, hmc] at hlookup
    cases hlookup
  · rw [h.end_eq.2.1, h.mc₂.1, hmc]
  · rw [h.mc₂.1, hmc] at hlookup
    cases hlookup

theorem next_lookup (hP : Regular P drives) (h : CycleRan drives s s₁ s₂ s₃ s' effect x)
    (hold : (Transaction.lookup q).Holds s) :
    ∃ tr, Transaction.Next n s.busTick.bus.currentRequest x.reply (.lookup q) tr ∧
      tr.Holds s' := by
  have hbus := hold.busTick_of_lookup
  obtain ⟨hreply, hsend, hslot₂⟩ := h.silent hP hbus
  have hcurrent : s.busTick.bus.currentRequest = none := by rw [hbus]
  have hprogress : s'.bus.requestInProgress = true := by
    rw [h.requestInProgress_eq, hbus]
    exact hold.requestInProgress
  obtain ⟨hbus', hmc', hclock'⟩ := h.end_eq
  rcases mcSend_cases hsend with ⟨rfl, -⟩ | ⟨-, -, rfl⟩
  · refine ⟨.lookup q, by rw [hcurrent, hreply]; exact .wait, hold.request, hprogress, ?_, ?_, ?_,
      ?_, ?_⟩
    · rw [hbus', hslot₂, hold.dataReply]
    · rw [hmc', h.mc₂.1, hold.mc]
    · rw [hmc', h.mc₂.1, hold.addr]
    · rw [hmc', h.mc₂.1, hold.target]
    · rw [hmc', h.mc₂.1, hclock']
      exact hold.dataTime.trans (Nat.add_le_add_right (Nat.le_succ _) _)
  · have hdata : s'.bus.dataReply = some (memoryData n q) := by
      rw [hbus', memoryData, ← hold.addr, ← hold.target, ← h.mc₂.1]
    exact ⟨.replied q (memoryData n q), by rw [hcurrent, hreply]; exact .supply, hold.request,
      answers_memoryData hold.request, hprogress, hdata⟩

theorem next_granted (hP : Regular P drives) (h : CycleRan drives s s₁ s₂ s₃ s' effect x)
    (hold : Transaction.quiet.Holds s) (hpending : s.bus.pendingRequests = q :: rest)
    (hq : IsRequest n q) (hpos : 0 < s.mc.hitTime) :
    ∃ tr, Transaction.Next n s.busTick.bus.currentRequest x.reply .quiet tr ∧ tr.Holds s' := by
  have hbus := hold.busTick_of_cons hpending
  obtain ⟨-, hslot, -⟩ := hold
  have hcurrent : s.busTick.bus.currentRequest = some q := by rw [hbus]
  have hcurrent₂ : s₂.bus.currentRequest = some q := by rw [h.bus₂, ← hcurrent]; rfl
  have hpos₂ : 0 < s₂.mc.hitTime := by rwa [h.mc₂.1]
  have hstart : s₃ = s₂.startLookup q := tickMc_of_request hcurrent₂ hq.msg_ne hpos₂ h.memory
  have hslot₃ : s₃.bus.dataReply = x.reply := by
    rw [hstart]
    change s₂.bus.dataReply = _
    rw [h.bus₂, hbus]
    simp [Traffic.onBus, hslot]
  have hprogress' : s'.bus.requestInProgress = true := by rw [h.requestInProgress_eq, hbus]
  obtain ⟨hbus', hmc', hclock'⟩ := h.end_eq
  rw [hcurrent]
  cases hreply : x.reply with
  | none =>
    refine ⟨.lookup q, .grant hq, hq, hprogress', ?_, ?_, ?_, ?_, ?_⟩
    · rw [hbus', hslot₃, hreply]
    all_goals rw [hmc', hstart]
    · rfl
    · rfl
    · rfl
    · change s₂.globalClock + s₂.mc.hitTime ≤ s'.globalClock + s₂.mc.hitTime
      rw [hclock', h.mc₂.2]
      exact Nat.add_le_add_right (Nat.le_succ _) _
  | some d =>
    obtain ⟨q', i, hq', -, hd, -⟩ := h.caches.reply_cases hP hreply
    obtain rfl := Option.some.inj (hcurrent.symm.trans hq')
    refine ⟨.replied q d, .answer hq hd, hq, hd ▸ answers_cacheMessage hq i, hprogress', ?_⟩
    rw [hbus', hslot₃, hreply]

theorem next_replied (hP : Regular P drives) (h : CycleRan drives s s₁ s₂ s₃ s' effect x) {d : Mreq}
    (hold : (Transaction.replied q d).Holds s) :
    Transaction.Next n s.busTick.bus.currentRequest x.reply (.replied q d) .quiet ∧
      Transaction.quiet.Holds s' := by
  have hbus := hold.busTick_of_replied
  obtain ⟨-, hanswers, -, -⟩ := hold
  have hcurrent : s.busTick.bus.currentRequest = some d := by rw [hbus]
  have hreply : x.reply = none := h.caches.reply_eq_none hP fun d' hd' ↦ by
    rw [← Option.some.inj (hcurrent.symm.trans hd')]
    exact hanswers.msg
  have hcurrent₂ : s₂.bus.currentRequest = some d := by rw [h.bus₂, ← hcurrent]; rfl
  have hend : s₃ = s₂.endLookup :=
    Except.ok.inj (h.memory.symm.trans (tickMc_of_data hcurrent₂ hanswers.msg))
  obtain ⟨hbus', hmc', -⟩ := h.end_eq
  refine ⟨by rw [hcurrent, hreply]; exact .deliver hanswers.msg, ?_, ?_, ?_⟩
  · rw [h.requestInProgress_eq, hbus]
  · rw [hbus', hend]
    change s₂.bus.dataReply = none
    rw [h.bus₂, hbus]
    simp [Traffic.onBus, hreply]
  · rw [hmc', hend]
    rfl

/-- Every cycle is a step of the transaction. -/
theorem next (hP : Regular P drives) (h : CycleRan drives s s₁ s₂ s₃ s' effect x)
    {tr : Transaction} (hold : tr.Holds s) (hpending : ∀ r ∈ s.bus.pendingRequests, IsRequest n r)
    (hpos : 0 < s.mc.hitTime) :
    ∃ tr', Transaction.Next n s.busTick.bus.currentRequest x.reply tr tr' ∧ tr'.Holds s' := by
  cases tr with
  | quiet =>
    cases hqueue : s.bus.pendingRequests with
    | nil => exact ⟨_, h.next_idle hP hold hqueue⟩
    | cons q rest => exact h.next_granted hP hold hqueue (hpending q (by simp [hqueue])) hpos
  | lookup q => exact h.next_lookup hP hold
  | replied q d => exact ⟨_, h.next_replied hP hold⟩

end CycleRan

/-! ## Runs -/

def Mreq.isRequest (message : Mreq) : Bool := message.msg = .GETS || message.msg = .GETM

def Mreq.isData (message : Mreq) : Bool := message.msg = .DATA

theorem IsRequest.isRequest {q : Mreq} (h : IsRequest n q) : q.isRequest = true := by
  rcases h.msg_eq with hmsg | hmsg <;> simp [Mreq.isRequest, hmsg]

theorem IsRequest.isData {q : Mreq} (h : IsRequest n q) : q.isData = false :=
  decide_eq_false h.msg_ne

theorem Answers.isRequest {q d : Mreq} (h : Answers n q d) : d.isRequest = false := by
  simp [Mreq.isRequest, h.msg]

/-- In the list of messages each request is followed by its data, and by nothing else; the last
request may be in progress. -/
inductive Matched (n : ℕ) : List Mreq → Option Mreq → Prop where
  | nil : Matched n [] none
  | request {l q} : Matched n l none → IsRequest n q → Matched n (l ++ [q]) (some q)
  | data {l q d} : Matched n l (some q) → Answers n q d → Matched n (l ++ [d]) none

/-- The messages of the run so far and its state agree on the transaction `tr`. -/
structure Served (settings : Settings n) (x : Traced P n) (tr : Transaction) : Prop where
  holds : tr.Holds x.sim
  matched : Matched n x.messages tr.request
  pushed : x.pushed = x.messages.filter Mreq.isRequest ++ x.sim.bus.pendingRequests
  pending : ∀ r ∈ x.sim.bus.pendingRequests, IsRequest n r
  hitTime : x.sim.mc.hitTime = settings.hitTime

theorem served_initial (settings : Settings n) (versions : PAddr → ℕ) :
    Served settings (.initial P settings versions) .quiet :=
  ⟨⟨rfl, rfl, rfl⟩, .nil, rfl, fun _ hr ↦ absurd hr List.not_mem_nil, rfl⟩

/-- The bus takes the first request that waits, and leaves the others. -/
theorem Transaction.Holds.busTick_pending {tr : Transaction} (h : tr.Holds s)
    (hpending : ∀ r ∈ s.bus.pendingRequests, IsRequest n r) :
    s.bus.pendingRequests = s.busTick.bus.currentRequest.toList.filter Mreq.isRequest ++
      s.busTick.bus.pendingRequests := by
  cases tr with
  | quiet =>
    cases hqueue : s.bus.pendingRequests with
    | nil => simp [h.busTick_of_nil hqueue, hqueue]
    | cons q rest =>
      have hq : q.isRequest = true := (hpending q (by simp [hqueue])).isRequest
      simp [h.busTick_of_cons hqueue, hq]
  | lookup q => simp [h.busTick_of_lookup]
  | replied q d => simp [h.busTick_of_replied, h.2.1.isRequest]

theorem Transaction.Next.matched {message reply : Option Mreq} {tr tr' : Transaction}
    (h : Transaction.Next n message reply tr tr') (hold : tr.Holds s) {l : List Mreq}
    (hmatched : Matched n l tr.request) : Matched n (l ++ message.toList) tr'.request := by
  cases h with
  | idle | wait | supply => simpa [Transaction.request] using hmatched
  | grant hq => exact hmatched.request hq
  | answer hq _ => exact hmatched.request hq
  | deliver _ => exact hmatched.data hold.2.1

/-- The requests that the caches have queued are recorded. -/
theorem CycleRan.pushed_eq {y y' : Traced P n}
    (h : CycleRan drives y.sim s₁ s₂ s₃ y'.sim effect x) (hrecord : y' = y.record y'.state) :
    y'.pushed = y.pushed ++ x.requests := by
  rw [hrecord]
  change y.pushed ++ y'.sim.bus.pendingRequests.drop _ = _
  rw [h.pendingRequests_eq, List.drop_left]

/-- A recorded cycle, seen as a step of the transaction. -/
theorem Served.cycle (hP : Regular P drives) {settings : Settings n} {y y' : Traced P n}
    {tr : Transaction} (h : Served settings y tr) (hy' : y.cycle = .ok y') :
    ∃ s₁ s₂ s₃ effect x tr', CycleRan drives y.sim s₁ s₂ s₃ y'.sim effect x ∧
      Transaction.Next n y.sim.busTick.bus.currentRequest x.reply tr tr' ∧
      Served settings y' tr' := by
  obtain ⟨-, hsim, hrecord⟩ := Traced.of_cycle hy'
  obtain ⟨s₁, s₂, s₃, effect, x, hran⟩ := cycle_ran hP hsim
  have hpos : 0 < y.sim.mc.hitTime := h.hitTime ▸ settings.hitTime_pos
  obtain ⟨tr', hnext, hold'⟩ := hran.next hP h.holds h.pending hpos
  refine ⟨s₁, s₂, s₃, effect, x, tr', hran, hnext, hold', ?_, ?_, ?_, ?_⟩
  · rw [hrecord, Traced.record_messages]
    exact hnext.matched h.holds h.matched
  · rw [hran.pushed_eq hrecord, h.pushed, h.holds.busTick_pending h.pending, hrecord,
      Traced.record_messages, List.filter_append, Traced.record_sim, hran.pendingRequests_eq]
    simp only [List.append_assoc]
  · intro r hr
    rw [hran.pendingRequests_eq, List.mem_append] at hr
    rcases hr with hr | hr
    · exact h.pending r (by
        rw [h.holds.busTick_pending h.pending]
        exact List.mem_append_right _ hr)
    · exact hran.caches.requests r hr
  · exact hran.hitTime.trans h.hitTime

theorem served_of_loopHead (hP : Regular P drives) {settings : Settings n}
    {versions : PAddr → ℕ} {cond : Simulator P n → Prop} {y : Traced P n}
    (h : Traced.LoopHeadWhile settings versions cond y) : ∃ tr, Served settings y tr := by
  refine h.preserved (I := fun y ↦ ∃ tr, Served settings y tr)
    ⟨.quiet, served_initial settings versions⟩ ?_
  rintro y y' - - hy' ⟨tr, hserved⟩
  obtain ⟨-, -, -, -, -, tr', -, -, hserved'⟩ := hserved.cycle hP hy'
  exact ⟨tr', hserved'⟩

theorem served_of_endOfCycle (hP : Regular P drives) {settings : Settings n}
    {versions : PAddr → ℕ} {cond : Simulator P n → Prop} {y : Traced P n}
    (h : Traced.EndOfCycleWhile settings versions cond y) : ∃ tr, Served settings y tr := by
  obtain ⟨y₀, hhead, -, hy⟩ := h
  obtain ⟨tr, hserved⟩ := served_of_loopHead hP hhead
  obtain ⟨-, -, -, -, -, tr', -, -, hserved'⟩ := hserved.cycle hP hy
  exact ⟨tr', hserved'⟩

theorem Transaction.Holds.quiet_of_idle {tr : Transaction} (h : tr.Holds s)
    (hprogress : s.bus.requestInProgress = false) : tr = .quiet := by
  cases tr with
  | quiet => rfl
  | lookup q => cases hprogress.symm.trans h.requestInProgress
  | replied q d => cases hprogress.symm.trans h.2.2.1

/-- The memory controller has the request `q` in progress and will answer it in at most `hitTime`
cycles. -/
structure Simulator.LookingUp (s : Simulator P n) (q : Mreq) : Prop where
  requestInProgress : s.mc.requestInProgress = true
  dataAddr : s.mc.dataAddr = q.addr
  dataTarget : s.mc.dataTarget = q.srcMid
  dataTime : s.mc.dataTime ≤ s.globalClock + s.mc.hitTime

/-- The messages on the bus are requests, each followed by its data. The requests are those that
have been pushed, in the same order, and the last of these still wait. While a request is in
progress, its data is in the reply slot or the memory looks it up. -/
theorem transactions_matched (t : ProtocolT) {n : ℕ} (settings : Settings n)
    (versions : PAddr → ℕ) :
    (∀ s : Simulator t.protocol n, Simulator.EndOfCycle settings s →
      ∃ y : Traced t.protocol n, Traced.EndOfCycle settings versions y ∧ y.sim = s) ∧
    ∀ y : Traced t.protocol n, Traced.EndOfCycle settings versions y →
      ∃ inProgress, Matched n y.messages inProgress ∧
        y.pushed = y.messages.filter Mreq.isRequest ++ y.sim.bus.pendingRequests ∧
        y.sim.bus.requestInProgress = inProgress.isSome ∧
        ∀ q ∈ inProgress, (∃ d, y.sim.bus.dataReply = some d ∧ Answers n q d) ∨
          y.sim.LookingUp q := by
  refine ⟨fun s hs ↦ Traced.exists_of_endOfCycleWhile versions hs, fun y hy ↦ ?_⟩
  obtain ⟨tr, hserved⟩ := served_of_endOfCycle t.regular hy
  refine ⟨tr.request, hserved.matched, hserved.pushed, ?_, fun q hq ↦ ?_⟩
  · cases tr with
    | quiet => exact hserved.holds.1
    | lookup q => exact hserved.holds.requestInProgress
    | replied q d => exact hserved.holds.2.2.1
  · cases tr with
    | quiet => cases hq
    | lookup q' =>
      obtain rfl : q' = q := Option.some.inj hq
      have hlookup : Transaction.LooksUp y.sim q' := hserved.holds
      exact .inr ⟨hlookup.mc, hlookup.addr, hlookup.target, hlookup.dataTime⟩
    | replied q' d =>
      obtain rfl : q' = q := Option.some.inj hq
      exact .inl ⟨d, hserved.holds.2.2.2, hserved.holds.2.1⟩

theorem transactions_matched_storeRace : ∃ y : Traced MSI.protocol 2,
    Traced.EndOfCycle storeRace (fun _ ↦ 0) y ∧
      y.messages.map Mreq.msg = [.GETM, .DATA, .GETM] ∧ ∃ inProgress,
        Matched 2 y.messages inProgress ∧ y.sim.bus.requestInProgress = inProgress.isSome := by
  obtain ⟨y, hy, hmessages⟩ : ∃ y : Traced MSI.protocol 2,
      Traced.EndOfCycle storeRace (fun _ ↦ 0) y ∧
        y.messages.map Mreq.msg = [.GETM, .DATA, .GETM] :=
    Loop.exists_endOfBody 5 (by decide +kernel)
  obtain ⟨inProgress, hmatched, -, hprogress, -⟩ :=
    (transactions_matched .MSI_PRO storeRace fun _ ↦ 0).2 y hy
  exact ⟨y, hy, hmessages, inProgress, hmatched, hprogress⟩

end ArchSim.Coherence
