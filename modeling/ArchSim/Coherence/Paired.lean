import ArchSim.Coherence.Transactions

/-!
# A request and its data

What holds from the cycle in which a request appears on the bus until the cycle of its data. A
property of the request's appearance and of the state has to hold at the end of the first of these
cycles and to be kept while the memory looks the block up; what the last cycle makes of it then
holds of every request and its data in every run.
-/

namespace ArchSim.Coherence

open Library Snooping

variable {P : Protocol} {n : ℕ} {drives : Bool}

/-! ## One entry in one cycle -/

/-- What the request of the node's processor may make of the entry for `addr`. -/
inductive ProcMove (P : Protocol) (mid : ModuleID) (node : Node P.State) (addr : PAddr) :
    P.State → Prop where
  | same : ProcMove P mid node addr (node.cache.myEntries addr)
  | asked {request o} : node.cache.procRequest = some request → request.addr = addr →
      P.processCacheRequest.outcome mid (node.cache.myEntries addr) false request = .ok o →
      ProcMove P mid node addr o.state

section

variable {mid : ModuleID} {message : Option Mreq} {wire : Bool} {node : Node P.State}
  {e : CacheEffect P.State} {addr : PAddr} {q : Mreq}

theorem ProcMove.preserves {α : Type*} {f : P.State → α} {state : P.State}
    (h : ProcMove P mid node addr state)
    (hf : ∀ {request o}, P.processCacheRequest.outcome mid (node.cache.myEntries addr) false
      request = .ok o → f o.state = f (node.cache.myEntries addr)) :
    f state = f (node.cache.myEntries addr) := by
  cases h with
  | same => rfl
  | asked _ _ hout => exact hf hout

/-- An entry in which no request of the processor is taken up is left alone. -/
theorem ProcMove.eq_of_stalled {state : P.State} (h : ProcMove P mid node addr state)
    (hstalled : ∀ {request o}, P.processCacheRequest.outcome mid (node.cache.myEntries addr) false
      request ≠ .ok o) : state = node.cache.myEntries addr :=
  h.preserves (f := id) fun hout ↦ absurd hout hstalled

theorem ProcMove.invariant {Q : P.State → Prop} {state : P.State}
    (h : ProcMove P mid node addr state) (hsame : Q (node.cache.myEntries addr))
    (hasked : ∀ {request o}, P.processCacheRequest.outcome mid (node.cache.myEntries addr) false
      request = .ok o → Q o.state) : Q state := by
  cases h with
  | same => exact hsame
  | asked _ _ hout => exact hasked hout

/-- An entry for which the processor has no request is left alone. -/
theorem ProcMove.eq_of_not_asked {state : P.State} (h : ProcMove P mid node addr state)
    (hnot : ∀ request ∈ node.cache.procRequest, request.addr ≠ addr) :
    state = node.cache.myEntries addr := by
  cases h with
  | same => rfl
  | asked hrequest haddr _ => exact absurd haddr (hnot _ hrequest)

theorem ProcEffect.move (h : ProcEffect P mid node e) (addr : PAddr) :
    ProcMove P mid node addr (e.node.cache.myEntries addr) := by
  cases h with
  | idle _ => exact .same
  | @handled request o hrequest hout _ =>
    change ProcMove P mid node addr (Function.update node.cache.myEntries request.addr o.state addr)
    by_cases haddr : addr = request.addr
    · subst haddr
      rw [Function.update_self]
      exact .asked hrequest rfl hout
    · rw [Function.update_of_ne haddr]
      exact .same

/-- A message for another block, and data for another cache, leave the entry alone. -/
theorem SnoopEffect.entry_eq (h : SnoopEffect P mid message wire node e)
    (hnot : ∀ q ∈ message, q.addr = addr → q.msg = .DATA ∧ q.destMid ≠ mid) :
    e.node.cache.myEntries addr = node.cache.myEntries addr := by
  cases h with
  | idle _ => rfl
  | @handled request o hmessage hmine _ _ =>
    have hne : addr ≠ request.addr := fun haddr ↦ hmine (hnot request hmessage haddr.symm)
    exact Function.update_of_ne hne _ _

theorem SnoopEffect.entry_snooped (h : SnoopEffect P mid message wire node e)
    (hmessage : message = some q) (hmine : q.msg = .DATA → q.destMid = mid) :
    ∃ o, P.processSnoopRequest.outcome mid (node.cache.myEntries q.addr)
        (q.msg = .DATA && wire) q = .ok o ∧
      e.node.cache.myEntries q.addr = o.state ∧
      e.toTraffic = { o.toTraffic with accesses := 0 } := by
  cases h with
  | idle hidle => exact absurd (hmine (hidle q hmessage).1) (hidle q hmessage).2
  | @handled request o hmessage' _ hout _ =>
    obtain rfl := Option.some.inj (hmessage.symm.trans hmessage')
    exact ⟨o, hout, Function.update_self _ _ _, rfl⟩

theorem TickEffect.entry_passed (h : TickEffect P mid message wire node e)
    (hnot : ∀ q ∈ message, q.addr = addr → q.msg = .DATA ∧ q.destMid ≠ mid) :
    ProcMove P mid node addr (e.node.cache.myEntries addr) := by
  obtain ⟨e₁, e₂, he₁, he₂, rfl⟩ := h
  have hsame : e₂.node.cache.myEntries addr = e₁.node.cache.myEntries addr := he₂.entry_eq hnot
  change ProcMove P mid node addr (e₂.node.cache.myEntries addr)
  rw [hsame]
  exact he₁.move addr

/-- The entry is first in the state `σ` that the processor's request leaves, and then snoops the
message. -/
theorem TickEffect.entry_snooped (hP : Regular P drives)
    (h : TickEffect P mid message wire node e) (hmessage : message = some q)
    (hmine : q.msg = .DATA → q.destMid = mid) :
    ∃ σ o wire', (drives = false → wire' = wire) ∧ ProcMove P mid node q.addr σ ∧
      P.processSnoopRequest.outcome mid σ (q.msg = .DATA && wire') q = .ok o ∧
      e.node.cache.myEntries q.addr = o.state ∧ e.reply = o.reply ∧
      (drives = false → e.shared = o.shared) := by
  obtain ⟨e₁, e₂, he₁, he₂, rfl⟩ := h
  obtain ⟨o, hout, hstate, htraffic⟩ := he₂.entry_snooped hmessage hmine
  have hwire (hdrives : drives = false) : e₁.shared = false :=
    eq_false_of_ne_true fun hshared ↦ by
      rw [he₁.drives_of_shared hP hshared] at hdrives
      cases hdrives
  refine ⟨_, o, _, fun hdrives ↦ ?_, he₁.move q.addr, hout, hstate, ?_, fun hdrives ↦ ?_⟩
  · rw [hwire hdrives, Bool.or_false]
  · change e₂.reply.or e₁.reply = o.reply
    rw [he₁.reply_eq hP, Option.or_none, htraffic]
  · change (e₁.shared || e₂.shared) = o.shared
    rw [hwire hdrives, Bool.false_or, htraffic]

end

section

variable {s s₁ s₂ s₃ s' : Simulator P n} {effect : Fin n → CacheEffect P.State} {x : Traffic}
  {q : Mreq} {addr : PAddr} {i : Fin n}

theorem CycleRan.entry_passed (h : CycleRan drives s s₁ s₂ s₃ s' effect x)
    (hnot : ∀ q ∈ s.busTick.bus.currentRequest, q.addr = addr →
      q.msg = .DATA ∧ q.destMid ≠ l1 i) :
    ProcMove P (l1 i) (s.nodes i) addr (s'.entry i addr) := by
  obtain ⟨wire, -, htick⟩ := h.caches.tick i i.isLt
  rw [Simulator.entry, h.entries]
  exact htick.entry_passed hnot

theorem CycleRan.entry_snooped (hP : Regular P drives)
    (h : CycleRan drives s s₁ s₂ s₃ s' effect x) (hcurrent : s.busTick.bus.currentRequest = some q)
    (hmine : q.msg = .DATA → q.destMid = l1 i) :
    ∃ σ o wire, (drives = false → wire = s.busTick.bus.sharedLine) ∧
      ProcMove P (l1 i) (s.nodes i) q.addr σ ∧
      P.processSnoopRequest.outcome (l1 i) σ (q.msg = .DATA && wire) q = .ok o ∧
      s'.entry i q.addr = o.state ∧ (effect i).reply = o.reply ∧
      (drives = false → (effect i).shared = o.shared) := by
  obtain ⟨wire, hwire, htick⟩ := h.caches.tick i i.isLt
  obtain ⟨σ, o, wire', hwire', hmove, hout, hstate, hreply, hshared⟩ :=
    htick.entry_snooped hP hcurrent hmine
  refine ⟨σ, o, wire', fun hdrives ↦ ?_, hmove, hout, ?_, hreply, hshared⟩
  · rw [hwire' hdrives, hwire hdrives]
  · rw [Simulator.entry, h.entries, hstate]

end

/-! ## Pairs -/

/-- In the list each request is followed by its data, to which it is related by `Post`; the last
request may be in progress. -/
inductive Paired (Post : Appearance P n → Appearance P n → Prop) :
    List (Appearance P n) → Option (Appearance P n) → Prop where
  | nil : Paired Post [] none
  | request {l q} : Paired Post l none → Paired Post (l ++ [q]) (some q)
  | data {l q d} : Paired Post l (some q) → Answers n q.message d.message → Post q d →
      Paired Post (l ++ [d]) none

namespace Paired

variable {Post : Appearance P n → Appearance P n → Prop} {l l' : List (Appearance P n)}
  {o : Option (Appearance P n)} {q : Appearance P n}

/-- The last message, if it is a request, is the one in progress. -/
theorem eq_some_of_append (h : Paired Post l o) (hl : l = l' ++ [q])
    (hq : q.message.isRequest = true) : o = some q := by
  cases h with
  | nil => simp at hl
  | request _ =>
    obtain ⟨-, hlast⟩ := List.append_inj' hl rfl
    rw [List.singleton_inj.mp hlast]
  | data _ hd _ =>
    obtain ⟨-, hlast⟩ := List.append_inj' hl rfl
    cases hq.symm.trans (List.singleton_inj.mp hlast ▸ hd.isRequest)

/-- Two neighbours in a list are its end, or stand before its last element. -/
theorem neighbours_cases {pre post : List (Appearance P n)} {a d : Appearance P n}
    (hl : l ++ [a] = pre ++ q :: d :: post) :
    l = pre ++ [q] ∧ a = d ∨ ∃ post', l = pre ++ q :: d :: post' := by
  rcases post.eq_nil_or_concat with rfl | ⟨post', b, rfl⟩
  · have hend : l ++ [a] = (pre ++ [q]) ++ [d] := by simpa using hl
    obtain ⟨hinit, hlast⟩ := List.append_inj' hend rfl
    exact .inl ⟨hinit, List.singleton_inj.mp hlast⟩
  · have hend : l ++ [a] = (pre ++ q :: d :: post') ++ [b] := by simpa using hl
    exact .inr ⟨post', (List.append_inj' hend rfl).1⟩

/-- The message behind a request is its data. -/
theorem post_of_append (h : Paired Post l o) {pre post : List (Appearance P n)}
    {d : Appearance P n} (hl : l = pre ++ q :: d :: post) (hq : q.message.isRequest = true) :
    Answers n q.message d.message ∧ Post q d := by
  induction h generalizing post with
  | nil => simp at hl
  | request hprev ih =>
    rcases neighbours_cases hl with ⟨hprev', -⟩ | ⟨post', hl'⟩
    · cases hprev.eq_some_of_append hprev' hq
    · exact ih hl'
  | data hprev hanswers hpost ih =>
    rcases neighbours_cases hl with ⟨hprev', rfl⟩ | ⟨post', hl'⟩
    · obtain rfl := Option.some.inj (hprev.eq_some_of_append hprev' hq)
      exact ⟨hanswers, hpost⟩
    · exact ih hl'

theorem exists_neighbours {k : ℕ} {d : Appearance P n} (hq : l[k]? = some q)
    (hd : l[k + 1]? = some d) : ∃ pre post, l = pre ++ q :: d :: post := by
  obtain ⟨hk, rfl⟩ := List.getElem?_eq_some_iff.mp hq
  obtain ⟨hk', rfl⟩ := List.getElem?_eq_some_iff.mp hd
  refine ⟨l.take k, l.drop (k + 2), ?_⟩
  rw [← List.drop_eq_getElem_cons hk', ← List.drop_eq_getElem_cons hk, List.take_append_drop]

end Paired

/-- `During` holds from the cycle in which a request appears, if that starts in a state with
`Good`, until its data does, and makes `Post` hold of the two. -/
structure Carries (drives : Bool) (Good : Simulator P n → Prop)
    (During : Appearance P n → Simulator P n → Prop)
    (Post : Appearance P n → Appearance P n → Prop) : Prop where
  start : ∀ {s s₁ s₂ s₃ s' effect x q rest tr'}, Good s → Transaction.quiet.Holds s →
    s.bus.pendingRequests = q :: rest → CycleRan drives s s₁ s₂ s₃ s' effect x →
    Transaction.Next n (some q) x.reply .quiet tr' → tr'.Holds s' →
    During ⟨q, s.entry, s'.entry⟩ s'
  wait : ∀ {a s s₁ s₂ s₃ s' effect x}, (Transaction.lookup a.message).Holds s → During a s →
    CycleRan drives s s₁ s₂ s₃ s' effect x → During a s'
  finish : ∀ {a d s s₁ s₂ s₃ s' effect x}, (Transaction.replied a.message d).Holds s →
    During a s → CycleRan drives s s₁ s₂ s₃ s' effect x → Post a ⟨d, s.entry, s'.entry⟩

/-- The records and the state agree on the transaction, and the request in progress has been
carried so far. -/
structure Carried (settings : Settings n) (During : Appearance P n → Simulator P n → Prop)
    (Post : Appearance P n → Appearance P n → Prop) (y : Traced P n) (tr : Transaction)
    (o : Option (Appearance P n)) : Prop where
  served : Served settings y tr
  paired : Paired Post y.appeared o
  request : o.map Appearance.message = tr.request
  during : ∀ a ∈ o, During a y.sim

section

variable {Good : Simulator P n → Prop} {During : Appearance P n → Simulator P n → Prop}
  {Post : Appearance P n → Appearance P n → Prop} {settings : Settings n} {versions : PAddr → ℕ}
  {cond : Simulator P n → Prop} {y y' : Traced P n} {tr tr' : Transaction}
  {o : Option (Appearance P n)} {q d : Mreq} {s₁ s₂ s₃ : Simulator P n}
  {effect : Fin n → CacheEffect P.State} {x : Traffic}

/-- What the cycle from `y` to `y'` has recorded. -/
theorem Traced.appeared_of_cycle (hy' : y.cycle = .ok y') {message : Option Mreq}
    (hmessage : y.sim.busTick.bus.currentRequest = message) :
    y'.appeared = y.appeared ++
      (message.map fun message ↦ ⟨message, y.sim.entry, y'.sim.entry⟩).toList := by
  obtain ⟨-, -, hrecord⟩ := Traced.of_cycle hy'
  rw [hrecord, ← hmessage]
  rfl

theorem Transaction.Holds.pending_of_current {s : Simulator P n} (h : Transaction.quiet.Holds s)
    (hcurrent : s.busTick.bus.currentRequest = some q) :
    ∃ rest, s.bus.pendingRequests = q :: rest := by
  cases hqueue : s.bus.pendingRequests with
  | nil =>
    rw [h.busTick_of_nil hqueue] at hcurrent
    cases hcurrent
  | cons r rest =>
    rw [h.busTick_of_cons hqueue] at hcurrent
    exact ⟨rest, by rw [Option.some.inj hcurrent]⟩

namespace Carried

theorem granted (hcarries : Carries drives Good During Post)
    (h : Carried settings During Post y .quiet o) (hgood : Good y.sim)
    (hran : CycleRan drives y.sim s₁ s₂ s₃ y'.sim effect x) (hy' : y.cycle = .ok y')
    (hmessage : y.sim.busTick.bus.currentRequest = some q)
    (hnext : Transaction.Next n (some q) x.reply .quiet tr') (hserved' : Served settings y' tr')
    (hrequest' : tr'.request = some q) :
    Carried settings During Post y' tr' (some ⟨q, y.sim.entry, y'.sim.entry⟩) := by
  obtain ⟨rest, hpending⟩ := h.served.holds.pending_of_current hmessage
  have ho : o = none := Option.map_eq_none_iff.mp h.request
  refine ⟨hserved', ?_, hrequest'.symm, ?_⟩
  · rw [Traced.appeared_of_cycle hy' hmessage]
    exact .request (ho ▸ h.paired)
  · rintro a ⟨⟩
    exact hcarries.start hgood h.served.holds hpending hran hnext hserved'.holds

theorem waited (hcarries : Carries drives Good During Post)
    (h : Carried settings During Post y (.lookup q) o)
    (hran : CycleRan drives y.sim s₁ s₂ s₃ y'.sim effect x) (hy' : y.cycle = .ok y')
    (hmessage : y.sim.busTick.bus.currentRequest = none)
    (hserved' : Served settings y' tr') (hrequest' : tr'.request = some q) :
    Carried settings During Post y' tr' o := by
  refine ⟨hserved', ?_, h.request.trans hrequest'.symm, fun a ha ↦ ?_⟩
  · rw [Traced.appeared_of_cycle hy' hmessage]
    simpa using h.paired
  · have hq : a.message = q := by
      have hrequest := h.request
      rw [ha] at hrequest
      exact Option.some.inj hrequest
    exact hcarries.wait (hq ▸ h.served.holds) (h.during a ha) hran

theorem delivered (hcarries : Carries drives Good During Post)
    (h : Carried settings During Post y (.replied q d) o)
    (hran : CycleRan drives y.sim s₁ s₂ s₃ y'.sim effect x) (hy' : y.cycle = .ok y')
    (hmessage : y.sim.busTick.bus.currentRequest = some d)
    (hserved' : Served settings y' .quiet) : Carried settings During Post y' .quiet none := by
  obtain ⟨a, rfl, hq⟩ := Option.map_eq_some_iff.mp h.request
  refine ⟨hserved', ?_, rfl, by simp⟩
  rw [Traced.appeared_of_cycle hy' hmessage]
  refine .data h.paired (hq ▸ h.served.holds.2.1) ?_
  exact hcarries.finish (hq ▸ h.served.holds) (h.during a rfl) hran

/-- A cycle begins to carry a request, carries it on, or ends with its data. -/
theorem cycle (hP : Regular P drives) (hcarries : Carries drives Good During Post)
    (h : Carried settings During Post y tr o) (hgood : Good y.sim) (hy' : y.cycle = .ok y') :
    ∃ tr' o', Carried settings During Post y' tr' o' := by
  obtain ⟨s₁, s₂, s₃, effect, x, tr', hran, hnext, hserved'⟩ := h.served.cycle hP hy'
  generalize hmessage : y.sim.busTick.bus.currentRequest = message at hnext
  generalize hreply : x.reply = reply at hnext
  cases hnext with
  | idle =>
    refine ⟨_, o, hserved', ?_, h.request, ?_⟩
    · rw [Traced.appeared_of_cycle hy' hmessage]
      simpa using h.paired
    · rw [Option.map_eq_none_iff.mp h.request]
      simp
  | @grant q hq =>
    have hnext : Transaction.Next n (some q) x.reply .quiet (.lookup q) := by
      rw [hreply]
      exact .grant hq
    exact ⟨_, _, h.granted hcarries hgood hran hy' hmessage hnext hserved' rfl⟩
  | @answer q d i hq hd =>
    have hnext : Transaction.Next n (some q) x.reply .quiet (.replied q d) := by
      rw [hreply]
      exact .answer hq hd
    exact ⟨_, _, h.granted hcarries hgood hran hy' hmessage hnext hserved' rfl⟩
  | wait | supply => exact ⟨_, _, h.waited hcarries hran hy' hmessage hserved' rfl⟩
  | deliver _ => exact ⟨_, _, h.delivered hcarries hran hy' hmessage hserved'⟩

theorem of_endOfCycle (hP : Regular P drives) (hcarries : Carries drives Good During Post)
    (hgood : ∀ y, Traced.LoopHeadWhile settings versions cond y → cond y.sim → Good y.sim)
    (h : Traced.EndOfCycleWhile settings versions cond y) :
    ∃ tr o, Carried settings During Post y tr o := by
  refine h.preserved (I := fun y ↦ ∃ tr o, Carried settings During Post y tr o)
    ⟨.quiet, none, served_initial settings versions, .nil, rfl, by simp⟩ ?_
  rintro y y' hhead hcond hy' ⟨tr, o, hcarried⟩
  exact hcarried.cycle hP hcarries (hgood y hhead hcond) hy'

end Carried

/-- In every run, the message that appears next after a request is its data, and what has been
carried holds of the two. -/
theorem paired_of_endOfCycle (hP : Regular P drives) (hcarries : Carries drives Good During Post)
    (hgood : ∀ y, Traced.LoopHeadWhile settings versions cond y → cond y.sim → Good y.sim)
    (h : Traced.EndOfCycleWhile settings versions cond y) {pre post : List (Appearance P n)}
    {a b : Appearance P n} (happeared : y.appeared = pre ++ a :: b :: post)
    (ha : a.message.isRequest = true) : Answers n a.message b.message ∧ Post a b := by
  obtain ⟨tr, o, hcarried⟩ := Carried.of_endOfCycle hP hcarries hgood h
  exact hcarried.paired.post_of_append happeared ha

end

end ArchSim.Coherence
