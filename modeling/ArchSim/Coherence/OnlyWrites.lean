import ArchSim.Coherence.NodeMap
import ArchSim.Coherence.Traffic

/-!
# MI is every protocol on stores

`MI` makes no difference between a load and a store. Of the other protocols it is what is left if
every access is a store: their entries are then `I`, `IM` or `M`, no `GETS` is sent, and the shared
wire is driven but decides nothing. So a run of `MI` on any traces and the run of another protocol
on the traces with a write for every read are the same cycle for cycle.
-/

namespace ArchSim.Coherence

open Library

/-! ## Loads taken for stores -/

def Message.asWrite : Message → Message
  | .LOAD => .STORE
  | msg => msg

def Mreq.asWrite (request : Mreq) : Mreq := { request with msg := request.msg.asWrite }

def TraceLine.asWrite (line : TraceLine) : TraceLine :=
  { line with c := if line.c = 'r' then 'w' else line.c }

/-- The settings with a write for every read. -/
def Settings.asWrites {n : ℕ} (settings : Settings n) : Settings n :=
  { settings with traces := fun i ↦ (settings.traces i).map TraceLine.asWrite }

/-- The states of `MI` in the other protocols. -/
def ProtocolT.ofMI : (t : ProtocolT) → MI.State → t.protocol.State
  | MI_PRO, state => state
  | MSI_PRO, .I => MSI.State.I
  | MSI_PRO, .IM => MSI.State.IM
  | MSI_PRO, .M => MSI.State.M
  | MESI_PRO, .I => MESI.State.I
  | MESI_PRO, .IM => MESI.State.IM
  | MESI_PRO, .M => MESI.State.M
  | MOESI_PRO, .I => MOESI.State.I
  | MOESI_PRO, .IM => MOESI.State.IM
  | MOESI_PRO, .M => MOESI.State.M
  | MOSI_PRO, .I => MOSI.State.I
  | MOSI_PRO, .IM => MOSI.State.IM
  | MOSI_PRO, .M => MOSI.State.M

/-- The simulator of the protocol `t` on stores that a simulator of `MI` stands for. -/
def ProtocolT.asWrites (t : ProtocolT) (n : ℕ) : NodeMap MI.protocol t.protocol n where
  state := t.ofMI
  request := Mreq.asWrite
  addr_request _ := rfl
  lines _ _ infile := infile.map TraceLine.asWrite

variable {n : ℕ} (t : ProtocolT)

/-! ## The handlers -/

theorem ProtocolT.initial_ofMI : t.ofMI MI.protocol.initial = t.protocol.initial := by
  cases t <;> rfl

/-- To a store every protocol does what `MI` does to any access. -/
theorem ProtocolT.cache_ofMI (c : Ctx MI.State) (request : Mreq) :
    Erases (Ctx.mapState t.ofMI) (MI.processCacheRequest c request)
      (t.protocol.processCacheRequest (c.mapState t.ofMI) request.asWrite) := by
  obtain ⟨mid, state, bus, buf, stats⟩ := c
  obtain ⟨msg, addr, source, dest⟩ := request
  cases t <;> cases state <;> cases msg <;> cases buf <;> rfl

theorem ProtocolT.snoop_ofMI (c : Ctx MI.State) (request : Mreq)
    (hmsg : request.msg = .GETM ∨ request.msg = .DATA) :
    Erases (Ctx.mapState t.ofMI) (MI.processSnoopRequest c request)
      (t.protocol.processSnoopRequest (c.mapState t.ofMI) request) := by
  obtain ⟨mid, state, ⟨current, pending, reply, progress, wire⟩, buf, stats⟩ := c
  obtain ⟨msg, addr, source, dest⟩ := request
  rcases hmsg with rfl | rfl <;> cases t <;> cases state <;> cases buf <;> cases reply <;> rfl

theorem MI.msg_of_requests {mid : ModuleID} {state : State} {wire : Bool} {request : Mreq}
    {o : Outcome State} (h : processCacheRequest.outcome mid state wire request = .ok o) {r : Mreq}
    (hr : r ∈ o.requests) : r.msg = .GETM := by
  obtain ⟨msg, addr, source, dest⟩ := request
  cases state <;> cases msg <;> cases h <;>
    first
      | exact congrArg Mreq.msg (List.mem_singleton.mp hr)
      | cases hr

/-! ## The processors -/

theorem TraceLine.request_asWrite (line : TraceLine) (nodeID : ℤ) :
    Erases Mreq.asWrite (line.request nodeID) (line.asWrite.request nodeID) := by
  obtain ⟨c, addr⟩ := line
  by_cases hread : c = 'r'
  · subst hread
    rfl
  · have hsame : asWrite ⟨c, addr⟩ = ⟨c, addr⟩ := by rw [asWrite, if_neg hread]
    rw [hsame]
    unfold Erases request
    split
    · exact absurd ‹_› hread
    · rfl
    · rfl

theorem Processor.complete_asWrites (i : Fin n) (pr : Processor) :
    Erases ((t.asWrites n).processor i) pr.complete ((t.asWrites n).processor i pr).complete := by
  obtain ⟨infile, ended, outstanding, inbound, buf⟩ := pr
  cases inbound with
  | none => rfl
  | some request =>
    unfold Erases complete
    by_cases hdata : request.msg = .DATA
    · simp only [NodeMap.processor, if_pos hdata]
      rfl
    · simp only [NodeMap.processor, if_neg hdata]
      rfl

theorem Node.fetch_asWrites (i : Fin n) (node : Node MI.State) (nodeID : ℤ) :
    Erases ((t.asWrites n).node i) (node.fetch nodeID)
      (((t.asWrites n).node i node).fetch nodeID) := by
  obtain ⟨cache, infile, ended, outstanding, inbound, buf⟩ := node
  cases infile with
  | nil =>
    change Except.map _ (if (ended || outstanding) = true then _ else _) =
      if (ended || outstanding) = true then _ else _
    split <;> rfl
  | cons line rest =>
    change Except.map _ (if (ended || outstanding) = true then _ else line.request nodeID >>= _) =
      if (ended || outstanding) = true then _ else line.asWrite.request nodeID >>= _
    split
    · rfl
    · exact (line.request_asWrite nodeID).bind fun _ ↦ rfl

theorem Simulator.tickPr_asWrites (s : Simulator MI.protocol n) (i : Fin n) :
    Erases (t.asWrites n).map (s.tickPr i) (((t.asWrites n).map s).tickPr i) := by
  have hnode : Erases ((t.asWrites n).node i) ((s.nodes i).tickPr i.val)
      (((t.asWrites n).node i (s.nodes i)).tickPr i.val) :=
    ((s.nodes i).pr.complete_asWrites t i).bind fun pr ↦
      Node.fetch_asWrites t i { s.nodes i with pr := pr } i.val
  exact hnode.bind fun node ↦ congrArg Except.ok ((t.asWrites n).map_setNode s i node).symm

/-! ## Runs -/

/-- Only `GETM`s wait for the bus, and bus and memory controller agree on the transaction. -/
structure OnlyGETM (s : Simulator MI.protocol n) : Prop where
  holds : ∃ tr : Transaction, tr.Holds s
  pending : ∀ q ∈ s.bus.pendingRequests, IsRequest n q ∧ q.msg = .GETM
  hitTime : 0 < s.mc.hitTime

theorem onlyGETM_initial (settings : Settings n) :
    OnlyGETM (.initial MI.protocol settings) :=
  ⟨⟨.quiet, rfl, rfl, rfl⟩, fun _ hq ↦ absurd hq List.not_mem_nil, settings.hitTime_pos⟩

variable {s s' : Simulator MI.protocol n}

theorem OnlyGETM.current (h : OnlyGETM s) :
    ∀ q ∈ s.busTick.bus.currentRequest, q.msg = .GETM ∨ q.msg = .DATA := by
  intro q hq
  obtain ⟨tr, hholds⟩ := h.holds
  cases tr with
  | quiet =>
    obtain ⟨rest, hpending⟩ := hholds.pending_of_current hq
    exact .inl (h.pending q (hpending ▸ List.mem_cons_self)).2
  | lookup q' =>
    rw [hholds.busTick_of_lookup] at hq
    cases hq
  | replied q' d =>
    rw [hholds.busTick_of_replied] at hq
    obtain rfl := Option.some.inj hq
    exact .inr hholds.2.1.msg

theorem OnlyGETM.cycle (h : OnlyGETM s) (hs' : s.cycle = .ok s') : OnlyGETM s' := by
  obtain ⟨s₁, s₂, s₃, effect, x, hran⟩ := cycle_ran MI.regular hs'
  obtain ⟨tr, hholds⟩ := h.holds
  have hrequest (q : Mreq) (hq : q ∈ s.bus.pendingRequests) : IsRequest n q := (h.pending q hq).1
  have hold (q : Mreq) (hq : q ∈ s.busTick.bus.pendingRequests) : q ∈ s.bus.pendingRequests := by
    rw [hholds.busTick_pending hrequest]
    exact List.mem_append_right _ hq
  obtain ⟨tr', -, hholds'⟩ := hran.next MI.regular hholds hrequest h.hitTime
  refine ⟨⟨tr', hholds'⟩, fun q hq ↦ ⟨?_, ?_⟩, hran.hitTime ▸ h.hitTime⟩
  · rw [hran.pendingRequests_eq, List.mem_append] at hq
    rcases hq with hq | hq
    · exact hrequest q (hold q hq)
    · exact hran.caches.requests q hq
  · have hq₁ : q ∈ s₁.bus.pendingRequests := by
      rw [hran.caches.bus]
      rwa [hran.pendingRequests_eq] at hq
    rcases tickCaches_asked MI.regular hran.loop q hq₁ with hq | ⟨i, request, o, -, hout, hmem⟩
    · exact (h.pending q (hold q hq)).2
    · exact MI.msg_of_requests hout hmem

/-- A cycle of `MI` is one of every protocol, with stores for loads. -/
theorem OnlyGETM.cycle_asWrites (h : OnlyGETM s) :
    Erases (t.asWrites n).map s.cycle ((t.asWrites n).map s).cycle := by
  have hcaches : Erases (t.asWrites n).map ((List.finRange n).foldlM Simulator.tickCache s.busTick)
      ((List.finRange n).foldlM Simulator.tickCache ((t.asWrites n).map s.busTick)) := by
    refine Erases.foldlM_of (I := fun s : Simulator MI.protocol n ↦
      ∀ q ∈ s.bus.currentRequest, q.msg = .GETM ∨ q.msg = .DATA) ?_ ?_ _ h.current
    · intro s₁ s₂ i hs₁ htick
      obtain ⟨e, -, -, rfl⟩ := (tickCache_ok_iff MI.regular).mp htick
      exact hs₁
    · intro s₁ i hs₁
      refine ((t.asWrites n).tickProcRequest_map s₁ i t.cache_ofMI).bind_of fun s₂ htick ↦ ?_
      obtain ⟨e, -, rfl⟩ := (tickProcRequest_ok_iff MI.regular).mp htick
      exact (t.asWrites n).tickSnoop_map _ i fun request hrequest c ↦
        t.snoop_ofMI c request (hs₁ request hrequest)
  refine hcaches.bind fun s₁ ↦ ?_
  refine (Erases.foldlM (Simulator.tickPr_asWrites t) (List.finRange n) s₁).bind fun s₂ ↦ ?_
  refine ((t.asWrites n).tickMc_map s₂).bind fun s₃ ↦ ?_
  have htock := (t.asWrites n).map_tockAll s₃
  exact congrArg (fun s : Simulator t.protocol n ↦ Except.ok s.advanceClock) htock.symm

/-- The run of `MI` on any traces and that of any protocol on the traces with a write for every read
are the same cycle for cycle: with the same entries, the same messages, the same counters and the
same end or abort. -/
theorem run_asWrites (t : ProtocolT) {n : ℕ} (settings : Settings n) :
    (∀ fuel, ((Simulator.loop MI.protocol n).run fuel (.initial MI.protocol settings)).map
        (Option.map (t.asWrites n).map) =
      (Simulator.loop t.protocol n).run fuel (.initial t.protocol settings.asWrites)) ∧
    ∀ s : Simulator t.protocol n, Simulator.EndOfCycle settings.asWrites s ↔
      ∃ s', Simulator.EndOfCycle settings s' ∧ (t.asWrites n).map s' = s := by
  have hstart : (t.asWrites n).map (.initial MI.protocol settings) =
      .initial t.protocol settings.asWrites := by
    unfold NodeMap.map Simulator.initial
    congr 1
    funext i
    exact congrArg (fun state ↦ (⟨⟨none, fun _ ↦ state⟩, { infile := settings.asWrites.traces i }⟩ :
      Node t.protocol.State)) t.initial_ofMI
  have hkept : ∀ s s', OnlyGETM s → (Simulator.loop MI.protocol n).body s = .ok s' → OnlyGETM s' :=
    fun _ _ h ↦ h.cycle
  have hbody : ∀ s, OnlyGETM s → Erases (t.asWrites n).map ((Simulator.loop MI.protocol n).body s)
      ((Simulator.loop t.protocol n).body ((t.asWrites n).map s)) := fun _ h ↦ h.cycle_asWrites t
  have hdone (s : Simulator MI.protocol n) : (Simulator.loop MI.protocol n).done s =
      (Simulator.loop t.protocol n).done ((t.asWrites n).map s) := rfl
  refine ⟨fun fuel ↦ ?_, fun s ↦ ?_⟩
  · rw [← hstart]
    exact Loop.run_erases_of hkept hbody hdone fuel (onlyGETM_initial settings)
  · change (Simulator.loop t.protocol n).EndOfBody _ _ _ ↔ _
    rw [← hstart]
    exact Loop.endOfBody_map_iff hkept hbody hdone (onlyGETM_initial settings)

end ArchSim.Coherence
