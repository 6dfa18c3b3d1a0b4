import ArchSim.Coherence.Simulator
import ArchSim.Library.Snooping

/-!
# The simulator with versions

Messages carry no values, so each copy of a block is given a version number. A `DATA` message
carries the version of its sender's copy, the memory takes the version of the data it snoops from
a cache, and a store increments the version of the local copy when the processor is answered. The
versions are computed from what the simulator does and change nothing in it: `cycle_erases`.
-/

namespace ArchSim.Coherence

open Library AtomicMemory Snooping

/-- The access that a processor's request asks for. -/
def Mreq.op (request : Mreq) : Op := if request.msg = .STORE then .store else .load

structure Versioned (P : Protocol) (n : ℕ) where
  sim : Simulator P n
  /-- The versions of the caches' copies. -/
  copy : Fin n → PAddr → ℕ
  /-- The versions in the memory. -/
  mem : PAddr → ℕ
  /-- The version that the message in `dataReply` carries. -/
  reply : ℕ := 0
  /-- The version that the data on the bus carries. -/
  onBus : ℕ := 0
  /-- The access that each cache has last been asked for. -/
  want : Fin n → Op := fun _ ↦ .load
  /-- The accesses that have been answered, the last one first. -/
  answers : List (Answer (Fin n) PAddr) := []

namespace Versioned

variable {P : Protocol} {n : ℕ}

def initial (P : Protocol) (settings : Settings n) (versions : PAddr → ℕ) : Versioned P n where
  sim := .initial P settings
  copy _ _ := 0
  mem := versions

def busTick (v : Versioned P n) : Versioned P n := { v with sim := v.sim.busTick, onBus := v.reply }

/-- `send_DATA_to_proc` in cache `i`: a load reads the version of the copy, and a store makes the
next one. -/
def answer (v : Versioned P n) (i : Fin n) (addr : PAddr) (op : Op) : Versioned P n :=
  { v with
    copy := setAt v.copy i addr (op.next (v.copy i addr))
    answers := ⟨i, op, addr, op.next (v.copy i addr)⟩ :: v.answers }

/-- A handler of the entry for `addr` in cache `i` has made `sim` of the simulator. If it has put
data into `dataReply`, that carries the version of the copy; if it has put an answer into the
processor's buffer, the access has been answered. -/
def observe (v : Versioned P n) (sim : Simulator P n) (i : Fin n) (addr : PAddr) (op : Op) :
    Versioned P n :=
  let replied := v.sim.bus.dataReply.isNone && sim.bus.dataReply.isSome
  let answered := (v.sim.nodes i).pr.inboundRequestBuf.isNone &&
    (sim.nodes i).pr.inboundRequestBuf.isSome
  let v := if replied then { v with reply := v.copy i addr } else v
  let v := if answered then v.answer i addr op else v
  { v with sim := sim }

def tickProcRequest (v : Versioned P n) (i : Fin n) : Except Abort (Versioned P n) := do
  let sim ← v.sim.tickProcRequest i
  match (v.sim.nodes i).cache.procRequest with
  | none => return { v with sim := sim }
  | some request => return { v.observe sim i request.addr request.op with
      want := Function.update v.want i request.op }

/-- Data that is addressed to cache `i` becomes its copy. -/
def receive (v : Versioned P n) (i : Fin n) (request : Mreq) : Versioned P n :=
  if request.msg = .DATA ∧ request.destMid = l1 i then
    { v with copy := setAt v.copy i request.addr v.onBus }
  else
    v

def tickSnoop (v : Versioned P n) (i : Fin n) : Except Abort (Versioned P n) := do
  let sim ← v.sim.tickSnoop i
  match v.sim.bus.busSnoop with
  | none => return { v with sim := sim }
  | some request => return (v.receive i request).observe sim i request.addr (v.want i)

def tickCache (v : Versioned P n) (i : Fin n) : Except Abort (Versioned P n) := do
  let v ← v.tickProcRequest i
  v.tickSnoop i

def tickPr (v : Versioned P n) (i : Fin n) : Except Abort (Versioned P n) := do
  let sim ← v.sim.tickPr i
  return { v with sim := sim }

def mcSnoop (v : Versioned P n) : Except Abort (Versioned P n) := do
  let sim ← v.sim.mcSnoop
  match v.sim.bus.busSnoop with
  | none => return { v with sim := sim }
  | some request =>
      if request.msg = .DATA ∧ request.srcMid.moduleIndex = .L1 then
        return { v with sim := sim, mem := Function.update v.mem request.addr v.onBus }
      else
        return { v with sim := sim }

def mcSend (v : Versioned P n) : Except Abort (Versioned P n) := do
  let sim ← v.sim.mcSend
  if v.sim.bus.dataReply.isNone && sim.bus.dataReply.isSome then
    return { v with sim := sim, reply := v.mem v.sim.mc.dataAddr }
  else
    return { v with sim := sim }

def tickMc (v : Versioned P n) : Except Abort (Versioned P n) := do
  let v ← v.mcSnoop
  v.mcSend

/-- `Simulator.cycle` with its versions. -/
def cycle (v : Versioned P n) : Except Abort (Versioned P n) := do
  let v ← (List.finRange n).foldlM tickCache v.busTick
  let v ← (List.finRange n).foldlM tickPr v
  let v ← v.tickMc
  return { v with sim := v.sim.tockAll.advanceClock }

def loop (P : Protocol) (n : ℕ) : Loop Abort (Versioned P n) := ⟨cycle, fun v ↦ v.sim.done⟩

/-- The states at the head of the loop, with their versions. -/
abbrev LoopHeadWhile (settings : Settings n) (versions : PAddr → ℕ)
    (cond : Simulator P n → Prop) : Versioned P n → Prop :=
  (loop P n).Head (initial P settings versions) fun v ↦ cond v.sim

/-- The states at the end of a cycle, with their versions. -/
abbrev EndOfCycleWhile (settings : Settings n) (versions : PAddr → ℕ)
    (cond : Simulator P n → Prop) : Versioned P n → Prop :=
  (loop P n).EndOfBody (initial P settings versions) fun v ↦ cond v.sim

/-! ## The versions can be erased -/

section Erasure

variable (v : Versioned P n) (i : Fin n)

theorem tickCache_erases : Erases sim (v.tickCache i) (v.sim.tickCache i) := by
  refine Erases.bind (π := sim) ?_ fun v ↦ ?_
  · unfold tickProcRequest
    cases v.sim.tickProcRequest i with
    | error _ => rfl
    | ok s => cases (v.sim.nodes i).cache.procRequest <;> rfl
  · unfold tickSnoop
    cases v.sim.tickSnoop i with
    | error _ => rfl
    | ok s => cases v.sim.bus.busSnoop <;> rfl

theorem tickPr_erases : Erases sim (v.tickPr i) (v.sim.tickPr i) := by
  unfold tickPr
  cases v.sim.tickPr i <;> rfl

theorem tickMc_erases : Erases sim v.tickMc v.sim.tickMc := by
  refine Erases.bind (π := sim) ?_ fun v ↦ ?_
  · unfold mcSnoop
    cases v.sim.mcSnoop with
    | error _ => rfl
    | ok s =>
      cases v.sim.bus.busSnoop with
      | none => rfl
      | some request => simp only [bind, Except.bind]; split <;> rfl
  · unfold mcSend
    cases v.sim.mcSend with
    | error _ => rfl
    | ok s => simp only [bind, Except.bind]; split <;> rfl

theorem cycle_erases : Erases sim v.cycle v.sim.cycle := by
  refine (Erases.foldlM tickCache_erases _ v.busTick).bind fun v ↦ ?_
  refine (Erases.foldlM tickPr_erases _ v).bind fun v ↦ ?_
  exact (tickMc_erases v).bind fun v ↦ rfl

end Erasure

theorem sim_of_cycle {v v' : Versioned P n} (h : v.cycle = .ok v') : v.sim.cycle = .ok v'.sim := by
  rw [← cycle_erases v, h]
  rfl

variable {settings : Settings n} {cond : Simulator P n → Prop} {s : Simulator P n}

/-- Every state of a run of the simulator is one of the run with versions. -/
theorem exists_of_loopHeadWhile (versions : PAddr → ℕ)
    (h : Simulator.LoopHeadWhile settings cond s) :
    ∃ v : Versioned P n, LoopHeadWhile settings versions cond v ∧ v.sim = s :=
  h.erased rfl cycle_erases fun _ ↦ rfl

theorem exists_of_endOfCycleWhile (versions : PAddr → ℕ)
    (h : Simulator.EndOfCycleWhile settings cond s) :
    ∃ v : Versioned P n, EndOfCycleWhile settings versions cond v ∧ v.sim = s :=
  h.erased rfl cycle_erases fun _ ↦ rfl

theorem run_erases (fuel : ℕ) (v : Versioned P n) :
    Erases (Option.map sim) ((loop P n).run fuel v) ((Simulator.loop P n).run fuel v.sim) :=
  Loop.run_erases (π := sim) cycle_erases (fun _ ↦ rfl) fuel v

end Versioned

end ArchSim.Coherence
