import ArchSim.Library.Loop
import Mathlib.Logic.Function.Basic

/-!
# The scheduler

The scheduler of `schedulersim.cpp`, which follows Tomasulo's algorithm: a register alias table,
reservation stations in a unified or a per-unit layout, and the loops of the driver, which issue one
instruction of a trace in every cycle, if there is room for it, and let the pipeline drain at the
end.

A register number is an element of `Fin n`, and `none` is the `-1` of an unused source, of a ready
source and of a register without alias. The fields of an entry that is not valid are written before
they are read again, so that such an entry holds nothing. `current_cycle` and the counters are
natural numbers: no run comes near their overflow.
-/

namespace ArchSim.Tomasulo

open Library

inductive OpType where
  | OP_INVALID | OP_ADD | OP_DIV | OP_MEM
  deriving DecidableEq, Repr

/-- A call of `std::exit`. -/
inductive Exit where
  | invalidOpType (op : OpType)
  deriving DecidableEq, Repr

def getInstLatency : OpType → Except Exit ℕ
  | .OP_ADD => .ok 2
  | .OP_DIV => .ok 15
  | .OP_MEM => .ok 20
  | .OP_INVALID => .error (.invalidOpType .OP_INVALID)

/-- One line of a trace. -/
structure Inst (n : ℕ) where
  op : OpType
  dest : Fin n
  src1 : Option (Fin n)
  src2 : Option (Fin n)
  deriving DecidableEq, Repr

/-! ## Stations -/

/-- The four reservation stations. -/
inductive Station where
  | urest | arest | drest | mrest
  deriving DecidableEq, Repr

/-- What `scheduler_unified_init` or `scheduler_per_fu_init` is called with. -/
inductive Config where
  | unified (rsSize : ℕ)
  | perFu (addSize divSize memSize : ℕ)
  deriving DecidableEq, Repr

/-- An entry of a station, and its place in the table. -/
abbrev Slot := Station × ℕ

namespace Config

/-- The stations in use, in the order in which they are visited. -/
def stations : Config → List Station
  | unified _ => [.urest]
  | perFu .. => [.arest, .drest, .mrest]

def size : Config → Station → ℕ
  | unified rsSize, .urest => rsSize
  | perFu addSize _ _, .arest => addSize
  | perFu _ divSize _, .drest => divSize
  | perFu _ _ memSize, .mrest => memSize
  | _, _ => 0

/-- The `index_start` with which the table of a station is initialised. -/
def indexStart : Config → Station → ℕ
  | perFu addSize _ _, .drest => addSize + 1
  | perFu addSize divSize _, .mrest => addSize + divSize + 1
  | _, _ => 1

def entries (cfg : Config) (station : Station) : List Slot :=
  (List.range (cfg.size station)).map fun i ↦ (station, i)

/-- The entries of all stations in use. -/
def slots (cfg : Config) : List Slot := cfg.stations.flatMap cfg.entries

/-- The `rat_index` of an entry, which nothing changes after `init_table`. -/
def ratIndex (cfg : Config) (slot : Slot) : ℕ := cfg.indexStart slot.1 + slot.2

/-- The station that `scheduler_try_issue` chooses. -/
def stationOf : Config → OpType → Option Station
  | unified _, _ => some .urest
  | perFu .., .OP_ADD => some .arest
  | perFu .., .OP_DIV => some .drest
  | perFu .., .OP_MEM => some .mrest
  | perFu .., .OP_INVALID => none

end Config

/-- What a valid entry holds. -/
structure RESTEntry (n : ℕ) where
  op : OpType
  dest : Fin n
  src1 : Option ℕ
  src2 : Option ℕ
  startCycle : ℕ := 0
  deriving DecidableEq, Repr

/-- What `update_sources` does to an entry. -/
def RESTEntry.updateSources {n : ℕ} (e : RESTEntry n) (ratIndex : ℕ) : RESTEntry n :=
  { e with
    src1 := if e.src1 = some ratIndex then none else e.src1
    src2 := if e.src2 = some ratIndex then none else e.src2 }

structure SchedulerStats where
  numInsts : ℕ := 0
  numCycles : ℕ := 0
  issueStall : ℕ := 0
  maxFired : ℕ := 0
  maxCompleted : ℕ := 0
  maxActive : OpType → ℕ := fun _ ↦ 0

structure Scheduler (n : ℕ) where
  currentCycle : ℕ := 1
  rat : Fin n → Option ℕ := fun _ ↦ none
  table : Slot → Option (RESTEntry n) := fun _ ↦ none
  stats : SchedulerStats := {}

namespace Scheduler

variable {n : ℕ} (cfg : Config)

/-! ## Issue -/

/-- The entry that `add_entry` finds. -/
def freeSlot (s : Scheduler n) (station : Station) : Option Slot :=
  (cfg.entries station).find? fun slot ↦ (s.table slot).isNone

def addEntry (s : Scheduler n) (station : Station) (op : OpType) (dest : Fin n)
    (src1 src2 : Option ℕ) : Bool × Scheduler n :=
  match s.freeSlot cfg station with
  | some slot => (true, { s with
      table := Function.update s.table slot
        (some { op := op, dest := dest, src1 := src1, src2 := src2 })
      rat := Function.update s.rat dest (some (cfg.ratIndex slot))
      stats := { s.stats with numInsts := s.stats.numInsts + 1 } })
  | none => (false, { s with
      stats := { s.stats with issueStall := s.stats.issueStall + 1 } })

def tryIssue (s : Scheduler n) (inst : Inst n) : Bool × Scheduler n :=
  let alias1 := inst.src1.bind s.rat
  let alias2 := inst.src2.bind s.rat
  match cfg.stationOf inst.op with
  | some station => s.addEntry cfg station inst.op inst.dest alias1 alias2
  | none => (false, s)

/-! ## Completion -/

/-- `update_sources` in every station in use; in the others no entry is valid. -/
def broadcastComplete (s : Scheduler n) (ratIndex : ℕ) : Scheduler n :=
  { s with table := fun slot ↦ (s.table slot).map (·.updateSources ratIndex) }

/-- The body of the loop of `complete_insts`, which counts the instructions that complete. -/
def completeEntry (acc : Scheduler n × ℕ) (slot : Slot) : Except Exit (Scheduler n × ℕ) :=
  let (s, numCompleted) := acc
  match s.table slot with
  | none => .ok acc
  | some entry =>
      if entry.startCycle = 0 then
        .ok acc
      else do
        let latency ← getInstLatency entry.op
        if s.currentCycle = entry.startCycle + latency then
          let s := { s with
            rat := Function.update s.rat entry.dest none
            table := Function.update s.table slot none }
          return (s.broadcastComplete (cfg.ratIndex slot), numCompleted + 1)
        else
          return acc

/-- `complete_insts` in one station after the other. -/
def completeInsts (s : Scheduler n) : Except Exit (Scheduler n × ℕ) :=
  cfg.slots.foldlM (completeEntry cfg) (s, 0)

def clearCompleted (s : Scheduler n) : Except Exit (Scheduler n) := do
  let (s, numCompleted) ← s.completeInsts cfg
  return { s with stats := { s.stats with maxCompleted := max s.stats.maxCompleted numCompleted } }

/-! ## Firing -/

/-- The state of the loop of `fire_ready`: `fired` are its three flags. -/
structure Firing (n : ℕ) where
  sched : Scheduler n
  fired : OpType → Bool := fun _ ↦ false
  numFired : ℕ := 0

/-- The body of the loop of `fire_ready`. -/
def fireEntry (f : Firing n) (slot : Slot) : Firing n :=
  match f.sched.table slot with
  | none => f
  | some entry =>
      if entry.src1 = none ∧ entry.src2 = none ∧ entry.startCycle = 0 ∧ entry.op ≠ .OP_INVALID ∧
          f.fired entry.op = false then
        { sched := { f.sched with
            table := Function.update f.sched.table slot
              (some { entry with startCycle := f.sched.currentCycle }) }
          fired := Function.update f.fired entry.op true
          numFired := f.numFired + 1 }
      else
        f

/-- `fire_ready` in one station, after it has been called in others. -/
def fireReady (f : Firing n) (station : Station) : Firing n :=
  (cfg.entries station).foldl fireEntry { f with fired := fun _ ↦ false }

/-- The entries that count as active for a functional unit: in the unified layout those with its
operation, and else those of its station. -/
def isActive (s : Scheduler n) (op : OpType) (slot : Slot) : Bool :=
  match s.table slot with
  | none => false
  | some entry => decide (0 < entry.startCycle) &&
      match cfg with
      | .unified _ => decide (entry.op = op)
      | .perFu .. => decide (cfg.stationOf op = some slot.1)

def countActive (s : Scheduler n) (op : OpType) : ℕ := cfg.slots.countP (s.isActive cfg op)

def startReady (s : Scheduler n) : Scheduler n :=
  let f := cfg.stations.foldl (fireReady cfg) { sched := s }
  { f.sched with stats := { f.sched.stats with
      maxFired := max f.sched.stats.maxFired f.numFired
      maxActive := fun op ↦ max (f.sched.stats.maxActive op) (f.sched.countActive cfg op) } }

/-! ## The driver -/

/-- `scheduler_step`. -/
def step (s : Scheduler n) : Except Exit (Scheduler n) := do
  let s ← { s with currentCycle := s.currentCycle + 1 }.clearCompleted cfg
  return s.startReady cfg

/-- `scheduler_completed`. -/
def completed (s : Scheduler n) : Bool := cfg.slots.all fun slot ↦ (s.table slot).isNone

/-- `scheduler_complete`. -/
def complete (s : Scheduler n) : SchedulerStats := { s.stats with numCycles := s.currentCycle }

end Scheduler

/-- A state of the driver: the scheduler and the lines of the trace that have not been issued. -/
structure Driver (n : ℕ) where
  sched : Scheduler n
  trace : List (Inst n)

namespace Driver

variable {n : ℕ} (cfg : Config)

def initial (trace : List (Inst n)) : Driver n := ⟨{}, trace⟩

/-- One iteration of the loop that tries to issue an instruction, or, when all have been issued, of
the loop that lets the pipeline drain. -/
def body (d : Driver n) : Except Exit (Driver n) :=
  match d.trace with
  | inst :: rest => do
      let (success, s) := d.sched.tryIssue cfg inst
      let s ← s.step cfg
      return ⟨s, if success then rest else inst :: rest⟩
  | [] => do
      let s ← d.sched.step cfg
      return ⟨s, []⟩

def done (d : Driver n) : Bool := d.trace.isEmpty && d.sched.completed cfg

/-- The loops of `main`, as one loop that runs while it is not done. -/
def loop (n : ℕ) : Loop Exit (Driver n) := ⟨body cfg, done cfg⟩

end Driver

/-! ## Small programs -/

/-- Two divisions, each of which reads what the other writes. -/
def twoDivisions : List (Inst 2) := [⟨.OP_DIV, 0, some 1, none⟩, ⟨.OP_DIV, 1, some 0, some 1⟩]

/-- Three additions in one entry each: the second and the third stall. -/
def threeAdditions : List (Inst 2) :=
  [⟨.OP_ADD, 0, none, none⟩, ⟨.OP_ADD, 1, some 0, none⟩, ⟨.OP_ADD, 0, some 1, some 0⟩]

/-- A load, and an addition that reads what is loaded. -/
def loadUse : List (Inst 2) :=
  [⟨.OP_MEM, 0, none, none⟩, ⟨.OP_ADD, 1, some 0, none⟩]

/-- The second instruction and the first write the same register, the fourth reads it. -/
def overlappingWriters : List (Inst 4) :=
  [⟨.OP_ADD, 0, none, none⟩, ⟨.OP_MEM, 0, none, none⟩, ⟨.OP_ADD, 2, none, none⟩,
    ⟨.OP_ADD, 1, some 0, none⟩]

/-- Two additions and a load: two of them execute at once. -/
def additionsAndLoad : List (Inst 2) :=
  [⟨.OP_ADD, 0, none, none⟩, ⟨.OP_MEM, 1, none, none⟩, ⟨.OP_ADD, 0, some 0, none⟩]

end ArchSim.Tomasulo
