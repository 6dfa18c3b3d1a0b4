import ArchSim.Tomasulo.Scheduler

/-!
# The scheduler with a history

Entries do not say which instruction of the trace they hold. A history records it, and in which
cycle each instruction has started and has been cleared. It is computed from what the scheduler
does to each entry and changes nothing in it: `body_erases`.
-/

namespace ArchSim.Tomasulo

open Library

variable {n : ℕ} (cfg : Config)

/-- The `start_cycle` of a valid entry. -/
def Scheduler.startCycle (s : Scheduler n) (slot : Slot) : ℕ :=
  match s.table slot with
  | none => 0
  | some entry => entry.startCycle

structure History where
  /-- The number of the instruction that an entry holds, or has held last. -/
  occupant : Slot → ℕ := fun _ ↦ 0
  /-- The `start_cycle` of each instruction. -/
  started : ℕ → Option ℕ := fun _ ↦ none
  /-- The cycle in which each instruction has been cleared. -/
  completed : ℕ → Option ℕ := fun _ ↦ none

namespace History

/-- The entry at `slot` is given to instruction `num`. -/
def occupy (h : History) (slot : Slot) (num : ℕ) : History :=
  { h with occupant := Function.update h.occupant slot num }

/-- The body of a loop has made `s'` of `s` at the entry `slot`. -/
def observe (h : History) (s s' : Scheduler n) (slot : Slot) : History :=
  { h with
    started :=
      if s.startCycle slot = 0 ∧ s'.startCycle slot ≠ 0 then
        Function.update h.started (h.occupant slot) (some (s'.startCycle slot))
      else
        h.started
    completed :=
      if (s.table slot).isSome ∧ (s'.table slot).isNone then
        Function.update h.completed (h.occupant slot) (some s'.currentCycle)
      else
        h.completed }

end History

/-- A state of the driver with its history. -/
structure Tracked (n : ℕ) where
  driver : Driver n
  history : History := {}

namespace Tracked

/-- `Scheduler.completeEntry`, observed. -/
def completeEntry (acc : (Scheduler n × ℕ) × History) (slot : Slot) :
    Except Exit ((Scheduler n × ℕ) × History) := do
  let acc' ← Scheduler.completeEntry cfg acc.1 slot
  return (acc', acc.2.observe acc.1.1 acc'.1 slot)

/-- `Scheduler.clearCompleted`, observed. -/
def clearCompleted (s : Scheduler n) (h : History) : Except Exit (Scheduler n × History) := do
  let ((s, numCompleted), h) ← cfg.slots.foldlM (completeEntry cfg) ((s, 0), h)
  return ({ s with stats :=
    { s.stats with maxCompleted := max s.stats.maxCompleted numCompleted } }, h)

/-- `Scheduler.fireEntry`, observed. -/
def fireEntry (acc : Scheduler.Firing n × History) (slot : Slot) : Scheduler.Firing n × History :=
  let f := Scheduler.fireEntry acc.1 slot
  (f, acc.2.observe acc.1.sched f.sched slot)

/-- `Scheduler.fireReady`, observed. -/
def fireReady (acc : Scheduler.Firing n × History) (station : Station) :
    Scheduler.Firing n × History :=
  (cfg.entries station).foldl fireEntry ({ acc.1 with fired := fun _ ↦ false }, acc.2)

/-- `Scheduler.startReady`, observed. -/
def startReady (s : Scheduler n) (h : History) : Scheduler n × History :=
  (s.startReady cfg, (cfg.stations.foldl (fireReady cfg) ({ sched := s }, h)).2)

def step (s : Scheduler n) (h : History) : Except Exit (Scheduler n × History) := do
  let (s, h) ← clearCompleted cfg { s with currentCycle := s.currentCycle + 1 } h
  return startReady cfg s h

/-- The instruction that is issued is the one with number `num_insts`. -/
def issue (s : Scheduler n) (h : History) (inst : Inst n) : History :=
  if (s.tryIssue cfg inst).1 then
    match (cfg.stationOf inst.op).bind (s.freeSlot cfg) with
    | some slot => h.occupy slot s.stats.numInsts
    | none => h
  else
    h

/-- `Driver.body`, observed. -/
def body (t : Tracked n) : Except Exit (Tracked n) :=
  match t.driver.trace with
  | inst :: rest => do
      let (success, s) := t.driver.sched.tryIssue cfg inst
      let (s, h) ← step cfg s (issue cfg t.driver.sched t.history inst)
      return ⟨⟨s, if success then rest else inst :: rest⟩, h⟩
  | [] => do
      let (s, h) ← step cfg t.driver.sched t.history
      return ⟨⟨s, []⟩, h⟩

def loop (n : ℕ) : Loop Exit (Tracked n) := ⟨body cfg, fun t ↦ t.driver.done cfg⟩

/-! ## The history can be erased -/

theorem clearCompleted_erases (s : Scheduler n) (h : History) :
    Erases Prod.fst (clearCompleted cfg s h) (s.clearCompleted cfg) := by
  have hloop : Erases Prod.fst (cfg.slots.foldlM (completeEntry cfg) ((s, 0), h))
      (cfg.slots.foldlM (Scheduler.completeEntry cfg) (s, 0)) := by
    refine Erases.foldlM (π := Prod.fst) (fun acc slot ↦ ?_) cfg.slots ((s, 0), h)
    unfold completeEntry
    cases Scheduler.completeEntry cfg acc.1 slot <;> rfl
  exact hloop.bind fun _ ↦ rfl

theorem step_erases (s : Scheduler n) (h : History) :
    Erases Prod.fst (step cfg s h) (s.step cfg) :=
  (clearCompleted_erases cfg _ h).bind fun _ ↦ rfl

theorem body_erases (t : Tracked n) : Erases driver (t.body cfg) (t.driver.body cfg) := by
  unfold body Driver.body
  cases t.driver.trace with
  | nil => exact (step_erases cfg _ _).bind fun _ ↦ rfl
  | cons inst rest => exact (step_erases cfg _ _).bind fun _ ↦ rfl

theorem exists_of_visits {cond : Driver n → Prop} {d start : Driver n}
    (h : (Driver.loop cfg n).Visits start cond d) :
    ∃ t : Tracked n, (loop cfg n).Visits ⟨start, {}⟩ (fun t ↦ cond t.driver) t ∧ t.driver = d :=
  h.erased rfl (body_erases cfg) fun _ ↦ rfl

end Tracked

end ArchSim.Tomasulo
