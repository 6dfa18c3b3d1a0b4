import ArchSim.Coherence.SingleWriter

/-!
# Runs with their bus traffic

The messages that appear on the bus are recorded, each with the caches' entries at the start and at
the end of the cycle in which it appears, and so are the requests that are pushed to
`pendingRequests`. The records are computed from what the simulator does and change nothing in it:
`cycle_erases`.
-/

namespace ArchSim.Coherence

open Library

/-- A message that has appeared as `currentRequest`. -/
structure Appearance (P : Protocol) (n : ℕ) where
  message : Mreq
  /-- The caches' entries when the cycle starts. -/
  before : Fin n → PAddr → P.State
  /-- The entries at its end. -/
  after : Fin n → PAddr → P.State

structure Traced (P : Protocol) (n : ℕ) where
  state : Versioned P n
  /-- The messages on the bus, the first one first. -/
  appeared : List (Appearance P n) := []
  /-- The requests in the order in which they have been pushed to `pendingRequests`. -/
  pushed : List Mreq := []

namespace Traced

variable {P : Protocol} {n : ℕ}

abbrev sim (x : Traced P n) : Simulator P n := x.state.sim

def messages (x : Traced P n) : List Mreq := x.appeared.map Appearance.message

def initial (P : Protocol) (settings : Settings n) (versions : PAddr → ℕ) : Traced P n where
  state := .initial P settings versions

/-- The cycle that leads from `x` to `state` is recorded. What stands in `pendingRequests` behind
that which the bus has left there has been pushed. -/
def record (x : Traced P n) (state : Versioned P n) : Traced P n where
  state := state
  appeared := x.appeared ++ (x.sim.busTick.bus.currentRequest.map fun message ↦
    { message := message, before := x.sim.entry, after := state.sim.entry }).toList
  pushed := x.pushed ++
    state.sim.bus.pendingRequests.drop x.sim.busTick.bus.pendingRequests.length

def cycle (x : Traced P n) : Except Abort (Traced P n) := do
  let state ← x.state.cycle
  return x.record state

def loop (P : Protocol) (n : ℕ) : Loop Abort (Traced P n) := ⟨cycle, fun x ↦ x.sim.done⟩

/-- The states at the head of the loop, with their records. -/
abbrev LoopHeadWhile (settings : Settings n) (versions : PAddr → ℕ)
    (cond : Simulator P n → Prop) : Traced P n → Prop :=
  (loop P n).Head (initial P settings versions) fun x ↦ cond x.sim

/-- The states at the end of a cycle, with their records. -/
abbrev EndOfCycleWhile (settings : Settings n) (versions : PAddr → ℕ)
    (cond : Simulator P n → Prop) : Traced P n → Prop :=
  (loop P n).EndOfBody (initial P settings versions) fun x ↦ cond x.sim

abbrev EndOfCycle (settings : Settings n) (versions : PAddr → ℕ) : Traced P n → Prop :=
  EndOfCycleWhile settings versions fun _ ↦ True

variable {settings : Settings n} {versions : PAddr → ℕ} {cond : Simulator P n → Prop}
  {x x' : Traced P n}

@[simp] theorem record_sim (x : Traced P n) (state : Versioned P n) :
    (x.record state).sim = state.sim := rfl

theorem record_messages (x : Traced P n) (state : Versioned P n) :
    (x.record state).messages = x.messages ++ x.sim.busTick.bus.currentRequest.toList := by
  cases hcurrent : x.sim.busTick.bus.currentRequest <;> simp [messages, record, hcurrent]

/-! ## The records can be erased -/

theorem cycle_erases_state (x : Traced P n) : Erases Traced.state x.cycle x.state.cycle := by
  unfold cycle
  cases x.state.cycle <;> rfl

theorem cycle_erases (x : Traced P n) : Erases Traced.sim x.cycle x.sim.cycle := by
  have hstate := cycle_erases_state x
  have hsim := Versioned.cycle_erases x.state
  unfold Erases at hstate hsim ⊢
  rw [← hsim, ← hstate]
  cases x.cycle <;> rfl

/-- A cycle of the simulator has been recorded. -/
theorem of_cycle (h : x.cycle = .ok x') :
    x.state.cycle = .ok x'.state ∧ x.sim.cycle = .ok x'.sim ∧ x' = x.record x'.state := by
  refine ⟨?_, ?_, ?_⟩
  · rw [← cycle_erases_state x, h]
    rfl
  · rw [← cycle_erases x, h]
    rfl
  · unfold cycle at h
    obtain ⟨state, -, rfl⟩ := bind_pure_eq_ok.mp h
    rfl

theorem exists_of_loopHeadWhile {s : Simulator P n} (versions : PAddr → ℕ)
    (h : Simulator.LoopHeadWhile settings cond s) :
    ∃ x : Traced P n, LoopHeadWhile settings versions cond x ∧ x.sim = s :=
  h.erased rfl cycle_erases fun _ ↦ rfl

/-- Every state of a run of the simulator is one of the run with records. -/
theorem exists_of_endOfCycleWhile {s : Simulator P n} (versions : PAddr → ℕ)
    (h : Simulator.EndOfCycleWhile settings cond s) :
    ∃ x : Traced P n, EndOfCycleWhile settings versions cond x ∧ x.sim = s :=
  h.erased rfl cycle_erases fun _ ↦ rfl

theorem body_erases_state (x : Traced P n) :
    Erases Traced.state ((loop P n).body x) ((Versioned.loop P n).body x.state) :=
  cycle_erases_state x

/-- The versions of a recorded run. -/
theorem LoopHeadWhile.state (h : LoopHeadWhile settings versions cond x) :
    Versioned.LoopHeadWhile settings versions cond x.state := by
  change (Versioned.loop P n).Head (initial P settings versions).state (fun v ↦ cond v.sim) x.state
  exact Loop.Head.project body_erases_state (fun _ ↦ rfl) h

theorem EndOfCycleWhile.state (h : EndOfCycleWhile settings versions cond x) :
    Versioned.EndOfCycleWhile settings versions cond x.state := by
  change (Versioned.loop P n).EndOfBody (initial P settings versions).state
    (fun v ↦ cond v.sim) x.state
  exact Loop.EndOfBody.project body_erases_state (fun _ ↦ rfl) h

end Traced

end ArchSim.Coherence
