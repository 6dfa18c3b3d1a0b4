import ArchSim.Tomasulo.Simulation

/-!
# True dependences

An instruction must not start before the last writers of its sources have been cleared. An entry
that is cleared takes away the alias of its destination, whether the alias is its own or that of a
later instruction that writes the same register. An instruction that is issued while an alias is
missing in this way does not wait for its writer; all others do.
-/

namespace ArchSim.Tomasulo

open Library Renaming

/-- Every instruction that has started has done so in the cycle in which the last writer of each of
its sources has been cleared, or after it. -/
def TrueDependences {n : ℕ} (insts : List (Inst n)) (h : History) : Prop :=
  ∀ j inst r i start, insts[j]? = some inst → r ∈ inst.sources →
    LastWriter (insts.map Inst.dest) j r i → h.started j = some start →
    ∃ cycle, h.completed i = some cycle ∧ cycle ≤ start

section

variable {n : ℕ} {cfg : Config} {insts : List (Inst n)} {t : Tracked n}

theorem follows_of_visits (h : (Tracked.loop cfg n).Visits ⟨.initial insts, {}⟩
    (Tracked.KnowsWriters cfg insts) t) : Follows cfg True insts t :=
  h.invariant (initial_follows insts) fun _ ht hknows ↦ body_follows ht fun _ ↦ hknows

/-- What has not been issued has not started. -/
theorem trueDependences_of_follows (h : Follows cfg True insts t) :
    TrueDependences insts t.history := by
  obtain ⟨before, hinsts, m, hreach, hm, hprogram⟩ := h
  intro j inst r i start hinst hr hlast hstarted
  rw [← hm.started] at hstarted
  rw [← hm.completed]
  have hlt : j < before.length := by
    have hbegun := hreach.inv.begun hstarted
    rwa [hprogram, List.length_map] at hbegun
  have hinst' : m.program[j]? = some inst.renaming := by
    rw [hinsts, List.getElem?_append_left hlt] at hinst
    rw [hprogram, List.getElem?_map, hinst]
    rfl
  have hlast' : LastWriter m.dests j r i := by
    have hlength : j ≤ (before.map Inst.dest).length := by
      rw [List.length_map]
      exact hlt.le
    rw [hinsts, List.map_append, LastWriter.append_iff hlength] at hlast
    rwa [Machine.dests, hprogram, map_dest_renaming]
  exact hreach.ordered.started hstarted hinst' hr hlast'

end

/-- In a run in which every instruction that is issued waits for those last writers of its sources
that are in flight, no instruction starts before they have been cleared. -/
theorem starts_after_writers {n : ℕ} (cfg : Config) (insts : List (Inst n)) :
    (∀ d : Driver n, (Driver.loop cfg n).Visits (.initial insts) (fun _ ↦ True) d →
      ∃ t : Tracked n,
        (Tracked.loop cfg n).Visits ⟨.initial insts, {}⟩ (fun _ ↦ True) t ∧ t.driver = d) ∧
    ∀ t : Tracked n, (Tracked.loop cfg n).Visits ⟨.initial insts, {}⟩
      (Tracked.KnowsWriters cfg insts) t → TrueDependences insts t.history :=
  ⟨fun _ hd ↦ Tracked.exists_of_visits cfg hd, fun _ ht ↦
    trueDependences_of_follows (follows_of_visits ht)⟩

theorem starts_after_writers_loadUse :
    ∃ t : Tracked 2, (Tracked.loop (.unified 4) 2).Visits ⟨.initial loadUse, {}⟩
      (Tracked.KnowsWriters (.unified 4) loadUse) t ∧
      t.history.started 1 = some 22 ∧ TrueDependences loadUse t.history := by
  obtain ⟨t, ht, hstarted⟩ : ∃ t : Tracked 2,
      (Tracked.loop (.unified 4) 2).Visits ⟨.initial loadUse, {}⟩
        (Tracked.KnowsWriters (.unified 4) loadUse) t ∧ t.history.started 1 = some 22 :=
    Loop.exists_visits 21 (by decide +kernel)
  exact ⟨t, ht, hstarted, (starts_after_writers _ _).2 t ht⟩

/-- The first instruction is cleared before the fourth is issued, which does not wait. -/
theorem not_trueDependences_overlappingWriters :
    ∃ t : Tracked 4, (Tracked.loop (.unified 4) 4).Visits ⟨.initial overlappingWriters, {}⟩
      (fun _ ↦ True) t ∧ t.history.started 3 = some 5 ∧ t.history.completed 1 = some 23 ∧
      ¬ TrueDependences overlappingWriters t.history := by
  obtain ⟨t, ht, hstarted, hcompleted⟩ : ∃ t : Tracked 4,
      (Tracked.loop (.unified 4) 4).Visits ⟨.initial overlappingWriters, {}⟩ (fun _ ↦ True) t ∧
        t.history.started 3 = some 5 ∧ t.history.completed 1 = some 23 :=
    Loop.exists_visits 22 (by decide +kernel)
  refine ⟨t, ht, hstarted, hcompleted, fun hall ↦ ?_⟩
  have hlast : LastWriter (overlappingWriters.map Inst.dest) 3 0 1 := by decide
  obtain ⟨cycle, hcycle, hle⟩ := hall 3 _ 0 1 5 rfl (by decide) hlast hstarted
  obtain rfl : cycle = 23 := Option.some.inj (hcycle.symm.trans hcompleted)
  omega

end ArchSim.Tomasulo
