import Mathlib.Algebra.BigOperators.Group.Finset.Basic
import Mathlib.Algebra.BigOperators.Group.List.Basic
import Mathlib.Algebra.GroupWithZero.Nat
import Mathlib.Algebra.Order.BigOperators.Group.Finset
import Mathlib.Data.Finset.Card

/-!
# Counting in a list

Sums and counts over a list that differ in one place, a count that is bounded by the number of
values that a function takes without repeating one, and one that is split between several others.
-/

namespace ArchSim.Library

variable {ι : Type} {l : List ι} {i : ι}

/-- Two sums that differ in one place. -/
theorem sum_map_of_eq {f g : ι → ℕ} (hmem : i ∈ l) (hnodup : l.Nodup)
    (h : ∀ j ∈ l, j ≠ i → g j = f j) : (l.map g).sum + f i = (l.map f).sum + g i := by
  obtain ⟨before, after, rfl⟩ := List.append_of_mem hmem
  obtain ⟨-, hnodup', hdisjoint⟩ := List.nodup_append.mp hnodup
  have hbefore : before.map g = before.map f := List.map_congr_left fun j hj ↦
    h j (List.mem_append_left _ hj) (hdisjoint j hj i List.mem_cons_self)
  have hafter : after.map g = after.map f := List.map_congr_left fun j hj ↦
    h j (List.mem_append_right _ (List.mem_cons_of_mem _ hj)) fun heq ↦
      (List.nodup_cons.mp hnodup').1 (heq ▸ hj)
  simp only [List.map_append, List.map_cons, List.sum_append, List.sum_cons, hbefore, hafter]
  omega

theorem countP_eq_sum (p : ι → Bool) (l : List ι) :
    l.countP p = (l.map fun j ↦ (p j).toNat).sum := by
  induction l with
  | nil => rfl
  | cons j l ih =>
    rw [List.countP_cons, ih, List.map_cons, List.sum_cons, Nat.add_comm]
    cases p j <;> rfl

/-- Two counts that differ in one place. -/
theorem countP_of_eq {p q : ι → Bool} (hmem : i ∈ l) (hnodup : l.Nodup)
    (h : ∀ j ∈ l, j ≠ i → q j = p j) :
    l.countP q + (p i).toNat = l.countP p + (q i).toNat := by
  rw [countP_eq_sum, countP_eq_sum]
  exact sum_map_of_eq hmem hnodup fun j hj hne ↦ congrArg Bool.toNat (h j hj hne)

/-- What is counted is distinguished by a value in `values`. -/
theorem countP_le_card {β : Type} {p : ι → Bool} (hnodup : l.Nodup) (values : Finset β)
    (f : ι → β) (hvalues : ∀ j ∈ l, p j = true → f j ∈ values)
    (hinj : ∀ j ∈ l, ∀ j' ∈ l, p j = true → p j' = true → f j = f j' → j = j') :
    l.countP p ≤ values.card := by
  classical
  have hcard : l.countP p = (l.filter p).toFinset.card := by
    rw [List.countP_eq_length_filter, List.toFinset_card_of_nodup (hnodup.filter p)]
  rw [hcard]
  refine Finset.card_le_card_of_injOn f (fun j hj ↦ ?_) fun j hj j' hj' heq ↦ ?_
  · obtain ⟨hmem, hp⟩ := List.mem_filter.mp (List.mem_toFinset.mp hj)
    exact hvalues j hmem hp
  · obtain ⟨hmem, hp⟩ := List.mem_filter.mp (List.mem_toFinset.mp hj)
    obtain ⟨hmem', hp'⟩ := List.mem_filter.mp (List.mem_toFinset.mp hj')
    exact hinj j hmem j' hmem' hp hp' heq

/-- What is counted is counted by one of a family of others. -/
theorem countP_le_sum {κ : Type} [Fintype κ] {p : ι → Bool} {q : κ → ι → Bool} (l : List ι)
    (h : ∀ j ∈ l, p j = true → ∃ k, q k j = true) : l.countP p ≤ ∑ k, l.countP (q k) := by
  induction l with
  | nil => exact Nat.zero_le _
  | cons j l ih =>
    have htail := ih fun j' hj' ↦ h j' (List.mem_cons_of_mem _ hj')
    have hhead : (p j).toNat ≤ ∑ k, (q k j).toNat := by
      cases hp : p j with
      | false => exact Nat.zero_le _
      | true =>
        obtain ⟨k, hk⟩ := h j List.mem_cons_self hp
        calc true.toNat = (q k j).toNat := by rw [hk]
          _ ≤ ∑ k, (q k j).toNat :=
            Finset.single_le_sum (f := fun k ↦ (q k j).toNat) (fun _ _ ↦ Nat.zero_le _)
              (Finset.mem_univ k)
    have hcons (r : ι → Bool) : (j :: l).countP r = l.countP r + (r j).toNat := by
      rw [List.countP_cons]
      cases r j <;> rfl
    simp only [hcons, Finset.sum_add_distrib]
    exact Nat.add_le_add htail hhead

end ArchSim.Library
