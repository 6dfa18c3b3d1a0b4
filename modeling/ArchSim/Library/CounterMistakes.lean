import Mathlib.Algebra.BigOperators.Group.Finset.Basic
import Mathlib.Algebra.BigOperators.Ring.Finset
import Mathlib.Tactic.Ring
import ArchSim.Library.CounterTable

/-!
# The mistakes of a counter table

A saturating counter that predicts the wrong outcome moves towards the right one. A table of
counters is thus compared with a *direction* for every index, chosen freely: beyond the first steps
from where the counters start, it makes at most two mistakes for each outcome that is not the one of
its index.
-/

namespace ArchSim.Library.CounterTable

/-- One if the counter predicts the wrong outcome. -/
def mistake (weak counter : ℕ) (outcome : Bool) : ℕ :=
  if decide (weak ≤ counter) = outcome then 0 else 1

/-- How many outcomes in a row the counter has to see before it predicts them. -/
def distance (weak : ℕ) (outcome : Bool) (counter : ℕ) : ℕ :=
  if outcome then weak - counter else counter + 1 - weak

@[simp] theorem distance_self (weak : ℕ) (outcome : Bool) :
    distance weak outcome weak = if outcome then 0 else 1 := by
  cases outcome <;> simp [distance]

variable {weak bound : ℕ}

/-- A mistake on the way to the direction brings the counter nearer to it. -/
theorem mistake_add_distance (hpos : 0 < weak) (hle : weak ≤ bound) (direction : Bool)
    (counter : ℕ) :
    mistake weak counter direction + distance weak direction (count bound direction counter) ≤
      distance weak direction counter := by
  cases direction with
  | true =>
    by_cases hweak : weak ≤ counter
    · simp only [mistake, distance, count, hweak, decide_true, if_true]
      split <;> omega
    · have hlt : counter < bound := by omega
      simp only [mistake, distance, count, hweak, hlt, decide_false, Bool.false_eq_true, if_false,
        if_true]
      omega
  | false =>
    by_cases hweak : weak ≤ counter
    · simp only [mistake, distance, count, hweak, decide_true, Bool.false_eq_true, if_false,
        Bool.true_eq_false]
      omega
    · simp only [mistake, distance, count, hweak, decide_false, Bool.false_eq_true, if_false,
        if_true]
      omega

/-- An outcome against the direction costs a mistake and a step back. -/
theorem mistake_add_distance_not (weak bound : ℕ) (direction : Bool) (counter : ℕ) :
    mistake weak counter (!direction) +
        distance weak direction (count bound (!direction) counter) ≤
      distance weak direction counter + 2 := by
  have hone : mistake weak counter (!direction) ≤ 1 := by
    unfold mistake
    split <;> omega
  have hback : distance weak direction (count bound (!direction) counter) ≤
      distance weak direction counter + 1 := by
    cases direction with
    | true =>
      simp only [distance, count, Bool.not_true, Bool.false_eq_true, if_true, if_false]
      omega
    | false =>
      simp only [distance, count, Bool.not_false, Bool.false_eq_true, if_true, if_false]
      split <;> omega
  calc mistake weak counter (!direction) +
        distance weak direction (count bound (!direction) counter)
      ≤ 1 + (distance weak direction counter + 1) := Nat.add_le_add hone hback
    _ = distance weak direction counter + 2 := by ring

namespace Table

variable {σ β ι : Type} [DecidableEq ι] (S : Scheme σ β ι)

/-- The index and the outcome of each input of a run. -/
def accesses (bound : ℕ) : Table σ ι → List (β × Bool) → List (ι × Bool)
  | _, [] => []
  | t, e :: es => (S.index t.history e.1, e.2) :: (t.train S bound e).accesses bound es

/-- How many inputs of a run are predicted wrongly. -/
def mistakes (bound weak : ℕ) : Table σ ι → List (β × Bool) → ℕ
  | _, [] => 0
  | t, e :: es => mistake weak (t.counters (S.index t.history e.1)) e.2 +
      (t.train S bound e).mistakes bound weak es

/-- How far the counters of `used` are from the directions. -/
def distances (weak : ℕ) (t : Table σ ι) (used : Finset ι) (direction : ι → Bool) : ℕ :=
  ∑ i ∈ used, distance weak (direction i) (t.counters i)

variable {S} {t : Table σ ι} {e : β × Bool} {es : List (β × Bool)} {used : Finset ι}
  {direction : ι → Bool}

theorem mistakes_eq_countP :
    t.mistakes S bound weak es =
      ((t.predictions S bound weak es).zip (es.map Prod.snd)).countP fun both ↦
        both.1 ≠ both.2 := by
  induction es generalizing t with
  | nil => rfl
  | cons e es ih =>
    rw [mistakes, predictions, List.map_cons, List.zip_cons_cons, List.countP_cons, ih,
      Nat.add_comm]
    congr 1
    unfold mistake predict
    by_cases hright : decide (weak ≤ t.counters (S.index t.history e.1)) = e.2
    · simp [hright]
    · simp [hright]

/-- One input changes the distance of its own index only. -/
theorem mistake_add_distances_train (direction : ι → Bool) (hpos : 0 < weak)
    (hle : weak ≤ bound) (hused : S.index t.history e.1 ∈ used) :
    mistake weak (t.counters (S.index t.history e.1)) e.2 +
        (t.train S bound e).distances weak used direction ≤
      t.distances weak used direction +
        2 * if e.2 ≠ direction (S.index t.history e.1) then 1 else 0 := by
  have hrest (i : ι) (hi : i ∈ used.erase (S.index t.history e.1)) :
      distance weak (direction i) ((t.train S bound e).counters i) =
        distance weak (direction i) (t.counters i) := by
    rw [train_counters, Function.update_of_ne (Finset.ne_of_mem_erase hi)]
  unfold distances
  rw [← Finset.add_sum_erase _ _ hused, ← Finset.add_sum_erase _ _ hused,
    Finset.sum_congr rfl hrest, train_counters, Function.update_self]
  by_cases hdir : e.2 = direction (S.index t.history e.1)
  · have hstep := mistake_add_distance hpos hle e.2 (t.counters (S.index t.history e.1))
    simp only [← hdir, ne_eq, not_true_eq_false, if_false]
    omega
  · have hnot : e.2 = !direction (S.index t.history e.1) := by
      cases hcase : e.2 <;> cases hcase' : direction (S.index t.history e.1) <;> simp_all
    have hstep := mistake_add_distance_not weak bound (direction (S.index t.history e.1))
      (t.counters (S.index t.history e.1))
    rw [← hnot] at hstep
    simp only [ne_eq, hdir, not_false_eq_true, if_true]
    omega

/-- Whatever the directions, a run makes no more mistakes than these say. -/
theorem mistakes_add_distances_le (hpos : 0 < weak) (hle : weak ≤ bound)
    (hused : ∀ a ∈ t.accesses S bound es, a.1 ∈ used) :
    t.mistakes S bound weak es + (t.run S bound es).distances weak used direction ≤
      t.distances weak used direction +
        2 * (t.accesses S bound es).countP fun a ↦ a.2 ≠ direction a.1 := by
  induction es generalizing t with
  | nil => simp [mistakes, accesses]
  | cons e es ih =>
    obtain ⟨hfirst, hrest⟩ := List.forall_mem_cons.mp hused
    have hstep := mistake_add_distances_train direction hpos hle hfirst
    calc t.mistakes S bound weak (e :: es) + (t.run S bound (e :: es)).distances weak used direction
        = mistake weak (t.counters (S.index t.history e.1)) e.2 +
            ((t.train S bound e).mistakes S bound weak es +
              ((t.train S bound e).run S bound es).distances weak used direction) := by
          rw [mistakes, run_cons, Nat.add_assoc]
      _ ≤ mistake weak (t.counters (S.index t.history e.1)) e.2 +
            ((t.train S bound e).distances weak used direction +
              2 * ((t.train S bound e).accesses S bound es).countP fun a ↦ a.2 ≠ direction a.1) :=
          Nat.add_le_add_left (ih hrest) _
      _ ≤ t.distances weak used direction +
            2 * (t.accesses S bound (e :: es)).countP fun a ↦ a.2 ≠ direction a.1 := by
          rw [accesses, List.countP_cons]
          simp only [decide_eq_true_eq]
          omega

/-- Counters that start where they just predict `true` have to be turned once for each index whose
direction is `false`. -/
theorem mistakes_le (S : Scheme σ β ι) (es : List (β × Bool)) (hpos : 0 < weak)
    (hle : weak ≤ bound) (hstart : ∀ i, t.counters i = weak) (direction : ι → Bool) :
    t.mistakes S bound weak es ≤
      2 * ((t.accesses S bound es).countP fun a ↦ a.2 ≠ direction a.1) +
        (((t.accesses S bound es).map Prod.fst).toFinset.filter fun i ↦
          direction i = false).card := by
  have hmem (a : ι × Bool) (ha : a ∈ t.accesses S bound es) :
      a.1 ∈ ((t.accesses S bound es).map Prod.fst).toFinset :=
    List.mem_toFinset.mpr (List.mem_map_of_mem ha)
  have hdistances : t.distances weak ((t.accesses S bound es).map Prod.fst).toFinset direction =
      (((t.accesses S bound es).map Prod.fst).toFinset.filter fun i ↦
        direction i = false).card := by
    rw [distances, Finset.card_filter]
    refine Finset.sum_congr rfl fun i _ ↦ ?_
    rw [hstart, distance_self]
    cases direction i <;> rfl
  calc t.mistakes S bound weak es
      ≤ t.mistakes S bound weak es + (t.run S bound es).distances weak
          ((t.accesses S bound es).map Prod.fst).toFinset direction := Nat.le_add_right _ _
    _ ≤ t.distances weak ((t.accesses S bound es).map Prod.fst).toFinset direction +
          2 * (t.accesses S bound es).countP fun a ↦ a.2 ≠ direction a.1 :=
        mistakes_add_distances_le hpos hle hmem
    _ = _ := by rw [hdistances, Nat.add_comm]

end Table

end ArchSim.Library.CounterTable
