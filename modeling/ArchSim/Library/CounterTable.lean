import Mathlib.Data.List.Infix
import Mathlib.Data.Nat.Notation
import Mathlib.Logic.Function.Basic

/-!
# Tables of saturating counters

A predictor that keeps one counter for every index. A *scheme* says which index an input has, given
what has been recorded of the outcomes before it, and how an outcome is recorded. A counter counts
the outcomes of the inputs with its index, up when they are true and down when they are false,
between zero and a bound. The record does not depend on the counters, and a larger bound makes no
difference as long as no counter is raised that stands at the smaller one. Where the inputs of a
class have a history and indices of their own, the inputs of the other classes make no difference to
them.
-/

namespace ArchSim.Library.CounterTable

/-- How indices are chosen: `σ` is the record of the past, `β` an input and `ι` an index. -/
structure Scheme (σ β ι : Type) where
  index : σ → β → ι
  record : σ → β → Bool → σ

/-- A counter after one more outcome. -/
def count (bound : ℕ) (up : Bool) (counter : ℕ) : ℕ :=
  if up then (if counter < bound then counter + 1 else counter) else counter - 1

theorem count_le {bound : ℕ} {up : Bool} {counter : ℕ} (h : counter ≤ bound) :
    count bound up counter ≤ bound := by
  unfold count
  split
  · split <;> omega
  · omega

/-- Below the smaller bound the larger one makes no difference. -/
theorem count_congr {max bound : ℕ} {up : Bool} {counter : ℕ} (hle : max ≤ bound)
    (h : counter ≤ max) (hmax : up = true → counter ≠ max) :
    count bound up counter = count max up counter := by
  cases up with
  | false => rfl
  | true =>
    have hlt : counter < max := Nat.lt_of_le_of_ne h (hmax rfl)
    have hlt' : counter < bound := Nat.lt_of_lt_of_le hlt hle
    simp only [count, hlt, hlt', if_true]

/-- At the smaller bound it does. -/
theorem count_ne {max bound : ℕ} (hlt : max < bound) :
    count bound true max ≠ count max true max := by
  simp [count, hlt]

structure Table (σ ι : Type) where
  history : σ
  counters : ι → ℕ

namespace Table

variable {σ β ι : Type} [DecidableEq ι] (S : Scheme σ β ι) {max bound : ℕ}

/-- The outcome that is predicted for `b`: the counter has reached `weak`. -/
def predict (weak : ℕ) (t : Table σ ι) (b : β) : Bool := weak ≤ t.counters (S.index t.history b)

def train (bound : ℕ) (t : Table σ ι) (e : β × Bool) : Table σ ι where
  history := S.record t.history e.1 e.2
  counters := Function.update t.counters (S.index t.history e.1)
    (count bound e.2 (t.counters (S.index t.history e.1)))

/-- The table after a run. -/
def run (bound : ℕ) (t : Table σ ι) (es : List (β × Bool)) : Table σ ι :=
  es.foldl (train S bound) t

/-- What a run predicts for each of its inputs. -/
def predictions (bound weak : ℕ) : Table σ ι → List (β × Bool) → List Bool
  | _, [] => []
  | t, e :: es => t.predict S weak e.1 :: (t.train S bound e).predictions bound weak es

/-- No counter is raised that stands at `max`. -/
def Unsaturated (max : ℕ) : Table σ ι → List (β × Bool) → Prop
  | _, [] => True
  | t, e :: es => (e.2 = true → t.counters (S.index t.history e.1) ≠ max) ∧
      (t.train S max e).Unsaturated max es

variable {S} {t : Table σ ι} {e : β × Bool} {es : List (β × Bool)}

theorem train_counters : (t.train S bound e).counters = Function.update t.counters
    (S.index t.history e.1) (count bound e.2 (t.counters (S.index t.history e.1))) := rfl

@[simp] theorem run_nil : t.run S bound [] = t := rfl

@[simp] theorem run_cons : t.run S bound (e :: es) = (t.train S bound e).run S bound es := rfl

theorem run_append (es es' : List (β × Bool)) :
    t.run S bound (es ++ es') = (t.run S bound es).run S bound es' := List.foldl_append

theorem predictions_append {weak : ℕ} (es es' : List (β × Bool)) :
    t.predictions S bound weak (es ++ es') =
      t.predictions S bound weak es ++ (t.run S bound es).predictions S bound weak es' := by
  induction es generalizing t with
  | nil => rfl
  | cons e es ih => simp only [List.cons_append, predictions, run_cons, ih]

@[simp] theorem length_predictions {weak : ℕ} :
    (t.predictions S bound weak es).length = es.length := by
  induction es generalizing t with
  | nil => rfl
  | cons e es ih => simp only [predictions, List.length_cons, ih]

/-- Counters within the bound stay there. -/
theorem train_le (h : ∀ i, t.counters i ≤ bound) (i : ι) :
    (t.train S bound e).counters i ≤ bound := by
  rw [train_counters]
  by_cases hi : i = S.index t.history e.1
  · subst hi
    rw [Function.update_self]
    exact count_le (h _)
  · rw [Function.update_of_ne hi]
    exact h i

theorem train_congr (hle : max ≤ bound) (h : ∀ i, t.counters i ≤ max)
    (hmax : e.2 = true → t.counters (S.index t.history e.1) ≠ max) :
    t.train S bound e = t.train S max e := by
  unfold train
  rw [count_congr hle (h _) hmax]

/-- A run that is unsaturated is the same under every larger bound. -/
theorem run_congr (hle : max ≤ bound) (h : ∀ i, t.counters i ≤ max)
    (hunsaturated : t.Unsaturated S max es) :
    t.run S bound es = t.run S max es ∧
      ∀ weak, t.predictions S bound weak es = t.predictions S max weak es := by
  induction es generalizing t with
  | nil => exact ⟨rfl, fun _ ↦ rfl⟩
  | cons e es ih =>
    obtain ⟨hmax, hrest⟩ := hunsaturated
    have htrain := train_congr hle h hmax
    obtain ⟨hrun, hpredictions⟩ := ih (train_le h) hrest
    constructor
    · rw [run_cons, run_cons, htrain, hrun]
    · intro weak
      rw [predictions, predictions, htrain, hpredictions]

theorem Unsaturated.of_append {es' : List (β × Bool)} (h : t.Unsaturated S max es')
    (hbefore : es <+: es') : t.Unsaturated S max es := by
  obtain ⟨rest, rfl⟩ := hbefore
  induction es generalizing t with
  | nil => trivial
  | cons e es ih => exact ⟨h.1, ih h.2⟩

/-- If after every input the two bounds agree on the counter of that input, then no counter has
been raised at the smaller bound. -/
theorem unsaturated_of_agree (hlt : max < bound) (h : ∀ i, t.counters i ≤ max)
    (hagree : ∀ before e, before ++ [e] <+: es →
      (t.run S bound (before ++ [e])).counters (S.index (t.run S max before).history e.1) =
        (t.run S max (before ++ [e])).counters (S.index (t.run S max before).history e.1)) :
    t.Unsaturated S max es := by
  induction es generalizing t with
  | nil => trivial
  | cons e es ih =>
    have hfirst := hagree [] e ⟨es, rfl⟩
    have hmax : e.2 = true → t.counters (S.index t.history e.1) ≠ max := by
      intro hup heq
      simp only [List.nil_append, run_cons, run_nil, train_counters, Function.update_self, hup,
        heq] at hfirst
      exact count_ne hlt hfirst
    refine ⟨hmax, ih (train_le h) ?_⟩
    intro before e' hbefore
    have hcons := hagree (e :: before) e' (List.cons_prefix_cons.mpr ⟨rfl, hbefore⟩)
    simpa only [List.cons_append, run_cons, train_congr (Nat.le_of_lt hlt) h hmax] using hcons

/-! ## Classes of inputs -/

/-- The inputs of a class have indices of their own, and these depend only on the view `view` of the
record, which the inputs outside the class leave as it is. -/
structure Separates {ν : Type} (S : Scheme σ β ι) (valid : σ → Prop) (view : σ → ν)
    (inClass : β → Bool) : Prop where
  valid_record : ∀ {h b o}, valid h → valid (S.record h b o)
  index_eq : ∀ {h h' b}, valid h → valid h' → inClass b = true → view h = view h' →
    S.index h b = S.index h' b
  index_ne : ∀ {h h' b b'}, valid h → valid h' → inClass b = true → inClass b' = false →
    S.index h b ≠ S.index h' b'
  view_eq : ∀ {h h' b o}, valid h → valid h' → inClass b = true → view h = view h' →
    view (S.record h b o) = view (S.record h' b o)
  view_other : ∀ {h b o}, valid h → inClass b = false → view (S.record h b o) = view h

/-- Two tables that agree on everything that the inputs of the class can see. -/
structure SameView {ν : Type} (S : Scheme σ β ι) (valid : σ → Prop) (view : σ → ν)
    (inClass : β → Bool) (t t' : Table σ ι) : Prop where
  valid_left : valid t.history
  valid_right : valid t'.history
  view : view t.history = view t'.history
  counters : ∀ h b, valid h → inClass b = true →
    t.counters (S.index h b) = t'.counters (S.index h b)

section

variable {ν : Type} {valid : σ → Prop} {view : σ → ν} {inClass : β → Bool} {t' : Table σ ι}

omit [DecidableEq ι] in
theorem SameView.refl (h : valid t.history) : SameView S valid view inClass t t :=
  ⟨h, h, rfl, fun _ _ _ _ ↦ rfl⟩

omit [DecidableEq ι] in
theorem SameView.predict_eq (hsep : Separates S valid view inClass)
    (h : SameView S valid view inClass t t') {b : β} (hb : inClass b = true) (weak : ℕ) :
    t.predict S weak b = t'.predict S weak b := by
  unfold predict
  rw [h.counters _ _ h.valid_left hb, hsep.index_eq h.valid_left h.valid_right hb h.view]

/-- An input of the class changes both tables alike. -/
theorem SameView.train (hsep : Separates S valid view inClass)
    (h : SameView S valid view inClass t t') (he : inClass e.1 = true) :
    SameView S valid view inClass (t.train S bound e) (t'.train S bound e) where
  valid_left := hsep.valid_record h.valid_left
  valid_right := hsep.valid_record h.valid_right
  view := hsep.view_eq h.valid_left h.valid_right he h.view
  counters past b hpast hb := by
    have hindex := hsep.index_eq h.valid_left h.valid_right he h.view
    have hsame := h.counters _ _ h.valid_left he
    rw [train_counters, train_counters, ← hindex, ← hsame]
    by_cases heq : S.index past b = S.index t.history e.1
    · rw [heq, Function.update_self, Function.update_self]
    · rw [Function.update_of_ne heq, Function.update_of_ne heq]
      exact h.counters past b hpast hb

/-- An input outside the class changes nothing that the class can see. -/
theorem SameView.train_other (hsep : Separates S valid view inClass)
    (h : SameView S valid view inClass t t') (he : inClass e.1 = false) :
    SameView S valid view inClass (t.train S bound e) t' where
  valid_left := hsep.valid_record h.valid_left
  valid_right := h.valid_right
  view := (hsep.view_other h.valid_left he).trans h.view
  counters past b hpast hb := by
    rw [train_counters, Function.update_of_ne (hsep.index_ne hpast h.valid_left hb he)]
    exact h.counters past b hpast hb

/-- What a run predicts for the inputs of the class is what is predicted when it has no others. -/
theorem SameView.predictions_filter (hsep : Separates S valid view inClass)
    (h : SameView S valid view inClass t t') (weak : ℕ) :
    ((es.zip (t.predictions S bound weak es)).filter fun e ↦ inClass e.1.1).map Prod.snd =
      t'.predictions S bound weak (es.filter fun e ↦ inClass e.1) := by
  induction es generalizing t t' with
  | nil => rfl
  | cons e es ih =>
    cases he : inClass e.1 with
    | true =>
      simp only [predictions, List.zip_cons_cons, List.filter_cons, he, if_true, List.map_cons,
        ih (h.train hsep he), h.predict_eq hsep he]
    | false =>
      simpa only [predictions, List.zip_cons_cons, List.filter_cons, he, Bool.false_eq_true,
        if_false] using ih (h.train_other hsep he)

end

end Table

end ArchSim.Library.CounterTable
