import Mathlib.Data.List.FinRange
import Mathlib.Data.Nat.Notation

/-!
# Loops whose body may abort

`Yields bad x Q`: the computation `x` returns a value with `Q`, or it aborts and then `bad` holds.
With `bad` false this is total correctness, and with `bad` true only partial correctness; the
rules below are for any `bad`. A `Loop` runs its body until a test holds after it.
-/

namespace ArchSim.Library

variable {ε σ τ : Type} {bad : Prop}

/-- Two computations in a row return a value if both do. -/
theorem bind_eq_ok {x : Except ε σ} {f : σ → Except ε τ} {t : τ} :
    x >>= f = .ok t ↔ ∃ s, x = .ok s ∧ f s = .ok t := by
  cases x with
  | error e => simp [bind, Except.bind]
  | ok s => simp [bind, Except.bind]

theorem bind_pure_eq_ok {x : Except ε σ} {f : σ → τ} {t : τ} :
    (do let s ← x; return f s) = Except.ok t ↔ ∃ s, x = .ok s ∧ t = f s := by
  rw [bind_eq_ok]
  refine exists_congr fun s ↦ and_congr_right fun _ ↦ ⟨fun h ↦ (Except.ok.inj h).symm, ?_⟩
  rintro rfl
  rfl

theorem toOption_eq_some {x : Except ε σ} {s : σ} : x.toOption = some s ↔ x = .ok s := by
  cases x <;> simp [Except.toOption]

def Yields (bad : Prop) (x : Except ε σ) (Q : σ → Prop) : Prop :=
  match x with
  | .ok s => Q s
  | .error _ => bad

namespace Yields

variable {x : Except ε σ} {Q R : σ → Prop} {s : σ}

theorem of_ok (h : Yields bad x Q) (hx : x = .ok s) : Q s := by
  subst hx
  exact h

theorem of_forall (h : ∀ s, x = .ok s → Q s) : Yields True x Q := by
  cases x with
  | ok s => exact h s rfl
  | error _ => trivial

theorem exists_of_not (h : Yields bad x Q) (hbad : ¬ bad) : ∃ s, x = .ok s ∧ Q s := by
  cases x with
  | ok s => exact ⟨s, rfl, h⟩
  | error _ => exact absurd h hbad

theorem mono (h : Yields bad x Q) (himp : ∀ s, Q s → R s) : Yields bad x R := by
  cases x with
  | ok s => exact himp s h
  | error _ => exact h

theorem bind {f : σ → Except ε τ} {R : τ → Prop} (h : Yields bad x Q)
    (hf : ∀ s, Q s → Yields bad (f s) R) : Yields bad (x >>= f) R := by
  cases x with
  | ok s => exact hf s h
  | error _ => exact h

/-- A loop over a list keeps an invariant. -/
theorem foldlM {ι : Type} {f : σ → ι → Except ε σ} {I : σ → Prop} {l : List ι}
    (hstep : ∀ i ∈ l, ∀ s, I s → Yields bad (f s i) I) {s : σ} (hs : I s) :
    Yields bad (l.foldlM f s) I := by
  induction l generalizing s with
  | nil => exact hs
  | cons i l ih =>
    rw [List.foldlM_cons]
    refine (hstep i List.mem_cons_self s hs).bind fun s' hs' ↦ ?_
    exact ih (fun j hj ↦ hstep j (List.mem_cons_of_mem i hj)) hs'

/-- A loop over a list that makes `J` of `I` when it comes to `i`. -/
theorem foldlM_at {ι : Type} {f : σ → ι → Except ε σ} {I J : σ → Prop} {l : List ι} {i : ι}
    (hmem : i ∈ l) (hnodup : l.Nodup)
    (hbefore : ∀ j ∈ l, j ≠ i → ∀ s, I s → Yields bad (f s j) I)
    (hat : ∀ s, I s → Yields bad (f s i) J)
    (hafter : ∀ j ∈ l, j ≠ i → ∀ s, J s → Yields bad (f s j) J) {s : σ} (hs : I s) :
    Yields bad (l.foldlM f s) J := by
  obtain ⟨before, after, rfl⟩ := List.append_of_mem hmem
  obtain ⟨-, hnodup', hdisjoint⟩ := List.nodup_append.mp hnodup
  rw [List.foldlM_append]
  refine (foldlM (I := I) (fun j hj ↦ ?_) hs).bind fun s₁ hs₁ ↦ ?_
  · exact hbefore j (List.mem_append_left _ hj) (hdisjoint j hj i List.mem_cons_self)
  · rw [List.foldlM_cons]
    refine (hat s₁ hs₁).bind fun s₂ hs₂ ↦ foldlM (fun j hj ↦ ?_) hs₂
    apply hafter j (List.mem_append_right _ (List.mem_cons_of_mem _ hj))
    rintro rfl
    exact (List.nodup_cons.mp hnodup').1 hj

/-- A loop over all indices keeps an invariant that may mention how many it has passed. -/
theorem foldlM_finRange {n : ℕ} {f : σ → Fin n → Except ε σ} {I : ℕ → σ → Prop}
    (hstep : ∀ (i : Fin n) s, I i s → Yields bad (f s i) (I (i + 1))) (hstart : I 0 s) :
    Yields bad ((List.finRange n).foldlM f s) (I n) := by
  suffices h : ∀ k ≤ n, ∀ s, I (n - k) s →
      Yields bad (((List.finRange n).drop (n - k)).foldlM f s) (I n) by
    simpa using h n le_rfl s (by simpa using hstart)
  intro k hk
  induction k with
  | zero =>
    intro s hs
    rw [List.drop_eq_nil_of_le (by simp)]
    exact hs
  | succ k ih =>
    intro s hs
    have hlt : n - (k + 1) < n := by omega
    rw [List.drop_eq_getElem_cons (by simpa using hlt), List.foldlM_cons, List.getElem_finRange]
    refine (hstep ⟨n - (k + 1), hlt⟩ s hs).bind fun s' hs' ↦ ?_
    have hsucc : n - (k + 1) + 1 = n - k := by omega
    rw [hsucc] at hs' ⊢
    exact ih (by omega) s' hs'

end Yields

/-- A loop over a list aborts in one of its steps, in a state that meets the invariant. -/
theorem foldlM_error {ι : Type} {f : σ → ι → Except ε σ} {I : σ → Prop} {l : List ι} {s : σ}
    {e : ε} (herror : l.foldlM f s = .error e)
    (hstep : ∀ i ∈ l, ∀ s s', f s i = .ok s' → I s → I s') (hs : I s) :
    ∃ i ∈ l, ∃ s', I s' ∧ f s' i = .error e := by
  induction l generalizing s with
  | nil => cases herror
  | cons i l ih =>
    cases hs' : f s i with
    | error e' =>
      rw [List.foldlM_cons, hs'] at herror
      obtain rfl := Except.error.inj herror
      exact ⟨i, List.mem_cons_self, s, hs, hs'⟩
    | ok s' =>
      rw [List.foldlM_cons, hs'] at herror
      obtain ⟨j, hj, hfails⟩ := ih herror (fun j hj ↦ hstep j (List.mem_cons_of_mem i hj))
        (hstep i List.mem_cons_self s s' hs' hs)
      exact ⟨j, List.mem_cons_of_mem i hj, hfails⟩

/-- What the steps of a loop preserve, if they do not abort. -/
theorem foldlM_invariant {ι : Type} {f : σ → ι → Except ε σ} {I : σ → Prop} {l : List ι}
    {s s' : σ} (hs' : l.foldlM f s = .ok s')
    (hstep : ∀ i ∈ l, ∀ s s', f s i = .ok s' → I s → I s') (hs : I s) : I s' := by
  have h : Yields True (l.foldlM f s) I :=
    Yields.foldlM (fun i hi s hs ↦ .of_forall fun s' hf ↦ hstep i hi s s' hf hs) hs
  exact h.of_ok hs'

/-- `foldlM_invariant` for a loop over all indices and an invariant that may mention how many it has
passed. -/
theorem foldlM_finRange_invariant {n : ℕ} {f : σ → Fin n → Except ε σ} {I : ℕ → σ → Prop}
    {s s' : σ} (hs' : (List.finRange n).foldlM f s = .ok s')
    (hstep : ∀ (i : Fin n) s s', f s i = .ok s' → I i s → I (i + 1) s') (hs : I 0 s) :
    I n s' := by
  have h : Yields True ((List.finRange n).foldlM f s) (I n) :=
    Yields.foldlM_finRange (fun i s hs ↦ .of_forall fun s' hf ↦ hstep i s s' hf hs) hs
  exact h.of_ok hs'

/-- The rule for a loop over all indices whose body cannot abort. -/
theorem foldl_finRange {n : ℕ} {f : σ → Fin n → σ} {I : ℕ → σ → Prop} {s : σ}
    (hstep : ∀ (i : Fin n) s, I i s → I (i + 1) (f s i)) (hstart : I 0 s) :
    I n ((List.finRange n).foldl f s) := by
  let f' (s : σ) (i : Fin n) : Except Empty σ := .ok (f s i)
  have h : Yields False ((List.finRange n).foldlM f' s) (I n) :=
    Yields.foldlM_finRange hstep hstart
  have hpure : (List.finRange n).foldlM f' s = .ok ((List.finRange n).foldl f s) :=
    List.foldlM_pure
  exact h.of_ok hpure

/-- `Yields.foldlM_at` for a loop whose body cannot abort. -/
theorem foldl_at {ι : Type} {f : σ → ι → σ} {I J : σ → Prop} {l : List ι} {i : ι} (hmem : i ∈ l)
    (hnodup : l.Nodup) (hbefore : ∀ j ∈ l, j ≠ i → ∀ s, I s → I (f s j))
    (hat : ∀ s, I s → J (f s i)) (hafter : ∀ j ∈ l, j ≠ i → ∀ s, J s → J (f s j)) {s : σ}
    (hs : I s) : J (l.foldl f s) := by
  let f' (s : σ) (i : ι) : Except Empty σ := .ok (f s i)
  have h : Yields False (l.foldlM f' s) J := Yields.foldlM_at hmem hnodup hbefore hat hafter hs
  have hpure : l.foldlM f' s = .ok (l.foldl f s) := List.foldlM_pure
  exact h.of_ok hpure

/-- An invariant that says which elements of the list the loop has visited. -/
theorem foldl_visited {ι : Type} {f : σ → ι → σ} {I : List ι → σ → Prop} {l : List ι}
    (hstep : ∀ before i after, l = before ++ i :: after → ∀ s, I before s →
      I (before ++ [i]) (f s i)) {s : σ} (hs : I [] s) : I l (l.foldl f s) := by
  suffices hrest : ∀ rest before s, l = before ++ rest → I before s → I l (rest.foldl f s) from
    hrest l [] s rfl hs
  intro rest
  induction rest with
  | nil =>
    rintro before s rfl hs
    rwa [List.append_nil]
  | cons i rest ih =>
    intro before s hl hs
    exact ih (before ++ [i]) (f s i) (by rw [hl, List.append_assoc]; rfl)
      (hstep before i rest hl s hs)

/-- The steps of a loop over a list may be swapped, up to `R`. -/
structure Swappable {ι : Type} (R : σ → σ → Prop) (f : σ → ι → Except ε σ) : Prop where
  refl : ∀ s, R s s
  trans : ∀ {s t u}, R s t → R t u → R s u
  congr : ∀ {i s t s'}, R s t → f s i = .ok s' → ∃ t', f t i = .ok t' ∧ R s' t'
  swap : ∀ {i j s s₁ s₂}, i ≠ j → f s i = .ok s₁ → f s₁ j = .ok s₂ →
    ∃ t₁ t₂, f s j = .ok t₁ ∧ f t₁ i = .ok t₂ ∧ R s₂ t₂

namespace Swappable

variable {ι : Type} {R : σ → σ → Prop} {f : σ → ι → Except ε σ} {l l' : List ι} {s t s' : σ}

theorem foldlM_cons_eq_ok {i : ι} :
    (i :: l).foldlM f s = .ok s' ↔ ∃ s₁, f s i = .ok s₁ ∧ l.foldlM f s₁ = .ok s' := by
  rw [List.foldlM_cons, bind_eq_ok]

theorem foldlM_congr (h : Swappable R f) (hst : R s t) (hs' : l.foldlM f s = .ok s') :
    ∃ t', l.foldlM f t = .ok t' ∧ R s' t' := by
  induction l generalizing s t with
  | nil =>
    obtain rfl := Except.ok.inj hs'
    exact ⟨t, rfl, hst⟩
  | cons i l ih =>
    obtain ⟨s₁, hs₁, hl⟩ := foldlM_cons_eq_ok.mp hs'
    obtain ⟨t₁, ht₁, hst₁⟩ := h.congr hst hs₁
    obtain ⟨t', ht', hst'⟩ := ih hst₁ hl
    exact ⟨t', foldlM_cons_eq_ok.mpr ⟨t₁, ht₁, ht'⟩, hst'⟩

/-- The order in which the loop goes through the list does not matter, up to `R`. -/
theorem foldlM_perm (h : Swappable R f) (hperm : l.Perm l') (hs' : l.foldlM f s = .ok s') :
    ∃ t', l'.foldlM f s = .ok t' ∧ R s' t' := by
  induction hperm generalizing s s' with
  | nil => exact ⟨s', hs', h.refl s'⟩
  | cons i _ ih =>
    obtain ⟨s₁, hs₁, hl⟩ := foldlM_cons_eq_ok.mp hs'
    obtain ⟨t', ht', hR⟩ := ih hl
    exact ⟨t', foldlM_cons_eq_ok.mpr ⟨s₁, hs₁, ht'⟩, hR⟩
  | swap i j l =>
    obtain ⟨s₁, hs₁, hrest⟩ := foldlM_cons_eq_ok.mp hs'
    obtain ⟨s₂, hs₂, hl⟩ := foldlM_cons_eq_ok.mp hrest
    by_cases heq : j = i
    · subst heq
      exact ⟨s', hs', h.refl s'⟩
    · obtain ⟨t₁, t₂, ht₁, ht₂, hR⟩ := h.swap heq hs₁ hs₂
      obtain ⟨t', ht', hR'⟩ := h.foldlM_congr hR hl
      exact ⟨t', foldlM_cons_eq_ok.mpr ⟨t₁, ht₁, foldlM_cons_eq_ok.mpr ⟨t₂, ht₂, ht'⟩⟩, hR'⟩
  | trans _ _ ih₁ ih₂ =>
    obtain ⟨t₁, ht₁, hR₁⟩ := ih₁ hs'
    obtain ⟨t₂, ht₂, hR₂⟩ := ih₂ ht₁
    exact ⟨t₂, ht₂, h.trans hR₁ hR₂⟩

end Swappable

/-- `x` computes what `y` computes and something besides, which `π` drops. -/
def Erases (π : τ → σ) (y : Except ε τ) (x : Except ε σ) : Prop := y.map π = x

namespace Erases

variable {π : τ → σ} {t : τ}

theorem of_ok {y : Except ε τ} {s : σ} (h : Erases π y (.ok s)) : ∃ t, y = .ok t ∧ π t = s := by
  cases y with
  | ok t => exact ⟨t, rfl, Except.ok.inj h⟩
  | error _ => cases h

theorem comp {ρ : Type} {π' : σ → ρ} {y : Except ε τ} {x : Except ε σ} {z : Except ε ρ}
    (h : Erases π y x) (h' : Erases π' x z) : Erases (π' ∘ π) y z := by
  cases h
  cases h'
  cases y <;> rfl

theorem bind_of {τ' σ' : Type} {π' : τ' → σ'} {y : Except ε τ} {x : Except ε σ}
    {g : τ → Except ε τ'} {f : σ → Except ε σ'} (h : Erases π y x)
    (hg : ∀ t, y = .ok t → Erases π' (g t) (f (π t))) : Erases π' (y >>= g) (x >>= f) := by
  cases h
  cases y with
  | ok t => exact hg t rfl
  | error _ => rfl

theorem bind {τ' σ' : Type} {π' : τ' → σ'} {y : Except ε τ} {x : Except ε σ}
    {g : τ → Except ε τ'} {f : σ → Except ε σ'} (h : Erases π y x)
    (hg : ∀ t, Erases π' (g t) (f (π t))) : Erases π' (y >>= g) (x >>= f) :=
  h.bind_of fun t _ ↦ hg t

/-- It is enough that the steps of a fold agree where an invariant of it holds. -/
theorem foldlM_of {ι : Type} {g : τ → ι → Except ε τ} {f : σ → ι → Except ε σ} {I : τ → Prop}
    (hI : ∀ t t' i, I t → g t i = .ok t' → I t')
    (hg : ∀ t i, I t → Erases π (g t i) (f (π t) i)) (is : List ι) (ht : I t) :
    Erases π (is.foldlM g t) (is.foldlM f (π t)) := by
  induction is generalizing t with
  | nil => rfl
  | cons i is ih =>
    rw [List.foldlM_cons, List.foldlM_cons]
    exact (hg t i ht).bind_of fun t' ht' ↦ ih (hI t t' i ht ht')

theorem foldlM {ι : Type} {g : τ → ι → Except ε τ} {f : σ → ι → Except ε σ}
    (hg : ∀ t i, Erases π (g t i) (f (π t) i)) (is : List ι) (t : τ) :
    Erases π (is.foldlM g t) (is.foldlM f (π t)) :=
  foldlM_of (I := fun _ ↦ True) (fun _ _ _ _ _ ↦ trivial) (fun t i _ ↦ hg t i) is trivial

end Erases

/-- A loop that runs `body` until `done` holds at its end. -/
structure Loop (ε σ : Type) where
  body : σ → Except ε σ
  done : σ → Bool

namespace Loop

/-- The loop from the state `s`, stopped after `fuel` iterations. -/
def run (loop : Loop ε σ) : ℕ → σ → Except ε (Option σ)
  | 0, _ => .ok none
  | fuel + 1, s => do
      let s ← loop.body s
      if loop.done s then return some s else loop.run fuel s

/-- The state after the given number of iterations, if the loop gets so far and `cond` holds at the
start of each. -/
def iterate (loop : Loop ε σ) (cond : σ → Prop) [DecidablePred cond] : ℕ → σ → Option σ
  | 0, s => some s
  | k + 1, s =>
      if cond s then
        match loop.body s with
        | .ok s => if loop.done s then none else loop.iterate cond k s
        | .error _ => none
      else
        none

/-- The state at the end of the iteration that follows the first `k`. -/
def endAfter (loop : Loop ε σ) (cond : σ → Prop) [DecidablePred cond] (k : ℕ) (s : σ) : Option σ :=
  (loop.iterate cond k s).bind fun s ↦ if cond s then (loop.body s).toOption else none

/-- The states at the head of the loop, in runs whose iterations all start in a state that meets
`cond`. -/
inductive Head (loop : Loop ε σ) (start : σ) (cond : σ → Prop) : σ → Prop where
  | start : Head loop start cond start
  | next {s s' : σ} : Head loop start cond s → cond s → loop.body s = .ok s' →
      loop.done s' = false → Head loop start cond s'

/-- The states at the end of an iteration of such a run. -/
def EndOfBody (loop : Loop ε σ) (start : σ) (cond : σ → Prop) (s' : σ) : Prop :=
  ∃ s, loop.Head start cond s ∧ cond s ∧ loop.body s = .ok s'

variable {loop : Loop ε σ} {start s : σ} {cond : σ → Prop} {I : σ → Prop}

/-- What each iteration preserves that starts at a head of the loop holds at every head. -/
theorem Head.preserved (hstart : I start)
    (hbody : ∀ s s', loop.Head start cond s → cond s → loop.body s = .ok s' → I s → I s')
    (h : loop.Head start cond s) : I s := by
  induction h with
  | start => exact hstart
  | next hhead hcond hs' _ ih => exact hbody _ _ hhead hcond hs' ih

theorem EndOfBody.preserved (hstart : I start)
    (hbody : ∀ s s', loop.Head start cond s → cond s → loop.body s = .ok s' → I s → I s')
    (h : loop.EndOfBody start cond s) : I s := by
  obtain ⟨s₀, hhead, hcond, hs⟩ := h
  exact hbody s₀ s hhead hcond hs (hhead.preserved hstart hbody)

theorem Head.invariant (hstart : I start)
    (hbody : ∀ s, I s → cond s → Yields bad (loop.body s) I) (h : loop.Head start cond s) : I s :=
  h.preserved hstart fun s _ _ hcond hs' hs ↦ (hbody s hs hcond).of_ok hs'

theorem EndOfBody.invariant (hstart : I start)
    (hbody : ∀ s, I s → cond s → Yields bad (loop.body s) I) (h : loop.EndOfBody start cond s) :
    I s :=
  h.preserved hstart fun s _ _ hcond hs' hs ↦ (hbody s hs hcond).of_ok hs'

theorem iterate_succ_eq_some [DecidablePred cond] {k : ℕ} {s' : σ} :
    loop.iterate cond (k + 1) s = some s' ↔ cond s ∧ ∃ s₁, loop.body s = .ok s₁ ∧
      loop.done s₁ = false ∧ loop.iterate cond k s₁ = some s' := by
  rw [Loop.iterate]
  by_cases hcond : cond s
  · cases hbody : loop.body s with
    | error _ => simp [hcond]
    | ok s₁ => cases hdone : loop.done s₁ <;> simp [hcond, hdone]
  · simp [hcond]

theorem Head.iterate [DecidablePred cond] {k : ℕ} {s' : σ} (h : loop.Head start cond s)
    (hs : loop.iterate cond k s = some s') : loop.Head start cond s' := by
  induction k generalizing s with
  | zero =>
    obtain rfl := Option.some.inj hs
    exact h
  | succ k ih =>
    obtain ⟨hcond, s₁, hbody, hdone, hrest⟩ := iterate_succ_eq_some.mp hs
    exact ih (h.next hcond hbody hdone) hrest

theorem endOfBody_of_endAfter [DecidablePred cond] {k : ℕ}
    (h : loop.endAfter cond k start = some s) : loop.EndOfBody start cond s := by
  rw [endAfter, Option.bind_eq_some_iff] at h
  obtain ⟨s₁, hiterate, hbody⟩ := h
  split at hbody
  · rename_i hcond
    exact ⟨s₁, Head.start.iterate hiterate, hcond, toOption_eq_some.mp hbody⟩
  · cases hbody

/-- A state found by running the loop, and what can be checked of it. -/
theorem exists_endOfBody [DecidablePred cond] (k : ℕ) {check : σ → Prop} [DecidablePred check]
    (h : (loop.endAfter cond k start).any (fun s ↦ check s) = true) :
    ∃ s, loop.EndOfBody start cond s ∧ check s := by
  obtain ⟨s, hs, hcheck⟩ := (Option.any_eq_true _ _).1 h
  exact ⟨s, endOfBody_of_endAfter hs, of_decide_eq_true hcheck⟩

theorem exists_head [DecidablePred cond] (k : ℕ) {check : σ → Prop} [DecidablePred check]
    (h : (loop.iterate cond k start).any (fun s ↦ check s) = true) :
    ∃ s, loop.Head start cond s ∧ check s := by
  obtain ⟨s, hs, hcheck⟩ := (Option.any_eq_true _ _).1 h
  exact ⟨s, Head.start.iterate hs, of_decide_eq_true hcheck⟩

/-- A run of the erased loop is the erasure of a run. -/
theorem Head.erased {loop' : Loop ε τ} {π : τ → σ} {start' : τ} (hstart : π start' = start)
    (hbody : ∀ t, Erases π (loop'.body t) (loop.body (π t)))
    (hdone : ∀ t, loop'.done t = loop.done (π t)) (h : loop.Head start cond s) :
    ∃ t, loop'.Head start' (fun t ↦ cond (π t)) t ∧ π t = s := by
  induction h with
  | start => exact ⟨start', .start, hstart⟩
  | next _ hcond hs' hnot ih =>
    obtain ⟨t, ht, rfl⟩ := ih
    obtain ⟨t', ht', rfl⟩ := (hs' ▸ hbody t : Erases π (loop'.body t) (.ok _)).of_ok
    exact ⟨t', ht.next hcond ht' (hdone t' ▸ hnot), rfl⟩

theorem EndOfBody.erased {loop' : Loop ε τ} {π : τ → σ} {start' : τ} (hstart : π start' = start)
    (hbody : ∀ t, Erases π (loop'.body t) (loop.body (π t)))
    (hdone : ∀ t, loop'.done t = loop.done (π t)) (h : loop.EndOfBody start cond s) :
    ∃ t, loop'.EndOfBody start' (fun t ↦ cond (π t)) t ∧ π t = s := by
  obtain ⟨s, hhead, hcond, hs⟩ := h
  obtain ⟨t, ht, rfl⟩ := hhead.erased hstart hbody hdone
  obtain ⟨t', ht', rfl⟩ := (hs ▸ hbody t : Erases π (loop'.body t) (.ok _)).of_ok
  exact ⟨t', ⟨t, ht, hcond, ht'⟩, rfl⟩

/-- The erasure of a run is a run of the erased loop. -/
theorem Head.project {loop' : Loop ε τ} {π : τ → σ} {t : τ} {start' : τ}
    (hbody : ∀ t, Erases π (loop'.body t) (loop.body (π t)))
    (hdone : ∀ t, loop'.done t = loop.done (π t))
    (h : loop'.Head start' (fun t ↦ cond (π t)) t) : loop.Head (π start') cond (π t) := by
  induction h with
  | start => exact .start
  | next _ hcond ht' hnot ih =>
    refine ih.next hcond ?_ (hdone _ ▸ hnot)
    rw [← hbody, ht']
    rfl

theorem EndOfBody.project {loop' : Loop ε τ} {π : τ → σ} {t : τ} {start' : τ}
    (hbody : ∀ t, Erases π (loop'.body t) (loop.body (π t)))
    (hdone : ∀ t, loop'.done t = loop.done (π t))
    (h : loop'.EndOfBody start' (fun t ↦ cond (π t)) t) :
    loop.EndOfBody (π start') cond (π t) := by
  obtain ⟨t', hhead, hcond, ht⟩ := h
  refine ⟨π t', hhead.project hbody hdone, hcond, ?_⟩
  rw [← hbody, ht]
  rfl

/-- The erased loop runs as the loop does. -/
theorem run_erases {loop' : Loop ε τ} {π : τ → σ}
    (hbody : ∀ t, Erases π (loop'.body t) (loop.body (π t)))
    (hdone : ∀ t, loop'.done t = loop.done (π t)) (fuel : ℕ) (t : τ) :
    Erases (Option.map π) (loop'.run fuel t) (loop.run fuel (π t)) := by
  induction fuel generalizing t with
  | zero => rfl
  | succ fuel ih =>
    refine (hbody t).bind fun t' ↦ ?_
    rw [hdone t']
    split
    · rfl
    · exact ih t'

/-! ### Loops under an invariant -/

/-- The loop on the states that meet an invariant of its body. -/
def restrict (loop : Loop ε σ) (I : σ → Prop)
    (hI : ∀ s s', I s → loop.body s = .ok s' → I s') : Loop ε {s // I s} where
  body s :=
    match hs' : loop.body s.val with
    | .ok s' => .ok ⟨s', hI s.val s' s.property hs'⟩
    | .error e => .error e
  done s := loop.done s.val

theorem restrict_erases (hI : ∀ s s', I s → loop.body s = .ok s' → I s') (s : {s // I s}) :
    Erases Subtype.val ((loop.restrict I hI).body s) (loop.body s.val) := by
  unfold Erases restrict
  dsimp only
  split <;> rename_i hs' <;> exact hs'.symm

section

variable {loop' : Loop ε τ} {π : τ → σ} {J : τ → Prop} {t : τ}

theorem restrict_comp_erases (hJ : ∀ t t', J t → loop'.body t = .ok t' → J t')
    (hbody : ∀ t, J t → Erases π (loop'.body t) (loop.body (π t))) (t : {t // J t}) :
    Erases (π ∘ Subtype.val) ((loop'.restrict J hJ).body t) (loop.body (π t.val)) :=
  (restrict_erases hJ t).comp (hbody t.val t.property)

/-- For `run_erases` it is enough that the bodies agree where an invariant holds. -/
theorem run_erases_of (hJ : ∀ t t', J t → loop'.body t = .ok t' → J t')
    (hbody : ∀ t, J t → Erases π (loop'.body t) (loop.body (π t)))
    (hdone : ∀ t, loop'.done t = loop.done (π t)) (fuel : ℕ) (ht : J t) :
    Erases (Option.map π) (loop'.run fuel t) (loop.run fuel (π t)) := by
  have hval : Erases (Option.map Subtype.val) ((loop'.restrict J hJ).run fuel ⟨t, ht⟩)
      (loop'.run fuel t) := run_erases (restrict_erases hJ) (fun _ ↦ rfl) fuel ⟨t, ht⟩
  have hcomp : Erases (Option.map (π ∘ Subtype.val)) ((loop'.restrict J hJ).run fuel ⟨t, ht⟩)
      (loop.run fuel (π t)) :=
    run_erases (restrict_comp_erases hJ hbody) (fun t ↦ hdone t.val) fuel ⟨t, ht⟩
  unfold Erases at hval hcomp ⊢
  rw [← hval, ← hcomp]
  rcases (loop'.restrict J hJ).run fuel ⟨t, ht⟩ with _ | _ | _ <;> rfl

/-- The ends of the iterations of a run are those of the run under the map, which does to each state
what the loop does where an invariant holds. -/
theorem endOfBody_map_iff (hJ : ∀ t t', J t → loop'.body t = .ok t' → J t')
    (hbody : ∀ t, J t → Erases π (loop'.body t) (loop.body (π t)))
    (hdone : ∀ t, loop'.done t = loop.done (π t)) (ht : J t) :
    loop.EndOfBody (π t) cond s ↔
      ∃ t', loop'.EndOfBody t (fun t ↦ cond (π t)) t' ∧ π t' = s := by
  let start : {t // J t} := ⟨t, ht⟩
  constructor
  · intro h
    have hstart : (π ∘ Subtype.val) start = π t := rfl
    obtain ⟨u, hu, rfl⟩ := h.erased hstart (restrict_comp_erases hJ hbody) fun t ↦ hdone t.val
    have hval : loop'.EndOfBody start.val (fun t ↦ cond (π t)) u.val :=
      EndOfBody.project (restrict_erases hJ) (fun _ ↦ rfl) hu
    exact ⟨u.val, hval, rfl⟩
  · rintro ⟨t', ht', rfl⟩
    have hstart : start.val = t := rfl
    obtain ⟨u, hu, rfl⟩ := ht'.erased hstart (restrict_erases hJ) fun _ ↦ rfl
    have hcomp : loop.EndOfBody ((π ∘ Subtype.val) start) cond ((π ∘ Subtype.val) u) :=
      EndOfBody.project (restrict_comp_erases hJ hbody) (fun t ↦ hdone t.val) hu
    exact hcomp

end

/-! ### Ends of runs -/

/-- A run ends after its first iteration, or later. -/
theorem run_succ_eq_some {fuel : ℕ} {s' : σ} : loop.run (fuel + 1) s = .ok (some s') ↔
    ∃ s₁, loop.body s = .ok s₁ ∧
      (loop.done s₁ = true ∧ s₁ = s' ∨
        loop.done s₁ = false ∧ loop.run fuel s₁ = .ok (some s')) := by
  rw [run, bind_eq_ok]
  refine exists_congr fun s₁ ↦ and_congr_right fun _ ↦ ?_
  cases loop.done s₁ <;> simp [pure, Except.pure]

theorem run_of_ok {s' : σ} (hbody : loop.body s = .ok s') (hdone : loop.done s' = false)
    (fuel : ℕ) : loop.run (fuel + 1) s = loop.run fuel s' := by
  rw [run, hbody]
  change (if loop.done s' then _ else _) = _
  rw [if_neg (Bool.eq_false_iff.mp hdone)]

theorem run_of_error {e : ε} (hbody : loop.body s = .error e) (fuel : ℕ) :
    loop.run (fuel + 1) s = .error e := by
  rw [run, hbody]
  rfl

/-- The last state of a run that ends is the end of an iteration. -/
theorem endOfBody_of_run {fuel : ℕ} {s' : σ} (h : loop.Head start (fun _ ↦ True) s)
    (hrun : loop.run fuel s = .ok (some s')) : loop.EndOfBody start (fun _ ↦ True) s' := by
  induction fuel generalizing s with
  | zero => cases hrun
  | succ fuel ih =>
    obtain ⟨s₁, hbody, ⟨hdone, rfl⟩ | ⟨hnot, hrun⟩⟩ := run_succ_eq_some.mp hrun
    · exact ⟨s, h, trivial, hbody⟩
    · exact ih (h.next trivial hbody hnot) hrun

theorem done_of_run {fuel : ℕ} {s' : σ} (hrun : loop.run fuel s = .ok (some s')) :
    loop.done s' = true := by
  induction fuel generalizing s with
  | zero => cases hrun
  | succ fuel ih =>
    obtain ⟨s₁, hbody, ⟨hdone, rfl⟩ | ⟨hnot, hrun⟩⟩ := run_succ_eq_some.mp hrun
    · exact hdone
    · exact ih hrun

/-- A loop whose body never aborts and makes a measure smaller, unless it is done, ends. -/
theorem run_terminates (measure : σ → ℕ)
    (hbody : ∀ s, I s → ∃ s', loop.body s = .ok s' ∧ I s' ∧
      (loop.done s' = false → measure s' < measure s)) (hs : I s) :
    ∃ fuel s', loop.run fuel s = .ok (some s') ∧ I s' ∧ loop.done s' = true := by
  induction hm : measure s using Nat.strong_induction_on generalizing s with
  | _ m ih =>
    obtain ⟨s', hs', hI, hless⟩ := hbody s hs
    cases hdone : loop.done s' with
    | true =>
      have hrun : loop.run 1 s = .ok (some s') :=
        run_succ_eq_some.mpr ⟨s', hs', .inl ⟨hdone, rfl⟩⟩
      exact ⟨1, s', hrun, hI, hdone⟩
    | false =>
      obtain ⟨fuel, s'', hrun, hend⟩ := ih _ (hm ▸ hless hdone) hI rfl
      exact ⟨fuel + 1, s'', run_succ_eq_some.mpr ⟨s', hs', .inr ⟨hdone, hrun⟩⟩, hend⟩

/-- A loop ends or aborts in `k` iterations if its body keeps what holds when at most that many
iterations are left, or it comes to a state that does not meet `cond`. -/
theorem run_halts_within {I : ℕ → σ → Prop} (hdone : ∀ s, I 0 s → loop.done s = true)
    (hbody : ∀ k s s', cond s → I (k + 1) s → loop.body s = .ok s' → I k s') {k : ℕ}
    (h : loop.Head start cond s) (hs : I (k + 1) s) :
    (∃ s', loop.Head start cond s' ∧ ¬ cond s') ∨
      (∃ j s', loop.run (k + 1) s = .ok (some s') ∧ I j s' ∧ loop.done s' = true) ∨
      ∃ j s' e, loop.run (k + 1) s = .error e ∧ cond s' ∧ I (j + 1) s' ∧
        loop.body s' = .error e := by
  induction k generalizing s with
  | zero =>
    by_cases hcond : cond s
    · right
      cases hs' : loop.body s with
      | ok s' =>
        have hI := hbody 0 s s' hcond hs hs'
        have hrun : loop.run 1 s = .ok (some s') :=
          run_succ_eq_some.mpr ⟨s', hs', .inl ⟨hdone s' hI, rfl⟩⟩
        exact .inl ⟨0, s', hrun, hI, hdone s' hI⟩
      | error e => exact .inr ⟨0, s, e, run_of_error hs' 0, hcond, hs, hs'⟩
    · exact .inl ⟨s, h, hcond⟩
  | succ k ih =>
    by_cases hcond : cond s
    · cases hs' : loop.body s with
      | ok s' =>
        have hI := hbody (k + 1) s s' hcond hs hs'
        cases hnot : loop.done s' with
        | true =>
          have hrun : loop.run (k + 2) s = .ok (some s') :=
            run_succ_eq_some.mpr ⟨s', hs', .inl ⟨hnot, rfl⟩⟩
          exact .inr (.inl ⟨k + 1, s', hrun, hI, hnot⟩)
        | false =>
          rw [run_of_ok hs' hnot]
          exact ih (h.next hcond hs' hnot) hI
      | error e => exact .inr (.inr ⟨k + 1, s, e, run_of_error hs' (k + 1), hcond, hs, hs'⟩)
    · exact .inl ⟨s, h, hcond⟩

/-- A loop comes to a state with `Q` in `k` iterations if each iteration before it lowers a bound
on their number. -/
theorem iterate_within {I : ℕ → σ → Prop} {Q : σ → Prop}
    (hbody : ∀ k s, I k s → Q s ∨
      ∃ j < k, ∃ s', loop.body s = .ok s' ∧ loop.done s' = false ∧ I j s') {k : ℕ} (hs : I k s) :
    ∃ j ≤ k, ∃ s', loop.iterate (fun _ ↦ True) j s = some s' ∧ Q s' := by
  induction k using Nat.strong_induction_on generalizing s with
  | _ k ih =>
    rcases hbody k s hs with hQ | ⟨j, hj, s₁, hs₁, hnot, hI⟩
    · exact ⟨0, Nat.zero_le k, s, rfl, hQ⟩
    · obtain ⟨j', hj', s', hiterate, hQ⟩ := ih j hj hI
      have hnext : loop.iterate (fun _ ↦ True) (j' + 1) s = some s' :=
        iterate_succ_eq_some.mpr ⟨trivial, s₁, hs₁, hnot, hiterate⟩
      exact ⟨j' + 1, by omega, s', hnext, hQ⟩

/-! ## Loops that test first -/

/-- The states that a run of `while (!done) body` visits, if its iterations all start in a state
that meets `cond`. -/
inductive Visits (loop : Loop ε σ) (start : σ) (cond : σ → Prop) : σ → Prop where
  | start : Visits loop start cond start
  | next {s s' : σ} : Visits loop start cond s → loop.done s = false → cond s →
      loop.body s = .ok s' → Visits loop start cond s'

theorem Visits.invariant (hstart : I start)
    (hbody : ∀ s, I s → cond s → Yields bad (loop.body s) I) (h : loop.Visits start cond s) :
    I s := by
  induction h with
  | start => exact hstart
  | next _ _ hcond hs' ih => exact (hbody _ ih hcond).of_ok hs'

theorem Visits.erased {loop' : Loop ε τ} {π : τ → σ} {start' : τ} (hstart : π start' = start)
    (hbody : ∀ t, Erases π (loop'.body t) (loop.body (π t)))
    (hdone : ∀ t, loop'.done t = loop.done (π t)) (h : loop.Visits start cond s) :
    ∃ t, loop'.Visits start' (fun t ↦ cond (π t)) t ∧ π t = s := by
  induction h with
  | start => exact ⟨start', .start, hstart⟩
  | next _ hnot hcond hs' ih =>
    obtain ⟨t, ht, rfl⟩ := ih
    obtain ⟨t', ht', rfl⟩ := (hs' ▸ hbody t : Erases π (loop'.body t) (.ok _)).of_ok
    exact ⟨t', ht.next (hdone t ▸ hnot) hcond ht', rfl⟩

/-- The state after the given number of iterations of `while (!done) body`, if the loop gets so far
and `cond` holds at the start of each. -/
def visit (loop : Loop ε σ) (cond : σ → Prop) [DecidablePred cond] : ℕ → σ → Option σ
  | 0, s => some s
  | k + 1, s =>
      if cond s ∧ loop.done s = false then
        match loop.body s with
        | .ok s => loop.visit cond k s
        | .error _ => none
      else
        none

theorem Visits.visit [DecidablePred cond] {k : ℕ} {s' : σ} (h : loop.Visits start cond s)
    (hs : loop.visit cond k s = some s') : loop.Visits start cond s' := by
  induction k generalizing s with
  | zero =>
    obtain rfl := Option.some.inj hs
    exact h
  | succ k ih =>
    rw [Loop.visit] at hs
    split at hs
    · rename_i hcond
      split at hs
      · rename_i s₁ hbody
        exact ih (h.next hcond.2 hcond.1 hbody) hs
      · cases hs
    · cases hs

/-- The run of `while (!done) body`, stopped after `k` iterations. -/
def after (loop : Loop ε σ) (k : ℕ) (s : σ) : Option σ := loop.visit (fun _ ↦ True) k s

@[simp] theorem after_zero : loop.after 0 s = some s := rfl

theorem after_succ {k : ℕ} {s' : σ} (hdone : loop.done s = false) (hbody : loop.body s = .ok s') :
    loop.after (k + 1) s = loop.after k s' := by
  simp only [after, Loop.visit, hdone, hbody, and_self, if_true]

theorem after_snoc {k : ℕ} : loop.after (k + 1) s = (loop.after k s).bind (loop.after 1) := by
  induction k generalizing s with
  | zero => rfl
  | succ k ih =>
    cases hdone : loop.done s with
    | true => simp only [after, Loop.visit, hdone, Bool.true_eq_false, and_false, if_false]; rfl
    | false =>
      cases hbody : loop.body s with
      | ok s' => rw [after_succ hdone hbody, after_succ hdone hbody, ih]
      | error _ => simp only [after, Loop.visit, hdone, hbody, and_self, if_true]; rfl

/-- The last iteration of a run. -/
theorem exists_of_after_succ {k : ℕ} {s' : σ} (h : loop.after (k + 1) start = some s') :
    ∃ s, loop.after k start = some s ∧ loop.done s = false ∧ loop.body s = .ok s' := by
  rw [after_snoc, Option.bind_eq_some_iff] at h
  obtain ⟨s, hs, hlast⟩ := h
  refine ⟨s, hs, ?_⟩
  cases hdone : loop.done s with
  | true => simp [after, Loop.visit, hdone] at hlast
  | false =>
    cases hbody : loop.body s with
    | ok s₁ =>
      rw [after_succ hdone hbody] at hlast
      exact ⟨rfl, congrArg _ (Option.some.inj hlast)⟩
    | error _ => simp [after, Loop.visit, hdone, hbody] at hlast

theorem exists_after_of_le {i k : ℕ} (h : loop.after k start = some s) (hle : i ≤ k) :
    ∃ s', loop.after i start = some s' := by
  induction k generalizing s with
  | zero => exact ⟨start, by rw [Nat.le_zero.mp hle]; rfl⟩
  | succ k ih =>
    rcases Nat.le_or_eq_of_le_succ hle with hle' | rfl
    · obtain ⟨s₁, hs₁, -⟩ := exists_of_after_succ h
      exact ih hs₁ hle'
    · exact ⟨s, h⟩

theorem after_invariant {k : ℕ} (hstart : I start)
    (hbody : ∀ s s', I s → loop.done s = false → loop.body s = .ok s' → I s')
    (h : loop.after k start = some s) : I s := by
  induction k generalizing s with
  | zero =>
    obtain rfl := Option.some.inj h
    exact hstart
  | succ k ih =>
    obtain ⟨s₁, hs₁, hdone, hs⟩ := exists_of_after_succ h
    exact hbody s₁ s (ih hs₁) hdone hs

/-- `while (!done) body` ends if its body never aborts and makes a measure smaller. -/
theorem after_terminates (measure : σ → ℕ)
    (hbody : ∀ s, I s → loop.done s = false →
      ∃ s', loop.body s = .ok s' ∧ I s' ∧ measure s' < measure s) (hs : I s) :
    ∃ k s', loop.after k s = some s' ∧ I s' ∧ loop.done s' = true := by
  induction hm : measure s using Nat.strong_induction_on generalizing s with
  | _ m ih =>
    cases hdone : loop.done s with
    | true => exact ⟨0, s, rfl, hs, hdone⟩
    | false =>
      obtain ⟨s₁, hs₁, hI, hless⟩ := hbody s hs hdone
      obtain ⟨k, s', hk, hend⟩ := ih _ (hm ▸ hless) hI rfl
      exact ⟨k + 1, s', (after_succ hdone hs₁).trans hk, hend⟩

/-- `while (!done) body` never ends if its body never aborts and keeps a property under which it is
not done. -/
theorem after_diverges (hdone : ∀ s, I s → loop.done s = false)
    (hbody : ∀ s, I s → ∃ s', loop.body s = .ok s' ∧ I s') (hs : I s) (k : ℕ) :
    ∃ s', loop.after k s = some s' ∧ I s' := by
  induction k generalizing s with
  | zero => exact ⟨s, rfl, hs⟩
  | succ k ih =>
    obtain ⟨s₁, hs₁, hI⟩ := hbody s hs
    obtain ⟨s', hk, hI'⟩ := ih hI
    exact ⟨s', (after_succ (hdone s hs) hs₁).trans hk, hI'⟩

/-- The first iteration of a run. -/
theorem after_succ_eq_some {k : ℕ} {s' : σ} : loop.after (k + 1) s = some s' ↔
    loop.done s = false ∧ ∃ s₁, loop.body s = .ok s₁ ∧ loop.after k s₁ = some s' := by
  constructor
  · intro h
    cases hdone : loop.done s with
    | true => simp [after, Loop.visit, hdone] at h
    | false =>
      cases hbody : loop.body s with
      | ok s₁ => exact ⟨rfl, s₁, rfl, (after_succ hdone hbody).symm.trans h⟩
      | error _ => simp [after, Loop.visit, hdone, hbody] at h
  · rintro ⟨hdone, s₁, hbody, hafter⟩
    exact (after_succ hdone hbody).trans hafter

theorem after_add {k : ℕ} {s' : σ} (h : loop.after k s = some s') (j : ℕ) :
    loop.after (k + j) s = loop.after j s' := by
  induction k generalizing s with
  | zero =>
    obtain rfl := Option.some.inj h
    rw [Nat.zero_add]
  | succ k ih =>
    obtain ⟨hdone, s₁, hbody, hrest⟩ := after_succ_eq_some.mp h
    rw [Nat.succ_add_eq_add_succ, ← ih hrest, ← after_succ hdone hbody, ← Nat.succ_add_eq_add_succ,
      Nat.succ_add]

section Stuttering

variable {ε' : Type} {loop' : Loop ε' τ} {π : σ → τ} {measure : σ → ℕ}

/-- An iteration of `loop` is one of `loop'` on what `π` shows, or `π` shows no difference and a
measure gets smaller. -/
structure Stutters (loop : Loop ε σ) (loop' : Loop ε' τ) (π : σ → τ) (measure : σ → ℕ)
    (I : σ → Prop) : Prop where
  kept : ∀ {s s'}, I s → loop.done s = false → loop.body s = .ok s' → I s'
  done : ∀ {s}, I s → loop.done s = true → loop'.done (π s) = true
  body : ∀ {s}, I s → loop.done s = false →
    (∃ s', loop.body s = .ok s' ∧ π s' = π s ∧ measure s' < measure s) ∨
    loop'.done (π s) = false ∧
      (∀ s', loop.body s = .ok s' → loop'.body (π s) = .ok (π s')) ∧
      ∀ t, loop'.body (π s) = .ok t → ∃ s', loop.body s = .ok s' ∧ π s' = t

/-- A run of `loop` shows one of `loop'`. -/
theorem Stutters.shows (h : Stutters loop loop' π measure I) {k : ℕ} {s' : σ} (hs : I s)
    (hrun : loop.after k s = some s') : ∃ j, loop'.after j (π s) = some (π s') := by
  induction k generalizing s with
  | zero =>
    obtain rfl := Option.some.inj hrun
    exact ⟨0, rfl⟩
  | succ k ih =>
    obtain ⟨hdone, s₁, hs₁, hrest⟩ := after_succ_eq_some.mp hrun
    obtain ⟨j, hj⟩ := ih (h.kept hs hdone hs₁) hrest
    rcases h.body hs hdone with ⟨s₂, hs₂, hsame, -⟩ | ⟨hnot, hforth, -⟩
    · obtain rfl := Except.ok.inj (hs₂.symm.trans hs₁)
      exact ⟨j, hsame ▸ hj⟩
    · exact ⟨j + 1, (after_succ hnot (hforth s₁ hs₁)).trans hj⟩

/-- A run of `loop'` that ends is shown by one of `loop` that ends. -/
theorem Stutters.shown (h : Stutters loop loop' π measure I) {j : ℕ} {t : τ} (hs : I s)
    (hrun : loop'.after j (π s) = some t) (hend : loop'.done t = true) :
    ∃ k s', loop.after k s = some s' ∧ loop.done s' = true ∧ π s' = t := by
  induction j generalizing s with
  | zero =>
    obtain rfl := Option.some.inj hrun
    clear hrun
    induction hm : measure s using Nat.strong_induction_on generalizing s with
    | _ m ih =>
      cases hdone : loop.done s with
      | true => exact ⟨0, s, rfl, hdone, rfl⟩
      | false =>
        rcases h.body hs hdone with ⟨s₁, hs₁, hsame, hless⟩ | ⟨hnot, -⟩
        · obtain ⟨k, s', hk, hdone', hshows⟩ :=
            ih _ (hm ▸ hless) (h.kept hs hdone hs₁) (hsame ▸ hend) rfl
          exact ⟨k + 1, s', (after_succ hdone hs₁).trans hk, hdone', hshows.trans hsame⟩
        · exact absurd (hnot.symm.trans hend) Bool.false_ne_true
  | succ j ih =>
    obtain ⟨hnot, t₁, ht₁, hrest⟩ := after_succ_eq_some.mp hrun
    induction hm : measure s using Nat.strong_induction_on generalizing s with
    | _ m ihm =>
      have hdone : loop.done s = false :=
        Bool.eq_false_iff.mpr fun hdone ↦ absurd (hnot.symm.trans (h.done hs hdone))
          Bool.false_ne_true
      rcases h.body hs hdone with ⟨s₁, hs₁, hsame, hless⟩ | ⟨-, -, hback⟩
      · obtain ⟨k, s', hk, hdone', hshows⟩ :=
          ihm _ (hm ▸ hless) (h.kept hs hdone hs₁) (hsame ▸ hrun) (hsame ▸ hnot) (hsame ▸ ht₁) rfl
        exact ⟨k + 1, s', (after_succ hdone hs₁).trans hk, hdone', hshows⟩
      · obtain ⟨s₁, hs₁, rfl⟩ := hback t₁ ht₁
        obtain ⟨k, s', hk, hend'⟩ := ih (h.kept hs hdone hs₁) hrest
        exact ⟨k + 1, s', (after_succ hdone hs₁).trans hk, hend'⟩

/-- The one loop ends where the other one does. -/
theorem Stutters.ends_iff (h : Stutters loop loop' π measure I) (hs : I s) {t : τ} :
    (∃ k s', loop.after k s = some s' ∧ loop.done s' = true ∧ π s' = t) ↔
      ∃ j, loop'.after j (π s) = some t ∧ loop'.done t = true := by
  constructor
  · rintro ⟨k, s', hk, hdone, rfl⟩
    obtain ⟨j, hj⟩ := h.shows hs hk
    exact ⟨j, hj, h.done (after_invariant hs (fun _ _ ↦ h.kept) hk) hdone⟩
  · rintro ⟨j, hj, hend⟩
    exact h.shown hs hj hend

end Stuttering

theorem exists_visits [DecidablePred cond] (k : ℕ) {check : σ → Prop} [DecidablePred check]
    (h : (loop.visit cond k start).any (fun s ↦ check s) = true) :
    ∃ s, loop.Visits start cond s ∧ check s := by
  obtain ⟨s, hs, hcheck⟩ := (Option.any_eq_true _ _).1 h
  exact ⟨s, Visits.start.visit hs, of_decide_eq_true hcheck⟩

end Loop

end ArchSim.Library
