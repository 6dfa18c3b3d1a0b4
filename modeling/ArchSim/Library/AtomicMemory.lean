import Mathlib.Algebra.BigOperators.Group.Finset.Piecewise

/-!
# An atomic memory

The memory that the clients of a coherent cache system are promised: one copy of every block,
loads and stores in one order. Values are abstracted to version numbers, and a store writes the
version that follows the one it finds. A history lists the answers given so far, newest first.
-/

namespace ArchSim.Library.AtomicMemory

inductive Op where
  | load | store
  deriving DecidableEq, Repr

/-- The client `node` has been answered: it read, or wrote, `version` of `addr`. -/
structure Answer (ι α : Type) where
  node : ι
  op : Op
  addr : α
  version : ℕ
  deriving DecidableEq, Repr

/-- The version an access leaves behind that finds `version`. -/
def Op.next : Op → ℕ → ℕ
  | .load, version => version
  | .store, version => version + 1

variable {ι α : Type} [DecidableEq α] (initial : α → ℕ)

/-- The version written by the last store to `addr`. -/
def latest : List (Answer ι α) → α → ℕ
  | [], addr => initial addr
  | answer :: earlier, addr =>
      if answer.op = .store ∧ answer.addr = addr then answer.version else latest earlier addr

/-- Every load reads the version written by the last store before it, and every store increments
that version. -/
def Legal : List (Answer ι α) → Prop
  | [] => True
  | answer :: earlier =>
      answer.version = answer.op.next (latest initial earlier answer.addr) ∧ Legal earlier

variable {initial}

/-- An answer that finds the current version leaves its own version behind. -/
theorem latest_cons_of_current {history : List (Answer ι α)} {node : ι} {op : Op} {addr : α}
    {version : ℕ} (hcurrent : version = latest initial history addr) :
    latest initial (⟨node, op, addr, op.next version⟩ :: history) addr = op.next version := by
  cases op with
  | load => simp [latest, Op.next, hcurrent]
  | store => simp [latest, Op.next]

theorem latest_cons_of_ne {history : List (Answer ι α)} {answer : Answer ι α} {addr : α}
    (hne : addr ≠ answer.addr) :
    latest initial (answer :: history) addr = latest initial history addr := by
  simp [latest, hne.symm]

/-- No store is lost: the current version counts the stores that have been answered. -/
theorem latest_eq_add_stores {history : List (Answer ι α)} (hlegal : Legal initial history)
    (addr : α) :
    latest initial history addr = initial addr +
      history.countP fun answer ↦ answer.op = .store ∧ answer.addr = addr := by
  induction history with
  | nil => simp [latest]
  | cons answer earlier ih =>
    obtain ⟨hversion, hearlier⟩ := hlegal
    by_cases hstore : answer.op = .store ∧ answer.addr = addr
    · obtain ⟨hop, rfl⟩ := hstore
      simp only [latest, hop, and_self, if_true, hversion, Op.next, ih hearlier,
        List.countP_cons, decide_true]
      omega
    · simp only [latest, List.countP_cons, hstore, decide_false, ih hearlier]
      simp

/-! ## The answers of one client -/

/-- The accesses for which `node` has been answered, in this order. -/
def accessesOf {ι α : Type} [DecidableEq ι] (node : ι) (history : List (Answer ι α)) :
    List (Op × α) :=
  ((history.filter fun answer ↦ answer.node = node).map fun answer ↦
    (answer.op, answer.addr)).reverse

section

variable {ι α : Type} [DecidableEq ι] {node : ι} {history : List (Answer ι α)}

theorem accessesOf_cons_self (op : Op) (addr : α) (version : ℕ) :
    accessesOf node (⟨node, op, addr, version⟩ :: history) =
      accessesOf node history ++ [(op, addr)] := by
  simp [accessesOf]

theorem accessesOf_cons_of_ne {answer : Answer ι α} (hne : node ≠ answer.node) :
    accessesOf node (answer :: history) = accessesOf node history := by
  simp [accessesOf, hne.symm]

end

/-- The stores to `addr` are those of the clients together. -/
theorem countP_stores_eq_sum {ι α : Type} [DecidableEq ι] [DecidableEq α] [Fintype ι]
    (history : List (Answer ι α)) (addr : α) :
    (history.countP fun answer ↦ answer.op = .store ∧ answer.addr = addr) =
      ∑ i, (accessesOf i history).count (.store, addr) := by
  induction history with
  | nil => simp [accessesOf]
  | cons answer earlier ih =>
    have hstep (i : ι) : (accessesOf i (answer :: earlier)).count (.store, addr) =
        (accessesOf i earlier).count (.store, addr) +
          if i = answer.node then (if answer.op = .store ∧ answer.addr = addr then 1 else 0)
          else 0 := by
      by_cases hi : i = answer.node
      · subst hi
        rw [accessesOf_cons_self answer.op answer.addr answer.version, List.count_append,
          List.count_singleton, if_pos rfl]
        simp [Prod.ext_iff]
      · rw [accessesOf_cons_of_ne hi, if_neg hi, Nat.add_zero]
    calc (answer :: earlier).countP (fun answer ↦ answer.op = .store ∧ answer.addr = addr)
        = (∑ i, (accessesOf i earlier).count (.store, addr)) +
            if answer.op = .store ∧ answer.addr = addr then 1 else 0 := by
          rw [List.countP_cons, ih]
          simp
      _ = ∑ i, (accessesOf i (answer :: earlier)).count (.store, addr) := by
          simp_rw [hstep, Finset.sum_add_distrib, Finset.sum_ite_eq' Finset.univ,
            if_pos (Finset.mem_univ _)]

end ArchSim.Library.AtomicMemory
