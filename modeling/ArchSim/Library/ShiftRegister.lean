import Mathlib.Data.List.PeriodicityLemma
import Mathlib.Data.Nat.Bitwise

/-!
# Shift registers

A word into which bits are shifted, one at a time from below. Each of its bits is one of the last
that have been shifted in, and a number of low bits is a number of last bits, whatever the width and
however long it has been running. When the bits have a period, a register that is as long as the
period has in it what comes next.
-/

namespace ArchSim.Library.ShiftRegister

/-- The bit that has been shifted in before the last `k` ones; zero before the first. -/
def recent (bits : List Bool) (k : ℕ) : Bool := bits.reverse.getD k false

/-- The last `n` bits as a number, the last of them lowest. -/
def lastBits (n : ℕ) (bits : List Bool) : ℕ := Nat.ofBits fun k : Fin n ↦ recent bits k

@[simp] theorem recent_nil (k : ℕ) : recent [] k = false := rfl

@[simp] theorem recent_snoc_zero (bits : List Bool) (bit : Bool) :
    recent (bits ++ [bit]) 0 = bit := by
  simp [recent]

@[simp] theorem recent_snoc_succ (bits : List Bool) (bit : Bool) (k : ℕ) :
    recent (bits ++ [bit]) (k + 1) = recent bits k := by
  simp [recent]

/-- Older bits do not matter for the last ones. -/
theorem recent_append_of_lt (bits : List Bool) {bits' : List Bool} {k : ℕ}
    (h : k < bits'.length) : recent (bits ++ bits') k = recent bits' k := by
  unfold recent
  rw [List.reverse_append, List.getD_append _ _ _ _ (by rwa [List.length_reverse])]

theorem recent_append_of_le (bits : List Bool) {bits' : List Bool} {k : ℕ}
    (h : bits'.length ≤ k) : recent (bits ++ bits') k = recent bits (k - bits'.length) := by
  unfold recent
  rw [List.reverse_append, List.getD_append_right _ _ _ _ (by rwa [List.length_reverse]),
    List.length_reverse]

/-- The bit `k` of the number is the one before the last `k` bits. -/
theorem testBit_lastBits (n : ℕ) (bits : List Bool) (k : ℕ) :
    (lastBits n bits).testBit k = (decide (k < n) && recent bits k) := by
  rw [lastBits, Nat.testBit_ofBits]
  by_cases hk : k < n
  · simp [hk]
  · simp [hk]

theorem lastBits_lt (n : ℕ) (bits : List Bool) : lastBits n bits < 2 ^ n :=
  Nat.ofBits_lt_two_pow _

theorem lastBits_eq_iff {n : ℕ} {bits bits' : List Bool} :
    lastBits n bits = lastBits n bits' ↔ ∀ k < n, recent bits k = recent bits' k := by
  constructor
  · intro heq k hk
    have hbit := congrArg (fun x : ℕ ↦ x.testBit k) heq
    simpa [testBit_lastBits, hk] using hbit
  · intro hsame
    refine congrArg Nat.ofBits (funext fun k ↦ ?_)
    exact hsame k k.isLt

section

variable {w : ℕ}

/-- The word after one more bit. -/
def push (x : BitVec w) (bit : Bool) : BitVec w := x <<< 1 ||| (BitVec.ofBool bit).setWidth w

/-- As a sum: the place of the new bit is free. -/
theorem shiftLeft_add_eq_push (x : BitVec w) (bit : Bool) :
    x <<< 1 + (BitVec.ofBool bit).setWidth w = push x bit := by
  apply BitVec.add_eq_or_of_and_eq_zero
  ext k hk
  cases k with
  | zero => simp
  | succ k => simp

/-- The bits of `x` are the last ones of `bits`. -/
def Holds (x : BitVec w) (bits : List Bool) : Prop := ∀ k < w, x.getLsbD k = recent bits k

theorem holds_zero : Holds (0 : BitVec w) [] := fun k _ ↦ by simp

theorem Holds.push {x : BitVec w} {bits : List Bool} (h : Holds x bits) (bit : Bool) :
    Holds (push x bit) (bits ++ [bit]) := by
  intro k hk
  cases k with
  | zero => simp [ShiftRegister.push, hk]
  | succ k =>
    rw [recent_snoc_succ, ← h k (by omega)]
    simp [ShiftRegister.push, hk, BitVec.getLsbD_eq_getElem (Nat.lt_of_succ_lt hk)]

/-- The low bits of the word. -/
theorem Holds.mod_eq {x : BitVec w} {bits : List Bool} (h : Holds x bits) {n : ℕ} (hn : n ≤ w) :
    x.toNat % 2 ^ n = lastBits n bits := by
  rw [← Nat.ofBits_testBit]
  refine congrArg Nat.ofBits (funext fun k ↦ ?_)
  rw [BitVec.testBit_toNat]
  exact h k (k.isLt.trans_le hn)

/-- The word under a mask of low bits. -/
theorem Holds.toNat_and {x mask : BitVec w} {bits : List Bool} (h : Holds x bits) {n : ℕ}
    (hn : n ≤ w) (hmask : mask.toNat = 2 ^ n - 1) : (x &&& mask).toNat = lastBits n bits := by
  rw [BitVec.toNat_and, hmask, Nat.and_two_pow_sub_one_eq_mod, h.mod_eq hn]

end

/-! ## Bits with a period -/

section

variable {p : ℕ} {bits before : List Bool}

theorem recent_eq_getElem? {k : ℕ} (hk : k < before.length) (hbefore : before <+: bits) :
    bits[before.length - 1 - k]? = some (recent before k) := by
  obtain ⟨rest, rfl⟩ := hbefore
  rw [List.getElem?_append_left (by omega), recent, List.getD_eq_getElem?_getD,
    List.getElem?_reverse hk, List.getElem?_eq_getElem (by omega), Option.getD_some]

/-- The next bit is the one a period ago. -/
theorem recent_of_hasPeriod {bit : Bool} (h : bits.HasPeriod p)
    (hbefore : before ++ [bit] <+: bits) (hpos : 1 ≤ p) (hle : p ≤ before.length) :
    recent before (p - 1) = bit := by
  have hlt : before.length < bits.length := by
    have hlength := hbefore.length_le
    rw [List.length_append, List.length_singleton] at hlength
    omega
  have hnext : bits[before.length]? = some bit := by
    obtain ⟨rest, rfl⟩ := hbefore
    simp
  have hold := recent_eq_getElem? (k := p - 1) (by omega) ((List.prefix_append _ _).trans hbefore)
  have hsame := List.hasPeriod_iff_getElem?.mp h (before.length - p) (by omega)
  rw [show before.length - 1 - (p - 1) = before.length - p by omega] at hold
  rw [Nat.sub_add_cancel hle, hold, hnext] at hsame
  exact Option.some.inj hsame

/-- A period ago the last `n` bits were the same. -/
theorem lastBits_take_of_hasPeriod {n : ℕ} (h : bits.HasPeriod p) (hbefore : before <+: bits)
    (hle : n + p ≤ before.length) :
    lastBits n (before.take (before.length - p)) = lastBits n before := by
  rw [lastBits_eq_iff]
  intro k hk
  have hlength : (before.take (before.length - p)).length = before.length - p := by
    rw [List.length_take]
    omega
  have hlt := hbefore.length_le
  have hearlier : before.take (before.length - p) <+: bits :=
    (List.take_prefix _ _).trans hbefore
  have hold := recent_eq_getElem? (k := k) (by omega) hearlier
  have hnew := recent_eq_getElem? (k := k) (by omega) hbefore
  have hsame := List.hasPeriod_iff_getElem?.mp h (before.length - p - 1 - k) (by omega)
  rw [hlength] at hold
  rw [show before.length - p - 1 - k + p = before.length - 1 - k by omega, hold, hnew] at hsame
  exact Option.some.inj hsame

/-- All that the last `n` bits can be is what they are before the bit `n + p`. -/
theorem exists_lastBits_eq (h : bits.HasPeriod p) (hpos : 1 ≤ p) (n : ℕ)
    (hbefore : before <+: bits) :
    ∃ k < n + p, lastBits n (bits.take k) = lastBits n before := by
  induction hlength : before.length using Nat.strong_induction_on generalizing before with
  | _ l ih =>
    by_cases hlt : l < n + p
    · refine ⟨l, hlt, ?_⟩
      rw [← hlength, ← List.prefix_iff_eq_take.mp hbefore]
    · have hearlier : (before.take (before.length - p)).length = l - p := by
        rw [List.length_take]
        omega
      obtain ⟨k, hk, heq⟩ := ih (l - p) (by omega) ((List.take_prefix _ _).trans hbefore) hearlier
      exact ⟨k, hk, heq.trans (lastBits_take_of_hasPeriod h hbefore (by omega))⟩

end

end ArchSim.Library.ShiftRegister
