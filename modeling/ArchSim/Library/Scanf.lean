import Mathlib.Data.Int.Notation
import Mathlib.Data.List.Infix
import Mathlib.Data.List.TakeWhile
import Mathlib.Tactic.IntervalCases

/-!
# Formatted input

A stream of characters with its end-of-file indicator, and the conversions of `fscanf`: each
directive skips or converts what stands at the head of the stream, and a format stops at the first
directive that fails and leaves the stream there. `Reads` says that a format converts a text,
whatever follows it; it is composed as the format is.
-/

namespace ArchSim.Library

/-- An open stream: what has not been read, and the end-of-file indicator. -/
@[ext] structure InStream where
  unread : List Char
  eof : Bool
  unread_of_eof : eof = true → unread = []

namespace InStream

/-- A stream whose end has not been met. -/
def ofText (text : List Char) : InStream := ⟨text, false, fun h ↦ absurd h Bool.false_ne_true⟩

/-- The stream after a look at the next character. -/
def looked (rest : List Char) : InStream := ⟨rest, rest.isEmpty, List.isEmpty_iff.mp⟩

@[simp] theorem unread_ofText (text : List Char) : (ofText text).unread = text := rfl

@[simp] theorem eof_ofText (text : List Char) : (ofText text).eof = false := rfl

@[simp] theorem unread_looked (rest : List Char) : (looked rest).unread = rest := rfl

@[simp] theorem eof_looked (rest : List Char) : (looked rest).eof = rest.isEmpty := rfl

/-- The stream `s'` is what reading from `s` leaves. -/
structure Leaves (s s' : InStream) : Prop where
  suffix : s'.unread <:+ s.unread
  eof : s.eof = true → s'.eof = true

theorem Leaves.refl (s : InStream) : s.Leaves s := ⟨List.suffix_rfl, id⟩

theorem Leaves.trans {s s' s'' : InStream} (h : s.Leaves s') (h' : s'.Leaves s'') : s.Leaves s'' :=
  ⟨h'.suffix.trans h.suffix, fun heof ↦ h'.eof (h.eof heof)⟩

theorem Leaves.looked {s : InStream} {rest : List Char} (h : rest <:+ s.unread) :
    s.Leaves (looked rest) := by
  refine ⟨h, fun heof ↦ ?_⟩
  rw [s.unread_of_eof heof, List.suffix_nil] at h
  rw [h]
  rfl

theorem Leaves.tail {s : InStream} (before : List Char) {rest : List Char} (hne : before ≠ [])
    (h : s.unread = before ++ rest) : s.Leaves (ofText rest) := by
  refine ⟨⟨before, h.symm⟩, fun heof ↦ ?_⟩
  rw [s.unread_of_eof heof] at h
  exact absurd (List.append_eq_nil_iff.mp h.symm).1 hne

theorem Leaves.antisymm {s s' : InStream} (h : s.Leaves s') (h' : s'.Leaves s) : s' = s := by
  refine InStream.ext (h.suffix.eq_of_length_le h'.suffix.length_le) ?_
  exact Bool.eq_iff_iff.mpr ⟨h'.eof, h.eof⟩

/-- A stream of which nothing has been read is the same, or its end has been met. -/
theorem Leaves.eq_or_eof {s s' : InStream} (h : s.Leaves s')
    (hlength : s.unread.length ≤ s'.unread.length) : s' = s ∨ s'.eof = true := by
  have hunread : s'.unread = s.unread := h.suffix.eq_of_length_le hlength
  cases heof : s'.eof with
  | true => exact .inr rfl
  | false =>
    refine .inl (h.antisymm ⟨hunread ▸ List.suffix_rfl, fun heof' ↦ ?_⟩)
    exact absurd (heof.symm.trans heof') Bool.false_ne_true

end InStream

/-- A conversion, or `none` if a directive fails, and the stream that is left. -/
def Scan (α : Type) := InStream → Option α × InStream

namespace Scan

open InStream

variable {α β : Type}

instance : Monad Scan where
  pure a := fun s ↦ (some a, s)
  bind x f := fun s ↦
    match x s with
    | (some a, s') => f a s'
    | (none, s') => (none, s')

theorem bind_of_some {x : Scan α} {f : α → Scan β} {s s' : InStream} {a : α}
    (h : x s = (some a, s')) : (x >>= f) s = f a s' := by
  change (match x s with | (some a, s') => f a s' | (none, s') => (none, s')) = _
  rw [h]

theorem bind_of_none {x : Scan α} {f : α → Scan β} {s s' : InStream} (h : x s = (none, s')) :
    (x >>= f) s = (none, s') := by
  change (match x s with | (some a, s') => f a s' | (none, s') => (none, s')) = _
  rw [h]

/-! ## Directives -/

/-- `isspace` in the C locale. -/
def isSpace (c : Char) : Bool := c = ' ' || 9 ≤ c.toNat && c.toNat ≤ 13

def isHexDigit (c : Char) : Bool := c.isDigit || 'a' ≤ c && c ≤ 'f' || 'A' ≤ c && c ≤ 'F'

def fail : Scan α := fun s ↦ (none, s)

/-- What stands before the next character that does not meet `p`. -/
def spanWhile (p : Char → Bool) : Scan (List Char) := fun s ↦
  (some (s.unread.takeWhile p), looked (s.unread.dropWhile p))

def span1 (p : Char → Bool) : Scan (List Char) := do
  let cs ← spanWhile p
  if cs.isEmpty then fail else pure cs

/-- A white-space directive. -/
def space : Scan Unit := do
  let _ ← spanWhile isSpace

/-- The directive `%c`. -/
def char : Scan Char := fun s ↦
  match s.unread with
  | [] => (none, looked [])
  | c :: rest => (some c, ofText rest)

/-- A directive that is an ordinary character. -/
def lit (c : Char) : Scan Unit := fun s ↦
  match s.unread with
  | [] => (none, looked [])
  | d :: rest => if d = c then (some (), ofText rest) else (none, s)

/-- The directive `%s`. -/
def word : Scan (List Char) := do
  space
  span1 fun c ↦ !isSpace c

/-- The string in a buffer ends before the first `NUL`. -/
def cString (buffer : List Char) : List Char := buffer.takeWhile fun c ↦ c.toNat ≠ 0

/-- A sign, if there is one, and whether it is a minus. -/
def sign : Scan Bool := fun s ↦
  match s.unread with
  | '-' :: rest => (some true, ofText rest)
  | '+' :: rest => (some false, ofText rest)
  | _ => (some false, s)

/-- The prefix of a hexadecimal number, if there is one. -/
def hexPrefix : Scan Unit := fun s ↦
  match s.unread with
  | '0' :: 'x' :: rest | '0' :: 'X' :: rest => (some (), ofText rest)
  | _ => (some (), s)

def digitValue (c : Char) : ℕ :=
  if c.isDigit then c.toNat - 48 else if c ≤ 'F' then c.toNat - 55 else c.toNat - 87

/-- The number with the given digits. -/
def numeral (base : ℕ) (digits : List Char) : ℕ :=
  digits.foldl (fun value c ↦ base * value + digitValue c) 0

/-- The value that `strtol` returns: `LONG_MIN` or `LONG_MAX` if the number is out of range. -/
def strtol (minus : Bool) (value : ℕ) : ℤ :=
  if minus then max (-2 ^ 63) (-value) else min (2 ^ 63 - 1) value

/-- The directive `%d`: the value is stored in the 32 bits of an `int`. -/
def decimal : Scan ℤ := do
  space
  let minus ← sign
  let digits ← span1 Char.isDigit
  return (strtol minus (numeral 10 digits)).bmod (2 ^ 32)

/-- The value that `strtoull` returns: `ULLONG_MAX` if the number is out of range. -/
def strtoull (minus : Bool) (value : ℕ) : BitVec 64 :=
  if 2 ^ 64 ≤ value then .allOnes 64 else if minus then -.ofNat 64 value else .ofNat 64 value

/-- The digits of a hexadecimal number. -/
def hexItem : Scan (List Char) := do
  hexPrefix
  span1 isHexDigit

/-- The directives `%lx` and `%llx`. -/
def hexadecimal : Scan (BitVec 64) := do
  space
  let minus ← sign
  let digits ← hexItem
  return strtoull minus (numeral 16 digits)

/-! ## Reading goes forward -/

/-- `x` only reads. -/
def Forward (x : Scan α) : Prop := ∀ s : InStream, s.Leaves (x s).2

/-- Every conversion of `x` reads something. -/
def Consumes (x : Scan α) : Prop :=
  ∀ s a s', x s = (some a, s') → s'.unread.length < s.unread.length

theorem forward_pure (a : α) : Forward (pure a : Scan α) := fun s ↦ .refl s

theorem forward_fail : Forward (fail : Scan α) := fun s ↦ .refl s

theorem Forward.bind {x : Scan α} {f : α → Scan β} (hx : Forward x) (hf : ∀ a, Forward (f a)) :
    Forward (x >>= f) := by
  intro s
  have hfirst := hx s
  cases hxs : x s with
  | mk r s' =>
    rw [hxs] at hfirst
    cases r with
    | none => rwa [bind_of_none hxs]
    | some a =>
      rw [bind_of_some hxs]
      exact hfirst.trans (hf a s')

/-- A format that reads nothing reads nothing with its first directive. -/
theorem bind_stays {x : Scan α} {f : α → Scan β} (hx : Forward x) (hf : ∀ a, Forward (f a))
    {s : InStream} (h : ((x >>= f) s).2 = s) :
    (x s).2 = s ∧ ∀ a ∈ (x s).1, (f a s).2 = s := by
  have hfirst := hx s
  cases hxs : x s with
  | mk r s' =>
    rw [hxs] at hfirst
    cases r with
    | none =>
      rw [bind_of_none hxs] at h
      exact ⟨h, by nofun⟩
    | some a =>
      rw [bind_of_some hxs] at h
      obtain rfl : s' = s := hfirst.antisymm (h ▸ hf a s')
      refine ⟨rfl, fun b hb ↦ ?_⟩
      obtain rfl := Option.some.inj hb
      exact h

theorem forward_spanWhile (p : Char → Bool) : Forward (spanWhile p) :=
  fun _ ↦ .looked (List.dropWhile_suffix p)

theorem forward_nonempty (cs : List Char) : Forward (if cs.isEmpty then fail else pure cs) := by
  split
  · exact forward_fail
  · exact forward_pure cs

theorem forward_span1 (p : Char → Bool) : Forward (span1 p) :=
  (forward_spanWhile p).bind forward_nonempty

theorem forward_space : Forward space := (forward_spanWhile isSpace).bind fun _ ↦ forward_pure ()

theorem forward_char : Forward char := by
  intro s
  unfold char
  split
  · exact .looked List.nil_suffix
  · rename_i c rest hunread
    exact .tail [c] (List.cons_ne_nil c []) hunread

theorem forward_lit (c : Char) : Forward (lit c) := by
  intro s
  unfold lit
  split
  · exact .looked List.nil_suffix
  · rename_i d rest hunread
    split
    · exact .tail [d] (List.cons_ne_nil d []) hunread
    · exact .refl s

theorem forward_word : Forward word := forward_space.bind fun _ ↦ forward_span1 _

theorem forward_sign : Forward sign := by
  intro s
  unfold sign
  split
  · exact .tail ['-'] (List.cons_ne_nil _ _) ‹_›
  · exact .tail ['+'] (List.cons_ne_nil _ _) ‹_›
  · exact .refl s

theorem forward_hexPrefix : Forward hexPrefix := by
  intro s
  unfold hexPrefix
  split
  · exact .tail ['0', 'x'] (List.cons_ne_nil _ _) ‹_›
  · exact .tail ['0', 'X'] (List.cons_ne_nil _ _) ‹_›
  · exact .refl s

theorem forward_decimal : Forward decimal :=
  forward_space.bind fun _ ↦ forward_sign.bind fun _ ↦
    (forward_span1 _).bind fun _ ↦ forward_pure _

theorem forward_hexadecimal : Forward hexadecimal :=
  forward_space.bind fun _ ↦ forward_sign.bind fun _ ↦
    (forward_hexPrefix.bind fun _ ↦ forward_span1 _).bind fun _ ↦ forward_pure _

theorem not_of_dropWhile {p : Char → Bool} {c : Char} {rest : List Char}
    (h : (c :: rest).dropWhile p = c :: rest) : p c = false := by
  refine Bool.eq_false_iff.mpr fun hp ↦ ?_
  have hlength := (List.dropWhile_suffix (l := rest) p).length_le
  rw [List.dropWhile_cons_of_pos hp] at h
  rw [h] at hlength
  exact Nat.not_succ_le_self _ hlength

/-- What a directive that skips white space leaves as it is does not start with it. -/
theorem stays_space {s : InStream} (heof : s.eof = false) (h : (space s).2 = s) :
    ∃ c rest, s.unread = c :: rest ∧ isSpace c = false := by
  have hdrop : s.unread.dropWhile isSpace = s.unread := congrArg unread h
  cases hunread : s.unread with
  | nil =>
    have hended : s.eof = true := by
      rw [← h]
      change (s.unread.dropWhile isSpace).isEmpty = true
      rw [hunread]
      rfl
    exact absurd (heof.symm.trans hended) Bool.false_ne_true
  | cons c rest =>
    rw [hunread] at hdrop
    exact ⟨c, rest, rfl, not_of_dropWhile hdrop⟩

theorem stays_span1 {p : Char → Bool} {s : InStream} {c : Char} {rest : List Char}
    (hunread : s.unread = c :: rest) (h : (span1 p s).2 = s) : p c = false := by
  have hdrop : s.unread.dropWhile p = s.unread :=
    congrArg unread (bind_stays (forward_spanWhile p) forward_nonempty h).1
  rw [hunread] at hdrop
  exact not_of_dropWhile hdrop

/-- A word is always read, unless the end is met. -/
theorem word_reads {s : InStream} (heof : s.eof = false) : (word s).2 ≠ s := by
  intro h
  obtain ⟨hspace, hspan⟩ := bind_stays forward_space (fun _ ↦ forward_span1 _) h
  obtain ⟨c, rest, hunread, hc⟩ := stays_space heof hspace
  have hnot := stays_span1 hunread (hspan () rfl)
  rw [hc] at hnot
  cases hnot

/-- Where a hexadecimal number is expected and nothing is read, no number begins. -/
theorem stays_hexadecimal {s : InStream} (heof : s.eof = false) (h : (hexadecimal s).2 = s) :
    ∃ c rest, s.unread = c :: rest ∧ isSpace c = false ∧ isHexDigit c = false ∧ c ≠ '+' ∧
      c ≠ '-' := by
  have hreturn (minus : Bool) (digits : List Char) :
      Forward (pure (strtoull minus (numeral 16 digits))) := forward_pure _
  have hitem : Forward hexItem := forward_hexPrefix.bind fun _ ↦ forward_span1 _
  obtain ⟨hspace, hafter⟩ := bind_stays forward_space
    (fun _ ↦ forward_sign.bind fun _ ↦ hitem.bind fun _ ↦ hreturn _ _) h
  obtain ⟨hsign, hnumber⟩ := bind_stays forward_sign (fun _ ↦ hitem.bind fun _ ↦ hreturn _ _)
    (hafter () rfl)
  obtain ⟨c, rest, hunread, hc⟩ := stays_space heof hspace
  have hne {d : Char} (hread : c = d → (sign s).2 = ofText rest) : c ≠ d := fun hd ↦
    List.cons_ne_self c rest
      (hunread.symm.trans (congrArg unread (hsign.symm.trans (hread hd))))
  have hplus : c ≠ '+' := hne fun hd ↦ by simp [sign, hunread, hd]
  have hminus : c ≠ '-' := hne fun hd ↦ by simp [sign, hunread, hd]
  have hsigned : sign s = (some false, s) := by
    unfold sign
    split
    · exact absurd (List.cons.inj (hunread.symm.trans ‹_›)).1 hminus
    · exact absurd (List.cons.inj (hunread.symm.trans ‹_›)).1 hplus
    · rfl
  have hprefix : (hexPrefix s).1 = some () := by
    unfold hexPrefix
    split <;> rfl
  obtain ⟨hdigits, -⟩ := bind_stays hitem (hreturn false) (hnumber false (by rw [hsigned]; rfl))
  obtain ⟨-, hspan⟩ := bind_stays forward_hexPrefix (fun _ ↦ forward_span1 _) hdigits
  exact ⟨c, rest, hunread, hc, stays_span1 hunread (hspan () hprefix), hplus, hminus⟩

/-! ## What is converted -/

/-- The text `rest` is empty or starts with a character that meets `next`. -/
def Starts (next : Char → Prop) (rest : List Char) : Prop := ∀ c ∈ rest.head?, next c

/-- From `text`, and a rest that `next` allows, `x` converts `a` and leaves the rest. -/
def Reads (x : Scan α) (text : List Char) (a : α) (next : Char → Prop) : Prop :=
  ∀ (s : InStream) (rest : List Char), s.unread = text ++ rest → Starts next rest →
    ∃ s', x s = (some a, s') ∧ s'.unread = rest

variable {x : Scan α} {f : α → Scan β} {text text' : List Char} {a : α} {b : β}
  {next next' : Char → Prop}

theorem starts_cons {c : Char} {rest : List Char} : Starts next (c :: rest) ↔ next c := by
  simp [Starts]

theorem reads_pure (a : α) : Reads (pure a) [] a next := fun s _ hs _ ↦ ⟨s, rfl, hs⟩

theorem Reads.bind (hx : Reads x text a next) (hf : Reads (f a) text' b next')
    (hstarts : ∀ rest, Starts next' rest → Starts next (text' ++ rest)) :
    Reads (x >>= f) (text ++ text') b next' := by
  intro s rest hs hrest
  rw [List.append_assoc] at hs
  obtain ⟨s₁, hs₁, hunread⟩ := hx s (text' ++ rest) hs (hstarts rest hrest)
  obtain ⟨s₂, hs₂, hrest'⟩ := hf s₁ rest hunread hrest
  exact ⟨s₂, (bind_of_some hs₁).trans hs₂, hrest'⟩

theorem span_of_all {p : Char → Bool} {rest : List Char} (htext : ∀ c ∈ text, p c = true)
    (hrest : Starts (fun c ↦ p c = false) rest) :
    (text ++ rest).takeWhile p = text ∧ (text ++ rest).dropWhile p = rest := by
  have htake : rest.takeWhile p = [] ∧ rest.dropWhile p = rest := by
    cases rest with
    | nil => exact ⟨rfl, rfl⟩
    | cons c rest =>
      have hc : p c = false := starts_cons.mp hrest
      simp [hc]
  rw [List.takeWhile_append_of_pos htext, List.dropWhile_append_of_pos htext, htake.1, htake.2,
    List.append_nil]
  exact ⟨rfl, rfl⟩

theorem reads_spanWhile {p : Char → Bool} (htext : ∀ c ∈ text, p c = true) :
    Reads (spanWhile p) text text fun c ↦ p c = false := by
  intro s rest hs hrest
  obtain ⟨htake, hdrop⟩ := span_of_all htext hrest
  refine ⟨looked rest, ?_, rfl⟩
  rw [spanWhile, hs, htake, hdrop]

theorem reads_span1 {p : Char → Bool} (hne : text ≠ []) (htext : ∀ c ∈ text, p c = true) :
    Reads (span1 p) text text fun c ↦ p c = false := by
  have hpure : Reads (if text.isEmpty then fail else pure text) [] text fun c ↦ p c = false := by
    rw [if_neg (by simpa using hne)]
    exact reads_pure text
  have h : Reads (span1 p) (text ++ []) text fun c ↦ p c = false :=
    (reads_spanWhile htext).bind hpure fun _ hrest ↦ hrest
  rwa [List.append_nil] at h

theorem reads_space (htext : ∀ c ∈ text, isSpace c = true) :
    Reads space text () fun c ↦ isSpace c = false := by
  have h : Reads space (text ++ []) () fun c ↦ isSpace c = false :=
    (reads_spanWhile htext).bind (reads_pure ()) fun _ hrest ↦ hrest
  rwa [List.append_nil] at h

theorem reads_char (c : Char) : Reads char [c] c next := by
  intro s rest hs _
  exact ⟨ofText rest, by simp [char, hs], rfl⟩

theorem reads_lit (c : Char) : Reads (lit c) [c] () next := by
  intro s rest hs _
  exact ⟨ofText rest, by simp [lit, hs], rfl⟩

/-- What a conversion that skips white space converts does not start with it. -/
theorem Reads.after_space {f : Unit → Scan β} (hf : Reads (f ()) text b next)
    (hstarts : ∀ rest, Starts (fun c ↦ isSpace c = false) (text ++ rest)) :
    Reads (space >>= f) text b next := by
  have hspace : Reads space [] () fun c ↦ isSpace c = false := reads_space nofun
  exact hspace.bind hf fun rest _ ↦ hstarts rest

/-- A conversion, the white space behind it, and what follows. -/
theorem Reads.spaced {c : Char} (hc : isSpace c = true)
    (hx : Reads x text a fun c ↦ isSpace c = true) (hf : Reads (f a) text' b next)
    (hstarts : ∀ rest, Starts next rest → Starts (fun c ↦ isSpace c = false) (text' ++ rest)) :
    Reads (do let a ← x; space; f a) (text ++ c :: text') b next := by
  have hspace : ∀ d ∈ [c], isSpace d = true := fun d hd ↦ List.mem_singleton.mp hd ▸ hc
  exact hx.bind ((reads_space hspace).bind hf hstarts) fun _ _ ↦ starts_cons.mpr hc

theorem starts_word (hne : text ≠ []) (htext : ∀ c ∈ text, isSpace c = false)
    (rest : List Char) : Starts (fun c ↦ isSpace c = false) (text ++ rest) := by
  cases text with
  | nil => exact absurd rfl hne
  | cons c text => exact starts_cons.mpr (htext c List.mem_cons_self)

theorem reads_word (hne : text ≠ []) (htext : ∀ c ∈ text, isSpace c = false) :
    Reads word text text fun c ↦ isSpace c = true := by
  have hspan : Reads (span1 fun c ↦ !isSpace c) text text fun c ↦ isSpace c = true := by
    intro s rest hs hrest
    refine reads_span1 hne (fun c hc ↦ by simp [htext c hc]) s rest hs fun c hc ↦ ?_
    simpa using hrest c hc
  exact hspan.after_space (starts_word hne htext)

/-! ## Numbers -/

theorem digitValue_digitChar {k : ℕ} (hk : k < 16) : digitValue k.digitChar = k := by
  interval_cases k <;> rfl

theorem isHexDigit_digitChar {k : ℕ} (hk : k < 16) : isHexDigit k.digitChar = true := by
  interval_cases k <;> rfl

/-- A number is that of its digits. -/
theorem numeral_toDigits {base : ℕ} (hbase : 1 < base) (hle : base ≤ 16) (n : ℕ) :
    numeral base (Nat.toDigits base n) = n := by
  induction n using Nat.base_induction base hbase with
  | single k hk =>
    rw [Nat.toDigits_of_lt_base hk]
    simp [numeral, digitValue_digitChar (hk.trans_le hle)]
  | digit k d hd hk ih =>
    rw [← Nat.toDigits_append_toDigits hbase hk hd, Nat.toDigits_of_lt_base hd]
    unfold numeral at ih ⊢
    rw [List.foldl_append, ih]
    simp [digitValue_digitChar (hd.trans_le hle)]

theorem isHexDigit_of_mem_toDigits {n : ℕ} {c : Char} (hc : c ∈ Nat.toDigits 16 n) :
    isHexDigit c = true := by
  induction n using Nat.base_induction 16 (by decide) with
  | single k hk =>
    rw [Nat.toDigits_of_lt_base hk, List.mem_singleton] at hc
    rw [hc]
    exact isHexDigit_digitChar hk
  | digit k d hd hk ih =>
    rw [← Nat.toDigits_append_toDigits (by decide) hk hd, Nat.toDigits_of_lt_base hd,
      List.mem_append, List.mem_singleton] at hc
    rcases hc with hc | rfl
    · exact ih hc
    · exact isHexDigit_digitChar hd

/-! ## What is printed -/

theorem toNat_of_isSpace {c : Char} (h : isSpace c = true) : c.toNat ≤ 32 := by
  simp only [isSpace, Bool.or_eq_true, Bool.and_eq_true, decide_eq_true_eq] at h
  rcases h with rfl | h
  · decide
  · omega

theorem toNat_of_isHexDigit {c : Char} (h : isHexDigit c = true) : 48 ≤ c.toNat := by
  simp only [isHexDigit, Char.isDigit, Bool.or_eq_true, Bool.and_eq_true, decide_eq_true_eq,
    Char.le_def, UInt32.le_iff_toNat_le] at h
  change 48 ≤ c.val.toNat
  rcases h with (⟨h, -⟩ | ⟨h, -⟩) | ⟨h, -⟩
  · exact h
  · exact le_trans (by decide) h
  · exact le_trans (by decide) h

theorem isHexDigit_of_isDigit {c : Char} (h : c.isDigit = true) : isHexDigit c = true := by
  simp [isHexDigit, h]

/-- What is printed for a word with `%lx` or `%llx`. -/
def hexDigits (w : BitVec 64) : List Char := Nat.toDigits 16 w.toNat

/-- What is printed for a number with `%d`. -/
def decimalDigits (z : ℤ) : List Char :=
  if z < 0 then '-' :: Nat.toDigits 10 z.natAbs else Nat.toDigits 10 z.natAbs

theorem reads_sign : Reads sign [] false fun c ↦ 48 ≤ c.toNat := by
  intro s rest hs hrest
  refine ⟨s, ?_, hs⟩
  unfold sign
  split
  · rename_i hunread
    obtain rfl : rest = '-' :: _ := hs.symm.trans hunread
    exact absurd (starts_cons.mp hrest) (by decide)
  · rename_i hunread
    obtain rfl : rest = '+' :: _ := hs.symm.trans hunread
    exact absurd (starts_cons.mp hrest) (by decide)
  · rfl

theorem reads_minus : Reads sign ['-'] true next := by
  intro s rest hs _
  exact ⟨ofText rest, by simp [sign, hs], rfl⟩

theorem reads_hexPrefix : Reads hexPrefix ['0', 'x'] () next := by
  intro s rest hs _
  exact ⟨ofText rest, by simp [hexPrefix, hs], rfl⟩

/-- Digits end where white space starts. -/
theorem reads_digits {p : Char → Bool} (hp : ∀ c, p c = true → isHexDigit c = true)
    (htext : text ≠ []) (hdigits : ∀ c ∈ text, p c = true) :
    Reads (span1 p) text text fun c ↦ isSpace c = true := by
  intro s rest hs hrest
  refine reads_span1 htext hdigits s rest hs fun c hc ↦ ?_
  have hspace := toNat_of_isSpace (hrest c hc)
  refine Bool.eq_false_iff.mpr fun hdigit ↦ ?_
  have hhex := toNat_of_isHexDigit (hp c hdigit)
  omega

/-- Digits are converted, also behind the prefix `0x`. -/
theorem reads_hexItem (htext : text ≠ []) (hdigits : ∀ c ∈ text, isHexDigit c = true) :
    Reads hexItem text text (fun c ↦ isSpace c = true) ∧
      Reads hexItem ('0' :: 'x' :: text) text fun c ↦ isSpace c = true := by
  refine ⟨?_, reads_hexPrefix.bind (reads_digits (fun _ ↦ id) htext hdigits) fun _ _ _ _ ↦ trivial⟩
  intro s rest hs hrest
  have hnot : hexPrefix s = (some (), s) := by
    have hsecond (c d : Char) (rest' : List Char) (h : text ++ rest = c :: d :: rest') :
        isHexDigit d = true ∨ isSpace d = true := by
      match text, htext, hdigits with
      | [_], _, _ =>
        obtain rfl := (List.cons.inj h).2
        exact .inr (starts_cons.mp hrest)
      | _ :: e :: _, _, hdigits =>
        obtain rfl := (List.cons.inj (List.cons.inj h).2).1
        exact .inl (hdigits e (by simp))
    unfold hexPrefix
    split
    · exact absurd (hsecond _ _ _ (hs.symm.trans ‹_›)) (by decide)
    · exact absurd (hsecond _ _ _ (hs.symm.trans ‹_›)) (by decide)
    · rfl
  rw [hexItem, bind_of_some hnot]
  exact reads_digits (fun _ ↦ id) htext hdigits s rest hs hrest

theorem hexDigits_ne_nil (w : BitVec 64) : hexDigits w ≠ [] := Nat.toDigits_ne_nil

/-- A text that starts with a digit starts neither with white space nor with a sign. -/
theorem starts_digits {digits : List Char} (hne : digits ≠ [])
    (hdigits : ∀ c ∈ digits, isHexDigit c = true) (rest : List Char) :
    Starts (fun c ↦ 48 ≤ c.toNat) (digits ++ rest) := by
  cases digits with
  | nil => exact absurd rfl hne
  | cons c digits => exact starts_cons.mpr (toNat_of_isHexDigit (hdigits c List.mem_cons_self))

theorem Starts.mono {rest : List Char} (h : Starts next rest) (himp : ∀ c, next c → next' c) :
    Starts next' rest := fun c hc ↦ himp c (h c hc)

theorem isSpace_eq_false {c : Char} (h : 33 ≤ c.toNat) : isSpace c = false := by
  refine Bool.eq_false_iff.mpr fun hspace ↦ ?_
  have hle := toNat_of_isSpace hspace
  omega

theorem strtoull_toNat (w : BitVec 64) : strtoull false w.toNat = w := by
  rw [strtoull, if_neg (Nat.not_le.mpr w.isLt)]
  exact BitVec.ofNat_toNat 64 w |>.trans w.setWidth_eq

/-- A printed word is converted, also behind the prefix `0x`. -/
theorem reads_hexadecimal (w : BitVec 64) :
    Reads hexadecimal (hexDigits w) w (fun c ↦ isSpace c = true) ∧
      Reads hexadecimal ('0' :: 'x' :: hexDigits w) w fun c ↦ isSpace c = true := by
  have hdigits : ∀ c ∈ hexDigits w, isHexDigit c = true := fun c ↦ isHexDigit_of_mem_toDigits
  have hvalue : strtoull false (numeral 16 (hexDigits w)) = w := by
    rw [hexDigits, numeral_toDigits (by decide) le_rfl, strtoull_toNat]
  obtain ⟨hplain, hprefixed⟩ := reads_hexItem (hexDigits_ne_nil w) hdigits
  have hrest {text : List Char} (hitem : Reads hexItem text (hexDigits w) fun c ↦ isSpace c = true)
      (hstarts : ∀ rest, Starts (fun c ↦ 48 ≤ c.toNat) (text ++ rest)) :
      Reads hexadecimal text w fun c ↦ isSpace c = true := by
    have hreturn : Reads (do let digits ← hexItem; return strtoull false (numeral 16 digits))
        (text ++ []) w fun c ↦ isSpace c = true := by
      refine hitem.bind ?_ fun _ h ↦ h
      rw [hvalue]
      exact reads_pure w
    rw [List.append_nil] at hreturn
    refine Reads.after_space (reads_sign.bind hreturn fun rest _ ↦ hstarts rest) fun rest ↦ ?_
    exact (hstarts rest).mono fun c hc ↦ isSpace_eq_false (by omega)
  exact ⟨hrest hplain (starts_digits (hexDigits_ne_nil w) hdigits),
    hrest hprefixed fun _ ↦ starts_cons.mpr (by decide)⟩

theorem isDigit_toDigits {n : ℕ} {c : Char} (hc : c ∈ Nat.toDigits 10 n) : c.isDigit = true :=
  Nat.isDigit_of_mem_toDigits (by decide) le_rfl hc

theorem starts_toDigits (n : ℕ) (rest : List Char) :
    Starts (fun c ↦ 48 ≤ c.toNat) (Nat.toDigits 10 n ++ rest) :=
  starts_digits Nat.toDigits_ne_nil (fun _ hc ↦ isHexDigit_of_isDigit (isDigit_toDigits hc)) rest

theorem starts_decimalDigits (z : ℤ) (rest : List Char) :
    Starts (fun c ↦ isSpace c = false) (decimalDigits z ++ rest) := by
  unfold decimalDigits
  split
  · exact starts_cons.mpr rfl
  · exact (starts_toDigits z.natAbs rest).mono fun c hc ↦ isSpace_eq_false (by omega)

/-- The number is one of an `int`. -/
def IsInt (z : ℤ) : Prop := -2 ^ 31 ≤ z ∧ z < 2 ^ 31

theorem strtol_natAbs {z : ℤ} (h : IsInt z) {minus : Bool} (hminus : minus = true ↔ z < 0) :
    (strtol minus z.natAbs).bmod (2 ^ 32) = z := by
  obtain ⟨hle, hlt⟩ := h
  have hvalue : strtol minus z.natAbs = z := by
    unfold strtol
    cases minus with
    | true =>
      have hneg : z < 0 := hminus.mp rfl
      rw [if_pos rfl]
      omega
    | false =>
      have hnot : ¬ z < 0 := fun hneg ↦ Bool.false_ne_true (hminus.mpr hneg)
      rw [if_neg Bool.false_ne_true]
      omega
  rw [hvalue]
  exact Int.bmod_eq_of_le (by omega) (by omega)

/-- A printed `int` is converted. -/
theorem reads_decimal {z : ℤ} (hz : IsInt z) :
    Reads decimal (decimalDigits z) z fun c ↦ isSpace c = true := by
  have hdigits : Reads (span1 Char.isDigit) (Nat.toDigits 10 z.natAbs) (Nat.toDigits 10 z.natAbs)
      fun c ↦ isSpace c = true :=
    reads_digits (fun _ ↦ isHexDigit_of_isDigit) Nat.toDigits_ne_nil fun _ ↦ isDigit_toDigits
  have hvalue : numeral 10 (Nat.toDigits 10 z.natAbs) = z.natAbs :=
    numeral_toDigits (by decide) (by decide) _
  have hreturn (minus : Bool) (hminus : minus = true ↔ z < 0) :
      Reads (do
        let digits ← span1 Char.isDigit
        return (strtol minus (numeral 10 digits)).bmod (2 ^ 32))
        (Nat.toDigits 10 z.natAbs ++ []) z fun c ↦ isSpace c = true := by
    refine hdigits.bind ?_ fun _ h ↦ h
    rw [hvalue, strtol_natAbs hz hminus]
    exact reads_pure z
  simp only [List.append_nil] at hreturn
  refine Reads.after_space ?_ (starts_decimalDigits z)
  unfold decimalDigits
  by_cases hneg : z < 0
  · rw [if_pos hneg]
    exact reads_minus.bind (hreturn true (iff_of_true rfl hneg)) fun _ _ _ _ ↦ trivial
  · rw [if_neg hneg]
    exact reads_sign.bind (hreturn false (iff_of_false Bool.false_ne_true hneg)) fun rest _ ↦
      starts_toDigits z.natAbs rest

end Scan

end ArchSim.Library
