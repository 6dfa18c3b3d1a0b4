import ArchSim.Library.Loop
import ArchSim.Library.Scanf

/-!
# Reading a stream to its end

Two loops around a format. The one asks for the end-of-file indicator before each call and goes on
after a line that is not converted; the other ends with the first such line. Either reads back what
has been printed. The first one never ends if it comes to a character at which the format fails
without reading.
-/

namespace ArchSim.Library.Scan

open InStream

variable {α β : Type} {x : Scan α} {s s' : InStream} {a : α} {r : Option α}

theorem Consumes.bind_left {x : Scan β} {f : β → Scan α} (hx : Consumes x)
    (hf : ∀ b, Forward (f b)) : Consumes (x >>= f) := by
  intro s a s' h
  cases hxs : x s with
  | mk r s₁ =>
    cases r with
    | none =>
      rw [bind_of_none hxs] at h
      cases h
    | some b =>
      rw [bind_of_some hxs] at h
      have hforward := hf b s₁
      rw [h] at hforward
      exact hforward.suffix.length_le.trans_lt (hx s b s₁ hxs)

theorem Consumes.bind_right {x : Scan β} {f : β → Scan α} (hx : Forward x)
    (hf : ∀ b, Consumes (f b)) : Consumes (x >>= f) := by
  intro s a s' h
  cases hxs : x s with
  | mk r s₁ =>
    cases r with
    | none =>
      rw [bind_of_none hxs] at h
      cases h
    | some b =>
      rw [bind_of_some hxs] at h
      have hforward := hx s
      rw [hxs] at hforward
      exact (hf b s₁ a s' h).trans_le hforward.suffix.length_le

theorem consumes_char : Consumes char := by
  intro s c s' h
  unfold char at h
  split at h
  · cases h
  · rename_i hunread
    cases h
    rw [hunread]
    exact Nat.lt_succ_self _

theorem consumes_span1 (p : Char → Bool) : Consumes (span1 p) := by
  intro s cs s' h
  have hspan : spanWhile p s = (some (s.unread.takeWhile p), looked (s.unread.dropWhile p)) := rfl
  rw [span1, bind_of_some hspan] at h
  split at h
  · cases h
  · rename_i hne
    cases h
    have hlength := congrArg List.length (List.takeWhile_append_dropWhile (p := p) (l := s.unread))
    have hpos := List.length_pos_iff.mpr fun hnil ↦ hne (List.isEmpty_iff.mpr hnil)
    rw [List.length_append] at hlength
    change (s.unread.dropWhile p).length < s.unread.length
    omega

theorem consumes_word : Consumes word := .bind_right forward_space fun _ ↦ consumes_span1 _

theorem consumes_hexadecimal : Consumes hexadecimal :=
  .bind_right forward_space fun _ ↦ .bind_right forward_sign fun _ ↦
    .bind_left (.bind_right forward_hexPrefix fun _ ↦ consumes_span1 _) fun _ ↦ forward_pure _

/-! ## Up to the end -/

/-- What the loop `while (!feof(s))` converts in `fuel` iterations, and the stream it leaves. -/
def readAll (x : Scan α) : ℕ → InStream → List α × InStream
  | 0, s => ([], s)
  | fuel + 1, s =>
      if s.eof then
        ([], s)
      else
        let (r, s) := x s
        let (as, s) := readAll x fuel s
        (r.toList ++ as, s)

/-- What that loop converts, and the stream at which it ends or stays. -/
def readFile (x : Scan α) (s : InStream) : List α × InStream := readAll x (s.unread.length + 1) s

theorem readAll_of_eof (heof : s.eof = true) (fuel : ℕ) : readAll x fuel s = ([], s) := by
  cases fuel with
  | zero => rfl
  | succ fuel => rw [readAll, if_pos heof]

theorem readAll_succ (hnot : s.eof = false) (hx : x s = (r, s')) (fuel : ℕ) :
    readAll x (fuel + 1) s = (r.toList ++ (readAll x fuel s').1, (readAll x fuel s').2) := by
  rw [readAll, if_neg (Bool.eq_false_iff.mp hnot), hx]

/-- Where the format fails without reading, the loop stays. -/
theorem readAll_of_stays (hx : x s = (none, s)) (fuel : ℕ) : readAll x fuel s = ([], s) := by
  induction fuel with
  | zero => rfl
  | succ fuel ih =>
    cases heof : s.eof with
    | true => exact readAll_of_eof heof _
    | false => rw [readAll_succ heof hx, ih, Option.toList_none, List.nil_append]

/-- A call reads something, or it meets the end, or it fails and the loop stays. -/
theorem progress (hforward : Forward x) (hconsumes : Consumes x) (hx : x s = (r, s')) :
    s'.unread.length < s.unread.length ∨ s'.eof = true ∨ r = none ∧ s' = s := by
  have hleaves : s.Leaves s' := by
    have h := hforward s
    rwa [hx] at h
  by_cases hlt : s'.unread.length < s.unread.length
  · exact .inl hlt
  · cases r with
    | some a => exact .inl (hconsumes s a s' hx)
    | none => exact .inr ((hleaves.eq_or_eof (Nat.not_lt.mp hlt)).symm.imp_right fun h ↦ ⟨rfl, h⟩)

/-- More iterations than characters make no difference. -/
theorem readAll_of_lt (hforward : Forward x) (hconsumes : Consumes x) {fuel : ℕ}
    (hfuel : s.unread.length < fuel) : readAll x fuel s = readFile x s := by
  induction fuel using Nat.strong_induction_on generalizing s with
  | _ fuel ih =>
    obtain ⟨fuel, rfl⟩ := Nat.exists_eq_succ_of_ne_zero (Nat.ne_zero_of_lt hfuel)
    cases heof : s.eof with
    | true => rw [readFile, readAll_of_eof heof, readAll_of_eof heof]
    | false =>
      cases hx : x s with
      | mk r s' =>
        rw [readFile, readAll_succ heof hx, readAll_succ heof hx]
        rcases progress hforward hconsumes hx with hlt | heof' | ⟨rfl, rfl⟩
        · rw [ih fuel (Nat.lt_succ_self _) (by omega), ih s.unread.length hfuel hlt]
        · rw [readAll_of_eof heof', readAll_of_eof heof']
        · rw [readAll_of_stays hx, readAll_of_stays hx]

theorem readFile_of_eof (heof : s.eof = true) : readFile x s = ([], s) := readAll_of_eof heof _

theorem readFile_of_stays (hx : x s = (none, s)) : readFile x s = ([], s) := readAll_of_stays hx _

/-- One iteration, and the others. -/
theorem readFile_step (hforward : Forward x) (hconsumes : Consumes x) (hnot : s.eof = false)
    (hx : x s = (r, s')) :
    readFile x s = (r.toList ++ (readFile x s').1, (readFile x s').2) := by
  rw [← readAll_of_lt hforward hconsumes (Nat.lt_succ_of_lt (Nat.lt_succ_self s.unread.length)),
    readAll_succ hnot hx]
  rcases progress hforward hconsumes hx with hlt | heof' | ⟨rfl, rfl⟩
  · rw [readAll_of_lt hforward hconsumes (Nat.lt_succ_of_lt hlt)]
  · rw [readAll_of_eof heof', readFile_of_eof heof']
  · rw [readAll_of_stays hx, readFile_of_stays hx]

/-- What holds of all streams holds if it is kept along the iterations, backwards from the stream
at which the loop ends or stays. -/
theorem readFile_induction (hforward : Forward x) (hconsumes : Consumes x)
    {motive : InStream → Prop} (ended : ∀ s, s.eof = true → motive s)
    (stays : ∀ s, s.eof = false → x s = (none, s) → motive s)
    (step : ∀ s r s', s.eof = false → x s = (r, s') →
      s'.unread.length < s.unread.length ∨ s'.eof = true → motive s' → motive s) (s : InStream) :
    motive s := by
  induction hlength : s.unread.length using Nat.strong_induction_on generalizing s with
  | _ length ih =>
    cases heof : s.eof with
    | true => exact ended s heof
    | false =>
      cases hx : x s with
      | mk r s' =>
        rcases progress hforward hconsumes hx with hlt | heof' | ⟨rfl, rfl⟩
        · exact step s r s' heof hx (.inl hlt) (ih _ (hlength ▸ hlt) s' rfl)
        · exact step s r s' heof hx (.inr heof') (ended s' heof')
        · exact stays s' heof hx

/-- The loop ends, or it comes to a character at which the format fails without reading. -/
theorem readFile_final (hforward : Forward x) (hconsumes : Consumes x) (s : InStream) :
    (readFile x s).2.eof = true ∨ x (readFile x s).2 = (none, (readFile x s).2) := by
  induction s using readFile_induction hforward hconsumes with
  | ended s heof =>
    rw [readFile_of_eof heof]
    exact .inl heof
  | stays s _ hx =>
    rw [readFile_of_stays hx]
    exact .inr hx
  | step s r s' heof hx _ ih => rwa [readFile_step hforward hconsumes heof hx]

section Feed

variable {ε σ : Type} {f : σ → α → Except ε σ} {t t' : σ}

/-- The loop `while (!feof(s))` that hands what it converts to `f`. -/
def feed (x : Scan α) (f : σ → α → Except ε σ) : Loop ε (InStream × σ) where
  body p :=
    match x p.1 with
    | (some a, s) => do
        let t ← f p.2 a
        return (s, t)
    | (none, s) => .ok (s, p.2)
  done p := p.1.eof

theorem feed_body_eq_ok (hx : x s = (r, s')) {p : InStream × σ} :
    (feed x f).body (s, t) = .ok p ↔ p.1 = s' ∧ r.toList.foldlM f t = .ok p.2 := by
  obtain ⟨s₁, t₁⟩ := p
  simp only [feed, hx]
  cases r with
  | none =>
    simp only [Option.toList_none, List.foldlM_nil, Except.ok.injEq, Prod.mk.injEq]
    exact and_congr eq_comm (Iff.of_eq (Except.ok.injEq t t₁)).symm
  | some a =>
    simp only [Option.toList_some, List.foldlM_cons, List.foldlM_nil, bind_pure]
    cases f t a with
    | ok t₂ =>
      simp only [bind, Except.bind, pure, Except.pure, Except.ok.injEq, Prod.mk.injEq]
      exact and_congr eq_comm Iff.rfl
    | error _ => simp [bind, Except.bind]

/-- The loop comes to the end of the stream, or to where it stays, if `f` does not abort. -/
theorem feed_reaches (hforward : Forward x) (hconsumes : Consumes x)
    (ht : (readFile x s).1.foldlM f t = .ok t') :
    ∃ k ≤ s.unread.length + 1, (feed x f).after k (s, t) = some ((readFile x s).2, t') := by
  suffices h : ∃ k ≤ s.unread.length + 1, (s.eof = true → k = 0) ∧
      (feed x f).after k (s, t) = some ((readFile x s).2, t') by
    obtain ⟨k, hk, -, hafter⟩ := h
    exact ⟨k, hk, hafter⟩
  induction s using readFile_induction hforward hconsumes generalizing t with
  | ended s heof =>
    rw [readFile_of_eof heof] at ht ⊢
    obtain rfl := Except.ok.inj ht
    exact ⟨0, Nat.zero_le _, fun _ ↦ rfl, rfl⟩
  | stays s _ hx =>
    rw [readFile_of_stays hx] at ht ⊢
    obtain rfl := Except.ok.inj ht
    exact ⟨0, Nat.zero_le _, fun _ ↦ rfl, rfl⟩
  | step s r s' heof hx hprogress ih =>
    rw [readFile_step hforward hconsumes heof hx, List.foldlM_append] at ht
    obtain ⟨t₁, ht₁, hrest⟩ := bind_eq_ok.mp ht
    obtain ⟨k, hk, hzero, hafter⟩ := ih hrest
    have hbody : (feed x f).body (s, t) = .ok (s', t₁) := (feed_body_eq_ok hx).mpr ⟨rfl, ht₁⟩
    refine ⟨k + 1, ?_, fun heof' ↦ absurd (heof.symm.trans heof') Bool.false_ne_true, ?_⟩
    · rcases hprogress with hlt | heof'
      · omega
      · rw [hzero heof']
        exact Nat.le_add_left 1 _
    · rw [readFile_step hforward hconsumes heof hx]
      exact (Loop.after_succ heof hbody).trans hafter

/-- The loop ends exactly if the end of the stream is reached and `f` takes all that is
converted. -/
theorem feed_ends_iff (hforward : Forward x) (hconsumes : Consumes x) :
    (∃ k s', (feed x f).after k (s, t) = some (s', t') ∧ s'.eof = true) ↔
      (readFile x s).2.eof = true ∧ (readFile x s).1.foldlM f t = .ok t' := by
  constructor
  · rintro ⟨k, s', hafter, heof'⟩
    induction k generalizing s t with
    | zero =>
      obtain ⟨rfl, rfl⟩ := Prod.mk.inj (Option.some.inj hafter)
      rw [readFile_of_eof heof']
      exact ⟨heof', rfl⟩
    | succ k ih =>
      obtain ⟨heof, ⟨s₁, t₁⟩, hbody, hrest⟩ := Loop.after_succ_eq_some.mp hafter
      cases hx : x s with
      | mk r s₂ =>
        obtain ⟨rfl, ht₁⟩ := (feed_body_eq_ok hx).mp hbody
        obtain ⟨hend, ht'⟩ := ih hrest
        rw [readFile_step hforward hconsumes heof hx, List.foldlM_append]
        exact ⟨hend, bind_eq_ok.mpr ⟨t₁, ht₁, ht'⟩⟩
  · rintro ⟨heof, ht'⟩
    obtain ⟨k, -, hafter⟩ := feed_reaches hforward hconsumes ht'
    exact ⟨k, _, hafter, heof⟩

/-- Where the format fails without reading, the loop goes on for ever. -/
theorem feed_stays (hx : x s = (none, s)) (heof : s.eof = false) (k : ℕ) :
    (feed x f).after k (s, t) = some (s, t) := by
  induction k with
  | zero => rfl
  | succ k ih =>
    have hbody : (feed x f).body (s, t) = .ok (s, t) := (feed_body_eq_ok hx).mpr ⟨rfl, rfl⟩
    exact (Loop.after_succ heof hbody).trans ih

end Feed

/-! ## Up to a line that is not converted -/

/-- What a loop converts that ends with the first failure, in `fuel` iterations. -/
def readLines (x : Scan α) : ℕ → InStream → List α
  | 0, _ => []
  | fuel + 1, s =>
      match x s with
      | (some a, s) => a :: readLines x fuel s
      | (none, _) => []

/-- What that loop converts in all. -/
def lines (x : Scan α) (s : InStream) : List α := readLines x (s.unread.length + 1) s

theorem readLines_of_lt (hconsumes : Consumes x) {fuel : ℕ} (hfuel : s.unread.length < fuel) :
    readLines x fuel s = lines x s := by
  induction fuel using Nat.strong_induction_on generalizing s with
  | _ fuel ih =>
    obtain ⟨fuel, rfl⟩ := Nat.exists_eq_succ_of_ne_zero (Nat.ne_zero_of_lt hfuel)
    rw [lines, readLines, readLines]
    cases hx : x s with
    | mk r s' =>
      cases r with
      | none => rfl
      | some a =>
        have hlt := hconsumes s a s' hx
        change a :: readLines x fuel s' = a :: readLines x s.unread.length s'
        rw [ih fuel (Nat.lt_succ_self _) (by omega), ih s.unread.length hfuel hlt]

theorem lines_of_some (hconsumes : Consumes x) (hx : x s = (some a, s')) :
    lines x s = a :: lines x s' := by
  rw [lines, readLines, hx]
  exact congrArg (a :: ·) (readLines_of_lt hconsumes (hconsumes s a s' hx))

theorem lines_of_none (hx : x s = (none, s')) : lines x s = [] := by
  rw [lines, readLines, hx]

theorem lines_of_nil (hconsumes : Consumes x) (hnil : s.unread = []) : lines x s = [] := by
  cases hx : x s with
  | mk r s' =>
    cases r with
    | none => exact lines_of_none hx
    | some a =>
      have hlt := hconsumes s a s' hx
      rw [hnil] at hlt
      exact absurd hlt (Nat.not_lt_zero _)

/-- The end-of-file indicator makes no difference. -/
theorem lines_congr (hconsumes : Consumes x) (h : s.unread = s'.unread) :
    lines x s = lines x s' := by
  cases hunread : s.unread with
  | nil => rw [lines_of_nil hconsumes hunread, lines_of_nil hconsumes (h ▸ hunread)]
  | cons c rest =>
    have hnot {s : InStream} (hs : s.unread = c :: rest) : s.eof = false :=
      Bool.eq_false_iff.mpr fun heof ↦ List.cons_ne_nil c rest (hs ▸ s.unread_of_eof heof)
    rw [InStream.ext h ((hnot hunread).trans (hnot (h ▸ hunread)).symm)]

/-! ## Files that have been printed -/

/-- What `print` prints for `b` is converted to its value, and the next line is not read. -/
structure Prints (x : Scan α) (print : β → List Char) (value : β → α) (b : β) : Prop where
  reads : Reads x (print b) (value b) fun c ↦ isSpace c = false
  starts : ∀ rest, Starts (fun c ↦ isSpace c = false) (print b ++ rest)

variable {print : β → List Char} {value : β → α} {bs : List β}

theorem starts_flatMap (h : ∀ b ∈ bs, Prints x print value b) {rest : List Char}
    (hrest : Starts (fun c ↦ isSpace c = false) rest) :
    Starts (fun c ↦ isSpace c = false) (bs.flatMap print ++ rest) := by
  cases bs with
  | nil => exact hrest
  | cons b bs =>
    rw [List.flatMap_cons, List.append_assoc]
    exact (h b List.mem_cons_self).starts _

/-- The loop that goes on reads back what has been printed, and ends. -/
theorem readFile_flatMap (hforward : Forward x) (hconsumes : Consumes x)
    (hend : ∃ s', x (ofText []) = (none, s') ∧ s'.eof = true)
    (h : ∀ b ∈ bs, Prints x print value b) (hs : s.unread = bs.flatMap print) :
    (readFile x s).1 = bs.map value ∧ (readFile x s).2.eof = true := by
  induction bs generalizing s with
  | nil =>
    cases heof : s.eof with
    | true =>
      rw [readFile_of_eof heof]
      exact ⟨rfl, heof⟩
    | false =>
      obtain rfl : s = ofText [] := InStream.ext hs heof
      obtain ⟨s', hx, heof'⟩ := hend
      rw [readFile_step hforward hconsumes heof hx, readFile_of_eof heof']
      exact ⟨rfl, heof'⟩
  | cons b bs ih =>
    have hprints := h b List.mem_cons_self
    have htail : ∀ c ∈ bs, Prints x print value c := fun c hc ↦ h c (List.mem_cons_of_mem b hc)
    have hstarts : Starts (fun c ↦ isSpace c = false) (bs.flatMap print) :=
      List.append_nil (bs.flatMap print) ▸ starts_flatMap htail nofun
    rw [List.flatMap_cons] at hs
    obtain ⟨s', hx, hunread⟩ := hprints.reads s _ hs hstarts
    have hnot : s.eof = false := by
      refine Bool.eq_false_iff.mpr fun heof ↦ ?_
      have hlt := hconsumes s (value b) s' hx
      rw [s.unread_of_eof heof] at hlt
      exact Nat.not_lt_zero _ hlt
    obtain ⟨hbs, hended⟩ := ih htail hunread
    rw [readFile_step hforward hconsumes hnot hx, hbs]
    exact ⟨rfl, hended⟩

/-- The loop that ends with the first failure reads back what has been printed, and then what
follows. -/
theorem lines_flatMap (hconsumes : Consumes x) (h : ∀ b ∈ bs, Prints x print value b)
    {rest : List Char} (hrest : Starts (fun c ↦ isSpace c = false) rest)
    (hs : s.unread = bs.flatMap print ++ rest) :
    lines x s = bs.map value ++ lines x (ofText rest) := by
  induction bs generalizing s with
  | nil => exact lines_congr hconsumes hs
  | cons b bs ih =>
    have hprints := h b List.mem_cons_self
    have htail : ∀ c ∈ bs, Prints x print value c := fun c hc ↦ h c (List.mem_cons_of_mem b hc)
    rw [List.flatMap_cons, List.append_assoc] at hs
    obtain ⟨s₁, hx, hunread⟩ := hprints.reads s _ hs (starts_flatMap htail hrest)
    rw [lines_of_some hconsumes hx, ih htail hunread]
    rfl

end ArchSim.Library.Scan
