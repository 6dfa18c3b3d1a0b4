import ArchSim.BranchPredictor.Calls
import ArchSim.Library.Reader

/-!
# Trace files

The loop of the driver reads its trace with `fscanf` until `feof`. It reads back a printed trace;
but it asks only for the end of the file, so that it never ends if a character stands where no
address can begin.
-/

namespace ArchSim.BranchPredictor

open Library Scan InStream

/-- The format `"%lx %c\n"`. -/
def scanBranch : Scan (BitVec 64 × Char) := do
  let pc ← hexadecimal
  space
  let result ← char
  space
  return (pc, result)

/-- The direction to which a character is cast. -/
def branchDir : Char → Option BranchDir
  | 'T' => some .TAKEN
  | 'N' => some .NOT_TAKEN
  | _ => none

/-- What the driver does with a line. A value that is no direction is never predicted, and
`update_predictor` has no branch for it. -/
def Simulation.stepLine (s : Simulation) (line : BitVec 64 × Char) : Except Fault Simulation :=
  match branchDir line.2 with
  | some actual => s.step ⟨line.1, actual⟩
  | none => do
      let (predicted, stats) ← predictBranch s.predictor line.1 s.stats
      let _ ← getIndex s.predictor line.1
      return { s with stats := stats, predicted := s.predicted ++ [predicted] }

/-- The loop of `main`. -/
abbrev driver : Loop Fault (InStream × Simulation) := feed scanBranch Simulation.stepLine

theorem forward_scanBranch : Forward scanBranch :=
  forward_hexadecimal.bind fun _ ↦ forward_space.bind fun _ ↦ forward_char.bind fun _ ↦
    forward_space.bind fun _ ↦ forward_pure _

theorem consumes_scanBranch : Consumes scanBranch :=
  consumes_hexadecimal.bind_left fun _ ↦ forward_space.bind fun _ ↦ forward_char.bind fun _ ↦
    forward_space.bind fun _ ↦ forward_pure _

/-! ## Printed traces -/

def BranchDir.char : BranchDir → Char
  | TAKEN => 'T'
  | NOT_TAKEN => 'N'

/-- A line as it stands in the trace files. -/
def Branch.print (b : Branch) : List Char :=
  '0' :: 'x' :: hexDigits b.pc ++ [' ', b.actual.char, '\n']

def Branch.line (b : Branch) : BitVec 64 × Char := (b.pc, b.actual.char)

theorem Simulation.stepLine_line (s : Simulation) (b : Branch) : s.stepLine b.line = s.step b := by
  obtain ⟨pc, actual⟩ := b
  cases actual <;> rfl

theorem isSpace_char (d : BranchDir) : isSpace d.char = false := by
  cases d <;> rfl

theorem prints_branch (b : Branch) : Prints scanBranch Branch.print Branch.line b where
  reads := by
    have hresult : Reads (do let result ← Scan.char; space; return (b.pc, result))
        [b.actual.char, '\n'] b.line fun c ↦ isSpace c = false :=
      (reads_char b.actual.char).spaced rfl (reads_pure _) fun _ hrest ↦ hrest
    exact (reads_hexadecimal b.pc).2.spaced rfl hresult fun _ _ ↦ starts_cons.mpr (isSpace_char _)
  starts _ := starts_cons.mpr rfl

theorem scanBranch_nil : ∃ s', scanBranch (ofText []) = (none, s') ∧ s'.eof = true :=
  ⟨_, rfl, rfl⟩

/-- On a printed trace the driver ends as the run over the trace does. -/
theorem driver_runs_trace (s s' : Simulation) (trace : List Branch) :
    (∃ k stream, driver.after k (ofText (trace.flatMap Branch.print), s) = some (stream, s') ∧
      stream.eof = true) ↔ s.run trace = .ok s' := by
  obtain ⟨hlines, heof⟩ := readFile_flatMap forward_scanBranch consumes_scanBranch scanBranch_nil
    (fun b _ ↦ prints_branch b) (unread_ofText (trace.flatMap Branch.print))
  have hfold (s : Simulation) :
      (trace.map Branch.line).foldlM Simulation.stepLine s = s.run trace := by
    rw [List.foldlM_map]
    exact congrArg (fun f ↦ trace.foldlM f s) (funext₂ Simulation.stepLine_line)
  rw [feed_ends_iff forward_scanBranch consumes_scanBranch, hlines, hfold]
  exact and_iff_right heof

/-! ## Files of any content -/

/-- Where the format fails without reading, no address begins. -/
theorem stays_scanBranch {s : InStream} (heof : s.eof = false) (hstays : scanBranch s = (none, s)) :
    ∃ c rest, s.unread = c :: rest ∧ isSpace c = false ∧ isHexDigit c = false ∧ c ≠ '+' ∧
      c ≠ '-' := by
  have hsame : (scanBranch s).2 = s := by rw [hstays]
  refine stays_hexadecimal heof (bind_stays forward_hexadecimal (fun _ ↦ ?_) hsame).1
  exact forward_space.bind fun _ ↦ forward_char.bind fun _ ↦ forward_space.bind fun _ ↦
    forward_pure _

theorem Simulation.stepLine_ok {s : Simulation} (hsized : s.predictor.Sized)
    (line : BitVec 64 × Char) : ∃ s', s.stepLine line = .ok s' ∧ s'.predictor.Sized := by
  obtain ⟨pc, result⟩ := line
  obtain ⟨index, hindex, hlt⟩ := hsized.getIndex_ok pc
  obtain ⟨counter, hread, -⟩ := read_ok hlt
  unfold stepLine
  cases branchDir result with
  | some actual =>
    exact ⟨_, step_ok (b := ⟨pc, actual⟩) hsized hindex hread rfl,
      hsized.record pc actual List.length_set⟩
  | none =>
    simp only [predictBranch_ok hindex hread, hindex, bind, Except.bind]
    exact ⟨_, rfl, hsized⟩

theorem Simulation.stepLines_ok {s : Simulation} (hsized : s.predictor.Sized)
    (lines : List (BitVec 64 × Char)) : ∃ s', lines.foldlM stepLine s = .ok s' := by
  induction lines generalizing s with
  | nil => exact ⟨s, rfl⟩
  | cons line lines ih =>
    obtain ⟨s₁, hstep, hsized₁⟩ := s.stepLine_ok hsized line
    obtain ⟨s', hrest⟩ := ih hsized₁
    exact ⟨s', List.foldlM_cons.trans (bind_eq_ok.mpr ⟨s₁, hstep, hrest⟩)⟩

/-- On every file the driver ends after at most one more iteration than the file has characters, or
by then it has come to a character that is no white space and where no address begins, and it stays
there for ever. -/
theorem driver_ends_or_stays {ptype : PredictorType}
    {numEntries counterBits historyBits : BitVec 32} (hentries : 1 ≤ numEntries.toInt)
    (hbits : 1 ≤ counterBits.toInt) (hfits : Fits ptype numEntries counterBits historyBits)
    (stats : BranchStats) (file : List Char) :
    ∃ p stats', setupPredictor ptype numEntries counterBits historyBits stats = .ok (p, stats') ∧
      ∃ k ≤ file.length + 1, ∃ d, driver.after k (ofText file, ⟨p, stats', []⟩) = some d ∧
        (d.1.eof = true ∨
          (∃ c rest, d.1.unread = c :: rest ∧ isSpace c = false ∧ isHexDigit c = false ∧
            c ≠ '+' ∧ c ≠ '-') ∧
          ∀ j, driver.after (k + j) (ofText file, ⟨p, stats', []⟩) = some d) := by
  have hsized := initialPredictor_sized hentries hbits hfits
  refine ⟨_, _, setupPredictor_ok hentries hbits hfits stats, ?_⟩
  obtain ⟨s', hs'⟩ := Simulation.stepLines_ok (s := ⟨_, _, []⟩) hsized
    (readFile scanBranch (ofText file)).1
  obtain ⟨k, hk, hafter⟩ := feed_reaches forward_scanBranch consumes_scanBranch hs'
  refine ⟨k, hk, _, hafter, ?_⟩
  cases heof : (readFile scanBranch (ofText file)).2.eof with
  | true => exact .inl rfl
  | false =>
    have hfinal := readFile_final forward_scanBranch consumes_scanBranch (ofText file)
    have hstays := hfinal.resolve_left (Bool.eq_false_iff.mp heof)
    exact .inr ⟨stays_scanBranch heof hstays, fun j ↦
      (Loop.after_add hafter j).trans (feed_stays hstays heof j)⟩

/-- A line without a direction, and one more. -/
def missingDirection : List Char :=
  ['0', 'x', '1', '0', '\n', '0', 'x', '2', '0', ' ', 'T', '\n']

/-- The `0` of the second line is taken for the direction of the first, and the driver stays at the
`x` behind it. -/
theorem driver_ends_or_stays_missingDirection :
    (readFile scanBranch (ofText missingDirection)).2.unread = ['x', '2', '0', ' ', 'T', '\n'] ∧
    ∃ p stats', setupPredictor .PTYPE_BIMODAL 1 1 1 {} = .ok (p, stats') ∧
      ∃ k ≤ missingDirection.length + 1,
        ∃ d, driver.after k (ofText missingDirection, ⟨p, stats', []⟩) = some d ∧
        (d.1.eof = true ∨
          (∃ c rest, d.1.unread = c :: rest ∧ isSpace c = false ∧ isHexDigit c = false ∧
            c ≠ '+' ∧ c ≠ '-') ∧
          ∀ j, driver.after (k + j) (ofText missingDirection, ⟨p, stats', []⟩) = some d) :=
  ⟨by decide, @driver_ends_or_stays .PTYPE_BIMODAL 1 1 1 (by decide) (by decide) trivial {}
    missingDirection⟩

end ArchSim.BranchPredictor
