import ArchSim.Library.Reader
import ArchSim.Tomasulo.Malformed

/-!
# Trace files

`main` reads a line, issues its instruction until there is room for it, and reads the next one; a
line that `process_trace` does not convert is skipped. Seen without the reading it is the driver of
a list of instructions, so that what is known of that driver holds of `main` on every file.
-/

namespace ArchSim.Tomasulo

open Library Scan InStream

/-- What `fscanf` converts of a line. -/
structure Fields where
  op : List Char
  dest : ℤ
  src1 : ℤ
  src2 : ℤ
  deriving DecidableEq

/-- The format `"%s %d %d %d\n"`. -/
def scanFields : Scan Fields := do
  let op ← word
  space
  let dest ← decimal
  space
  let src1 ← decimal
  space
  let src2 ← decimal
  space
  return ⟨op, dest, src1, src2⟩

/-- What ends `main` before its time: a call of `std::exit`, a name that overflows `op`, or an
access outside the register alias table. -/
inductive Fault where
  | exit (e : Exit)
  | overflow
  | outOfBounds
  deriving DecidableEq

/-- The index `reg_num - 1` of a register in the alias table; the registers are `1` to `n`. -/
def register (n : ℕ) (z : ℤ) : Option (Fin n) :=
  if h : 1 ≤ z ∧ z ≤ n then some ⟨(z - 1).toNat, by omega⟩ else none

/-- A source, where `-1` is none. -/
def source (n : ℕ) (z : ℤ) : Option (Option (Fin n)) :=
  if z = -1 then some none else (register n z).map some

/-- The line with its name as `strcmp` sees it and its registers, if the alias table has them. -/
def Fields.line (n : ℕ) (fields : Fields) : Option (TraceLine n) := do
  let dest ← register n fields.dest
  let src1 ← source n fields.src1
  let src2 ← source n fields.src2
  return ⟨.ofList (cString fields.op), dest, src1, src2⟩

/-- The length of `op` in `process_trace`. -/
def opLength : ℕ := 16

/-- The name that the stream `s` starts with. -/
def token (s : InStream) : List Char := (word s).1.getD []

/-- The call of `fscanf` in `process_trace`: the name and its terminator must fit into `op`. -/
def scanLine (s : InStream) : Except Fault (Option Fields × InStream) :=
  if (token s).length < opLength then .ok (scanFields s) else .error .overflow

/-- The state of `main`: the trace file, the instruction that waits to be issued, and the
scheduler. -/
structure Main (n : ℕ) where
  stdin : InStream
  pending : Option (Inst n) := none
  sched : Scheduler n := {}

namespace Main

variable {n : ℕ} (cfg : Config)

/-- One iteration of the loop that retries an instruction, or the reading of a line, or, behind the
end of the file, one iteration of the loop that lets the pipeline drain. -/
def body (m : Main n) : Except Fault (Main n) :=
  match m.pending with
  | some inst => do
      let (success, s) := m.sched.tryIssue cfg inst
      let s ← (s.step cfg).mapError .exit
      return { m with pending := if success then none else some inst, sched := s }
  | none =>
      if m.stdin.eof then do
        let s ← (m.sched.step cfg).mapError .exit
        return { m with sched := s }
      else do
        let (fields, stdin) ← scanLine m.stdin
        match fields with
        | none => return { m with stdin := stdin }
        | some fields =>
            match fields.line n with
            | some line => return { m with stdin := stdin, pending := some (processTrace line) }
            | none => throw .outOfBounds

def done (m : Main n) : Bool := m.pending.isNone && m.stdin.eof && m.sched.completed cfg

def loop (n : ℕ) : Loop Fault (Main n) := ⟨body cfg, done cfg⟩

end Main

/-! ## Reading -/

theorem forward_behind_word (op : List Char) : Forward (do
    space
    let dest ← decimal
    space
    let src1 ← decimal
    space
    let src2 ← decimal
    space
    return (⟨op, dest, src1, src2⟩ : Fields)) :=
  forward_space.bind fun _ ↦ forward_decimal.bind fun _ ↦ forward_space.bind fun _ ↦
    forward_decimal.bind fun _ ↦ forward_space.bind fun _ ↦ forward_decimal.bind fun _ ↦
      forward_space.bind fun _ ↦ forward_pure _

theorem forward_scanFields : Forward scanFields := forward_word.bind forward_behind_word

theorem consumes_scanFields : Consumes scanFields := consumes_word.bind_left forward_behind_word

/-- Every call reads something or meets the end. -/
theorem scanFields_reads {s : InStream} (heof : s.eof = false) : (scanFields s).2 ≠ s :=
  fun h ↦ word_reads heof (bind_stays forward_word forward_behind_word h).1

theorem leaves_of_scanFields {s s' : InStream} {r : Option Fields} (hs : scanFields s = (r, s')) :
    s.Leaves s' := by
  have hforward := forward_scanFields s
  rwa [hs] at hforward

/-- What is left to read shrinks, where the end of the file counts as one more character. -/
theorem unread_lt_of_scanFields {s s' : InStream} {r : Option Fields} (heof : s.eof = false)
    (hs : scanFields s = (r, s')) :
    (s'.unread.length + if s'.eof then 0 else 1) < s.unread.length + if s.eof then 0 else 1 := by
  have hle := (leaves_of_scanFields hs).suffix.length_le
  rw [heof, if_neg Bool.false_ne_true]
  rcases progress forward_scanFields consumes_scanFields hs with hlt | heof' | ⟨-, rfl⟩
  · split <;> omega
  · rw [heof', if_pos rfl]
    omega
  · exact absurd (by rw [hs]) (scanFields_reads heof)

/-! ## The names of a file -/

/-- A call of `fscanf` in `process_trace`, with the name that it writes to `op`. -/
def scanName : Scan (List Char) := fun s ↦ ((word s).1, (scanFields s).2)

theorem forward_scanName : Forward scanName := forward_scanFields

theorem consumes_scanName : Consumes scanName := by
  intro s name s' h
  obtain ⟨hname, rfl⟩ := Prod.mk.inj h
  cases hword : word s with
  | mk r s₁ =>
    obtain rfl : r = some name := (congrArg Prod.fst hword).symm.trans hname
    have hbehind := forward_behind_word name s₁
    rw [scanFields, bind_of_some hword]
    exact hbehind.suffix.length_le.trans_lt (consumes_word s name s₁ hword)

/-- No name that is read on the way to the end of the file is too long for `op`. -/
def ShortNames (s : InStream) : Prop :=
  ∀ name ∈ (readFile scanName s).1, name.length < opLength

theorem ShortNames.step {s : InStream} (h : ShortNames s) (heof : s.eof = false) :
    scanLine s = .ok (scanFields s) ∧ ShortNames (scanFields s).2 := by
  have hscan : scanName s = ((word s).1, (scanFields s).2) := rfl
  have hfile := readFile_step forward_scanName consumes_scanName heof hscan
  rw [ShortNames, hfile] at h
  refine ⟨if_pos ?_, fun name hname ↦ h name (List.mem_append_right _ hname)⟩
  cases hword : (word s).1 with
  | none =>
    rw [token, hword]
    exact Nat.zero_lt_succ _
  | some name =>
    rw [token, hword]
    exact h name (List.mem_append_left _ (Option.mem_toList.mpr hword))

/-! ## The instructions of a file -/

variable {n : ℕ} {cfg : Config}

/-- The instructions that are issued while the rest of a file is read. -/
def program (n : ℕ) (s : InStream) : List (Inst n) :=
  ((readFile scanFields s).1.filterMap (Fields.line n)).map processTrace

/-- The registers of all lines are in the alias table. -/
def Registers (n : ℕ) (s : InStream) : Prop :=
  ∀ fields ∈ (readFile scanFields s).1, (fields.line n).isSome

theorem program_of_eof {s : InStream} (heof : s.eof = true) : program n s = [] := by
  rw [program, readFile_of_eof heof]
  rfl

theorem program_step {s s' : InStream} {r : Option Fields} (heof : s.eof = false)
    (hs : scanFields s = (r, s')) :
    program n s =
      (r.bind fun fields ↦ (fields.line n).map processTrace).toList ++ program n s' := by
  rw [program, readFile_step forward_scanFields consumes_scanFields heof hs]
  cases r with
  | none => rfl
  | some fields => cases h : fields.line n <;> simp [program, h]

theorem Registers.step {s s' : InStream} {r : Option Fields} (h : Registers n s)
    (heof : s.eof = false) (hs : scanFields s = (r, s')) :
    (∀ fields ∈ r, (fields.line n).isSome) ∧ Registers n s' := by
  rw [Registers, readFile_step forward_scanFields consumes_scanFields heof hs] at h
  exact ⟨fun fields hr ↦ h fields (List.mem_append_left _ (Option.mem_toList.mpr hr)),
    fun fields hmem ↦ h fields (List.mem_append_right _ hmem)⟩

namespace Main

/-- The driver that `main` shows. -/
def driver (m : Main n) : Driver n := ⟨m.sched, m.pending.toList ++ program n m.stdin⟩

/-- What is left to read, and a call that meets the end. -/
def unread (m : Main n) : ℕ := m.stdin.unread.length + if m.stdin.eof then 0 else 1

/-- What `main` has not read has short names and only registers of the alias table. -/
structure Reading (m : Main n) : Prop where
  names : ShortNames m.stdin
  registers : Registers n m.stdin

/-- While an instruction waits, and behind the end of the file, `main` does what the driver does. -/
theorem body_shows {m : Main n} (h : m.pending.isSome ∨ m.stdin.eof = true) :
    (m.body cfg).toOption.map driver = (m.driver.body cfg).toOption ∧
      ∀ m', m.body cfg = .ok m' → m'.stdin = m.stdin := by
  obtain ⟨stdin, pending, sched⟩ := m
  cases pending with
  | some inst =>
    simp only [body, driver, Driver.body, Option.toList_some, List.singleton_append]
    cases hstep : (sched.tryIssue cfg inst).2.step cfg with
    | error _ => simp [bind, Except.bind, Except.mapError, Except.toOption]
    | ok s' =>
      by_cases hsuccess : (sched.tryIssue cfg inst).1 = true <;>
        simp [bind, Except.bind, Except.mapError, Except.toOption, pure, Except.pure, driver,
          hsuccess]
  | none =>
    have heof : stdin.eof = true := h.resolve_left (by simp)
    simp only [body, driver, Driver.body, Option.toList_none, List.nil_append, heof, if_true,
      program_of_eof heof]
    cases hstep : sched.step cfg with
    | error _ => simp [bind, Except.bind, Except.mapError, Except.toOption]
    | ok s' => simp [bind, Except.bind, Except.mapError, Except.toOption, pure, Except.pure, driver,
        program_of_eof heof]

/-- Otherwise it reads a line, which the driver does not notice. -/
theorem body_reads {m : Main n} (h : m.Reading) (hpending : m.pending = none)
    (heof : m.stdin.eof = false) :
    ∃ m', m.body cfg = .ok m' ∧ m'.driver = m.driver ∧ m'.unread < m.unread ∧ m'.Reading := by
  obtain ⟨stdin, pending, sched⟩ := m
  obtain rfl : pending = none := hpending
  change stdin.eof = false at heof
  cases hs : scanFields stdin with
  | mk r s' =>
    obtain ⟨hscan, hnames⟩ := h.names.step heof
    obtain ⟨hline, hregisters⟩ := h.registers.step heof hs
    rw [hs] at hscan hnames
    have hreading (pending : Option (Inst n)) : Reading ⟨s', pending, sched⟩ :=
      ⟨hnames, hregisters⟩
    have hless : unread ⟨s', none, sched⟩ < unread ⟨stdin, none, sched⟩ :=
      unread_lt_of_scanFields heof hs
    cases r with
    | none =>
      refine ⟨⟨s', none, sched⟩, ?_, ?_, hless, hreading none⟩
      · simp [body, heof, hscan, bind, Except.bind, pure, Except.pure]
      · simp [driver, program_step heof hs]
    | some fields =>
      obtain ⟨line, hfields⟩ := Option.isSome_iff_exists.mp (hline fields rfl)
      refine ⟨⟨s', some (processTrace line), sched⟩, ?_, ?_, hless, hreading _⟩
      · simp [body, heof, hscan, hfields, bind, Except.bind, pure, Except.pure]
      · simp [driver, program_step heof hs, hfields]

/-- With an instruction that waits, or at the end of the file, driver and `main` end together. -/
theorem done_eq {m : Main n} (h : m.pending.isSome ∨ m.stdin.eof = true) :
    m.driver.done cfg = m.done cfg := by
  obtain ⟨stdin, pending, sched⟩ := m
  cases pending with
  | some inst => rfl
  | none =>
    have heof : stdin.eof = true := h.resolve_left (by simp)
    simp [Driver.done, driver, done, heof, program_of_eof heof]

theorem stutters : (loop cfg n).Stutters (Driver.loop cfg n) driver unread Reading where
  kept {m m'} h _ hbody := by
    by_cases hshows : m.pending.isSome ∨ m.stdin.eof = true
    · have hstdin := (body_shows hshows).2 m' hbody
      exact ⟨hstdin ▸ h.names, hstdin ▸ h.registers⟩
    · obtain ⟨hpending, heof⟩ := not_or.mp hshows
      obtain ⟨m₁, hm₁, -, -, hreading⟩ := body_reads h (by simpa using hpending)
        (Bool.eq_false_iff.mpr heof)
      exact Except.ok.inj (hm₁.symm.trans hbody) ▸ hreading
  done {m} _ hdone := by
    have heof : m.stdin.eof = true := by
      simp only [loop, done, Bool.and_eq_true] at hdone
      exact hdone.1.2
    exact (done_eq (.inr heof)).trans hdone
  body {m} h hdone := by
    by_cases hshows : m.pending.isSome ∨ m.stdin.eof = true
    · right
      have hsame : (m.body cfg).toOption.map driver = (m.driver.body cfg).toOption :=
        (body_shows hshows).1
      refine ⟨(done_eq hshows).trans hdone, fun m' hm' ↦ ?_, fun d hd ↦ ?_⟩
      · change m.body cfg = .ok m' at hm'
        rw [hm'] at hsame
        exact toOption_eq_some.mp hsame.symm
      · change m.driver.body cfg = .ok d at hd
        rw [hd] at hsame
        obtain ⟨m', hm', rfl⟩ := Option.map_eq_some_iff.mp hsame
        exact ⟨m', toOption_eq_some.mp hm', rfl⟩
    · obtain ⟨hpending, heof⟩ := not_or.mp hshows
      obtain ⟨m', hm', hdriver, hless, -⟩ := body_reads h (by simpa using hpending)
        (Bool.eq_false_iff.mpr heof)
      exact .inl ⟨m', hm', hdriver, hless⟩

def initial (n : ℕ) (file : List Char) : Main n where
  stdin := ofText file

end Main

/-- On every file whose names fit into `op` and whose registers the alias table has, `main` ends as
the driver of the instructions in the file does. -/
theorem main_ends_iff (cfg : Config) {n : ℕ} {file : List Char}
    (hnames : ShortNames (ofText file)) (hregisters : Registers n (ofText file)) (s : Scheduler n) :
    (∃ k m, (Main.loop cfg n).after k (.initial n file) = some m ∧ m.done cfg = true ∧
      m.sched = s) ↔
    ∃ k d, (Driver.loop cfg n).after k (.initial (program n (ofText file))) = some d ∧
      d.done cfg = true ∧ d.sched = s := by
  have hiff (d : Driver n) :
      (∃ k m, (Main.loop cfg n).after k (.initial n file) = some m ∧ m.done cfg = true ∧
        m.driver = d) ↔
      ∃ k, (Driver.loop cfg n).after k (.initial (program n (ofText file))) = some d ∧
        d.done cfg = true :=
    Main.stutters.ends_iff ⟨hnames, hregisters⟩
  constructor
  · rintro ⟨k, m, hk, hdone, rfl⟩
    obtain ⟨j, hj, hdone'⟩ := (hiff m.driver).mp ⟨k, m, hk, hdone, rfl⟩
    exact ⟨j, m.driver, hj, hdone', rfl⟩
  · rintro ⟨j, d, hj, hdone, rfl⟩
    obtain ⟨k, m, hk, hdone', rfl⟩ := (hiff d).mpr ⟨j, hj, hdone⟩
    exact ⟨k, m, hk, hdone', rfl⟩

/-- A load and an addition that reads what is loaded, with a line of blanks between them. -/
def loadUseFile : List Char :=
  ['M', 'E', 'M', ' ', '1', ' ', '-', '1', ' ', '-', '1', '\n', ' ', '\n',
    'A', 'D', 'D', ' ', '2', ' ', '1', ' ', '-', '1', '\n']

/-- Both instructions have been executed after 24 cycles. -/
theorem main_ends_iff_loadUse :
    ∃ s : Scheduler 2, s.currentCycle = 24 ∧ s.stats.numInsts = 2 ∧
      ∃ k m, (Main.loop (.unified 4) 2).after k (.initial 2 loadUseFile) = some m ∧
        m.done (.unified 4) = true ∧ m.sched = s := by
  have hprogram : program 2 (ofText loadUseFile) = loadUse := by decide +kernel
  obtain ⟨d, hd, hdone, hcycle, hinsts⟩ : ∃ d : Driver 2,
      (Driver.loop (.unified 4) 2).after 23 (.initial loadUse) = some d ∧
        d.done (.unified 4) = true ∧ d.sched.currentCycle = 24 ∧ d.sched.stats.numInsts = 2 := by
    have hafter : ((Driver.loop (.unified 4) 2).after 23 (.initial loadUse)).any (fun d ↦
        d.done (.unified 4) = true ∧ d.sched.currentCycle = 24 ∧ d.sched.stats.numInsts = 2) =
          true := by
      decide +kernel
    obtain ⟨d, hd, hcheck⟩ := (Option.any_eq_true _ _).mp hafter
    exact ⟨d, hd, of_decide_eq_true hcheck⟩
  refine ⟨d.sched, hcycle, hinsts, ?_⟩
  refine (main_ends_iff (.unified 4) ?_ ?_ d.sched).mpr ⟨23, d, ?_, hdone, rfl⟩
  · unfold ShortNames
    decide +kernel
  · unfold Registers
    decide +kernel
  · rw [hprogram]
    exact hd

/-! ## Printed traces -/

/-- The number of a register in the trace files, where `-1` is none. -/
def number : Option (Fin n) → ℤ
  | none => -1
  | some r => r + 1

/-- The fields of a line. -/
def TraceLine.fields (line : TraceLine n) : Fields :=
  ⟨line.op.toList, number (some line.dest), number line.src1, number line.src2⟩

/-- A line as it stands in the trace files. -/
def TraceLine.print (line : TraceLine n) : List Char :=
  line.op.toList ++ ' ' :: (decimalDigits (number (some line.dest)) ++
    ' ' :: (decimalDigits (number line.src1) ++
      ' ' :: (decimalDigits (number line.src2) ++ ['\n'])))

/-- The name of the operation is a word that fits into `op`. -/
structure TraceLine.Named (line : TraceLine n) : Prop where
  nonempty : line.op.toList ≠ []
  word : ∀ c ∈ line.op.toList, isSpace c = false
  string : ∀ c ∈ line.op.toList, c.toNat ≠ 0
  short : line.op.toList.length < opLength

theorem register_number (r : Fin n) : register n (number (some r)) = some r := by
  have hr : 1 ≤ (r + 1 : ℤ) ∧ (r + 1 : ℤ) ≤ n := by omega
  rw [number, register, dif_pos hr]
  exact congrArg some (Fin.ext (by simp))

theorem source_number (src : Option (Fin n)) : source n (number src) = some src := by
  cases src with
  | none => rfl
  | some r =>
    have hne : number (some r) ≠ -1 := by
      simp only [number]
      omega
    rw [source, if_neg hne, register_number]
    rfl

theorem isInt_number (hn : n < 2 ^ 31) (src : Option (Fin n)) : IsInt (number src) := by
  unfold IsInt
  cases src with
  | none => exact (by decide : -2 ^ 31 ≤ (-1 : ℤ) ∧ (-1 : ℤ) < 2 ^ 31)
  | some r =>
    have hr := r.isLt
    simp only [number]
    omega

theorem TraceLine.Named.line_fields {line : TraceLine n} (h : line.Named) :
    line.fields.line n = some line := by
  have hname : cString line.op.toList = line.op.toList :=
    List.takeWhile_eq_self_iff.mpr fun c hc ↦ decide_eq_true (h.string c hc)
  simp [Fields.line, TraceLine.fields, hname, register_number, source_number]

theorem TraceLine.Named.prints (hn : n < 2 ^ 31) {line : TraceLine n} (h : line.Named) :
    Prints scanFields TraceLine.print TraceLine.fields line where
  reads := by
    have hsrc2 : Reads (do
          let src2 ← decimal
          space
          return (⟨line.op.toList, number (some line.dest), number line.src1, src2⟩ : Fields))
        (decimalDigits (number line.src2) ++ ['\n']) line.fields fun c ↦ isSpace c = false :=
      (reads_decimal (isInt_number hn _)).spaced rfl (reads_pure _) fun _ hrest ↦ hrest
    have hsrc1 : Reads (do
          let src1 ← decimal
          space
          let src2 ← decimal
          space
          return (⟨line.op.toList, number (some line.dest), src1, src2⟩ : Fields))
        (decimalDigits (number line.src1) ++ ' ' :: (decimalDigits (number line.src2) ++ ['\n']))
        line.fields fun c ↦ isSpace c = false :=
      (reads_decimal (isInt_number hn _)).spaced rfl hsrc2 fun rest _ ↦ by
        rw [List.append_assoc]
        exact starts_decimalDigits _ _
    have hdest : Reads (do
          let dest ← decimal
          space
          let src1 ← decimal
          space
          let src2 ← decimal
          space
          return (⟨line.op.toList, dest, src1, src2⟩ : Fields))
        (decimalDigits (number (some line.dest)) ++ ' ' :: (decimalDigits (number line.src1) ++
          ' ' :: (decimalDigits (number line.src2) ++ ['\n'])))
        line.fields fun c ↦ isSpace c = false :=
      (reads_decimal (isInt_number hn _)).spaced rfl hsrc1 fun rest _ ↦ by
        rw [List.append_assoc]
        exact starts_decimalDigits _ _
    exact (reads_word h.nonempty h.word).spaced rfl hdest fun rest _ ↦ by
      rw [List.append_assoc]
      exact starts_decimalDigits _ _
  starts rest := by
    rw [TraceLine.print, List.append_assoc]
    exact starts_word h.nonempty h.word _

/-- The name of a printed line is read with it. -/
theorem TraceLine.Named.prints_name (hn : n < 2 ^ 31) {line : TraceLine n} (h : line.Named) :
    Prints scanName TraceLine.print (fun line ↦ line.op.toList) line where
  reads s rest hs hrest := by
    obtain ⟨s', hfields, hunread⟩ := (h.prints hn).reads s rest hs hrest
    rw [TraceLine.print, List.append_assoc] at hs
    obtain ⟨s₁, hword, -⟩ := reads_word h.nonempty h.word s _ hs (starts_cons.mpr rfl)
    exact ⟨s', by rw [scanName, hword, hfields], hunread⟩
  starts := (h.prints hn).starts

theorem scanFields_nil : ∃ s', scanFields (ofText []) = (none, s') ∧ s'.eof = true :=
  ⟨_, rfl, rfl⟩

theorem scanName_nil : ∃ s', scanName (ofText []) = (none, s') ∧ s'.eof = true := ⟨_, rfl, rfl⟩

/-- A printed trace is read back: `main_ends_iff` applies to its file, whose instructions are those
of the lines. -/
theorem program_print {n : ℕ} (hn : n < 2 ^ 31) {lines : List (TraceLine n)}
    (hnames : ∀ line ∈ lines, line.Named) :
    ShortNames (ofText (lines.flatMap TraceLine.print)) ∧
      Registers n (ofText (lines.flatMap TraceLine.print)) ∧
      program n (ofText (lines.flatMap TraceLine.print)) = lines.map processTrace := by
  obtain ⟨hfields, -⟩ := readFile_flatMap forward_scanFields consumes_scanFields scanFields_nil
    (fun line hline ↦ (hnames line hline).prints hn)
    (unread_ofText (lines.flatMap TraceLine.print))
  obtain ⟨hread, -⟩ := readFile_flatMap forward_scanName consumes_scanName scanName_nil
    (fun line hline ↦ (hnames line hline).prints_name hn)
    (unread_ofText (lines.flatMap TraceLine.print))
  have hline : ∀ fields ∈ lines.map TraceLine.fields, (fields.line n).isSome := by
    intro fields hmem
    obtain ⟨line, hline, rfl⟩ := List.mem_map.mp hmem
    rw [(hnames line hline).line_fields]
    rfl
  refine ⟨?_, by rwa [Registers, hfields], ?_⟩
  · rw [ShortNames, hread]
    intro name hmem
    obtain ⟨line, hline, rfl⟩ := List.mem_map.mp hmem
    exact (hnames line hline).short
  · have hlines : lines.filterMap (Fields.line n ∘ TraceLine.fields) = lines.filterMap some :=
      List.filterMap_congr fun line hline ↦ (hnames line hline).line_fields
    rw [program, hfields, List.filterMap_map, hlines, List.filterMap_some]

theorem program_print_loadUse :
    (program 2 (ofText (([⟨"MEM", 0, none, none⟩, ⟨"ADD", 1, some 0, none⟩] :
      List (TraceLine 2)).flatMap TraceLine.print))) = loadUse := by
  have hnamed (op : String) (hne : op.toList ≠ [])
      (hword : op.toList.all fun c ↦ !isSpace c && decide (c.toNat ≠ 0))
      (hshort : op.toList.length < opLength) (dest : Fin 2) (src1 src2 : Option (Fin 2)) :
      (⟨op, dest, src1, src2⟩ : TraceLine 2).Named := by
    simp only [List.all_eq_true, Bool.and_eq_true, Bool.not_eq_true', decide_eq_true_eq] at hword
    exact ⟨hne, fun c hc ↦ (hword c hc).1, fun c hc ↦ (hword c hc).2, hshort⟩
  refine (program_print (by decide) fun line hline ↦ ?_).2.2
  rcases List.mem_pair.mp hline with rfl | rfl
  · exact hnamed _ (by decide) (by decide) (by decide) _ _ _
  · exact hnamed _ (by decide) (by decide) (by decide) _ _ _

end ArchSim.Tomasulo
