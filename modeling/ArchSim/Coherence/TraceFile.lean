import ArchSim.Coherence.NodeMap
import ArchSim.Coherence.UnknownOperation
import ArchSim.Library.Reader

/-!
# Trace files

Each processor reads its trace with `fscanf`, a line whenever it fetches, and takes the first line
that is not converted for the end. Seen without the files this is the simulator of the lists of
lines that they hold, so that what is known of its runs holds for the files; and a printed list of
lines is read back.
-/

namespace ArchSim.Coherence

open Library Scan InStream

/-- The format `"%c 0x%llx\n"`. -/
def scanLine : Scan TraceLine := do
  let c ← char
  space
  lit '0'
  lit 'x'
  let addr ← hexadecimal
  space
  return ⟨c, addr⟩

/-- The second half of `Processor::tick`: fetch the next line of the file, unless the node still
waits. -/
def Node.fetchFile {σ : Type} (node : Node σ) (infile : InStream) (nodeID : ℤ) :
    Except Abort (Node σ × InStream) :=
  if node.pr.endOfTrace || node.pr.outstandingRequest then
    .ok (node, infile)
  else
    match scanLine infile with
    | (some line, infile) => do
        let request ← line.request nodeID
        return ({
          cache := { node.cache with procRequest := some request }
          pr := { node.pr with outstandingRequest := true } }, infile)
    | (none, infile) => .ok ({ node with pr := { node.pr with endOfTrace := true } }, infile)

def Node.tickFile {σ : Type} (node : Node σ) (infile : InStream) (nodeID : ℤ) :
    Except Abort (Node σ × InStream) := do
  let pr ← node.pr.complete
  { node with pr := pr }.fetchFile infile nodeID

/-- The simulator with its trace files, which take the place of the lists of lines. -/
structure FileSimulator (P : Protocol) (n : ℕ) where
  sim : Simulator P n
  infile : Fin n → InStream

variable {P : Protocol} {n : ℕ}

namespace FileSimulator

def initial (P : Protocol) (files : Fin n → List Char) (hitTime : ℕ) : FileSimulator P n where
  sim := {
    nodes := fun _ ↦ { cache := { myEntries := fun _ ↦ P.initial }, pr := { infile := [] } }
    mc := { hitTime := hitTime } }
  infile i := ofText (files i)

def tickPr (s : FileSimulator P n) (i : Fin n) : Except Abort (FileSimulator P n) := do
  let (node, infile) ← (s.sim.nodes i).tickFile (s.infile i) i.val
  return { sim := s.sim.setNode i node, infile := Function.update s.infile i infile }

/-- One iteration of the loop of `Simulator::run`. -/
def cycle (s : FileSimulator P n) : Except Abort (FileSimulator P n) := do
  let sim ← (List.finRange n).foldlM Simulator.tickCache s.sim.busTick
  let s ← (List.finRange n).foldlM tickPr { s with sim := sim }
  let sim ← s.sim.tickMc
  return { s with sim := sim.tockAll.advanceClock }

def loop (P : Protocol) (n : ℕ) : Loop Abort (FileSimulator P n) := ⟨cycle, fun s ↦ s.sim.done⟩

end FileSimulator

/-! ## The lines that are left -/

/-- The processor with the lines that it will still fetch. -/
def Processor.reading (pr : Processor) (infile : InStream) : Processor :=
  { pr with infile := if pr.endOfTrace then [] else lines scanLine infile }

def Node.reading {σ : Type} (node : Node σ) (infile : InStream) : Node σ :=
  { node with pr := node.pr.reading infile }

namespace Simulator

def reading (infile : Fin n → InStream) (s : Simulator P n) : Simulator P n :=
  { s with nodes := fun i ↦ (s.nodes i).reading (infile i) }

variable (infile : Fin n → InStream) (s : Simulator P n) (i : Fin n)

/-- The lines that are left in the files, in place of those that the simulator has. -/
def readingMap : NodeMap P P n where
  state := id
  request := id
  addr_request _ := rfl
  lines i ended _ := if ended then [] else lines scanLine (infile i)

theorem reading_eq_map : reading (P := P) infile = (readingMap infile).map := by
  funext s
  have hnode (i : Fin n) : (s.nodes i).reading (infile i) =
      (readingMap (P := P) infile).node i (s.nodes i) := by
    rw [NodeMap.node]
    simp only [readingMap, Option.map_id]
    rfl
  exact congrArg (fun nodes ↦ { s with nodes := nodes }) (funext hnode)

theorem reading_setNode (node : Node P.State) (stream : InStream) :
    (s.reading infile).setNode i (node.reading stream) =
      (s.setNode i node).reading (Function.update infile i stream) := by
  simp only [reading, setNode]
  congr 1
  funext j
  by_cases hj : j = i
  · subst hj
    simp only [Function.update_self]
  · simp only [Function.update_of_ne hj]

theorem tickCache_reading : Erases (reading infile) (s.tickCache i)
    ((s.reading infile).tickCache i) := by
  have hhandler (x : Except Abort (Ctx P.State)) : Erases (Ctx.mapState id) x x := by
    cases x <;> rfl
  rw [reading_eq_map]
  exact ((readingMap infile).tickProcRequest_map s i fun _ _ ↦ hhandler _).bind fun s ↦
    (readingMap infile).tickSnoop_map s i fun _ _ _ ↦ hhandler _

theorem tickMc_reading : Erases (reading infile) s.tickMc (s.reading infile).tickMc := by
  rw [reading_eq_map]
  exact (readingMap infile).tickMc_map s

theorem tockAll_reading : (s.reading infile).tockAll = s.tockAll.reading infile := by
  rw [reading_eq_map]
  exact (readingMap infile).map_tockAll s

end Simulator

/-! ## Runs on files -/

theorem consumes_scanLine : Consumes scanLine :=
  consumes_char.bind_left fun _ ↦ forward_space.bind fun _ ↦ (forward_lit '0').bind fun _ ↦
    (forward_lit 'x').bind fun _ ↦ forward_hexadecimal.bind fun _ ↦ forward_space.bind fun _ ↦
      forward_pure _

theorem Processor.complete_reading (pr : Processor) (infile : InStream) :
    Erases (fun pr ↦ pr.reading infile) pr.complete (pr.reading infile).complete := by
  have hinbound : (pr.reading infile).inboundRequest = pr.inboundRequest := rfl
  unfold Erases complete
  rw [hinbound]
  cases pr.inboundRequest with
  | none => rfl
  | some request =>
    by_cases hdata : request.msg = .DATA
    · simp only [if_pos hdata]
      rfl
    · simp only [if_neg hdata]
      rfl

/-- A processor that reads its file fetches the line that is next in the list of its lines. -/
theorem Node.fetchFile_reading {σ : Type} (node : Node σ) (infile : InStream) (nodeID : ℤ) :
    Erases (fun r : Node σ × InStream ↦ r.1.reading r.2) (node.fetchFile infile nodeID)
      ((node.reading infile).fetch nodeID) := by
  have hended : (node.reading infile).pr.endOfTrace = node.pr.endOfTrace := rfl
  have houtstanding :
      (node.reading infile).pr.outstandingRequest = node.pr.outstandingRequest := rfl
  unfold Erases fetchFile fetch
  rw [hended, houtstanding]
  by_cases hwaits : (node.pr.endOfTrace || node.pr.outstandingRequest) = true
  · simp only [if_pos hwaits]
    rfl
  · simp only [if_neg hwaits]
    have hnot : ¬ node.pr.endOfTrace = true := fun h ↦ hwaits (by rw [h, Bool.true_or])
    have hinfile : (node.reading infile).pr.infile = lines scanLine infile := if_neg hnot
    rw [hinfile]
    cases hscan : scanLine infile with
    | mk line infile' =>
      cases line with
      | none =>
        rw [lines_of_none hscan]
        rfl
      | some line =>
        have hrest : (if node.pr.endOfTrace then [] else lines scanLine infile') =
            lines scanLine infile' := if_neg hnot
        rw [lines_of_some consumes_scanLine hscan, ← hrest]
        change Except.map _ (line.request nodeID >>= _) = line.request nodeID >>= _
        cases line.request nodeID <;> rfl

theorem Node.tickFile_reading {σ : Type} (node : Node σ) (infile : InStream) (nodeID : ℤ) :
    Erases (fun r : Node σ × InStream ↦ r.1.reading r.2) (node.tickFile infile nodeID)
      ((node.reading infile).tickPr nodeID) :=
  (node.pr.complete_reading infile).bind fun pr ↦
    Node.fetchFile_reading { node with pr := pr } infile nodeID

namespace FileSimulator

/-- The simulator of the lines that are left in the files. -/
def shown (s : FileSimulator P n) : Simulator P n := s.sim.reading s.infile

theorem tickPr_shown (s : FileSimulator P n) (i : Fin n) :
    Erases shown (s.tickPr i) (s.shown.tickPr i) := by
  refine (Node.tickFile_reading (s.sim.nodes i) (s.infile i) i.val).bind fun r ↦ ?_
  exact congrArg Except.ok (Simulator.reading_setNode s.infile s.sim i r.1 r.2).symm

theorem cycle_shown (s : FileSimulator P n) : Erases shown s.cycle s.shown.cycle := by
  have hcaches := Erases.foldlM (Simulator.tickCache_reading s.infile) (List.finRange n)
    s.sim.busTick
  refine hcaches.bind fun sim ↦ ?_
  refine (Erases.foldlM tickPr_shown (List.finRange n) ⟨sim, s.infile⟩).bind fun s ↦ ?_
  refine (Simulator.tickMc_reading s.infile s.sim).bind fun sim ↦ ?_
  have htock := Simulator.tockAll_reading s.infile sim
  exact congrArg (fun s : Simulator P n ↦ Except.ok s.advanceClock) htock.symm

theorem done_shown (s : FileSimulator P n) : s.sim.done = s.shown.done := rfl

end FileSimulator

/-- The settings with the lines of the files for traces. -/
def Settings.withFiles (settings : Settings n) (files : Fin n → List Char) : Settings n :=
  { settings with traces := fun i ↦ lines scanLine (ofText (files i)) }

/-- On any files and with any protocol, the simulator runs as it does on the lists of the lines that
the files begin with: it ends or aborts in the same number of cycles and in the same way, and at the
ends of its cycles it shows the same states. -/
theorem run_files (P : Protocol) (settings : Settings n) (files : Fin n → List Char) :
    (∀ fuel, ((FileSimulator.loop P n).run fuel (.initial P files settings.hitTime)).map
        (Option.map FileSimulator.shown) =
      (Simulator.loop P n).run fuel (.initial P (settings.withFiles files))) ∧
    ∀ s : Simulator P n, Simulator.EndOfCycle (settings.withFiles files) s ↔
      ∃ s', (FileSimulator.loop P n).EndOfBody (.initial P files settings.hitTime) (fun _ ↦ True)
        s' ∧ s'.shown = s := by
  have hstart : (FileSimulator.initial P files settings.hitTime).shown =
      .initial P (settings.withFiles files) := rfl
  refine ⟨fun fuel ↦ ?_, fun s ↦ ⟨fun hs ↦ ?_, ?_⟩⟩
  · exact Loop.run_erases FileSimulator.cycle_shown FileSimulator.done_shown fuel _
  · exact hs.erased hstart FileSimulator.cycle_shown FileSimulator.done_shown
  · rintro ⟨s', hs', rfl⟩
    change (Simulator.loop P n).EndOfBody _ _ _
    rw [← hstart]
    exact Loop.EndOfBody.project FileSimulator.cycle_shown FileSimulator.done_shown hs'

/-! ## Printed traces -/

/-- A line as it stands in the trace files. -/
def TraceLine.print (line : TraceLine) : List Char :=
  line.c :: ' ' :: '0' :: 'x' :: (hexDigits line.addr ++ ['\n'])

theorem prints_line {line : TraceLine} (hc : isSpace line.c = false) :
    Prints scanLine TraceLine.print id line where
  reads := by
    have haddr : Reads (do let addr ← hexadecimal; space; return ⟨line.c, addr⟩)
        (hexDigits line.addr ++ ['\n']) line fun c ↦ isSpace c = false :=
      (reads_hexadecimal line.addr).1.spaced rfl (reads_pure line) fun _ hrest ↦ hrest
    have hlit (c : Char) : Reads (lit c) [c] () fun _ ↦ True := reads_lit c
    have hx : Reads (do lit 'x'; let addr ← hexadecimal; space; return ⟨line.c, addr⟩)
        ('x' :: (hexDigits line.addr ++ ['\n'])) line fun c ↦ isSpace c = false :=
      (hlit 'x').bind haddr fun _ _ _ _ ↦ trivial
    have hzero : Reads (do lit '0'; lit 'x'; let addr ← hexadecimal; space; return ⟨line.c, addr⟩)
        ('0' :: 'x' :: (hexDigits line.addr ++ ['\n'])) line fun c ↦ isSpace c = false :=
      (hlit '0').bind hx fun _ _ _ _ ↦ trivial
    exact (reads_char line.c).spaced rfl hzero fun _ _ ↦ starts_cons.mpr rfl
  starts _ := starts_cons.mpr hc

/-- A printed trace is read back, and what stands behind it is read as if it stood alone. If no line
can be converted there, nothing behind the printed lines is read, whatever follows. -/
theorem lines_print (trace : List TraceLine) (htrace : ∀ line ∈ trace, isSpace line.c = false)
    {tail : List Char} (htail : ∀ c ∈ tail.head?, isSpace c = false) :
    lines scanLine (ofText (trace.flatMap TraceLine.print ++ tail)) =
      trace ++ lines scanLine (ofText tail) ∧
    ((scanLine (ofText tail)).1 = none →
      lines scanLine (ofText (trace.flatMap TraceLine.print ++ tail)) = trace) := by
  have hlines := lines_flatMap consumes_scanLine (fun line hline ↦ prints_line (htrace line hline))
    htail (unread_ofText (trace.flatMap TraceLine.print ++ tail))
  rw [List.map_id] at hlines
  refine ⟨hlines, fun hnone ↦ ?_⟩
  rw [hlines, lines_of_none (Prod.ext hnone rfl : _ = (none, (scanLine (ofText tail)).2)),
    List.append_nil]

/-- The third line has no address, so the fourth is never read. -/
theorem lines_print_twoReads :
    lines scanLine (ofText ([⟨'r', 0x40⟩, ⟨'r', 0x80⟩].flatMap TraceLine.print ++
      ['w', '\n', 'r', ' ', '0', 'x', '0', '\n'])) = [⟨'r', 0x40⟩, ⟨'r', 0x80⟩] :=
  (lines_print [⟨'r', 0x40⟩, ⟨'r', 0x80⟩] (by simp [isSpace]) (by simp [isSpace])).2 rfl

end ArchSim.Coherence
