import Mathlib.Data.Nat.Notation

/-!
# The branch predictors

The predictor of `branchsim.cpp` with its global variables as one record, and the loop of the
driver over a trace of branches. `int` and `unsigned int` are 32-bit words whose arithmetic wraps,
`std::uint64_t` is a 64-bit word, and a shift of a 32-bit word takes its count modulo 32, as the
processor does. An access outside an array is a fault.
-/

namespace ArchSim.BranchPredictor

inductive BranchDir where
  | TAKEN | NOT_TAKEN
  deriving DecidableEq, Repr

inductive PredictorType where
  | PTYPE_BIMODAL | PTYPE_GSHARE | PTYPE_LOCAL_HISTORY | PTYPE_TWO_LEVEL_ADAPTIVE
  deriving DecidableEq, Repr

inductive Fault where
  | badArrayNewLength
  | outOfBounds
  deriving DecidableEq, Repr

structure BranchStats where
  numBranches : BitVec 64 := 0
  predTaken : BitVec 64 := 0
  predNotTaken : BitVec 64 := 0
  correct : BitVec 64 := 0
  storageOverhead : BitVec 64 := 0
  deriving DecidableEq, Repr

structure Predictor where
  pht : List (BitVec 32)
  ghr : BitVec 64
  ctrMax : BitVec 32
  ctrWeaklyTaken : BitVec 32
  indexMask : BitVec 64
  historyShift : BitVec 64
  historyMask : BitVec 64
  predType : PredictorType
  histTable : List (BitVec 64)
  deriving DecidableEq, Repr

/-- `a << count` for a 32-bit `a`. -/
def shl (a : BitVec 32) (count : ℕ) : BitVec 32 := a <<< (count % 32)

/-- `a[index]`. -/
def read {α : Type} (a : List α) (index : BitVec 64) : Except Fault α :=
  match a[index.toNat]? with
  | some x => .ok x
  | none => .error .outOfBounds

def PredictorType.usesHistTable : PredictorType → Bool
  | PTYPE_LOCAL_HISTORY | PTYPE_TWO_LEVEL_ADAPTIVE => true
  | _ => false

/-- `pht_size` and `storage_overhead`, as the switch of `setup_predictor` computes them. -/
def sizes (ptype : PredictorType) (numEntries counterBits historyBits : BitVec 32) :
    BitVec 32 × BitVec 64 :=
  match ptype with
  | .PTYPE_BIMODAL => (numEntries, numEntries.signExtend 64 * counterBits.signExtend 64)
  | .PTYPE_TWO_LEVEL_ADAPTIVE =>
      let phtSize := shl 1 historyBits.toNat * counterBits
      (phtSize, historyBits.signExtend 64 * numEntries.signExtend 64 + phtSize.signExtend 64)
  | .PTYPE_LOCAL_HISTORY =>
      let phtSize := shl 1 historyBits.toNat * counterBits * numEntries
      (phtSize, historyBits.signExtend 64 * numEntries.signExtend 64 + phtSize.signExtend 64)
  | .PTYPE_GSHARE =>
      let phtSize := numEntries * counterBits
      (phtSize, phtSize.signExtend 64 + historyBits.signExtend 64)

/-- `new T[size]` and a loop that sets every element to `x`. -/
def newArray {α : Type} (size : BitVec 32) (x : α) : Except Fault (List α) :=
  if size.toInt < 0 then .error .badArrayNewLength else .ok (List.replicate size.toNat x)

def setupPredictor (ptype : PredictorType) (numEntries counterBits historyBits : BitVec 32)
    (stats : BranchStats) : Except Fault (Predictor × BranchStats) := do
  let ctrWeaklyTaken := shl 1 (counterBits - 1).toNat
  let (phtSize, storageOverhead) := sizes ptype numEntries counterBits historyBits
  let pht ← newArray phtSize ctrWeaklyTaken
  let histTable ← if ptype.usesHistTable then newArray numEntries 0 else pure []
  return ({
    pht := pht
    ghr := 0
    ctrMax := shl 1 counterBits.toNat - 1
    ctrWeaklyTaken := ctrWeaklyTaken
    indexMask := numEntries.signExtend 64 - 1
    historyShift := historyBits.signExtend 64
    historyMask := (shl 1 historyBits.toNat).signExtend 64 - 1
    predType := ptype
    histTable := histTable }, { stats with storageOverhead := storageOverhead })

def getIndex (p : Predictor) (pc : BitVec 64) : Except Fault (BitVec 64) :=
  match p.predType with
  | .PTYPE_BIMODAL => .ok (pc &&& p.indexMask)
  | .PTYPE_TWO_LEVEL_ADAPTIVE => do
      let histIndex := pc &&& p.indexMask
      let history ← read p.histTable histIndex
      return history &&& p.historyMask
  | .PTYPE_LOCAL_HISTORY => do
      let histIndex := pc &&& p.indexMask
      let history ← read p.histTable histIndex
      return histIndex * (shl 1 p.historyShift.toNat).signExtend 64 + (history &&& p.historyMask)
  | .PTYPE_GSHARE => .ok ((pc &&& p.indexMask) ^^^ (p.ghr &&& p.indexMask))

def predictBranch (p : Predictor) (pc : BitVec 64) (stats : BranchStats) :
    Except Fault (BranchDir × BranchStats) := do
  let stats := { stats with numBranches := stats.numBranches + 1 }
  let index ← getIndex p pc
  let counter ← read p.pht index
  if p.ctrWeaklyTaken ≤ counter then
    return (.TAKEN, { stats with predTaken := stats.predTaken + 1 })
  else
    return (.NOT_TAKEN, { stats with predNotTaken := stats.predNotTaken + 1 })

/-- The bound to which `update_predictor` raises a counter. -/
def updateBound (ctrWeaklyTaken : BitVec 32) : BitVec 32 := shl 2 (ctrWeaklyTaken - 1).toNat - 1

def updateCounter (ctrWeaklyTaken counter : BitVec 32) : BranchDir → BitVec 32
  | .TAKEN => if counter < updateBound ctrWeaklyTaken then counter + 1 else counter
  | .NOT_TAKEN => if 0 < counter then counter - 1 else counter

/-- What is shifted into a history register. -/
def BranchDir.bit : BranchDir → BitVec 64
  | TAKEN => 1
  | NOT_TAKEN => 0

def updatePredictor (p : Predictor) (pc : BitVec 64) (actual predicted : BranchDir)
    (stats : BranchStats) : Except Fault (Predictor × BranchStats) := do
  let index ← getIndex p pc
  let stats :=
    if actual = predicted then { stats with correct := stats.correct + 1 } else stats
  let p := { p with ghr := p.ghr <<< 1 ||| actual.bit }
  let counter ← read p.pht index
  let p := { p with pht := p.pht.set index.toNat (updateCounter p.ctrWeaklyTaken counter actual) }
  if p.predType.usesHistTable then
    let histIndex := pc &&& p.indexMask
    let history ← read p.histTable histIndex
    return ({ p with
      histTable := p.histTable.set histIndex.toNat (history <<< 1 + actual.bit) }, stats)
  else
    return (p, stats)

/-- One line of a trace. -/
structure Branch where
  pc : BitVec 64
  actual : BranchDir
  deriving DecidableEq, Repr

structure Simulation where
  predictor : Predictor
  stats : BranchStats
  /-- What has been predicted for the branches so far. -/
  predicted : List BranchDir := []
  deriving DecidableEq, Repr

/-- The body of the loop of the driver. -/
def Simulation.step (s : Simulation) (b : Branch) : Except Fault Simulation := do
  let (predicted, stats) ← predictBranch s.predictor b.pc s.stats
  let (predictor, stats) ← updatePredictor s.predictor b.pc b.actual predicted stats
  return { predictor := predictor, stats := stats, predicted := s.predicted ++ [predicted] }

def Simulation.run (s : Simulation) (trace : List Branch) : Except Fault Simulation :=
  trace.foldlM step s

end ArchSim.BranchPredictor
