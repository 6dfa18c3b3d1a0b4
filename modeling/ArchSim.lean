import ArchSim.Library.AtomicMemory
import ArchSim.Library.CounterMistakes
import ArchSim.Library.CounterTable
import ArchSim.Library.Counting
import ArchSim.Library.Loop
import ArchSim.Library.Reader
import ArchSim.Library.Renaming
import ArchSim.Library.Scanf
import ArchSim.Library.ShiftRegister
import ArchSim.Library.Snooping
import ArchSim.Library.SnoopingInvariant
import ArchSim.Coherence.Contents
import ArchSim.Coherence.Traffic
import ArchSim.Coherence.SingleWriter
import ArchSim.Coherence.NoAbort
import ArchSim.Coherence.NodeOrder
import ArchSim.Coherence.Statistics
import ArchSim.Coherence.ExclusiveGrant
import ArchSim.Coherence.SilentUpgrade
import ArchSim.Coherence.SharedWire
import ArchSim.Coherence.OwnerAnswers
import ArchSim.Coherence.DirtyOwner
import ArchSim.Coherence.UnknownOperation
import ArchSim.Coherence.TraceFile
import ArchSim.Coherence.OnlyWrites
import ArchSim.BranchPredictor.Periodic
import ArchSim.BranchPredictor.Sizes
import ArchSim.BranchPredictor.NonInterference
import ArchSim.BranchPredictor.GlobalHistory
import ArchSim.BranchPredictor.TraceFile
import ArchSim.Tomasulo.Lifetime
import ArchSim.Tomasulo.TrueDependence
import ArchSim.Tomasulo.Tags
import ArchSim.Tomasulo.Malformed
import ArchSim.Tomasulo.Dataflow
import ArchSim.Tomasulo.TraceFile
