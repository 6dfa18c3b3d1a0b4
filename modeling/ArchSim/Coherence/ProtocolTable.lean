import ArchSim.Coherence.Protocols.MI
import ArchSim.Coherence.Protocols.MSI
import ArchSim.Coherence.Protocols.MESI
import ArchSim.Coherence.Protocols.MOSI
import ArchSim.Coherence.Protocols.MOESI

/-!
# The table of protocols

The values of `protocol_t` for which the constructor of a cache entry builds a protocol, less
`MOESIF_PRO`, whose handlers are empty. A state is stable if its line does not wait for data.
-/

namespace ArchSim.Coherence

inductive ProtocolT where
  | MI_PRO | MSI_PRO | MESI_PRO | MOESI_PRO | MOSI_PRO
  deriving DecidableEq, Repr

def ProtocolT.protocol : ProtocolT → Protocol
  | MI_PRO => MI.protocol
  | MSI_PRO => MSI.protocol
  | MESI_PRO => MESI.protocol
  | MOESI_PRO => MOESI.protocol
  | MOSI_PRO => MOSI.protocol

def MI.State.stable : MI.State → Bool
  | I | M => true
  | _ => false

def MSI.State.stable : MSI.State → Bool
  | I | S | M => true
  | _ => false

def MESI.State.stable : MESI.State → Bool
  | I | S | E | M => true
  | _ => false

def MOSI.State.stable : MOSI.State → Bool
  | I | S | O | M => true
  | _ => false

def MOESI.State.stable : MOESI.State → Bool
  | I | S | E | O | M => true
  | _ => false

def ProtocolT.stable : (t : ProtocolT) → t.protocol.State → Bool
  | MI_PRO => MI.State.stable
  | MSI_PRO => MSI.State.stable
  | MESI_PRO => MESI.State.stable
  | MOESI_PRO => MOESI.State.stable
  | MOSI_PRO => MOSI.State.stable

end ArchSim.Coherence
