import ArchSim.Library.AtomicMemory
import Mathlib.Logic.Function.Basic
import Mathlib.Data.List.Nodup

/-!
# Snooping invalidation on an atomic bus

An abstract machine for the MOESI family. Nodes hold copies of blocks; a miss queues a request,
the bus grants one request at a time, every node snoops it, the owner or else the memory supplies
the data, and the requester is answered when the data is delivered. Which of several legal moves
a node makes is left open, so that each protocol of the family is one resolution of the choices.

The machine carries versions: of every copy, of the memory, and of the data in flight. They
influence no move; they are what the invariants of `SnoopingInvariant` speak about.
-/

namespace ArchSim.Library.Snooping

open AtomicMemory

inductive Kind where
  | read | write
  deriving DecidableEq, Repr

/-- The line states of the family. `IS`, `IM`, `SM` and `OM` wait for data. -/
inductive Line where
  | I | S | E | O | M | IM | IS | SM | OM
  deriving DecidableEq, Repr

namespace Line

/-- A load hits. -/
def readable : Line → Bool
  | S | E | O | M => true
  | _ => false

/-- A store hits. -/
def exclusive : Line → Bool
  | E | M => true
  | _ => false

/-- The copy that answers requests. -/
def owner : Line → Bool
  | E | O | M | OM => true
  | _ => false

def sharedOwner : Line → Bool
  | O | OM => true
  | _ => false

/-- A copy that drives the shared wire but never answers. -/
def sharer : Line → Bool
  | S | SM => true
  | _ => false

def absent : Line → Bool
  | I | IM | IS => true
  | _ => false

/-- A clean copy that may become dirty without a request. -/
def clean : Line → Bool
  | E => true
  | _ => false

/-- A copy that waits to write and that a writer may leave behind stale. -/
def upgrading : Line → Bool
  | SM => true
  | _ => false

/-- The request a waiting line has made. -/
def pending : Line → Option Kind
  | IS => some .read
  | IM | SM | OM => some .write
  | _ => none

end Line

structure Request (ι α : Type) where
  node : ι
  kind : Kind
  addr : α
  deriving DecidableEq, Repr

structure Machine (ι α : Type) where
  line : ι → α → Line
  /-- The requests that wait for the bus. -/
  queue : List (Request ι α)
  /-- The request that has been granted and whose data has not been delivered. -/
  txn : Option (Request ι α)
  /-- The nodes that have snooped the granted request. -/
  snooped : ι → Prop
  /-- The version of the data sent for the granted request. -/
  flight : Option ℕ
  /-- The shared wire. -/
  wire : Bool
  copy : ι → α → ℕ
  mem : α → ℕ
  history : List (Answer ι α)

/-! ## Moves of one line -/

/-- An access that hits. -/
inductive Access : Line → Op → Line → Prop where
  | load {ℓ : Line} : ℓ.readable → Access ℓ .load ℓ
  | dirty : Access .M .store .M
  | upgrade : Access .E .store .M

/-- An access that misses; a protocol may fetch for writing even on a load. -/
inductive Miss : Line → Op → Kind → Line → Prop where
  | read : Miss .I .load .read .IS
  | readForWriting : Miss .I .load .write .IM
  | write : Miss .I .store .write .IM
  | upgrade : Miss .S .store .write .SM
  | ownerUpgrade : Miss .O .store .write .OM

/-- `Snoop demotes kind own ℓ reply wire ℓ'`: a line in `ℓ` that snoops a request, its node's own
or a foreign one, sends data if `reply`, drives the wire if `wire`, and becomes `ℓ'`. With
`demotes`, a copy that waits to write is always given up to a writer. -/
inductive Snoop (demotes : Bool) : Kind → Bool → Line → Bool → Bool → Line → Prop where
  | absent {k own ℓ} : ℓ.absent → Snoop demotes k own ℓ false false ℓ
  | sharerRead {own ℓ} : ℓ.sharer → Snoop demotes .read own ℓ false true ℓ
  | sharedWrite {own} : Snoop demotes .write own .S false true .I
  | upgradingWrite {own} : demotes = false → Snoop demotes .write own .SM false true .SM
  | demotedWrite {own} : Snoop demotes .write own .SM false true .IM
  | exclusiveRead {own ℓ ℓ'} : ℓ.exclusive → ℓ' = .S ∨ ℓ' = .O ∨ ℓ' = .I →
      Snoop demotes .read own ℓ true true ℓ'
  | ownerRead {own ℓ wire} : ℓ.sharedOwner → Snoop demotes .read own ℓ true wire ℓ
  | ownerWrite {own ℓ} : ℓ.owner → ℓ.readable → Snoop demotes .write own ℓ true true .I
  | surrender : Snoop demotes .write false .OM true true .IM
  | keep : Snoop demotes .write true .OM true true .OM

/-- Data arrives at a waiting line while the shared wire has the given value. -/
inductive Fill : Line → Bool → Line → Prop where
  | write {ℓ wire} : ℓ.pending = some .write → Fill ℓ wire .M
  | shared {wire} : Fill .IS wire .S
  | exclusive : Fill .IS false .E

/-! ## Steps of the machine -/

section

variable {ι α β : Type} [DecidableEq ι] [DecidableEq α]

/-- Change the value of `f` at one node and one address. -/
def setAt (f : ι → α → β) (i : ι) (b : α) (value : β) : ι → α → β :=
  Function.update f i (Function.update (f i) b value)

@[simp] theorem setAt_self (f : ι → α → β) (i : ι) (b : α) (value : β) :
    setAt f i b value i b = value := by
  simp [setAt]

theorem setAt_apply (f : ι → α → β) (i j : ι) (b c : α) (value : β) :
    setAt f i b value j c = if j = i ∧ c = b then value else f j c := by
  by_cases hj : j = i
  · subst hj
    simp [setAt, Function.update_apply]
  · simp [setAt, hj]

theorem setAt_of_ne_node (f : ι → α → β) {i j : ι} (b c : α) (value : β) (hne : j ≠ i) :
    setAt f i b value j c = f j c := by
  simp [setAt_apply, hne]

theorem setAt_of_ne_addr (f : ι → α → β) (i j : ι) {b c : α} (value : β) (hne : c ≠ b) :
    setAt f i b value j c = f j c := by
  simp [setAt_apply, hne]

@[simp] theorem setAt_setAt (f : ι → α → β) (i : ι) (b : α) (value value' : β) :
    setAt (setAt f i b value) i b value' = setAt f i b value' := by
  simp [setAt]

/-- A reflexive relation between the old and the new value holds at every node and address. -/
theorem setAt_rel {R : β → β → Prop} (hrefl : ∀ x, R x x) {f : ι → α → β} {i : ι} {b : α}
    {value : β} (h : R (f i b) value) (j : ι) (c : α) : R (f j c) (setAt f i b value j c) := by
  rw [setAt_apply]
  split
  · rename_i heq
    rwa [heq.1, heq.2]
  · exact hrefl _

namespace Machine

/-- The granted request and those behind it. -/
def requests (m : Machine ι α) : List (Request ι α) := m.txn.toList ++ m.queue

/-- Node `i` is answered: its copy of `b` is at `version` before the access. -/
def answer (m : Machine ι α) (i : ι) (b : α) (op : Op) (version : ℕ) : Machine ι α :=
  { m with
    copy := setAt m.copy i b (op.next version)
    history := ⟨i, op, b, op.next version⟩ :: m.history }

def hit (m : Machine ι α) (i : ι) (b : α) (op : Op) (ℓ : Line) (wire : Bool) : Machine ι α :=
  { m.answer i b op (m.copy i b) with line := setAt m.line i b ℓ, wire := wire }

def miss (m : Machine ι α) (i : ι) (b : α) (k : Kind) (ℓ : Line) : Machine ι α :=
  { m with line := setAt m.line i b ℓ, queue := m.queue ++ [⟨i, k, b⟩] }

def grant (m : Machine ι α) (q : Request ι α) (rest : List (Request ι α)) : Machine ι α :=
  { m with
    queue := rest, txn := some q, snooped := fun _ ↦ False, flight := none, wire := false }

def snoop (m : Machine ι α) (q : Request ι α) (j : ι) (reply wire : Bool) (ℓ : Line) :
    Machine ι α :=
  { m with
    line := setAt m.line j q.addr ℓ
    snooped := fun i ↦ m.snooped i ∨ i = j
    flight := if reply then some (m.copy j q.addr) else m.flight
    wire := m.wire || wire }

/-- The memory supplies the data. -/
def supply (m : Machine ι α) (q : Request ι α) : Machine ι α :=
  { m with flight := some (m.mem q.addr) }

/-- The requester is answered, and the memory takes the data as well. -/
def deliver (m : Machine ι α) (q : Request ι α) (op : Op) (version : ℕ) (ℓ : Line) :
    Machine ι α :=
  { m.answer q.node q.addr op version with
    line := setAt m.line q.node q.addr ℓ
    txn := none
    mem := Function.update m.mem q.addr version }

end Machine

inductive Step (demotes : Bool) : Machine ι α → Machine ι α → Prop where
  | hit {m i b op ℓ wire} : Access (m.line i b) op ℓ → (m.wire = true → wire = true) →
      Step demotes m (m.hit i b op ℓ wire)
  | miss {m i b op k ℓ} : Miss (m.line i b) op k ℓ → (∀ c, (m.line i c).pending = none) →
      Step demotes m (m.miss i b k ℓ)
  | grant {m q rest} : m.txn = none → m.queue = q :: rest → Step demotes m (m.grant q rest)
  | snoop {m q j reply wire ℓ} : m.txn = some q → ¬ m.snooped j →
      Snoop demotes q.kind (decide (j = q.node)) (m.line j q.addr) reply wire ℓ →
      Step demotes m (m.snoop q j reply wire ℓ)
  | supply {m q} : m.txn = some q → (∀ j, m.snooped j) → m.flight = none →
      Step demotes m (m.supply q)
  | deliver {m q op version ℓ} : m.txn = some q → (∀ j, m.snooped j) →
      m.flight = some version → Fill (m.line q.node q.addr) m.wire ℓ →
      (op = .store → q.kind = .write) → Step demotes m (m.deliver q op version ℓ)

/-- Nothing cached, nothing asked for, and the memory at its initial versions. -/
structure Machine.Initial (initial : α → ℕ) (m : Machine ι α) : Prop where
  line : ∀ i b, m.line i b = .I
  queue : m.queue = []
  txn : m.txn = none
  mem : m.mem = initial
  history : m.history = []

end

end ArchSim.Library.Snooping
