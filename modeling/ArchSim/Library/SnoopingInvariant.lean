import ArchSim.Library.Snooping
import Mathlib.Logic.Relation

/-!
# The invariant of the snooping machine

Four groups of facts hold in every reachable state of the machine. `Alone`: a copy that may be
written excludes every other readable one. `Queued`: the waiting lines are exactly the lines that
the granted and queued requests are for, one request a node. `Snooped`: what the nodes that have
snooped the granted request have given up. `Current`: every copy that may be read or must answer
carries the latest version, and so does the memory when nobody owns the block.
-/

namespace ArchSim.Library.Snooping

set_option linter.unusedSectionVars false

open AtomicMemory

/-! ## Facts about one line -/

namespace Line

variable {ℓ : Line}

theorem owner_of_exclusive (h : ℓ.exclusive) : ℓ.owner := by
  revert h; cases ℓ <;> decide

theorem eq_of_exclusive (h : ℓ.exclusive) : ℓ = .E ∨ ℓ = .M := by
  revert h; cases ℓ <;> decide

theorem owner_of_sharedOwner (h : ℓ.sharedOwner) : ℓ.owner := by
  revert h; cases ℓ <;> decide

theorem readable_of_exclusive (h : ℓ.exclusive) : ℓ.readable := by
  revert h; cases ℓ <;> decide

theorem exclusive_of_clean (h : ℓ.clean) : ℓ.exclusive := by
  revert h; cases ℓ <;> decide

theorem exclusive_of_pending {k : Kind} (h : ℓ.pending = some k) : ℓ.exclusive = false := by
  revert h; cases ℓ <;> simp [pending, exclusive]

theorem pending_of_readable (h : ℓ.readable) : ℓ.pending = none := by
  revert h; cases ℓ <;> decide

theorem write_of_sharer {k : Kind} (h : ℓ.sharer) (hk : ℓ.pending = some k) : k = .write := by
  revert h hk; cases ℓ <;> simp [sharer, pending, eq_comm]

/-- A line without a copy, or with a stale one, takes part in nothing. -/
theorem of_absent_or_upgrading (h : ℓ.absent ∨ ℓ.upgrading) :
    ℓ.owner = false ∧ ℓ.readable = false := by
  revert h; cases ℓ <;> decide

theorem sharer_of_absent (h : ℓ.absent) : ℓ.sharer = false := by
  revert h; cases ℓ <;> decide

end Line

/-- `ℓ'` claims no more than `ℓ` did. -/
structure Weaker (ℓ ℓ' : Line) : Prop where
  owner : ℓ'.owner → ℓ.owner
  readable : ℓ'.readable → ℓ.readable
  exclusive : ℓ'.exclusive → ℓ.exclusive
  clean : ℓ'.clean → ℓ.clean
  sharer : ℓ'.sharer → ℓ.sharer ∨ ℓ.exclusive

theorem Weaker.refl (ℓ : Line) : Weaker ℓ ℓ := ⟨id, id, id, id, .inl⟩

/-- `ℓ'` plays the role of `ℓ` towards the other nodes. -/
structure Keeps (ℓ ℓ' : Line) : Prop extends Weaker ℓ ℓ' where
  owner_eq : ℓ'.owner = ℓ.owner
  exclusive_eq : ℓ'.exclusive = ℓ.exclusive
  sharedOwner_eq : ℓ'.sharedOwner = ℓ.sharedOwner
  sharer_eq : ℓ'.sharer = ℓ.sharer
  absent_eq : ℓ'.absent = ℓ.absent
  upgrading_of : ℓ.upgrading → ℓ'.upgrading

theorem Keeps.refl (ℓ : Line) : Keeps ℓ ℓ := ⟨.refl ℓ, rfl, rfl, rfl, rfl, rfl, id⟩

section Moves

variable {demotes own reply wire : Bool} {k : Kind} {ℓ ℓ' : Line} {op : Op}

theorem Access.keeps (h : Access ℓ op ℓ') : Keeps ℓ ℓ' := by
  cases h with
  | load | dirty => exact .refl _
  | upgrade => exact ⟨by constructor <;> decide, rfl, rfl, rfl, rfl, rfl, by decide⟩

theorem Access.readable (h : Access ℓ op ℓ') : ℓ.readable := by
  cases h <;> first | rfl | assumption

theorem Access.exclusive_of_store (h : Access ℓ .store ℓ') : ℓ.exclusive := by
  cases h <;> rfl

theorem Access.pending_right (h : Access ℓ op ℓ') : ℓ'.pending = none := by
  cases h with
  | load h => exact Line.pending_of_readable h
  | dirty | upgrade => rfl

theorem Access.ne_OM (h : Access ℓ op ℓ') : ℓ' ≠ .OM := by
  rintro rfl
  rcases h with hread | _ | _
  cases hread

theorem Miss.of_OM (h : Miss ℓ op k .OM) : ℓ = .O ∧ op = .store := by
  cases h
  exact ⟨rfl, rfl⟩

theorem Miss.keeps (h : Miss ℓ op k ℓ') : Keeps ℓ ℓ' := by
  cases h <;> exact ⟨by constructor <;> decide, rfl, rfl, rfl, rfl, rfl, by decide⟩

theorem Miss.pending_right (h : Miss ℓ op k ℓ') : ℓ'.pending = some k := by
  cases h <;> rfl

theorem Miss.kind_of_store (h : Miss ℓ .store k ℓ') : k = .write := by
  cases h <;> rfl

namespace Snoop

theorem weaker (h : Snoop demotes k own ℓ reply wire ℓ') : Weaker ℓ ℓ' := by
  cases h with
  | absent | sharerRead | upgradingWrite | ownerRead | keep => exact .refl _
  | sharedWrite | demotedWrite | surrender => constructor <;> decide
  | ownerWrite => constructor <;> intro hI <;> cases hI
  | exclusiveRead hℓ hℓ' =>
    obtain rfl | rfl := Line.eq_of_exclusive hℓ <;> rcases hℓ' with rfl | rfl | rfl <;>
      constructor <;> decide

theorem pending_eq (h : Snoop demotes k own ℓ reply wire ℓ') : ℓ'.pending = ℓ.pending := by
  cases h with
  | exclusiveRead hℓ hℓ' =>
    obtain rfl | rfl := Line.eq_of_exclusive hℓ <;> rcases hℓ' with rfl | rfl | rfl <;> rfl
  | ownerWrite _ hℓ => exact (Line.pending_of_readable hℓ).symm
  | _ => rfl

/-- The owner answers, and nobody else. -/
theorem reply_eq (h : Snoop demotes k own ℓ reply wire ℓ') : reply = ℓ.owner := by
  cases h with
  | absent hℓ => exact (Line.of_absent_or_upgrading (.inl hℓ)).1.symm
  | sharerRead hℓ => revert hℓ; cases ℓ <;> decide
  | exclusiveRead hℓ => exact (Line.owner_of_exclusive hℓ).symm
  | ownerRead hℓ => exact (Line.owner_of_sharedOwner hℓ).symm
  | ownerWrite hℓ => exact hℓ.symm
  | _ => rfl

theorem exclusive_right (h : Snoop demotes k own ℓ reply wire ℓ') : ℓ'.exclusive = false := by
  cases h with
  | exclusiveRead _ hℓ' => rcases hℓ' with rfl | rfl | rfl <;> rfl
  | absent hℓ | sharerRead hℓ | ownerRead hℓ => revert hℓ; cases ℓ <;> decide
  | _ => rfl

/-- A writer leaves the other nodes nothing but stale copies. -/
theorem of_write (h : Snoop demotes .write false ℓ reply wire ℓ') :
    ℓ'.absent ∨ demotes = false ∧ ℓ'.upgrading := by
  cases h with
  | absent hℓ => exact .inl hℓ
  | upgradingWrite hd => exact .inr ⟨hd, rfl⟩
  | _ => exact .inl rfl

/-- Who does not drive the wire on a read has no copy, or is an owner among sharers. -/
theorem of_read (h : Snoop demotes .read own ℓ reply false ℓ') : ℓ'.absent ∨ ℓ'.sharedOwner := by
  cases h with
  | absent hℓ => exact .inl hℓ
  | ownerRead hℓ => exact .inr hℓ

theorem sharedOwner_right (h : Snoop demotes k own ℓ reply wire ℓ') (hℓ' : ℓ'.sharedOwner) :
    ℓ.sharedOwner ∨ k = .read ∧ wire = true := by
  cases h with
  | absent | ownerRead | sharerRead => exact .inl hℓ'
  | exclusiveRead => exact .inr ⟨rfl, rfl⟩
  | keep => exact .inl rfl
  | _ => cases hℓ'

theorem sharer_right (h : Snoop demotes .read own ℓ reply wire ℓ') (hℓ : ℓ.sharer) :
    ℓ'.sharer := by
  cases h with
  | exclusiveRead hex => obtain rfl | rfl := Line.eq_of_exclusive hex <;> cases hℓ
  | _ => exact hℓ

end Snoop

namespace Fill

theorem cases (h : Fill ℓ wire ℓ') : ℓ.pending = some .write ∧ ℓ' = .M ∨
    ℓ.pending = some .read ∧ (ℓ' = .S ∨ ℓ' = .E ∧ wire = false) := by
  cases h with
  | write hℓ => exact .inl ⟨hℓ, rfl⟩
  | shared => exact .inr ⟨rfl, .inl rfl⟩
  | exclusive => exact .inr ⟨rfl, .inr ⟨rfl, rfl⟩⟩

theorem pending_right (h : Fill ℓ wire ℓ') : ℓ'.pending = none := by
  cases h <;> rfl

end Fill

end Moves

variable {ι α : Type} [DecidableEq ι] [DecidableEq α]

/-! ## One writable copy -/

/-- What the copies of one block exclude of each other. -/
structure Alone (demotes : Bool) (line : ι → α → Line) : Prop where
  owner : ∀ {i j b}, (line i b).owner → (line j b).owner → i = j
  exclusive : ∀ {i j b}, i ≠ j → (line i b).exclusive → (line j b).readable = false
  clean : ∀ {i j b}, i ≠ j → (line i b).clean → (line j b).sharer = false
  demoted : demotes → ∀ {i j b}, i ≠ j → (line i b).exclusive → (line j b).sharer = false

namespace Alone

variable {demotes : Bool} {line : ι → α → Line} {i : ι} {b : α} {ℓ : Line}

theorem not_exclusive (h : Alone demotes line) {j : ι} (hne : i ≠ j) (hi : (line i b).exclusive) :
    (line j b).exclusive = false := by
  by_contra hj
  exact hne (h.owner (Line.owner_of_exclusive hi)
    (Line.owner_of_exclusive (eq_true_of_ne_false hj)))

theorem setAt_weaker (h : Alone demotes line) (hℓ : Weaker (line i b) ℓ) :
    Alone demotes (setAt line i b ℓ) := by
  have weaker := setAt_rel Weaker.refl hℓ
  -- a copy that stopped being exclusive was the only readable one
  have sharer {j k c} (hne : j ≠ k) (hj : (setAt line i b ℓ j c).exclusive)
      (hk : (line k c).sharer = false) : (setAt line i b ℓ k c).sharer = false := by
    have hnot := h.not_exclusive hne ((weaker j c).exclusive hj)
    by_contra hsharer
    have := (weaker k c).sharer (eq_true_of_ne_false hsharer)
    simp_all
  constructor
  · intro j k c hj hk
    exact h.owner ((weaker j c).owner hj) ((weaker k c).owner hk)
  · intro j k c hne hj
    have hnot := h.exclusive hne ((weaker j c).exclusive hj)
    by_contra hk
    have := (weaker k c).readable (eq_true_of_ne_false hk)
    simp_all
  · intro j k c hne hj
    exact sharer hne (Line.exclusive_of_clean hj) (h.clean hne ((weaker j c).clean hj))
  · intro hd j k c hne hj
    exact sharer hne hj (h.demoted hd hne ((weaker j c).exclusive hj))

/-- The requester of a block may take any copy the others leave room for. -/
theorem setAt_fill (h : Alone demotes line)
    (howner : ℓ.owner → ∀ j ≠ i, (line j b).owner = false ∧ (line j b).readable = false)
    (hshared : ∀ j ≠ i, (line j b).exclusive = false)
    (hclean : ℓ.clean → ∀ j ≠ i, (line j b).sharer = false)
    (hdemoted : demotes → ℓ.exclusive → ∀ j ≠ i, (line j b).sharer = false) :
    Alone demotes (setAt line i b ℓ) := by
  constructor
  · intro j k c hj hk
    grind [setAt_apply, h.owner]
  · intro j k c hne hj
    grind [setAt_apply, h.exclusive, Line.owner_of_exclusive]
  · intro j k c hne hj
    grind [setAt_apply, h.clean, Line.exclusive_of_clean]
  · intro hd j k c hne hj
    grind [setAt_apply, h.demoted hd]

end Alone

/-! ## One request for every waiting line -/

structure Queued (m : Machine ι α) : Prop where
  pending : ∀ q ∈ m.requests, (m.line q.node q.addr).pending = some q.kind
  nodup : (m.requests.map Request.node).Nodup
  request : ∀ {i b k}, (m.line i b).pending = some k → ⟨i, k, b⟩ ∈ m.requests

namespace Queued

variable {m m' : Machine ι α}

theorem congr (h : Queued m) (hrequests : m'.requests = m.requests)
    (hpending : ∀ i b, (m'.line i b).pending = (m.line i b).pending) : Queued m' := by
  constructor
  · intro q hq
    rw [hpending]
    exact h.pending q (hrequests ▸ hq)
  · rw [hrequests]
    exact h.nodup
  · intro i b k hk
    rw [hrequests]
    exact h.request (hpending i b ▸ hk)

theorem pending_of_txn (h : Queued m) {q : Request ι α} (htxn : m.txn = some q) :
    (m.line q.node q.addr).pending = some q.kind :=
  h.pending q (by simp [Machine.requests, htxn])

theorem setAt_pending {line : ι → α → Line} {i : ι} {b : α} {ℓ : Line}
    (hℓ : ℓ.pending = (line i b).pending) (j : ι) (c : α) :
    (setAt line i b ℓ j c).pending = (line j c).pending :=
  setAt_rel (R := fun ℓ ℓ' : Line ↦ ℓ'.pending = ℓ.pending) (fun _ ↦ rfl) hℓ j c

theorem miss (h : Queued m) {i : ι} {b : α} {k : Kind} {ℓ : Line} (hℓ : ℓ.pending = some k)
    (hidle : ∀ c, (m.line i c).pending = none) : Queued (m.miss i b k ℓ) := by
  have hrequests : (m.miss i b k ℓ).requests = m.requests ++ [⟨i, k, b⟩] := by
    simp [Machine.requests, Machine.miss]
  have hfresh : ∀ q ∈ m.requests, q.node ≠ i := by
    intro q hq hnode
    have := h.pending q hq
    rw [hnode, hidle] at this
    cases this
  constructor
  · intro q hq
    rw [hrequests, List.mem_append, List.mem_singleton] at hq
    rcases hq with hq | rfl
    · simp only [Machine.miss]
      rw [setAt_of_ne_node _ _ _ _ (hfresh q hq)]
      exact h.pending q hq
    · simpa [Machine.miss] using hℓ
  · rw [hrequests, List.map_append, List.nodup_append]
    refine ⟨h.nodup, by simp, ?_⟩
    simpa using fun q hq ↦ hfresh q hq
  · intro j c k' hk
    rw [hrequests, List.mem_append]
    simp only [Machine.miss, setAt_apply] at hk
    split at hk
    · rename_i heq
      rw [hℓ, Option.some.injEq] at hk
      right
      simp [heq.1, heq.2, hk]
    · exact .inl (h.request hk)

theorem grant (h : Queued m) {q : Request ι α} {rest : List (Request ι α)} (htxn : m.txn = none)
    (hqueue : m.queue = q :: rest) : Queued (m.grant q rest) :=
  h.congr (by simp [Machine.requests, Machine.grant, htxn, hqueue]) fun _ _ ↦ rfl

theorem deliver (h : Queued m) {q : Request ι α} {op : Op} {version : ℕ} {ℓ : Line}
    (htxn : m.txn = some q) (hℓ : ℓ.pending = none) : Queued (m.deliver q op version ℓ) := by
  have hrequests : m.requests = q :: m.queue := by simp [Machine.requests, htxn]
  have hnodup := h.nodup
  rw [hrequests, List.map_cons, List.nodup_cons] at hnodup
  have hother : ∀ q' ∈ m.queue, q'.node ≠ q.node := fun q' hq' hnode ↦
    hnodup.1 (hnode ▸ List.mem_map_of_mem hq')
  constructor
  · intro q' hq'
    replace hq' : q' ∈ m.queue := hq'
    simp only [Machine.deliver]
    rw [setAt_of_ne_node _ _ _ _ (hother q' hq')]
    exact h.pending q' (by simp [hrequests, hq'])
  · exact hnodup.2
  · intro i b k hk
    simp only [Machine.deliver, setAt_apply] at hk
    split at hk
    · rw [hℓ] at hk
      cases hk
    · rename_i hne
      have hmem := h.request hk
      rw [hrequests, List.mem_cons] at hmem
      rcases hmem with rfl | hmem
      · exact absurd ⟨rfl, rfl⟩ hne
      · exact hmem

end Queued

/-! ## What the granted request has achieved -/

structure Snooped (demotes : Bool) (m : Machine ι α) : Prop where
  /-- A shared owner has a sharer, which will drive the wire when the owner does not. -/
  companion : ∀ {i b}, (m.line i b).sharedOwner → (∃ j, (m.line j b).sharer) ∨
    ∃ q, m.txn = some q ∧ q.addr = b ∧ (q.kind = .write ∨ m.wire = true)
  write : ∀ {q j}, m.txn = some q → q.kind = .write → m.snooped j → j ≠ q.node →
    (m.line j q.addr).absent ∨ demotes = false ∧ (m.line j q.addr).upgrading
  read : ∀ {q j}, m.txn = some q → q.kind = .read → m.snooped j →
    (m.line j q.addr).exclusive = false
  wire : ∀ {q j}, m.txn = some q → q.kind = .read → m.snooped j → m.wire = false →
    (m.line j q.addr).absent ∨ (m.line j q.addr).sharedOwner
  unserved : ∀ {q j}, m.txn = some q → m.flight = none → m.snooped j →
    (m.line j q.addr).owner = false
  served : ∀ {q j}, m.txn = some q → m.flight.isSome → ¬ m.snooped j →
    (m.line j q.addr).owner = false

namespace Snooped

variable {demotes : Bool} {m m' : Machine ι α}

/-- A processor's access or miss leaves every claim about the granted request in place. -/
theorem of_keeps (h : Snooped demotes m) (hkeeps : ∀ i b, Keeps (m.line i b) (m'.line i b))
    (htxn : m'.txn = m.txn) (hsnooped : m'.snooped = m.snooped) (hflight : m'.flight = m.flight)
    (hwire : m.wire = true → m'.wire = true) : Snooped demotes m' := by
  constructor
  · intro i b hi
    rw [(hkeeps i b).sharedOwner_eq] at hi
    rcases h.companion hi with ⟨j, hj⟩ | ⟨q, hq, hb, hq'⟩
    · exact .inl ⟨j, by rwa [(hkeeps j b).sharer_eq]⟩
    · exact .inr ⟨q, htxn ▸ hq, hb, hq'.imp_right hwire⟩
  · intro q j hq hkind hj hne
    rw [(hkeeps j q.addr).absent_eq]
    exact (h.write (htxn ▸ hq) hkind (hsnooped ▸ hj) hne).imp_right
      fun hup ↦ ⟨hup.1, (hkeeps j q.addr).upgrading_of hup.2⟩
  · intro q j hq hkind hj
    rw [(hkeeps j q.addr).exclusive_eq]
    exact h.read (htxn ▸ hq) hkind (hsnooped ▸ hj)
  · intro q j hq hkind hj hw
    rw [(hkeeps j q.addr).absent_eq, (hkeeps j q.addr).sharedOwner_eq]
    exact h.wire (htxn ▸ hq) hkind (hsnooped ▸ hj)
      (eq_false_of_ne_true fun hw' ↦ by simp [hwire hw'] at hw)
  · intro q j hq hf hj
    rw [(hkeeps j q.addr).owner_eq]
    exact h.unserved (htxn ▸ hq) (hflight ▸ hf) (hsnooped ▸ hj)
  · intro q j hq hf hj
    rw [(hkeeps j q.addr).owner_eq]
    exact h.served (htxn ▸ hq) (hflight ▸ hf) (hsnooped ▸ hj)

theorem grant (h : Snooped demotes m) {q : Request ι α} {rest : List (Request ι α)}
    (htxn : m.txn = none) : Snooped demotes (m.grant q rest) := by
  constructor <;> simp only [Machine.grant]
  · intro i b hi
    exact (h.companion hi).imp_right fun ⟨q, hq, _⟩ ↦ by simp [htxn] at hq
  all_goals simp

/-- A shared owner keeps a sharer when a line is snooped: a line that gives up being one drives the
wire. -/
theorem companion_snoop (h : Snooped demotes m) {q : Request ι α} {i j : ι} {b : α}
    {reply wire : Bool} {ℓ : Line} (htxn : m.txn = some q)
    (hℓ : Snoop demotes q.kind (decide (j = q.node)) (m.line j q.addr) reply wire ℓ)
    (hi : (setAt m.line j q.addr ℓ i b).sharedOwner) :
    (∃ k, (setAt m.line j q.addr ℓ k b).sharer) ∨
      ∃ q', m.txn = some q' ∧ q'.addr = b ∧ (q'.kind = .write ∨ (m.wire || wire) = true) := by
  by_cases hb : b = q.addr
  · subst hb
    cases hkind : q.kind with
    | write => exact .inr ⟨q, htxn, rfl, .inl hkind⟩
    | read =>
      rw [hkind] at hℓ
      have hi' : (m.line i q.addr).sharedOwner ∨ wire = true := by
        by_cases hij : i = j
        · subst hij
          rw [setAt_self] at hi
          exact (hℓ.sharedOwner_right hi).imp_right And.right
        · rw [setAt_of_ne_node _ _ _ _ hij] at hi
          exact .inl hi
      rcases hi' with hi' | rfl
      · rcases h.companion hi' with ⟨k, hk⟩ | ⟨q', hq', _, hor⟩
        · refine .inl ⟨k, ?_⟩
          by_cases hkj : k = j
          · subst hkj
            rw [setAt_self]
            exact hℓ.sharer_right hk
          · rwa [setAt_of_ne_node _ _ _ _ hkj]
        · obtain rfl : q' = q := Option.some.inj (hq'.symm.trans htxn)
          rw [hkind] at hor
          exact .inr ⟨q', htxn, rfl, .inr (by simp_all)⟩
      · exact .inr ⟨q, htxn, rfl, .inr (by simp)⟩
  · rw [setAt_of_ne_addr _ _ _ _ hb] at hi
    rcases h.companion hi with ⟨k, hk⟩ | ⟨q', hq', hb', _⟩
    · exact .inl ⟨k, by rwa [setAt_of_ne_addr _ _ _ _ hb]⟩
    · obtain rfl : q' = q := Option.some.inj (hq'.symm.trans htxn)
      exact absurd hb'.symm hb

theorem snoop (h : Snooped demotes m) (hA : Alone demotes m.line) {q : Request ι α} {j : ι}
    {reply wire : Bool} {ℓ : Line} (htxn : m.txn = some q)
    (hℓ : Snoop demotes q.kind (decide (j = q.node)) (m.line j q.addr) reply wire ℓ) :
    Snooped demotes (m.snoop q j reply wire ℓ) := by
  have hq {q'} (hq' : m.txn = some q') : q' = q := Option.some.inj (hq'.symm.trans htxn)
  -- a node other than `j` has kept its line
  have hsame {i} (hne : i ≠ j) : setAt m.line j q.addr ℓ i q.addr = m.line i q.addr :=
    setAt_of_ne_node _ _ _ _ hne
  constructor <;> simp only [Machine.snoop]
  · exact fun hi ↦ h.companion_snoop htxn hℓ hi
  · intro q' i hq' hkind hi hne
    obtain rfl := hq hq'
    by_cases hij : i = j
    · subst hij
      rw [setAt_self]
      rw [hkind, decide_eq_false hne] at hℓ
      exact hℓ.of_write
    · rw [hsame hij]
      exact h.write htxn hkind (hi.resolve_right hij) hne
  · intro q' i hq' hkind hi
    obtain rfl := hq hq'
    by_cases hij : i = j
    · subst hij
      rw [setAt_self]
      exact hℓ.exclusive_right
    · rw [hsame hij]
      exact h.read htxn hkind (hi.resolve_right hij)
  · intro q' i hq' hkind hi hw
    obtain rfl := hq hq'
    rw [Bool.or_eq_false_iff] at hw
    by_cases hij : i = j
    · subst hij
      rw [setAt_self]
      rw [hkind, hw.2] at hℓ
      exact hℓ.of_read
    · rw [hsame hij]
      exact h.wire htxn hkind (hi.resolve_right hij) hw.1
  · intro q' i hq' hf hi
    obtain rfl := hq hq'
    have hreply : reply = false := by cases reply <;> simp_all
    rw [hreply] at hf
    by_cases hij : i = j
    · subst hij
      rw [setAt_self]
      exact eq_false_of_ne_true fun howner ↦ by
        have hold := hℓ.weaker.owner howner
        rw [← hℓ.reply_eq, hreply] at hold
        cases hold
    · rw [hsame hij]
      exact h.unserved htxn hf (hi.resolve_right hij)
  · intro q' i hq' hf hi
    obtain rfl := hq hq'
    rw [not_or] at hi
    rw [hsame hi.2]
    cases hreply : reply with
    | true =>
      have hj : (m.line j q'.addr).owner := by rw [← hℓ.reply_eq, hreply]
      exact eq_false_of_ne_true fun howner ↦ hi.2 (hA.owner howner hj)
    | false =>
      rw [hreply] at hf
      exact h.served htxn hf hi.1

theorem supply (h : Snooped demotes m) {q : Request ι α} (hall : ∀ j, m.snooped j) :
    Snooped demotes (m.supply q) where
  companion := h.companion
  write := h.write
  read := h.read
  wire := h.wire
  unserved _ hf := by simp [Machine.supply] at hf
  served _ _ hj := absurd (hall _) hj

/-- Once everybody has snooped a write, no other node shares ownership of the block. -/
theorem sharedOwner_of_write (h : Snooped demotes m) (hall : ∀ j, m.snooped j)
    {q : Request ι α} (htxn : m.txn = some q) (hkind : q.kind = .write) {i : ι}
    (hi : (m.line i q.addr).sharedOwner) : i = q.node := by
  by_contra hne
  have hi' := Line.of_absent_or_upgrading
    ((h.write htxn hkind (hall i) hne).imp_right And.right)
  rw [Line.owner_of_sharedOwner hi] at hi'
  cases hi'.1

theorem deliver (h : Snooped demotes m) (hQ : Queued m) (hall : ∀ j, m.snooped j)
    {q : Request ι α} {op : Op} {version : ℕ} {ℓ : Line} (htxn : m.txn = some q)
    (hℓ : Fill (m.line q.node q.addr) m.wire ℓ) :
    Snooped demotes (m.deliver q op version ℓ) := by
  have hpending := hQ.pending_of_txn htxn
  have hℓ' : ℓ.sharedOwner = false := by
    rcases hℓ.cases with ⟨_, rfl⟩ | ⟨_, rfl | ⟨rfl, _⟩⟩ <;> rfl
  constructor <;> simp only [Machine.deliver]
  · intro i b hi
    left
    have hne : ¬(i = q.node ∧ b = q.addr) := by
      rintro ⟨rfl, rfl⟩
      rw [setAt_self, hℓ'] at hi
      cases hi
    rw [setAt_apply, if_neg hne] at hi
    -- a shared owner is left only if the request was a read
    have hread : b = q.addr → q.kind = .read := by
      rintro rfl
      cases hkind : q.kind with
      | read => rfl
      | write => exact absurd ⟨h.sharedOwner_of_write hall htxn hkind hi, rfl⟩ hne
    rcases h.companion hi with ⟨j, hj⟩ | ⟨q', hq', rfl, hor⟩
    · refine ⟨j, ?_⟩
      rw [setAt_apply]
      split
      · rename_i heq
        obtain ⟨rfl, rfl⟩ := heq
        have := (Line.write_of_sharer hj hpending).symm.trans (hread rfl)
        cases this
      · exact hj
    · obtain rfl : q' = q := Option.some.inj (hq'.symm.trans htxn)
      have hwire : m.wire = true := hor.resolve_left (by simp [hread rfl])
      refine ⟨q'.node, ?_⟩
      rw [setAt_self]
      rcases hℓ.cases with ⟨hw, _⟩ | ⟨_, rfl | ⟨_, hdown⟩⟩
      · simp [hpending, hread rfl] at hw
      · rfl
      · simp [hwire] at hdown
  all_goals simp

end Snooped

/-! ## The granted request at its delivery -/

section Deliver

variable {demotes : Bool} {m : Machine ι α} {q : Request ι α} {j : ι}

/-- An exclusive copy is never at the block of a request that has been served. -/
theorem Snooped.not_exclusive (h : Snooped demotes m) (hQ : Queued m) (htxn : m.txn = some q)
    (hflight : m.flight.isSome) : (m.line j q.addr).exclusive = false := by
  by_cases hj : m.snooped j
  · cases hkind : q.kind with
    | read => exact h.read htxn hkind hj
    | write =>
      by_cases hne : j = q.node
      · subst hne
        exact Line.exclusive_of_pending (hQ.pending_of_txn htxn)
      · have := Line.of_absent_or_upgrading ((h.write htxn hkind hj hne).imp_right And.right)
        exact eq_false_of_ne_true fun hex ↦ by simp [Line.readable_of_exclusive hex] at this
  · have := h.served htxn hflight hj
    exact eq_false_of_ne_true fun hex ↦ by simp [Line.owner_of_exclusive hex] at this

/-- When the wire is still down after a read, no other node has a copy. -/
theorem Snooped.absent_of_wire (h : Snooped demotes m) (htxn : m.txn = some q)
    (hkind : q.kind = .read) (hall : ∀ j, m.snooped j) (hwire : m.wire = false) :
    (m.line j q.addr).absent := by
  have hwires (i) := h.wire htxn hkind (hall i) hwire
  refine (hwires j).resolve_right fun hj ↦ ?_
  rcases h.companion hj with ⟨i, hi⟩ | ⟨q', hq', _, hor⟩
  · rcases hwires i with habsent | hshared
    · simp [Line.sharer_of_absent habsent] at hi
    · revert hi hshared
      cases m.line i q.addr <;> decide
  · obtain rfl : q' = q := Option.some.inj (hq'.symm.trans htxn)
    simp [hkind, hwire] at hor

/-- A requester that takes the block over leaves the others at most stale copies. -/
theorem Snooped.others_of_owner (h : Snooped demotes m) (hall : ∀ j, m.snooped j)
    (htxn : m.txn = some q) {ℓ : Line} (hℓ : Fill (m.line q.node q.addr) m.wire ℓ)
    (hQ : Queued m) (howner : ℓ.owner) (hne : j ≠ q.node) :
    (m.line j q.addr).absent ∨ demotes = false ∧ ℓ.clean = false ∧
      (m.line j q.addr).upgrading := by
  have hpending := hQ.pending_of_txn htxn
  rcases hℓ.cases with ⟨hw, rfl⟩ | ⟨hr, rfl | ⟨rfl, hdown⟩⟩
  · rw [hpending, Option.some.injEq] at hw
    exact (h.write htxn hw (hall j) hne).imp_right fun hup ↦ ⟨hup.1, rfl, hup.2⟩
  · cases howner
  · rw [hpending, Option.some.injEq] at hr
    exact .inl (h.absent_of_wire htxn hr hall hdown)

theorem Alone.deliver (hA : Alone demotes m.line) (h : Snooped demotes m) (hQ : Queued m)
    (hall : ∀ j, m.snooped j) (htxn : m.txn = some q) {version : ℕ}
    (hflight : m.flight = some version) {ℓ : Line} (hℓ : Fill (m.line q.node q.addr) m.wire ℓ) :
    Alone demotes (setAt m.line q.node q.addr ℓ) := by
  have others (howner : ℓ.owner) {j} (hne : j ≠ q.node) :=
    h.others_of_owner hall htxn hℓ hQ howner hne
  apply hA.setAt_fill
  · intro howner j hne
    exact Line.of_absent_or_upgrading ((others howner hne).imp_right fun hup ↦ hup.2.2)
  · intro j _
    exact h.not_exclusive hQ htxn (by simp [hflight])
  · intro hclean j hne
    rcases others (Line.owner_of_exclusive (Line.exclusive_of_clean hclean)) hne with habs | hup
    · exact Line.sharer_of_absent habs
    · simp [hclean] at hup
  · intro hd hex j hne
    rcases others (Line.owner_of_exclusive hex) hne with habs | hup
    · exact Line.sharer_of_absent habs
    · simp [hd] at hup

end Deliver

/-! ## Current versions -/

structure Current (initial : α → ℕ) (m : Machine ι α) : Prop where
  copy : ∀ {i b}, (m.line i b).owner ∨ (m.line i b).readable →
    m.copy i b = latest initial m.history b
  flight : ∀ {q v}, m.txn = some q → m.flight = some v → v = latest initial m.history q.addr
  mem : ∀ {b}, (∀ i, (m.line i b).owner = false) →
    (∀ q, m.txn = some q → q.addr = b → m.flight = none) → m.mem b = latest initial m.history b
  legal : Legal initial m.history

namespace Current

variable {demotes : Bool} {initial : α → ℕ} {m : Machine ι α}

theorem hit (h : Current initial m) (hA : Alone demotes m.line) (hS : Snooped demotes m)
    (hQ : Queued m) {i : ι} {b : α} {op : Op} {ℓ : Line} (hℓ : Access (m.line i b) op ℓ)
    (wire : Bool) : Current initial (m.hit i b op ℓ wire) := by
  have hcurrent : m.copy i b = latest initial m.history b := h.copy (.inr hℓ.readable)
  have hkeeps := setAt_rel Keeps.refl hℓ.keeps
  constructor <;> simp only [Machine.hit, Machine.answer]
  · intro j c hj
    by_cases hc : c = b
    · subst hc
      rw [latest_cons_of_current hcurrent]
      by_cases hji : j = i
      · rw [hji, setAt_self]
      · rw [setAt_of_ne_node _ _ _ _ hji] at hj ⊢
        cases op with
        | load => rw [Op.next, hcurrent, h.copy hj]
        | store =>
          have hex := hℓ.exclusive_of_store
          rcases hj with hj | hj
          · exact absurd (hA.owner hj (Line.owner_of_exclusive hex)) hji
          · simp [hA.exclusive (Ne.symm hji) hex] at hj
    · rw [setAt_of_ne_addr _ _ _ _ hc] at hj ⊢
      rw [latest_cons_of_ne hc]
      exact h.copy hj
  · intro q v htxn hv
    by_cases hc : q.addr = b
    · subst hc
      rw [latest_cons_of_current hcurrent]
      cases op with
      | load => rw [Op.next, hcurrent, h.flight htxn hv]
      | store =>
        have := hS.not_exclusive hQ htxn (j := i) (by simp [hv])
        simp [hℓ.exclusive_of_store] at this
    · rw [latest_cons_of_ne hc]
      exact h.flight htxn hv
  · intro c howner hflight
    replace howner (j) : (m.line j c).owner = false := (hkeeps j c).owner_eq ▸ howner j
    by_cases hc : c = b
    · subst hc
      rw [latest_cons_of_current hcurrent]
      cases op with
      | load => rw [Op.next, hcurrent, h.mem howner hflight]
      | store =>
        have := howner i
        simp [Line.owner_of_exclusive hℓ.exclusive_of_store] at this
    · rw [latest_cons_of_ne hc]
      exact h.mem howner hflight
  · exact ⟨by rw [hcurrent], h.legal⟩

theorem miss (h : Current initial m) {i : ι} {b : α} {op : Op} {k : Kind} {ℓ : Line}
    (hℓ : Miss (m.line i b) op k ℓ) : Current initial (m.miss i b k ℓ) := by
  have hkeeps := setAt_rel Keeps.refl hℓ.keeps
  refine ⟨fun {j c} hj ↦ h.copy ?_, h.flight, fun {c} howner ↦ h.mem fun j ↦ ?_, h.legal⟩
  · exact hj.imp (hkeeps j c).owner (hkeeps j c).readable
  · exact (hkeeps j c).owner_eq ▸ howner j

theorem grant (h : Current initial m) {q : Request ι α} {rest : List (Request ι α)}
    (htxn : m.txn = none) : Current initial (m.grant q rest) where
  copy := h.copy
  flight _ hv := by simp [Machine.grant] at hv
  mem howner _ := h.mem howner (by simp [htxn])
  legal := h.legal

theorem snoop (h : Current initial m) {q : Request ι α} {j : ι} {reply wire : Bool} {ℓ : Line}
    (htxn : m.txn = some q)
    (hℓ : Snoop demotes q.kind (decide (j = q.node)) (m.line j q.addr) reply wire ℓ) :
    Current initial (m.snoop q j reply wire ℓ) := by
  have weaker := setAt_rel Weaker.refl hℓ.weaker
  have hq {q'} (hq' : m.txn = some q') : q' = q := Option.some.inj (hq'.symm.trans htxn)
  refine ⟨?_, ?_, ?_, h.legal⟩ <;> simp only [Machine.snoop]
  · intro i b hi
    exact h.copy (hi.imp (weaker i b).owner (weaker i b).readable)
  · intro q' v hq' hv
    obtain rfl := hq hq'
    cases hreply : reply with
    | true =>
      have howner : (m.line j q'.addr).owner := by rw [← hℓ.reply_eq, hreply]
      rw [hreply, if_pos rfl, Option.some.injEq] at hv
      rw [← hv, h.copy (.inl howner)]
    | false =>
      rw [hreply] at hv
      exact h.flight htxn hv
  · intro b howner hflight
    by_cases hb : b = q.addr
    · subst hb
      have hnone := hflight q htxn rfl
      have hreply : reply = false := by cases reply <;> simp_all
      rw [hreply] at hnone
      refine h.mem (fun i ↦ ?_) fun _ _ _ ↦ hnone
      by_cases hij : i = j
      · rw [hij, ← hℓ.reply_eq, hreply]
      · rw [← setAt_of_ne_node m.line q.addr q.addr ℓ hij]
        exact howner i
    · refine h.mem (fun i ↦ ?_) fun q' hq' hb' ↦ absurd (hb'.symm.trans (by rw [hq hq'])) hb
      rw [← setAt_of_ne_addr m.line j i ℓ hb]
      exact howner i

theorem supply (h : Current initial m) (hS : Snooped demotes m) {q : Request ι α}
    (htxn : m.txn = some q) (hall : ∀ j, m.snooped j) (hflight : m.flight = none) :
    Current initial (m.supply q) where
  copy := h.copy
  flight := by
    intro q' v hq' hv
    obtain rfl : q' = q := Option.some.inj (hq'.symm.trans htxn)
    have hmem := h.mem (fun j ↦ hS.unserved htxn hflight (hall j)) fun _ _ _ ↦ hflight
    exact (Option.some.inj hv).symm.trans hmem
  mem howner hnone := h.mem howner fun q' hq' hb ↦ by simpa [Machine.supply] using hnone q' hq' hb
  legal := h.legal

theorem deliver (h : Current initial m) (hS : Snooped demotes m) (hQ : Queued m)
    (hall : ∀ j, m.snooped j) {q : Request ι α} {op : Op} {version : ℕ} {ℓ : Line}
    (htxn : m.txn = some q) (hflight : m.flight = some version)
    (hℓ : Fill (m.line q.node q.addr) m.wire ℓ) (hop : op = .store → q.kind = .write) :
    Current initial (m.deliver q op version ℓ) := by
  have hcurrent : version = latest initial m.history q.addr := h.flight htxn hflight
  have hstore (hs : op = .store) : ℓ = .M := by
    rcases hℓ.cases with ⟨_, rfl⟩ | ⟨hr, _⟩
    · rfl
    · simp [hQ.pending_of_txn htxn, hop hs] at hr
  constructor <;> simp only [Machine.deliver, Machine.answer]
  · intro j c hj
    by_cases hc : c = q.addr
    · subst hc
      rw [latest_cons_of_current hcurrent]
      by_cases hjq : j = q.node
      · rw [hjq, setAt_self]
      · rw [setAt_of_ne_node _ _ _ _ hjq] at hj ⊢
        cases op with
        | load => rw [Op.next, hcurrent, h.copy hj]
        | store =>
          have := Line.of_absent_or_upgrading
            ((hS.write htxn (hop rfl) (hall j) hjq).imp_right And.right)
          simp [this] at hj
    · rw [setAt_of_ne_addr _ _ _ _ hc] at hj ⊢
      rw [latest_cons_of_ne hc]
      exact h.copy hj
  · simp
  · intro c howner _
    by_cases hc : c = q.addr
    · subst hc
      rw [latest_cons_of_current hcurrent, Function.update_self]
      cases op with
      | load => rfl
      | store =>
        have := howner q.node
        simp [hstore rfl, Line.owner] at this
    · rw [latest_cons_of_ne hc, Function.update_of_ne hc]
      have hnot (q') (hq' : m.txn = some q') (hb : q'.addr = c) : m.flight = none := by
        obtain rfl : q' = q := Option.some.inj (hq'.symm.trans htxn)
        exact absurd hb.symm hc
      refine h.mem (fun i ↦ ?_) hnot
      rw [← setAt_of_ne_addr m.line q.node i ℓ hc]
      exact howner i
  · exact ⟨by rw [hcurrent], h.legal⟩

end Current

/-! ## The invariant -/

structure Inv (demotes : Bool) (initial : α → ℕ) (m : Machine ι α) : Prop where
  alone : Alone demotes m.line
  queued : Queued m
  snooped : Snooped demotes m
  current : Current initial m

namespace Inv

variable {demotes : Bool} {initial : α → ℕ} {m m' : Machine ι α}

theorem of_initial (h : m.Initial initial) : Inv demotes initial m where
  alone := by constructor <;> simp [h.line, Line.owner, Line.exclusive, Line.clean]
  queued := by constructor <;> simp [Machine.requests, h.queue, h.txn, h.line, Line.pending]
  snooped := by constructor <;> simp [h.txn, h.line, Line.sharedOwner]
  current := by
    constructor <;> simp [h.txn, h.line, h.history, h.mem, Line.owner, Line.readable, latest, Legal]

/-- Every step of the machine keeps the invariant. -/
theorem step (h : Inv demotes initial m) (hstep : Step demotes m m') :
    Inv demotes initial m' := by
  cases hstep with
  | hit hℓ hwire =>
    refine ⟨h.alone.setAt_weaker hℓ.keeps.toWeaker, ?_, ?_, ?_⟩
    · refine h.queued.congr rfl (Queued.setAt_pending ?_)
      rw [hℓ.pending_right, Line.pending_of_readable hℓ.readable]
    · exact h.snooped.of_keeps (setAt_rel Keeps.refl hℓ.keeps) rfl rfl rfl hwire
    · exact h.current.hit h.alone h.snooped h.queued hℓ _
  | miss hℓ hidle =>
    exact ⟨h.alone.setAt_weaker hℓ.keeps.toWeaker, h.queued.miss hℓ.pending_right hidle,
      h.snooped.of_keeps (setAt_rel Keeps.refl hℓ.keeps) rfl rfl rfl id, h.current.miss hℓ⟩
  | grant htxn hqueue =>
    exact ⟨h.alone, h.queued.grant htxn hqueue, h.snooped.grant htxn, h.current.grant htxn⟩
  | snoop htxn hj hℓ =>
    exact ⟨h.alone.setAt_weaker hℓ.weaker,
      h.queued.congr rfl (Queued.setAt_pending hℓ.pending_eq),
      h.snooped.snoop h.alone htxn hℓ, h.current.snoop htxn hℓ⟩
  | supply htxn hall hflight =>
    exact ⟨h.alone, h.queued.congr rfl fun _ _ ↦ rfl, h.snooped.supply hall,
      h.current.supply h.snooped htxn hall hflight⟩
  | deliver htxn hall hflight hℓ hop =>
    exact ⟨h.alone.deliver h.snooped h.queued hall htxn hflight hℓ,
      h.queued.deliver htxn hℓ.pending_right, h.snooped.deliver h.queued hall htxn hℓ,
      h.current.deliver h.snooped h.queued hall htxn hflight hℓ hop⟩

end Inv

/-- The states of the runs that start with nothing cached. -/
def Reachable (demotes : Bool) (initial : α → ℕ) (m : Machine ι α) : Prop :=
  ∃ m₀ : Machine ι α, m₀.Initial initial ∧ Relation.ReflTransGen (Step demotes) m₀ m

namespace Reachable

variable {demotes : Bool} {initial : α → ℕ} {m m' : Machine ι α}

theorem step (h : Reachable demotes initial m) (hstep : Step demotes m m') :
    Reachable demotes initial m' := by
  obtain ⟨m₀, hinitial, hrun⟩ := h
  exact ⟨m₀, hinitial, hrun.tail hstep⟩

/-- The invariant holds in every run. -/
theorem inv (h : Reachable demotes initial m) : Inv demotes initial m := by
  obtain ⟨m₀, hinitial, hrun⟩ := h
  induction hrun with
  | refl => exact .of_initial hinitial
  | tail _ hstep ih => exact ih.step hstep

end Reachable

end ArchSim.Library.Snooping
