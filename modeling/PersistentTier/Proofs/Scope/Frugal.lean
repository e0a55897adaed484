import PersistentTier.Proofs.Log.Buffers
import PersistentTier.Proofs.Mirrors
import PersistentTier.Proofs.Scope.Transaction

/-!
# Operations that do not allocate

An operation that allocates nothing does not look at the free list, so it does the same whatever is
listed there. This is of use for pools whose free list cannot be trusted: what such an operation does
in them, it does in the pool with a shorter free list, all of which names vacancies.

## Main definitions

* `Pool.lengthen`: a pool with more offsets at the end of its free list
* `Tx.Frugal`: an operation that does the same in a pool with a longer free list
* `Pool.Unhindered`: a pool whose writes and commits succeed
* `Pool.Drained`: what becomes of a pool when objects are freed

## Main results

* `frugal_promote`, `frugal_evictAll`, `frugal_reclaim`, `frugal_clear`, …: the operations on the
  chains and the log
* `Tx.Frugal.size_left`: the size of the arena stays
* `Pool.slots_of_transaction_error`: a transaction that fails leaves the root and every slot
* `Pool.Unhindered.transaction`: a transaction in an unhindered pool
-/

namespace PersistentTier

open Scope

/-! ## Longer free lists -/

/-- A pool with more offsets at the end of its free list. -/
def Pool.lengthen (rest : List UInt64) (p : Pool) : Pool := { p with free := p.free ++ rest }

/-- A scope whose pool has more offsets at the end of its free list. -/
def Scope.lengthen (rest : List UInt64) (s : Scope) : Scope :=
  { s with pool := s.pool.lengthen rest }

/-- **An operation that does not look at the free list.** -/
def Tx.Frugal {α : Type} (tx : Tx α) : Prop := ∀ rest, Mirrors (Scope.lengthen rest) tx tx

namespace Pool

variable (p : Pool) (rest : List UInt64) (h : Handle)

theorem lengthen_setObject (a : Object) :
    (p.setObject h a).lengthen rest = (p.lengthen rest).setObject h a := by
  have hslot : (p.lengthen rest).slotIndex? h = p.slotIndex? h := rfl
  simp only [setObject, hslot]
  split <;> rfl

theorem lengthen_clearSlot : (p.clearSlot h).lengthen rest = (p.lengthen rest).clearSlot h := by
  have hslot : (p.lengthen rest).slotIndex? h = p.slotIndex? h := rfl
  simp only [clearSlot, hslot]
  split <;> rfl

theorem lengthen_discard : (p.discard h).lengthen rest = (p.lengthen rest).discard h := by
  have hslot : (p.lengthen rest).slotIndex? h = p.slotIndex? h := rfl
  simp only [Pool.discard, hslot]
  split <;> rfl

theorem lengthen_release (offsets : List UInt64) :
    (p.release offsets).lengthen rest = (p.lengthen rest).release offsets := by
  simp [release, lengthen]

end Pool

theorem UndoRecord.lengthen_revert (rest : List UInt64) (p : Pool) (r : UndoRecord) :
    (r.revert p).lengthen rest = r.revert (p.lengthen rest) := by
  cases r with
  | root => rfl
  | object h before | freed h before => exact p.lengthen_setObject rest h before
  | allocated h => exact p.lengthen_discard rest h

theorem Scope.lengthen_rollback (rest : List UInt64) (s : Scope) :
    s.rollback.lengthen rest = (s.lengthen rest).rollback := by
  have hfold : ∀ (undo : List UndoRecord) (p : Pool),
      (undo.foldl UndoRecord.revert p).lengthen rest =
        undo.foldl UndoRecord.revert (p.lengthen rest) := by
    intro undo
    induction undo with
    | nil => exact fun _ => rfl
    | cons r undo ih => exact fun p => (ih _).trans (by rw [r.lengthen_revert]; rfl)
  exact hfold s.undo s.pool

/-! ## The primitive operations -/

namespace Tx.Frugal

variable {α β : Type}

theorem pure (a : α) : Frugal (Pure.pure a : Tx α) := fun _ => .pure a

theorem fail (cause : Cause) : Frugal (Tx.fail cause : Tx α) := fun _ => .throw _

theorem bind {tx : Tx α} {f : α → Tx β} (htx : Frugal tx) (hf : ∀ a, Frugal (f a)) :
    Frugal (tx >>= f) := fun rest => (htx rest).bind fun a => hf a rest

/-- What is done next may depend on everything but the free list. -/
theorem get {f : Scope → Tx β} (hf : ∀ s, Frugal (f s))
    (hsame : ∀ rest s, f (s.lengthen rest) = f s) : Frugal (MonadState.get >>= f) :=
  fun rest => .get fun s => hsame rest s ▸ hf s rest

theorem ite {c : Prop} [Decidable c] {tx tx' : Tx α} (h : Frugal tx) (h' : Frugal tx') :
    Frugal (if c then tx else tx') := fun rest => (h rest).ite (h' rest)

theorem require (c : Prop) [Decidable c] (cause : Cause) : Frugal (Tx.require c cause) :=
  ite (pure ()) (fail cause)

theorem root : Frugal Tx.root := fun _ _ => rfl

theorem modify {change : Scope → Scope}
    (hsame : ∀ rest s, change (s.lengthen rest) = (change s).lengthen rest) :
    Frugal (modify change : Tx PUnit) := fun rest s =>
  congrArg (EStateM.Result.ok PUnit.unit) (hsame rest s)

theorem ofRead {look : Pool → Except Unreadable α}
    (hsame : ∀ rest p, look (p.lengthen rest) = look p) : Frugal (Tx.ofRead look) := by
  intro rest s
  have hlook : look (s.lengthen rest).pool = look s.pool := hsame rest s.pool
  rw [run_ofRead, run_ofRead, hlook]
  cases look s.pool <;> rfl

theorem entry (h : Handle) : Frugal (Tx.entry h) := ofRead fun _ _ => rfl

theorem logNode (h : Handle) : Frugal (Tx.logNode h) := ofRead fun _ _ => rfl

theorem charge : Frugal Tx.charge := by
  intro rest s
  have hbudget : (s.lengthen rest).pool.writeBudget = s.pool.writeBudget := rfl
  simp only [Tx.charge, EStateM.run, hbudget]
  cases s.pool.writeBudget with
  | none => rfl
  | some n => cases n <;> rfl

theorem record (h : Handle) : Frugal (Tx.record h) :=
  get (fun _ => ite (pure ()) (charge.bind fun _ => (ofRead fun _ _ => rfl).bind fun _ =>
    modify fun _ _ => rfl)) fun _ _ => rfl

theorem recordRoot : Frugal Tx.recordRoot :=
  get (fun _ => ite (pure ()) (charge.bind fun _ => modify fun _ _ => rfl)) fun _ _ => rfl

theorem overwrite (h : Handle) (change : Object → Except Cause Object) :
    Frugal (Tx.overwrite h change) := by
  intro rest s
  have hrecorded : (s.lengthen rest).isRecorded h = s.isRecorded h := rfl
  have hobject : (s.lengthen rest).pool.object? h = s.pool.object? h := rfl
  rw [run_overwrite, run_overwrite, hrecorded, hobject]
  split
  · cases s.pool.object? h with
    | none => rfl
    | some before =>
      simp only
      cases change before with
      | error cause => rfl
      | ok after =>
        simp only [Seen, Scope.lengthen, Pool.lengthen_setObject]
  · rfl

theorem editEntry (h : Handle) (edit : EntryNode → EntryNode) : Frugal (Tx.editEntry h edit) :=
  (record h).bind fun _ => (overwrite h _).bind fun _ => pure ()

theorem editRoot (edit : Root → Root) : Frugal (Tx.editRoot edit) :=
  recordRoot.bind fun _ => modify fun _ _ => rfl

theorem free (h : Handle) : Frugal (Tx.free h) :=
  charge.bind fun _ => (ofRead fun _ _ => rfl).bind fun _ => modify fun rest s => by
    simp only [Scope.lengthen, Pool.lengthen_clearSlot]

theorem decrement (counter : Counter) (amount : UInt64) : Frugal (Tx.decrement counter amount) :=
  recordRoot.bind fun _ => root.bind fun _ => (require _ _).bind fun _ => editRoot _

theorem add (a b : UInt64) : Frugal (Tx.add a b) := by
  intro rest
  unfold Tx.add
  cases checkedAdd a b with
  | ok sum => exact .pure sum
  | error crash => exact .throw (Failure.crash crash)

theorem increment (counter : Counter) (amount : UInt64) : Frugal (Tx.increment counter amount) :=
  recordRoot.bind fun _ => root.bind fun _ => (add _ _).bind fun _ => editRoot _

theorem setNext (chain : ChainKind) (prev next : Option Handle) :
    Frugal (Tx.setNext chain prev next) := by
  cases prev with
  | none => exact editRoot fun r => r.setFirst chain next
  | some h => exact editEntry h _

theorem setPrev (chain : ChainKind) (prev next : Option Handle) :
    Frugal (Tx.setPrev chain prev next) := by
  cases next with
  | some h => exact editEntry h _
  | none =>
    cases chain with
    | entries => exact editRoot fun r => { r with entryLast := prev }
    | victims => exact pure ()

theorem linkFront (chain : ChainKind) (node : Handle) : Frugal (Tx.linkFront chain node) :=
  root.bind fun _ => (editEntry _ _).bind fun _ => (setPrev _ _ _).bind fun _ => setNext _ _ _

theorem spliceOut (chain : ChainKind) (node : Handle) : Frugal (Tx.spliceOut chain node) :=
  (entry node).bind fun _ => (require _ _).bind fun _ => root.bind fun _ =>
    (require _ _).bind fun _ => (setNext _ _ _).bind fun _ => root.bind fun _ =>
      (require _ _).bind fun _ => (setPrev _ _ _).bind fun _ => editEntry _ _

end Tx.Frugal

/-! ## The operations on the chains and the log -/

namespace EntryStore

open Tx.Frugal

theorem frugal_unlink (node : Handle) : (unlink node).Frugal :=
  (spliceOut _ _).bind fun _ => decrement _ _

theorem frugal_release (node : Handle) : (release node).Frugal :=
  (entry _).bind fun _ => (free _).bind fun _ => (free _).bind fun _ => free _

theorem frugal_remove (node : Handle) : (remove node).Frugal :=
  (frugal_unlink _).bind fun _ => frugal_release _

theorem frugal_promote (node : Handle) : (promote node).Frugal :=
  root.bind fun _ => ite (pure _) ((spliceOut _ _).bind fun _ => linkFront _ _)

end EntryStore

namespace VictimPipeline

open Tx.Frugal

theorem frugal_relink (node : Handle) : (relink node).Frugal :=
  (spliceOut _ _).bind fun _ => linkFront _ _

theorem frugal_evict (node : Handle) : (evict node).Frugal :=
  (frugal_relink _).bind fun _ => (decrement _ _).bind fun _ => increment _ _

theorem frugal_forM {f : Handle → Tx Unit} (hf : ∀ h, (f h).Frugal) (nodes : List Handle) :
    Tx.Frugal (nodes.forM f) := fun rest => .forM (fun h => hf h rest) nodes

theorem frugal_evictAll (nodes : List Handle) : (evictAll nodes).Frugal :=
  (frugal_forM frugal_relink nodes).bind fun _ => (decrement _ _).bind fun _ =>
    (increment _ _).bind fun _ => pure _

theorem frugal_remove (node : Handle) : (remove node).Frugal :=
  (spliceOut _ _).bind fun _ => (EntryStore.frugal_release _).bind fun _ => decrement _ _

theorem frugal_reclaimNode (node : Handle) : (reclaimNode node).Frugal :=
  (entry _).bind fun _ => (require _ _).bind fun _ => (free _).bind fun _ => (free _).bind fun _ =>
    (free _).bind fun _ => (decrement _ _).bind fun _ => pure _

theorem frugal_reclaimFrom (budget : Nat) (cursor : Option Handle) (count : Nat) :
    (reclaimFrom budget cursor count).Frugal :=
  reclaimFrom_induction pure fail (fun h _ hf => (frugal_reclaimNode h).bind hf) budget cursor count

theorem frugal_cutBefore (head : Handle) (predecessor : Option Handle) :
    (cutBefore head predecessor).Frugal := by
  refine root.bind fun _ => ite (editRoot _) ?_
  cases predecessor with
  | some prev => exact editEntry prev _
  | none => exact pure ()

theorem frugal_reclaim (head : Handle) : (reclaim head).Frugal :=
  (entry _).bind fun _ => get (fun _ => (frugal_reclaimFrom _ _ _).bind fun _ =>
    (frugal_cutBefore _ _).bind fun _ => pure _) fun _ _ => rfl

end VictimPipeline

namespace LogBuffer

open Tx.Frugal

theorem frugal_freeNode (h : Handle) : (freeNode h).Frugal :=
  (logNode _).bind fun _ => (free _).bind fun _ => (free _).bind fun _ => pure _

theorem frugal_freeFrom (recorded : UInt64) (budget : Nat) (cursor : Option Handle)
    (count : UInt64) : (freeFrom recorded budget cursor count).Frugal :=
  freeFrom_induction pure fail (fun h _ hf => (frugal_freeNode h).bind hf) recorded budget cursor count

theorem frugal_clear (head : Option Handle) : (clear head).Frugal :=
  get (fun _ => (require _ _).bind fun _ => (frugal_freeFrom _ _ _ _).bind fun _ =>
    (editRoot _).bind fun _ => (decrement _ _).bind fun _ => pure _) fun _ _ => rfl

theorem frugal_clearBoth : clearBoth.Frugal :=
  get (fun _ => (frugal_clear _).bind fun _ => get (fun _ => (frugal_clear _).bind fun _ => pure ())
    fun _ _ => rfl) fun _ _ => rfl

end LogBuffer

/-! ## Slots that are listed, freed or taken -/

/-- An allocation takes a slot that is listed, or adds one. -/
theorem Pool.size_of_place {p q : Pool} {a : Object} {h : Handle} (hp : p.place a = .ok (h, q)) :
    q.slots.size + p.free.length = p.slots.size + q.free.length + 1 := by
  rcases place_cases hp with ⟨free, hsize, hfree, -, rfl⟩ | ⟨hfree, -, -, hsize, rfl⟩
  · simp only [hfree, slots_setSlot, Array.size_setIfInBounds, List.length_cons]
    omega
  · simp only [hfree, Array.size_push, List.length_nil]

namespace Scope

/-- The number of objects of a scope, and of the slots that are listed or will be. -/
def tally (s : Scope) : Nat := s.pool.heap.card + (s.freedOffsets ++ s.pool.free).length

/-- **A step lists what it empties** and takes what it lists. Only slots that are added count anew. -/
theorem Step.tally_eq {s s' : Scope} (hs : s.Sound) (hstep : Step s s') :
    s'.tally + s.pool.slots.size = s.tally + s'.pool.slots.size := by
  cases hstep with
  | charge | recordRoot | editRoot | record => rfl
  | @overwrite h before after recorded present =>
    obtain ⟨m, hm⟩ := Pool.exists_heap_eq present
    simp only [tally, Scope.freedOffsets, Pool.heap_setObject hm, hm, Multiset.card_add, card_cell,
      Pool.size_setObject, Pool.free_setObject]
  | @free h before present =>
    obtain ⟨m, hm⟩ := Pool.exists_heap_eq present
    simp only [tally, Scope.freedOffsets, Pool.heap_clearSlot hm, hm, Multiset.card_add, card_cell,
      Pool.size_clearSlot, Pool.free_clearSlot, UndoRecord.freedOffset?, List.filterMap_cons, List.length_append,
      List.length_cons]
    omega
  | @alloc object h p placed =>
    have hcard : p.heap.card = s.pool.heap.card + 1 := by
      rw [Pool.heap_place hs.vacant.of_append_right placed, Multiset.card_add, card_cell, add_comm]
    have hsize := Pool.size_of_place placed
    have hoffsets : ({ pool := p, undo := .allocated h :: s.undo } : Scope).freedOffsets =
        s.freedOffsets := rfl
    simp only [tally, hoffsets, hcard, List.length_append]
    omega

theorem tally_of_steps {s s' : Scope} (hs : s.Sound) (hsteps : Steps s s') :
    s'.tally + s.pool.slots.size = s.tally + s'.pool.slots.size := by
  induction hsteps with
  | refl => rfl
  | tail hsteps hstep ih =>
    have hstep' := hstep.tally_eq (hs.of_steps hsteps)
    omega

end Scope

/-! ## The size of the arena -/

namespace Scope

/-- The arena grows only if no slot is listed, and from then on none is. -/
theorem size_or_free_of_steps {s s' : Scope} (hsteps : Steps s s') :
    s'.pool.slots.size = s.pool.slots.size ∨ s'.pool.free = [] := by
  induction hsteps with
  | refl => exact .inl rfl
  | tail _ hstep ih =>
    cases hstep with
    | charge | recordRoot | editRoot | record => exact ih
    | overwrite after recorded present =>
      obtain ⟨i, hi, -⟩ := Pool.exists_slotIndex?_of_object? _ present
      simpa [Pool.setObject_of_some after hi] using ih
    | free present =>
      obtain ⟨i, hi, -⟩ := Pool.exists_slotIndex?_of_object? _ present
      simpa [Pool.clearSlot, hi] using ih
    | alloc placed =>
      rcases Pool.place_cases placed with ⟨free, -, hfree, -, rfl⟩ | ⟨hfree, -, -, -, rfl⟩
      · rw [hfree] at ih
        exact .inl (by simpa using ih)
      · exact .inr hfree

end Scope

/-- **An operation that does not look at the free list leaves the size of the arena.** -/
theorem Tx.Frugal.size_left {α : Type} {tx : Tx α} (hfrugal : tx.Frugal) (htx : tx.Stepwise)
    (s : Scope) : (tx.left s).pool.slots.size = s.pool.slots.size := by
  -- It does the same where a slot is listed, and there that slot stays listed.
  have hleft : tx.left (s.lengthen [0]) = (tx.left s).lengthen [0] := by
    unfold Tx.left
    rw [hfrugal [0] s]
    cases tx.run s <;> rfl
  have hsteps := htx (s.lengthen [0])
  rw [hleft] at hsteps
  rcases size_or_free_of_steps hsteps with hsize | hfree
  · exact hsize
  · exact absurd hfree (by simp [Scope.lengthen, Pool.lengthen])

/-! ## Transactions -/

section Transactions

variable {α : Type} {tx : Tx α} {p q : Pool} {rest : List UInt64} {a : α}

/-- **The ends of a transaction** of an operation that does not look at the free list, on the pool
`p` with a longer free list. They are told by the operation in the pool itself. -/
inductive Pool.FrugalEnds (tx : Tx α) (p : Pool) (rest : List UInt64) :
    Except Failure α × Pool → Prop
  /-- The operation has succeeded and its changes are made durable. -/
  | committed {a : α} {s : Scope} {q : Pool} (run : tx.run { pool := p } = .ok a s)
      (durable : ((s.pool.release s.freedOffsets).lengthen rest).makeDurable = .ok q) :
      FrugalEnds tx p rest (.ok a, q)
  /-- The operation has failed. -/
  | failed {e : Failure} {s : Scope} (run : tx.run { pool := p } = .error e s) :
      FrugalEnds tx p rest (.error e.toAborted, s.rollback.lengthen rest)
  /-- The commit has failed. -/
  | undurable {a : α} {s : Scope} {cause : Cause} (run : tx.run { pool := p } = .ok a s)
      (refused : ((s.pool.release s.freedOffsets).lengthen rest).makeDurable = .error cause) :
      FrugalEnds tx p rest (.error (.aborted (.notDurable cause)), s.rollback.lengthen rest)

/-- An operation that succeeds is committed if what it leaves can be made durable. -/
theorem Pool.FrugalEnds.eq_of_ok {out : Except Failure α × Pool} {s : Scope}
    (h : p.FrugalEnds tx rest out) (hr : tx.run { pool := p } = .ok a s)
    (hd : ((s.pool.release s.freedOffsets).lengthen rest).makeDurable = .ok q) :
    out = (.ok a, q) := by
  cases h with
  | committed run durable =>
    obtain ⟨rfl, rfl⟩ := EStateM.Result.ok.inj (hr.symm.trans run)
    rw [Except.ok.inj (hd.symm.trans durable)]
  | failed run => simp [hr] at run
  | undurable run refused =>
    obtain ⟨-, rfl⟩ := EStateM.Result.ok.inj (hr.symm.trans run)
    simp [hd] at refused

/-- Where the rest of a free list does not matter to an operation, it does not matter to a transaction. -/
theorem Pool.frugalEnds_of_run (hrun : tx.run { pool := p.lengthen rest } =
    Seen (Scope.lengthen rest) (tx.run { pool := p })) :
    p.FrugalEnds tx rest ((p.lengthen rest).transaction tx) := by
  unfold Pool.transaction
  rw [hrun]
  cases hr : tx.run { pool := p } with
  | error e s =>
    simp only [Seen, finish, ← s.lengthen_rollback]
    exact .failed hr
  | ok a s =>
    -- What the scope has freed comes in front, so the rest of the free list stays the rest.
    have hreleased : (s.lengthen rest).pool.release (s.lengthen rest).freedOffsets =
        (s.pool.release s.freedOffsets).lengthen rest := (s.pool.lengthen_release rest _).symm
    simp only [Seen, finish]
    cases hd : ((s.pool.release s.freedOffsets).lengthen rest).makeDurable with
    | ok q =>
      have hcommit : (s.lengthen rest).commit = (.ok (), q) := by
        simp only [commit, hreleased, hd]
      simp only [hcommit]
      exact .committed hr hd
    | error cause =>
      have hback : ((s.pool.release s.freedOffsets).lengthen rest).unrelease
          (s.lengthen rest).freedOffsets.length = (s.lengthen rest).pool := by
        rw [← hreleased, Pool.unrelease_release]
      have hcommit : (s.lengthen rest).commit =
          (.error (.aborted (.notDurable cause)), s.rollback.lengthen rest) := by
        simp only [commit, hreleased, hd, hback, s.lengthen_rollback rest]
      simp only [hcommit]
      exact .undurable hr hd

theorem Pool.frugalEnds_transaction (hfrugal : tx.Frugal) (p : Pool) (rest : List UInt64) :
    p.FrugalEnds tx rest ((p.lengthen rest).transaction tx) :=
  frugalEnds_of_run (hfrugal rest { pool := p })

/-- Every pool is one without a free list, but for its free list. -/
theorem Pool.exists_lengthen (p : Pool) :
    ∃ p₀ : Pool, p = p₀.lengthen p.free ∧ p₀.free = [] ∧ p₀.Vacant p₀.free :=
  ⟨{ p with free := [] }, rfl, rfl, List.nodup_nil, by simp⟩

/-- What the scope of a pool shows that has a longer free list. -/
theorem Pool.shows_of_lengthen {E : Failure → Prop} {p₀ : Pool} (hp : p = p₀.lengthen rest)
    (hvacant : p₀.Vacant p₀.free) (hbudget : E (.aborted .injectedFault) ∨ p.writeBudget = none) :
    Scope.Shows E ⟨maxSlots - p.slots.size, p.root, p.heap⟩ { pool := p₀ } := by
  subst hp
  have hle : p₀.slots.size ≤ maxSlots := p₀.size_le
  have hsize : (p₀.lengthen rest).slots.size = p₀.slots.size := rfl
  refine ⟨rfl, rfl, (since_begin hvacant).sound, hbudget, .inr ?_⟩
  simp only [hsize]
  omega

/-- **A transaction that fails leaves the root and every slot**, whatever its pool is like. -/
theorem Pool.slots_of_transaction_error {e : Failure} (htx : tx.Stepwise) (hfrugal : tx.Frugal)
    (h : p.transaction tx = (.error e, q)) : q.root = p.root ∧ q.slots = p.slots := by
  obtain ⟨p₀, hp, -, hvacant⟩ := p.exists_lengthen
  have hends := frugalEnds_transaction hfrugal p₀ p.free
  rw [← hp, h] at hends
  have hkept : ∀ s, tx.left { pool := p₀ } = s → (s.rollback.lengthen p.free).root = p.root ∧
      (s.rollback.lengthen p.free).slots = p.slots := by
    rintro s rfl
    obtain ⟨n, hn⟩ := (since_of_steps (since_begin hvacant) (htx _)).padded
    have hsize := hn.size_eq
    rw [size_rollback, hfrugal.size_left htx] at hsize
    obtain rfl : n = 0 := Nat.left_eq_add.1 hsize
    have hslots : (tx.left { pool := p₀ }).rollback.slots = p₀.slots := by simpa using hn.slots
    exact ⟨hn.root.trans (by rw [hp]; rfl), hslots.trans (by rw [hp]; rfl)⟩
  cases hends with
  | failed run => exact hkept _ (Tx.left_eq_of_error run)
  | undurable run => exact hkept _ (Tx.left_eq_of_ok run)

/-- The objects are what they were, too. -/
theorem Pool.kept_of_transaction_error {e : Failure} (htx : tx.Stepwise) (hfrugal : tx.Frugal)
    (h : p.transaction tx = (.error e, q)) : q.root = p.root ∧ ∀ h, q.object? h = p.object? h := by
  obtain ⟨hroot, hslots⟩ := slots_of_transaction_error htx hfrugal h
  have hid := (sameHost_of_transaction_error htx h).id
  exact ⟨hroot, fun h => by simp only [Pool.object?, Pool.slotIndex?, hid, hslots]⟩

/-! ## Unhindered pools -/

/-- **A pool whose writes and commits succeed**: no write is limited, and nothing is in the way of its
image. -/
structure Pool.Unhindered (p : Pool) : Prop where
  budget : p.writeBudget = none
  clear : ∀ place, p.image = some place → place.obstacles = []
  standing : ∀ place, p.image = some place → place.standing ≠ .directory

/-- What is at the place of the image after the pool has been written. -/
def Pool.written (p : Pool) : Option Location :=
  p.image.map fun place => { place with standing := .file p.toImage.encode }

/-- Nothing keeps an unhindered pool from writing its image. -/
theorem Pool.Unhindered.save_eq (hp : p.Unhindered) :
    p.save = .ok { p with image := p.written } := by
  cases himage : p.image with
  | none =>
    have hwritten : { p with image := p.written } = p := by
      simp only [written, himage, Option.map_none]
      rw [← himage]
    rw [hwritten, save, himage]
  | some place =>
    rw [Pool.save_eq himage (hp.clear place himage) (hp.standing place himage), written, himage,
      Option.map_some]

/-- What no scope changes keeps a pool unhindered. -/
theorem Pool.Unhindered.of_sameHost (hp : p.Unhindered) (hpq : SameHost p q) : q.Unhindered where
  budget := hpq.budget hp.budget
  clear place h := hp.clear place (hpq.image ▸ h)
  standing place h := hp.standing place (hpq.image ▸ h)

/-- A pool that has been written stays unhindered. -/
theorem Pool.Unhindered.written (hp : p.Unhindered) :
    Unhindered { p with image := p.written } where
  budget := hp.budget
  clear place himage := by
    obtain ⟨place', himage', rfl⟩ := Option.map_eq_some_iff.1 himage
    exact hp.clear place' himage'
  standing place himage := by
    obtain ⟨place', himage', rfl⟩ := Option.map_eq_some_iff.1 himage
    simp

/-- An image that has been written is that of the pool. -/
theorem Pool.written_written (p : Pool) :
    ({ p with image := p.written } : Pool).written = p.written := by
  simp only [written, Option.map_map]
  rfl

/-- What a commit makes of an unhindered pool. In the synchronous mode its image is that of the pool. -/
theorem Pool.Unhindered.exists_makeDurable (hp : p.Unhindered) :
    ∃ image, p.makeDurable = .ok { p with image := image } ∧
      Unhindered { p with image := image } ∧ image.isSome = p.image.isSome ∧
      (p.options.durability = .sync → image = p.written) := by
  unfold makeDurable
  cases hd : p.options.durability with
  | sync => exact ⟨p.written, hp.save_eq, hp.written, Option.isSome_map, fun _ => rfl⟩
  | async | none => exact ⟨p.image, rfl, hp, rfl, by simp⟩

/-- **What becomes of a pool when objects are freed.** The arena keeps its size, and what has been
freed is listed in front of what was listed before. -/
structure Pool.Drained (p q : Pool) : Prop where
  id : q.id = p.id
  options : q.options = p.options
  size : q.slots.size = p.slots.size
  unhindered : q.Unhindered
  tally : q.heap.card + q.free.length = p.heap.card + p.free.length
  image : q.image.isSome = p.image.isSome

theorem Pool.Unhindered.drained (hp : p.Unhindered) : p.Drained p := ⟨rfl, rfl, rfl, hp, rfl, rfl⟩

theorem Pool.Drained.trans {r : Pool} (hpq : p.Drained q) (hqr : q.Drained r) : p.Drained r where
  id := hqr.id.trans hpq.id
  options := hqr.options.trans hpq.options
  size := hqr.size.trans hpq.size
  unhindered := hqr.unhindered
  tally := hqr.tally.trans hpq.tally
  image := hqr.image.trans hpq.image

/-- What an operation leaves in an unhindered pool, before it is made durable. -/
theorem Pool.Unhindered.exists_released (hp : p.Unhindered) (htx : tx.Stepwise)
    (hfrugal : tx.Frugal) {root : Root} {heap : Heap}
    (ht : Tx.Yields (fun _ => False) ⟨maxSlots - p.slots.size, p.root, p.heap⟩ tx a
      ⟨maxSlots - p.slots.size, root, heap⟩) :
    ∃ released : Pool, released.root = root ∧ released.heap = heap ∧ p.Drained released ∧
      ∀ q, released.makeDurable = .ok q → p.transaction tx = (.ok a, q) := by
  -- The operation does not look at the free list, so it is run with an empty one.
  obtain ⟨p₀, hp₀, hfree, hvacant⟩ := p.exists_lengthen
  have hsize₀ : p₀.slots.size = p.slots.size := by rw [hp₀]; rfl
  have hheap₀ : p₀.heap = p.heap := by rw [hp₀]; rfl
  have hbegin := since_begin hvacant
  have hle := p.size_le
  have hpost := ht _ (shows_of_lengthen hp₀ hvacant (.inr hp.budget))
  have hsteps := htx { pool := p₀ }
  cases hr : tx.run { pool := p₀ } with
  | error e s => simp [hr] at hpost
  | ok b s =>
    rw [hr] at hpost
    rw [Tx.left_eq_of_ok hr] at hsteps
    obtain ⟨rfl, hs⟩ := hpost
    have hhost := sameHost_of_steps hsteps
    have himage : s.pool.image = p.image := hhost.image.trans (by rw [hp₀]; rfl)
    have hsize : s.pool.slots.size = p.slots.size := by
      have hroom := hs.able.roomy.resolve_left not_false
      have hgrown := hhost.size
      simp only at hroom hgrown
      omega
    let released := (s.pool.release s.freedOffsets).lengthen p.free
    have hunhindered : released.Unhindered :=
      ⟨hs.able.unlimited.resolve_left not_false, fun place h => hp.clear place (himage ▸ h),
        fun place h => hp.standing place (himage ▸ h)⟩
    -- A slot that loses its object is listed instead.
    have htally : released.heap.card + released.free.length = p.heap.card + p.free.length := by
      have hcount := tally_of_steps hbegin.sound hsteps
      have hlisted : released.free.length =
          (s.freedOffsets ++ s.pool.free).length + p.free.length := List.length_append
      have hheap : released.heap = s.pool.heap := rfl
      simp only [tally, hsize₀, hsize, hheap₀, hfree, freedOffsets, List.filterMap_nil,
        List.nil_append, List.length_nil] at hcount hlisted
      rw [hheap]
      omega
    refine ⟨released, hs.root, hs.heap, ⟨hhost.id.trans (by rw [hp₀]; rfl),
      hhost.options.trans (by rw [hp₀]; rfl), hsize, hunhindered, htally,
      congrArg Option.isSome himage⟩, fun q hq => ?_⟩
    have hends := frugalEnds_transaction hfrugal p₀ p.free
    rw [← hp₀] at hends
    exact hends.eq_of_ok hr hq

/-- **A transaction in an unhindered pool** commits what its operation makes of the heap, whatever the
free list is like. In the synchronous mode the image is that of the pool. -/
theorem Pool.Unhindered.transaction (hp : p.Unhindered) (htx : tx.Stepwise) (hfrugal : tx.Frugal)
    {root : Root} {heap : Heap}
    (ht : Tx.Yields (fun _ => False) ⟨maxSlots - p.slots.size, p.root, p.heap⟩ tx a
      ⟨maxSlots - p.slots.size, root, heap⟩) :
    ∃ q, p.transaction tx = (.ok a, q) ∧ q.root = root ∧ q.heap = heap ∧ p.Drained q ∧
      (p.options.durability = .sync → q.image = q.written) := by
  obtain ⟨released, hroot, hheap, hdrained, hcommits⟩ := hp.exists_released htx hfrugal ht
  obtain ⟨image, hdurable, hunhindered, hsome, hwritten⟩ := hdrained.unhindered.exists_makeDurable
  refine ⟨_, hcommits _ hdurable, hroot, hheap, ?_, fun hd => ?_⟩
  · exact hdrained.trans ⟨rfl, rfl, rfl, hunhindered, rfl, hsome⟩
  · obtain rfl := hwritten (hdrained.options ▸ hd)
    exact released.written_written.symm

end Transactions

end PersistentTier
