import Mathlib.Algebra.BigOperators.Group.List.Basic
import PersistentTier.Proofs.Chain.Validity
import PersistentTier.Proofs.Scope.Sparing
import PersistentTier.Proofs.Tier.Writes

/-!
# Edits of a chain are edits of a list

In a pool that is in order, each chain is a list, and the operations on it are edits of this list by
position: a node is put in front, is taken out, or is moved to the front. The chain is then that list,
whichever way it is walked through. Of the other objects, those that are taken out are gone, and the
rest is as before, but for the links between the nodes of this chain.

## Main definitions

* `spine`: the nodes of a chain, without their payloads
* `Pool.Edited`: what an edit of one chain makes of a pool

## Main results

* `Pool.Valid.edited`: a pool of which one part of the heap has been exchanged
* `Pool.chain_edits`: the edits of the entry store and of the victim pipeline
-/

namespace PersistentTier

open Tx

/-! ## Nodes and payloads -/

/-- The heap of the nodes of a chain, without their payloads. -/
def spine (kind : ChainKind) : (before : Option Handle) → List Resident →
    (after : Option Handle) → Heap
  | _, [], _ => 0
  | before, x :: xs, after =>
    cell x.node (.entry (x.entry kind before (firstOf (nodes xs) after))) +
      spine kind (some x.node) xs after

section Chains

variable {kind : ChainKind} {before after : Option Handle} {xs : List Resident} {h : Handle}

/-- **A chain is its nodes and their payloads.** The payloads know nothing of the order. -/
theorem chain_eq_spine_add : chain kind before xs after =
    spine kind before xs after + (xs.map Resident.payloads).sum := by
  induction xs generalizing before with
  | nil => rfl
  | cons x xs ih =>
    simp only [chain, spine, ih, Resident.heap, List.map_cons, List.sum_cons]
    abel

theorem map_spine : (spine kind before xs after).map Prod.fst = nodes xs := by
  induction xs generalizing before with
  | nil => rfl
  | cons x xs ih =>
    simp only [spine, Multiset.map_add, map_cell, ih]
    rfl

/-- The handles of pairs are those of their nodes and those of their payloads. -/
theorem mem_handles_iff : h ∈ xs.flatMap Resident.handles ↔
    h ∈ nodes xs ∨ h ∈ (xs.map Resident.payloads).sum.map Prod.fst := by
  rw [← Multiset.mem_coe, ← map_chain .entries none none xs, chain_eq_spine_add, Multiset.map_add,
    Multiset.mem_add, map_spine, Multiset.mem_coe]

/-- **A node that is in a chain before and afterwards** keeps its key and its value. -/
theorem Pool.exists_relinked {p q : Pool} {before' after' : Option Handle} {ys : List Resident}
    {x : Resident} {e : EntryNode} (hp : chain kind before xs after ≤ p.heap) (hx : x ∈ xs)
    (hq : chain kind before' ys after' ≤ q.heap) (hy : x ∈ ys) (he : p.entry x.node = .ok e) :
    ∃ prev next, q.entry x.node = .ok { e with prev := prev, next := next } := by
  obtain ⟨⟨prev, next, hentry⟩, -⟩ := exists_entry_of_chain hp hx
  obtain rfl := Except.ok.inj (he.symm.trans hentry)
  obtain ⟨⟨prev', next', hentry'⟩, -⟩ := exists_entry_of_chain hq hy
  exact ⟨prev', next', hentry'⟩

end Chains

/-! ## One chain in a heap -/

namespace Contents

variable (c : Contents) (t : Buffer → Heap) (kind : ChainKind) (xs : List Resident)

/-- The heap of everything but one chain, where the log buffers have the heaps `t`. -/
def threadedOthers : ChainKind → Heap
  | .entries => chain .victims none c.victims none + (t .a + t .b)
  | .victims => chain .entries none c.entries none + (t .a + t .b)

theorem threadedHeap_eq_chain : c.threadedHeap t =
    chain kind none (c.residents kind) none + c.threadedOthers t kind := by
  cases kind with
  | entries => exact add_assoc _ _ _
  | victims => simp only [threadedHeap, residents, threadedOthers]; abel

@[simp] theorem threadedOthers_setResidents :
    (c.setResidents kind xs).threadedOthers t kind = c.threadedOthers t kind := by
  cases kind <;> rfl

/-- The heap of what an edit of one chain leaves alone: everything but the chain, and the payloads of the
pairs that stay in it. -/
def kept (ys : List Resident) : Heap := (ys.map Resident.payloads).sum + c.threadedOthers t kind

variable {kind} {kind' : ChainKind}

theorem chain_le_threadedOthers (hkind : kind' ≠ kind) :
    chain kind' none (c.residents kind') none ≤ c.threadedOthers t kind := by
  cases kind with
  | entries =>
    cases kind' with
    | entries => exact absurd rfl hkind
    | victims => exact Multiset.le_add_right _ _
  | victims =>
    cases kind' with
    | entries => exact Multiset.le_add_right _ _
    | victims => exact absurd rfl hkind

theorem log_le_threadedOthers (y : Buffer) : t y ≤ c.threadedOthers t kind := by
  have hle : t y ≤ t .a + t .b := by
    cases y with
    | a => exact Multiset.le_add_right _ _
    | b => exact Multiset.le_add_left _ _
  cases kind <;> exact hle.trans (Multiset.le_add_left _ _)

end Contents

namespace Root

variable {r : Root} {kind kind' : ChainKind} {hs : List Handle}

theorem first_setChain : (r.setChain kind hs).first kind = hs.head? := by
  cases kind <;> exact firstOf_none hs

theorem recordedLength_setChain :
    (r.setChain kind hs).recordedLength kind = UInt64.ofNat hs.length := by cases kind <;> rfl

theorem entryLast_setChain : (r.setChain .entries hs).entryLast = hs.getLast? := lastOf_none hs

/-- What a root says of the other chain stays. -/
theorem setChain_of_ne (r : Root) (hs : List Handle) (hkind : kind' ≠ kind) :
    (r.setChain kind hs).first kind' = r.first kind' ∧
      (r.setChain kind hs).recordedLength kind' = r.recordedLength kind' ∧
      (kind' = .entries → (r.setChain kind hs).entryLast = r.entryLast) := by
  cases kind with
  | entries =>
    cases kind' with
    | entries => exact absurd rfl hkind
    | victims => exact ⟨rfl, rfl, nofun⟩
  | victims =>
    cases kind' with
    | entries => exact ⟨rfl, rfl, fun _ => rfl⟩
    | victims => exact absurd rfl hkind

theorem bufferHead_setChain (y : Buffer) : (r.setChain kind hs).bufferHead y = r.bufferHead y := by
  cases kind <;> cases y <;> rfl

theorem logCount_setChain : (r.setChain kind hs).logCount = r.logCount := by cases kind <;> rfl

end Root

/-- Storing a pair allocates its key, its value and its node. -/
theorem Tier.sparing_insertNew (key value : Bytes) : (insertNew key value).Sparing 3 :=
  Tx.Sparing.alloc (fun key => Tx.Sparing.alloc (fun value =>
    EntryStore.sparing_insertFront key value) _) _

/-! ## What an edit leaves -/

/-- **What an edit of one chain makes of the pool `p`.** The chain has the nodes `hs` now, and the
objects `gone` are gone. -/
structure Pool.Edited (p : Pool) (kind : ChainKind) (hs gone : List Handle) (q : Pool) : Prop where
  /-- The walk from the head. -/
  forward : q.walk kind .forward = hs
  /-- Every link and every tag is in order. -/
  strict : q.strictWalk kind = .ok hs
  count : (q.root.recordedLength kind).toNat = hs.length
  /-- The walk from the tail. -/
  backward : q.walk .entries .backward = (q.walk .entries .forward).reverse
  /-- The other chain is as before. -/
  other : ∀ kind', kind' ≠ kind →
    q.walk kind' .forward = p.walk kind' .forward ∧ q.strictWalk kind' = p.strictWalk kind'
  /-- So are the commands of the log buffers. -/
  pending : ∀ y, LogBuffer.pending q (q.root.bufferHead y) = LogBuffer.pending p (p.root.bufferHead y)
  /-- The root says nothing else that is new. -/
  root : q.root = p.root.setChain kind hs
  /-- A node that is left has its key, its value and its tag. -/
  entry : ∀ h e, p.entry h = .ok e → h ∉ gone →
    ∃ prev next, q.entry h = .ok { e with prev := prev, next := next }
  /-- Of the objects that are no nodes of the chain, just these are gone, and no other is touched. -/
  object? : ∀ h, h ∉ hs → q.object? h = if h ∈ gone then none else p.object? h

namespace Pool

variable {p q : Pool} {c : Contents} {t : Buffer → Heap} {kind kind' : ChainKind} {hs : List Handle}

/-- A chain is formed if its nodes are linked and its root has been set. -/
theorem formed_of_setChain {r : Root} (hroot : q.root = r.setChain kind hs)
    (hlinked : q.Linked kind none hs) (hlength : hs.length < 2 ^ 64) : q.Formed kind hs := by
  apply formed_of_linked hlinked
  · rw [hroot, Root.recordedLength_setChain, UInt64.toNat_ofNat_of_lt' hlength]
  · rw [hroot, Root.first_setChain]
  · rintro rfl
    rw [hroot, Root.entryLast_setChain]

namespace Valid

/-- Where one chain is edited, the other one stays formed. -/
theorem formed_of_ne (hp : p.Valid c) (hroot : q.root = p.root.setChain kind hs)
    (hle : chain kind' none (c.residents kind') none ≤ q.heap) (hkind : kind' ≠ kind) :
    q.Formed kind' (nodes (c.residents kind')) := by
  obtain ⟨hfirst, hcount, hlast⟩ := p.root.setChain_of_ne hs hkind
  have hf := hp.formed kind'
  refine formed_of_chain hle ?_ ?_ fun he => ?_
  · rw [hroot, hfirst, hf.first, firstOf_none]
  · rw [hroot, hcount, ← hf.length, List.length_map]
  · rw [hroot, hlast he, hf.last he, lastOf_none]

end Valid

section Exchange

variable {fresh : List Handle} {extra : Heap} {before : Option Handle} {dead ys : List Resident}
  {h : Handle}

/-- Before an edit there are the nodes of the chain, and the payloads of the pairs that go. -/
theorem heap_before (hheap : p.heap = c.threadedHeap t)
    (hperm : (c.residents kind).Perm (dead ++ ys)) : p.heap =
      spine kind none (c.residents kind) none + (dead.map Resident.payloads).sum + c.kept t kind ys := by
  have hsum := (hperm.map Resident.payloads).sum_eq
  rw [hheap, c.threadedHeap_eq_chain t kind, chain_eq_spine_add, hsum, List.map_append, List.sum_append,
    Contents.kept]
  abel

/-- After an edit there are the nodes of the chain, some of which may have come in. -/
theorem heap_after (hleft : q.heap = extra + (chain kind before ys none + c.threadedOthers t kind)) :
    q.heap = extra + spine kind before ys none + c.kept t kind ys := by
  rw [hleft, chain_eq_spine_add, Contents.kept]
  abel

theorem keys_after (hextra : extra.map Prod.fst = fresh) :
    (extra + spine kind before ys none).map Prod.fst = ↑(fresh ++ nodes ys) := by
  rw [Multiset.map_add, hextra, map_spine, Multiset.coe_add]

/-- But for the nodes that stay, an edit replaces the objects of the pairs that go. -/
theorem mem_keys_before (hperm : (c.residents kind).Perm (dead ++ ys)) (hys : h ∉ nodes ys) :
    h ∈ (spine kind none (c.residents kind) none + (dead.map Resident.payloads).sum).map Prod.fst ↔
      h ∈ dead.flatMap Resident.handles := by
  rw [Multiset.map_add, Multiset.mem_add, map_spine, Multiset.mem_coe,
    (hperm.map Resident.node).mem_iff, List.map_append, List.mem_append, or_iff_left hys,
    mem_handles_iff]

variable (hheap : p.heap = c.threadedHeap t) (hperm : (c.residents kind).Perm (dead ++ ys))
  (hextra : extra.map Prod.fst = fresh)
  (hleft : q.heap = extra + (chain kind before ys none + c.threadedOthers t kind))

include hheap hperm hextra hleft in
/-- **An object that is no node of the chain** goes with its pair, or is not touched. -/
theorem object?_of_edit (hh : h ∉ fresh ++ nodes ys) :
    q.object? h = if h ∈ dead.flatMap Resident.handles then none else p.object? h := by
  have hafter : h ∉ (extra + spine kind before ys none).map Prod.fst := by
    rwa [keys_after hextra, Multiset.mem_coe]
  rw [object?_of_heap_exchange (heap_before hheap hperm) (heap_after hleft) hafter]
  exact if_congr (mem_keys_before hperm fun hm => hh (List.mem_append_right _ hm)) rfl rfl

include hheap hperm hextra hleft in
/-- A node that comes in was nothing before. -/
theorem object?_of_fresh (hnodup : (fresh ++ nodes ys).Nodup) (hh : h ∈ fresh)
    (hgone : h ∉ dead.flatMap Resident.handles) : p.object? h = none := by
  have hys : h ∉ nodes ys := fun hm => (List.nodup_append.1 hnodup).2.2 h hh h hm rfl
  have hafter : h ∈ (extra + spine kind before ys none).map Prod.fst := by
    rw [keys_after hextra, Multiset.mem_coe]
    exact List.mem_append_left _ hh
  rw [object?_of_heap_exchange (heap_after hleft) (heap_before hheap hperm)
    (mt (mem_keys_before hperm hys).1 hgone), if_pos hafter]

include hextra hleft in
/-- The chain that an edit leaves is formed. -/
theorem formed_of_edit {r : Root} (hroot : q.root = r.setChain kind (fresh ++ nodes ys))
    (hlinked : q.Linked kind none (fresh ++ nodes ys)) : q.Formed kind (fresh ++ nodes ys) := by
  refine formed_of_setChain hroot hlinked ?_
  -- The nodes are among the objects of the arena, so that their number is not too large to be recorded.
  have hcount : (extra + spine kind before ys none).card = (fresh ++ nodes ys).length := by
    rw [← Multiset.coe_card, ← keys_after hextra, Multiset.card_map]
  have hcard := q.card_heap_le.trans q.size_le
  rw [heap_after hleft, Multiset.card_add, hcount] at hcard
  have hbound : maxSlots < 2 ^ 64 := by decide
  omega

end Exchange

namespace Valid

variable {fresh : List Handle} {extra : Heap} {before : Option Handle} {dead ys : List Resident}

/-- The commands of the log buffers are read from the part of the heap that an edit leaves alone. -/
theorem pending_of_le (hp : p.Valid c) (ht : ∀ y, Threaded (c.log y) (t y))
    (hroot : q.root = p.root.setChain kind hs) (hle : c.threadedOthers t kind ≤ q.heap) (y : Buffer) :
    LogBuffer.pending q (q.root.bufferHead y) = LogBuffer.pending p (p.root.bufferHead y) := by
  have hhead : q.root.bufferHead y = firstOf (logNodes (c.log y)) none := by
    rw [hroot, Root.bufferHead_setChain, hp.bufferHead_eq]
  have hcount : (c.log y).length ≤ q.root.logCount.toNat := by
    rw [hroot, Root.logCount_setChain, hp.logCount_eq]
    cases y <;> simp
  rw [hp.pending_eq y, hhead]
  exact LogBuffer.pending_of_threaded (ht y) ((c.log_le_threadedOthers t y).trans hle) hcount

/-- **What an edit leaves** of a pool that is in order: some pairs are out of the chain, the others
are in it in any order, and some nodes may have come in front of them. -/
theorem edited (hp : p.Valid c) (ht : ∀ y, Threaded (c.log y) (t y))
    (hheap : p.heap = c.threadedHeap t) (hperm : (c.residents kind).Perm (dead ++ ys))
    (hextra : extra.map Prod.fst = fresh) (hroot : q.root = p.root.setChain kind (fresh ++ nodes ys))
    (hleft : q.heap = extra + (chain kind before ys none + c.threadedOthers t kind))
    (hlinked : q.Linked kind none (fresh ++ nodes ys)) :
    p.Edited kind (fresh ++ nodes ys) (dead.flatMap Resident.handles) q := by
  have hchain : chain kind before ys none ≤ q.heap := by
    rw [hleft]
    exact (Multiset.le_add_right _ _).trans (Multiset.le_add_left _ _)
  have hothers : c.threadedOthers t kind ≤ q.heap := by
    rw [hleft]
    exact (Multiset.le_add_left _ _).trans (Multiset.le_add_left _ _)
  have hformed := formed_of_edit hextra hleft hroot hlinked
  have hother : ∀ kind', kind' ≠ kind → q.Formed kind' (nodes (c.residents kind')) :=
    fun kind' hkind => hp.formed_of_ne hroot ((c.chain_le_threadedOthers t hkind).trans hothers) hkind
  have hobject : ∀ h, h ∉ fresh ++ nodes ys →
      q.object? h = if h ∈ dead.flatMap Resident.handles then none else p.object? h := fun h hh =>
    object?_of_edit hheap hperm hextra hleft hh
  constructor
  case forward => exact hformed.walk_forward
  case strict => exact strictWalk_eq_ok_iff.2 hformed
  case count => exact hformed.length.symm
  case backward =>
    -- Whichever chain it is, the entry store is formed.
    have hentries : ∃ hs', q.Formed .entries hs' := by
      by_cases hkind : ChainKind.entries = kind
      · exact ⟨_, hkind ▸ hformed⟩
      · exact ⟨_, hother .entries hkind⟩
    obtain ⟨hs', hf⟩ := hentries
    rw [hf.walk_backward, hf.walk_forward]
  case other =>
    intro kind' hkind
    have hf := hother kind' hkind
    have hf' := hp.formed kind'
    rw [hf.walk_forward, hf'.walk_forward, strictWalk_eq_ok_iff.2 hf, strictWalk_eq_ok_iff.2 hf']
    exact ⟨rfl, rfl⟩
  case pending => exact hp.pending_of_le ht hroot hothers
  case root => exact hroot
  case object? => exact hobject
  case entry =>
    intro h e he hgone
    have hsome := mem_heap.1 (entry_eq_ok_iff.1 he)
    by_cases hh : h ∈ fresh ++ nodes ys
    · rcases List.mem_append.1 hh with hfresh | hys
      · have hnone := object?_of_fresh hheap hperm hextra hleft hformed.nodup hfresh hgone
        exact absurd (hsome.symm.trans hnone) (Option.some_ne_none _)
      · -- A node that stays is that of the same pair as before.
        obtain ⟨y, hy, rfl⟩ := List.mem_map.1 hys
        have hy' : y ∈ c.residents kind := hperm.mem_iff.2 (List.mem_append_right _ hy)
        exact exists_relinked (hp.chain_le kind) hy' hchain hy he
    · refine ⟨e.prev, e.next, entry_eq_ok_iff.2 (mem_heap.2 ?_)⟩
      rw [hobject h hh, if_neg hgone]
      exact hsome

/-- What is seen of a pool is one of its chains and everything else. -/
theorem view_eq_chain (hp : p.Valid c) (hheap : p.heap = c.threadedHeap t) (kind : ChainKind)
    (room : Nat) : (⟨room, p.root, p.heap⟩ : View) =
      ⟨room, c.root.setChain kind (nodes (c.residents kind)),
        chain kind none (c.residents kind) none + c.threadedOthers t kind⟩ :=
  View.ext rfl (hp.root.trans (c.root_eq_setChain kind)) (hheap.trans (c.threadedHeap_eq_chain t kind))

/-- **An edit of one chain in a transaction of its own**, which takes some pairs out and leaves the others
in any order. -/
theorem performs_edit {tx : Tx Unit} (hp : p.Valid c) (htx : tx.Stepwise) (hfrugal : tx.Frugal)
    (hperm : (c.residents kind).Perm (dead ++ ys))
    (ht : ∀ E m, Yields E
      ⟨0, c.root.setChain kind (nodes (c.residents kind)), chain kind none (c.residents kind) none + m⟩
      tx () ⟨0, c.root.setChain kind (nodes ys), chain kind none ys none + m⟩) :
    p.Performs 0 tx fun _ q =>
      p.Edited kind (nodes ys) (dead.flatMap Resident.handles) q ∧ q.Valid (c.setResidents kind ys) := by
  obtain ⟨t, hthreaded, hheap⟩ := hp.exists_heap_eq
  have hyields : ∀ E, Yields E ⟨0, p.root, p.heap⟩ tx ()
      ⟨0, c.root.setChain kind (nodes ys), chain kind none ys none + c.threadedOthers t kind⟩ := by
    intro E
    rw [hp.view_eq_chain hheap kind 0]
    exact ht E _
  obtain ⟨hcommits, hcommitted⟩ := transaction_of_yields htx hfrugal hyields
  refine ⟨fun hu _ => ⟨(), hcommits hu⟩, fun _ q hq => ?_⟩
  obtain ⟨-, hroot, hleft⟩ := hcommitted () q hq
  constructor
  · have hchain : chain kind none ys none ≤ q.heap := hleft ▸ Multiset.le_add_right _ _
    exact hp.edited hthreaded hheap hperm (Multiset.map_zero _) (hroot.trans (by rw [hp.root]; rfl))
      (hleft.trans (zero_add _).symm) (linked_of_heap hchain)
  · refine valid_of_heap_eq (hroot.trans (c.root_setResidents kind ys).symm) (t := t) ?_ ?_
    · cases kind <;> exact hthreaded
    · rw [hleft, Contents.threadedHeap_eq_chain _ t kind, c.residents_setResidents,
        c.threadedOthers_setResidents]

variable {l r : List Resident} {x : Resident}

/-- **A pair of the entry store is moved to its front.** -/
theorem performs_promote (hp : p.Valid c) (hc : c.entries = l ++ x :: r) :
    p.Performs 0 (EntryStore.promote x.node) fun _ q =>
      p.Edited .entries (x.node :: nodes (l ++ r)) [] q ∧
        q.Valid { c with entries := x :: (l ++ r) } := by
  have hperm : (c.residents .entries).Perm ([] ++ x :: (l ++ r)) :=
    (List.Perm.of_eq hc).trans List.perm_middle
  refine hp.performs_edit (EntryStore.stepwise_promote _) (EntryStore.frugal_promote _) hperm
    fun E m => ?_
  rw [show c.residents .entries = l ++ x :: r from hc]
  exact yields_promote_counted

/-- **A pair leaves the entry store**, and goes with its key and its value. -/
theorem performs_remove (hp : p.Valid c) (hc : c.entries = l ++ x :: r) :
    p.Performs 0 (EntryStore.remove x.node) fun _ q =>
      p.Edited .entries (nodes (l ++ r)) x.handles q ∧ q.Valid { c with entries := l ++ r } := by
  have hperm : (c.residents .entries).Perm ([x] ++ (l ++ r)) :=
    (List.Perm.of_eq hc).trans List.perm_middle
  refine hp.performs_edit (EntryStore.stepwise_remove _) (EntryStore.frugal_remove _) hperm
    fun E m => ?_
  rw [show c.residents .entries = l ++ x :: r from hc]
  exact yields_remove_chain

/-- **A pair leaves the victim pipeline**, and goes with its key and its value. -/
theorem performs_removeVictim (hp : p.Valid c) (hc : c.victims = l ++ x :: r) :
    p.Performs 0 (VictimPipeline.remove x.node) fun _ q =>
      p.Edited .victims (nodes (l ++ r)) x.handles q ∧ q.Valid { c with victims := l ++ r } := by
  have hperm : (c.residents .victims).Perm ([x] ++ (l ++ r)) :=
    (List.Perm.of_eq hc).trans List.perm_middle
  refine hp.performs_edit (VictimPipeline.stepwise_remove _) (VictimPipeline.frugal_remove _) hperm
    fun E m => ?_
  rw [show c.residents .victims = l ++ x :: r from hc]
  exact yields_removeVictim_chain

/-! ## New nodes -/

variable {k v n : Handle} {key value : Bytes}

/-- **A new node comes in front of the entry store.** Its key and its value may be anything. -/
theorem performs_insertFront (hp : p.Valid c) (hfree : p.Vacant (p.free.take 1)) :
    p.Performs 1 (EntryStore.insertFront k v) fun n q => p.object? n = none ∧
      q.entry n = .ok { key := k, value := v, next := (nodes c.entries).head? } ∧
      p.Edited .entries (n :: nodes c.entries) [] q := by
  obtain ⟨t, ht, hheap⟩ := hp.exists_heap_eq
  have hinsert := performs
    (Q := fun n r m => r = c.root.setChain .entries (n :: nodes c.entries) ∧
      m = cell n (.entry { key := k, value := v, next := firstOf (nodes c.entries) none }) +
        (chain .entries (some n) c.entries none + c.threadedOthers t .entries))
    (EntryStore.stepwise_insertFront k v) (EntryStore.sparing_insertFront k v) hfree fun E => by
      rw [hp.view_eq_chain hheap .entries 1]
      exact triple_insertFront_chain.mono fun n s hs => ⟨hs.root, hs.heap⟩
  -- The pool afterwards is known by its root and its heap; the rest is read off these.
  refine hinsert.mono fun n q _ hq => ?_
  obtain ⟨hroot, hleft⟩ := hq
  have hentry : q.entry n = .ok { key := k, value := v, next := (nodes c.entries).head? } := by
    rw [← firstOf_none]
    exact entry_eq_ok_iff.2 (hleft ▸ Multiset.mem_add.2 (.inl (mem_cell.2 rfl)))
  have hrest : chain .entries (some n) c.entries none ≤ q.heap := by
    rw [hleft]
    exact (Multiset.le_add_right _ _).trans (Multiset.le_add_left _ _)
  have hlinked : q.Linked .entries none ([n] ++ nodes c.entries) :=
    ⟨⟨_, hentry, rfl, rfl, rfl⟩, linked_of_heap hrest⟩
  refine ⟨?_, hentry, ?_⟩
  · -- The other objects have the handles they had, so none of them had this one.
    have hkeys : q.heap.map Prod.fst = {n} + p.heap.map Prod.fst := by
      rw [hleft, hheap, c.threadedHeap_eq_chain t .entries]
      simp only [Multiset.map_add, map_cell, map_chain]
      rfl
    exact object?_eq_none_of_keys hkeys (Multiset.mem_singleton_self n)
  · have hperm : (c.residents .entries).Perm ([] ++ c.entries) := List.Perm.refl _
    have hnew : (cell n (.entry { key := k, value := v, next := firstOf (nodes c.entries) none })).map
        Prod.fst = ([n] : List Handle) := map_cell _ _ _
    exact hp.edited ht hheap hperm hnew (hroot.trans (by rw [hp.root]; rfl)) hleft hlinked

/-- **A new pair comes in front of the entry store**, and nothing but the links of the entry store
changes besides. -/
theorem performs_insertNew (hp : p.Valid c) (hfree : p.Vacant (p.free.take 3)) :
    p.Performs 3 (Tier.insertNew key value) fun n q => ∃ x : Resident, x.node = n ∧ x.key = key ∧
      x.value = value ∧ (∀ h ∈ x.handles, p.object? h = none) ∧
      q.Valid { c with entries := x :: c.entries } ∧
      ∀ h, h ∉ x.handles → h ∉ nodes c.entries → q.object? h = p.object? h := by
  obtain ⟨t, ht, hheap⟩ := hp.exists_heap_eq
  have hinsert := performs
    (Q := fun n r m => ∃ x : Resident, x.node = n ∧ x.key = key ∧ x.value = value ∧
      r = c.root.setChain .entries (nodes (x :: c.entries)) ∧
      m = chain .entries none (x :: c.entries) none + c.threadedOthers t .entries)
    (Tier.stepwise_insertNew key value) (Tier.sparing_insertNew key value) hfree fun E => by
      rw [hp.view_eq_chain hheap .entries 3]
      refine (Tier.triple_insertNew_chain key value).mono fun n s hs => ?_
      obtain ⟨x, hnode, hkey, hvalue, hs⟩ := hs
      exact ⟨x, hnode, hkey, hvalue, hs.root, hs.heap⟩
  refine hinsert.mono fun n q _ hq => ?_
  obtain ⟨x, hnode, hkey, hvalue, hroot, hleft⟩ := hq
  refine ⟨x, hnode, hkey, hvalue, ?_, ?_, ?_⟩
  · have hkeys : q.heap.map Prod.fst = (x.handles : Multiset Handle) + p.heap.map Prod.fst := by
      rw [hleft, hheap, c.threadedHeap_eq_chain t .entries]
      simp only [Multiset.map_add, map_chain, List.flatMap_cons, ← Multiset.coe_add, add_assoc]
      rfl
    exact fun h hh => object?_eq_none_of_keys hkeys (Multiset.mem_coe.2 hh)
  · exact valid_of_heap_eq (hroot.trans (c.root_setResidents .entries _).symm) ht
      (hleft.trans (Contents.threadedHeap_eq_chain { c with entries := x :: c.entries } t .entries).symm)
  · -- The objects of the new pair have come in, and nothing has gone.
    intro h hx hh
    have hperm : (c.residents .entries).Perm ([] ++ c.entries) := List.Perm.refl _
    have hnew : (x.heap .entries none (firstOf (nodes c.entries) none)).map Prod.fst =
        (x.handles : List Handle) := by
      simpa [chain] using map_chain .entries none (firstOf (nodes c.entries) none) [x]
    have hsplit : q.heap = x.heap .entries none (firstOf (nodes c.entries) none) +
        (chain .entries (some x.node) c.entries none + c.threadedOthers t .entries) := by
      rw [hleft, chain, add_assoc]
    rw [object?_of_edit hheap hperm hnew hsplit (List.mem_append.not.2 (not_or_intro hx hh))]
    exact if_neg List.not_mem_nil

end Valid

/-! ## Fresh nodes -/

/-- If a new object has a handle that names nothing, it takes an empty slot. -/
theorem vacant_of_place {a : Object} {n : Handle} (hplace : p.place a = .ok (n, q))
    (hn : p.object? n = none) : p.Vacant (p.free.take 1) := by
  rcases place_cases hplace with ⟨free, -, hfree, hslot, -⟩ | ⟨hfree, -⟩
  · have hlt := lt_size_of_slotIndex? hslot
    rw [object?, hslot] at hn
    have hempty : p.slots[n.offset.toNat - 1]? = some none := by
      simpa [hlt] using hn
    rw [hfree, List.take_one, List.head?_cons, Option.toList_some]
    refine ⟨List.nodup_singleton _, fun o ho => ?_⟩
    obtain rfl := List.mem_singleton.1 ho
    exact ⟨(slotIndex?_eq_some_iff.1 hslot).2.1, hempty⟩
  · rw [hfree, List.take_nil]
    exact ⟨List.nodup_nil, by simp⟩

/-- The node that is inserted is the object that is placed. -/
theorem exists_place_of_insertFront {k v n : Handle}
    (h : p.transaction (EntryStore.insertFront k v) = (.ok n, q)) :
    ∃ budget q', ({ p with writeBudget := budget } : Pool).place (.entry { key := k, value := v }) =
      .ok (n, q') := by
  obtain ⟨s, -, hrun, -⟩ := exists_run_of_transaction_ok h
  simp only [EntryStore.insertFront, EStateM.run_bind] at hrun
  cases ha : (alloc (.entry { key := k, value := v })).run { pool := p } with
  | error e s' => simp [ha] at hrun
  | ok n' s' =>
    obtain ⟨budget, q', hplace, -⟩ := Scope.exists_place_of_alloc ha
    rw [ha] at hrun
    simp only at hrun
    split at hrun
    · split at hrun
      · obtain ⟨rfl, -⟩ := EStateM.Result.ok.inj hrun
        exact ⟨budget, q', hplace⟩
      · cases hrun
    · cases hrun

/-! ## All of it -/

/-- **Edits of a chain are edits of a list.** In a pool that is in order, a new node comes in front of
the entry store, if its handle is that of no object. By its position, a pair of the entry store is moved
to the front, or leaves the store, and a victim leaves the pipeline. What leaves a chain is gone with
its key and its value. Each edit succeeds unless something is in the way of writes. -/
theorem chain_edits (p : Pool) (c : Contents) (hp : p.Valid c) :
    (∀ k v, (p.Vacant (p.free.take 1) → p.Unhindered → p.slots.size + 1 ≤ maxSlots →
          ∃ n q, p.transaction (EntryStore.insertFront k v) = (.ok n, q) ∧ p.object? n = none) ∧
        ∀ n q, p.transaction (EntryStore.insertFront k v) = (.ok n, q) → p.object? n = none →
          q.entry n = .ok { key := k, value := v, next := (nodes c.entries).head? } ∧
            p.Edited .entries (n :: nodes c.entries) [] q) ∧
      (∀ key value, p.Vacant (p.free.take 3) →
        p.Performs 3 (Tier.insertNew key value) fun n q => ∃ x : Resident, x.node = n ∧ x.key = key ∧
          x.value = value ∧ (∀ h ∈ x.handles, p.object? h = none) ∧
          q.Valid { c with entries := x :: c.entries } ∧
          ∀ h, h ∉ x.handles → h ∉ nodes c.entries → q.object? h = p.object? h) ∧
      (∀ i (hi : i < c.entries.length),
        (p.Performs 0 (EntryStore.promote c.entries[i].node) fun _ q =>
          p.Edited .entries (c.entries[i].node :: nodes (c.entries.eraseIdx i)) [] q ∧
            q.Valid { c with entries := c.entries[i] :: c.entries.eraseIdx i }) ∧
        p.Performs 0 (EntryStore.remove c.entries[i].node) fun _ q =>
          p.Edited .entries (nodes (c.entries.eraseIdx i)) c.entries[i].handles q ∧
            q.Valid { c with entries := c.entries.eraseIdx i }) ∧
      ∀ j (hj : j < c.victims.length),
        p.Performs 0 (VictimPipeline.remove c.victims[j].node) fun _ q =>
          p.Edited .victims (nodes (c.victims.eraseIdx j)) c.victims[j].handles q ∧
            q.Valid { c with victims := c.victims.eraseIdx j } := by
  have hcut : ∀ (xs : List Resident) i (hi : i < xs.length),
      xs = xs.take i ++ xs[i] :: xs.drop (i + 1) := fun xs i hi => by
    rw [List.getElem_cons_drop, List.take_append_drop]
  refine ⟨fun k v => ⟨fun hfree hu hroom => ?_, fun n q hq hn => ?_⟩, fun key value hfree => ?_,
    fun i hi => ?_, fun j hj => ?_⟩
  · have hinsert := hp.performs_insertFront (k := k) (v := v) hfree
    obtain ⟨n, q, hq⟩ := hinsert.succeeds hu hroom
    exact ⟨n, q, hq, (hinsert.post n q hq).1⟩
  · obtain ⟨budget, q', hplace⟩ := exists_place_of_insertFront hq
    have hfree : p.Vacant (p.free.take 1) := (vacant_of_place hplace hn).of_slots fun _ _ => rfl
    exact ((hp.performs_insertFront hfree).post n q hq).2
  · exact hp.performs_insertNew hfree
  · rw [List.eraseIdx_eq_take_drop_succ]
    exact ⟨hp.performs_promote (hcut c.entries i hi), hp.performs_remove (hcut c.entries i hi)⟩
  · rw [List.eraseIdx_eq_take_drop_succ]
    exact hp.performs_removeVictim (hcut c.victims j hj)

/-- Three pairs in the entry store, and a victim. -/
def crowded : Pool where
  id := 9
  root := {
    entryFirst := some ⟨9, 1⟩
    entryLast := some ⟨9, 7⟩
    victimFirst := some ⟨9, 10⟩
    entryCount := 3
    victimCount := 1 }
  slots := #[
    some (.entry ⟨⟨9, 2⟩, ⟨9, 3⟩, some ⟨9, 4⟩, none, .entries⟩), some (.payload [1]), some (.payload [10]),
    some (.entry ⟨⟨9, 5⟩, ⟨9, 6⟩, some ⟨9, 7⟩, some ⟨9, 1⟩, .entries⟩), some (.payload [2]),
      some (.payload [20]),
    some (.entry ⟨⟨9, 8⟩, ⟨9, 9⟩, none, some ⟨9, 4⟩, .entries⟩), some (.payload [3]),
      some (.payload [30]),
    some (.entry ⟨⟨9, 11⟩, ⟨9, 12⟩, none, none, .victims⟩), some (.payload [4]), some (.payload [40])]

/-- The lists of the pool. -/
def crowdedContents : Contents where
  entries := [⟨⟨9, 1⟩, ⟨9, 2⟩, ⟨9, 3⟩, [1], [10]⟩, ⟨⟨9, 4⟩, ⟨9, 5⟩, ⟨9, 6⟩, [2], [20]⟩,
    ⟨⟨9, 7⟩, ⟨9, 8⟩, ⟨9, 9⟩, [3], [30]⟩]
  victims := [⟨⟨9, 10⟩, ⟨9, 11⟩, ⟨9, 12⟩, [4], [40]⟩]

/-- The middle pair is moved to the front or removed, the victim is removed, and a node is inserted. -/
theorem chain_edits_crowded : crowded.Valid crowdedContents ∧ crowded.Unhindered ∧
    crowded.Vacant (crowded.free.take 1) ∧ crowded.slots.size + 1 ≤ maxSlots ∧
    (∃ n q, crowded.transaction (EntryStore.insertFront ⟨9, 2⟩ ⟨9, 3⟩) = (.ok n, q) ∧
      crowded.Edited .entries (n :: nodes crowdedContents.entries) [] q) ∧
    (∃ q, crowded.transaction (EntryStore.promote ⟨9, 4⟩) = (.ok (), q) ∧
      crowded.Edited .entries [⟨9, 4⟩, ⟨9, 1⟩, ⟨9, 7⟩] [] q) ∧
    (∃ q, crowded.transaction (EntryStore.remove ⟨9, 4⟩) = (.ok (), q) ∧
      crowded.Edited .entries [⟨9, 1⟩, ⟨9, 7⟩] [⟨9, 4⟩, ⟨9, 5⟩, ⟨9, 6⟩] q) ∧
    ∃ q, crowded.transaction (VictimPipeline.remove ⟨9, 10⟩) = (.ok (), q) ∧
      crowded.Edited .victims [] [⟨9, 10⟩, ⟨9, 11⟩, ⟨9, 12⟩] q := by
  have hp : crowded.Valid crowdedContents :=
    valid_of_heap_eq (t := fun _ => 0) rfl (fun _ => .nil) rfl
  have hu : crowded.Unhindered := ⟨rfl, by simp [crowded], by simp [crowded]⟩
  have hfree : crowded.Vacant (crowded.free.take 1) := ⟨List.nodup_nil, by simp [crowded]⟩
  have hroom : crowded.slots.size + 1 ≤ maxSlots := by decide
  obtain ⟨hinsert, -, hentries, hvictims⟩ := chain_edits crowded crowdedContents hp
  obtain ⟨hpromote, hremove⟩ := hentries 1 (by decide)
  have hvictim := hvictims 0 (by decide)
  refine ⟨hp, hu, hfree, hroom, ?_, ?_, ?_, ?_⟩
  · obtain ⟨n, q, hq, hn⟩ := (hinsert ⟨9, 2⟩ ⟨9, 3⟩).1 hfree hu hroom
    exact ⟨n, q, hq, ((hinsert ⟨9, 2⟩ ⟨9, 3⟩).2 n q hq hn).2⟩
  · obtain ⟨⟨⟩, q, hq⟩ := hpromote.succeeds hu crowded.size_le
    exact ⟨q, hq, (hpromote.post () q hq).1⟩
  · obtain ⟨⟨⟩, q, hq⟩ := hremove.succeeds hu crowded.size_le
    exact ⟨q, hq, (hremove.post () q hq).1⟩
  · obtain ⟨⟨⟩, q, hq⟩ := hvictim.succeeds hu crowded.size_le
    exact ⟨q, hq, (hvictim.post () q hq).1⟩

end Pool

end PersistentTier
