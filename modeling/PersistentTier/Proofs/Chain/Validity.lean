import PersistentTier.Proofs.Chain.Reading

/-!
# Pools that are in order

Whether a pool is in order is told by reading it: every node of the four lists has the links of its
place, every payload can be read and belongs to one node, the root counts what is there, and nothing
else is alive. Neither the free list nor what a log node says of the node before it matters.

The heap of such a pool is known. What is read makes up a heap of its own, which is part of that of
the pool, and the number of objects leaves no room for more.

## Main definitions

* `Pool.Valid`: a pool that is in order, read as four lists
* `Contents.threadedHeap`: the heap of the lists, with log buffers of which the links back are open

## Main results

* `Pool.Valid.exists_heap_eq`, `Pool.valid_of_heap_eq`: the heap of a pool that is in order
* `Pool.Valid.formed`, `strictWalk_eq`, `pair_eq`, `pending_eq`: what is read from it
* `Pool.Holds.valid`: what operations leave behind is in order
-/

namespace PersistentTier

open Pool

/-- **A pool that is in order.** The entry store and the victim pipeline are linked in both directions
and tagged, the log buffers are linked in one, the root has their ends and their lengths, every
payload is readable and owned by one node, and there are no other objects. -/
structure Pool.Valid (p : Pool) (c : Contents) : Prop where
  root : p.root = c.root
  node : ∀ kind l x r, c.residents kind = l ++ x :: r →
    p.entry x.node = .ok (x.entry kind (lastOf none (nodes l)) (firstOf (nodes r) none))
  payloads : ∀ kind, ∀ x ∈ c.residents kind,
    p.bytes x.keyHandle = .ok x.key ∧ p.bytes x.valueHandle = .ok x.value
  logNode : ∀ buffer l x r, c.log buffer = l ++ x :: r →
    ∃ prev, p.logNode x.node = .ok (x.entry prev (firstOf (logNodes r) none))
  command : ∀ buffer, ∀ x ∈ c.log buffer, p.bytes x.payload = .ok x.command
  owned : c.handles.Nodup
  live : p.stats.liveObjects = c.handles.length

/-- The heap of the lists of some contents, of which the log buffers have the heaps `t`. -/
def Contents.threadedHeap (c : Contents) (t : Buffer → Heap) : Heap :=
  chain .entries none c.entries none + chain .victims none c.victims none + (t .a + t .b)

section Lists

variable {p : Pool} {kind : ChainKind} {xs : List Resident} {ys : List Logged}

/-- Nodes that are read one by one are a chain in the heap. -/
theorem Pool.chain_subset {before after : Option Handle}
    (hnode : ∀ l x r, xs = l ++ x :: r →
      p.entry x.node = .ok (x.entry kind (lastOf before (nodes l)) (firstOf (nodes r) after)))
    (hpayloads : ∀ x ∈ xs, p.bytes x.keyHandle = .ok x.key ∧ p.bytes x.valueHandle = .ok x.value) :
    chain kind before xs after ⊆ p.heap := by
  induction xs generalizing before with
  | nil => exact Multiset.zero_subset _
  | cons x xs ih =>
    have hfirst : x.heap kind before (firstOf (nodes xs) after) ⊆ p.heap := by
      obtain ⟨hkey, hvalue⟩ := hpayloads x List.mem_cons_self
      intro z hz
      simp only [Resident.heap, Resident.payloads, Multiset.mem_add, mem_cell] at hz
      rcases hz with rfl | rfl | rfl
      · exact entry_eq_ok_iff.1 (hnode [] x xs rfl)
      · exact bytes_eq_ok_iff.1 hkey
      · exact bytes_eq_ok_iff.1 hvalue
    have hrest : chain kind (some x.node) xs after ⊆ p.heap :=
      ih (fun l y r hxs => hnode (x :: l) y r (by rw [hxs]; rfl))
        fun y hy => hpayloads y (List.mem_cons_of_mem _ hy)
    exact fun z hz => (Multiset.mem_add.1 hz).elim (@hfirst z) (@hrest z)

/-- Log nodes that are read one by one are a log buffer in the heap. -/
theorem Pool.exists_threaded
    (hnode : ∀ l x r, ys = l ++ x :: r →
      ∃ prev, p.logNode x.node = .ok (x.entry prev (firstOf (logNodes r) none)))
    (hcommand : ∀ x ∈ ys, p.bytes x.payload = .ok x.command) :
    ∃ m, Threaded ys m ∧ m ⊆ p.heap := by
  induction ys with
  | nil => exact ⟨0, .nil, Multiset.zero_subset _⟩
  | cons x ys ih =>
    obtain ⟨m, hm, hsub⟩ := ih (fun l y r hys => hnode (x :: l) y r (by rw [hys]; rfl))
      fun y hy => hcommand y (List.mem_cons_of_mem _ hy)
    obtain ⟨prev, hx⟩ := hnode [] x ys rfl
    refine ⟨_, .cons prev hm, fun z hz => ?_⟩
    simp only [Logged.heap, Multiset.mem_add, mem_cell] at hz
    rcases hz with (rfl | rfl) | hz
    · exact logNode_eq_ok_iff.1 hx
    · exact bytes_eq_ok_iff.1 (hcommand x List.mem_cons_self)
    · exact hsub hz

end Lists

namespace Contents

variable (c : Contents) {t : Buffer → Heap}

theorem map_threadedHeap (ht : ∀ y, Threaded (c.log y) (t y)) :
    (c.threadedHeap t).map Prod.fst = c.handles := by
  simp only [threadedHeap, handles, Multiset.map_add, map_chain, (ht _).map_eq,
    ← Multiset.coe_add, add_assoc]

theorem card_threadedHeap (ht : ∀ y, Threaded (c.log y) (t y)) :
    (c.threadedHeap t).card = 3 * (c.entries.length + c.victims.length) +
      2 * ((c.log .a).length + (c.log .b).length) := by
  simp only [threadedHeap, Multiset.card_add, card_chain, (ht _).card_eq]
  omega

/-- A key/value node is one of the chain that it is tagged with. -/
theorem mem_threadedHeap_entry (ht : ∀ y, Threaded (c.log y) (t y)) {h : Handle} {e : EntryNode}
    (hm : (h, .entry e) ∈ c.threadedHeap t) : h ∈ nodes (c.residents e.chain) := by
  simp only [threadedHeap, Multiset.mem_add, (ht _).not_mem_entry, or_false] at hm
  rcases hm with hm | hm
  · obtain ⟨hkind, l, x, r, hl, rfl⟩ := mem_chain_entry hm
    simp [hkind, residents, hl]
  · obtain ⟨hkind, l, x, r, hl, rfl⟩ := mem_chain_entry hm
    simp [hkind, residents, hl]

/-- The log buffers in either order. -/
theorem threadedHeap_eq (x : Buffer) : c.threadedHeap t =
    chain .entries none c.entries none + chain .victims none c.victims none +
      (t x + t x.flipped) := by
  cases x with
  | a => rfl
  | b => rw [threadedHeap, add_comm (t .a)]; rfl

end Contents

namespace Pool.Valid

variable {p : Pool} {c : Contents}

/-- **The heap of a pool that is in order** is that of its lists. -/
theorem exists_heap_eq (hp : p.Valid c) :
    ∃ t : Buffer → Heap, (∀ y, Threaded (c.log y) (t y)) ∧ p.heap = c.threadedHeap t := by
  have hlogs : ∀ y, ∃ m, Threaded (c.log y) m ∧ m ⊆ p.heap := fun y =>
    exists_threaded (hp.logNode y) (hp.command y)
  choose t ht hsub using hlogs
  refine ⟨t, ht, ?_⟩
  have hchain : ∀ kind, chain kind none (c.residents kind) none ⊆ p.heap := fun kind =>
    chain_subset (hp.node kind) (hp.payloads kind)
  have hsubset : c.threadedHeap t ⊆ p.heap := by
    intro z hz
    simp only [Contents.threadedHeap, Multiset.mem_add] at hz
    rcases hz with (hz | hz) | hz | hz
    · exact hchain .entries hz
    · exact hchain .victims hz
    · exact hsub .a hz
    · exact hsub .b hz
  have hnodup : (c.threadedHeap t).Nodup := by
    refine Multiset.Nodup.of_map Prod.fst ?_
    rw [c.map_threadedHeap ht]
    exact Multiset.coe_nodup.2 hp.owned
  -- All objects that are alive have been read, so there is nothing else in the heap.
  have hcard : p.heap.card ≤ (c.threadedHeap t).card := by
    have hread := congrArg Multiset.card (c.map_threadedHeap ht)
    rw [Multiset.card_map, Multiset.coe_card] at hread
    have hlive : p.heap.card = c.handles.length := p.card_heap.trans hp.live
    omega
  exact (Multiset.eq_of_le_of_card_le ((Multiset.le_iff_subset hnodup).2 hsubset) hcard).symm

end Pool.Valid

section Heaps

variable {p : Pool} {c : Contents} {t : Buffer → Heap}

theorem Pool.chain_le_of_heap_eq (hheap : p.heap = c.threadedHeap t) (kind : ChainKind) :
    chain kind none (c.residents kind) none ≤ p.heap := by
  rw [hheap, Contents.threadedHeap]
  cases kind with
  | entries => exact (Multiset.le_add_right _ _).trans (Multiset.le_add_right _ _)
  | victims => exact (Multiset.le_add_left _ _).trans (Multiset.le_add_right _ _)

theorem Pool.log_le_of_heap_eq (hheap : p.heap = c.threadedHeap t) (y : Buffer) : t y ≤ p.heap := by
  rw [hheap, c.threadedHeap_eq y]
  exact (Multiset.le_add_right _ _).trans (Multiset.le_add_left _ _)

/-- **A pool is in order** if its root and its heap are those of the lists. -/
theorem Pool.valid_of_heap_eq (hroot : p.root = c.root) (ht : ∀ y, Threaded (c.log y) (t y))
    (hheap : p.heap = c.threadedHeap t) : p.Valid c where
  root := hroot
  node kind l x r hx := by
    have hle := chain_le_of_heap_eq hheap kind
    rw [hx, chain_append] at hle
    exact (entry_of_chain ((Multiset.le_add_left _ _).trans hle)).1
  payloads kind _ hx := (exists_entry_of_chain (chain_le_of_heap_eq hheap kind) hx).2
  logNode y l x r hl := by
    obtain ⟨⟨prev, hnode⟩, -⟩ := (hl ▸ ht y : Threaded (l ++ x :: r) (t y)).exists_mem
    exact ⟨prev, logNode_eq_ok_iff.2 (Multiset.mem_of_le (log_le_of_heap_eq hheap y) hnode)⟩
  command y x hx := by
    obtain ⟨l, r, hl⟩ := List.append_of_mem hx
    obtain ⟨-, hcommand⟩ := (hl ▸ ht y : Threaded (l ++ x :: r) (t y)).exists_mem
    exact bytes_eq_ok_iff.2 (Multiset.mem_of_le (log_le_of_heap_eq hheap y) hcommand)
  owned := by
    have hnodup := p.nodup_heap
    rw [hheap, c.map_threadedHeap ht] at hnodup
    exact Multiset.coe_nodup.1 hnodup
  live := by
    have hcard := congrArg Multiset.card (c.map_threadedHeap ht)
    rw [Multiset.card_map, Multiset.coe_card, ← hheap] at hcard
    exact p.card_heap.symm.trans hcard

end Heaps

namespace Pool.Valid

variable {p : Pool} {c : Contents}

/-- The lists are no longer than the arena. -/
theorem length_le (hp : p.Valid c) : 3 * (c.entries.length + c.victims.length) +
    2 * ((c.log .a).length + (c.log .b).length) ≤ maxSlots := by
  obtain ⟨t, ht, hheap⟩ := hp.exists_heap_eq
  rw [← c.card_threadedHeap ht, ← hheap]
  exact p.card_heap_le.trans p.size_le

/-- The counters of the root do not wrap around. -/
theorem length_lt (hp : p.Valid c) : c.entries.length < 2 ^ 64 ∧ c.victims.length < 2 ^ 64 ∧
    (c.log .a).length + (c.log .b).length < 2 ^ 64 := by
  have hbound : maxSlots < 2 ^ 64 := by decide
  have hlength := hp.length_le
  omega

theorem chain_le (hp : p.Valid c) (kind : ChainKind) :
    chain kind none (c.residents kind) none ≤ p.heap := by
  obtain ⟨t, -, hheap⟩ := hp.exists_heap_eq
  exact chain_le_of_heap_eq hheap kind

theorem recordedLength_eq (hp : p.Valid c) (kind : ChainKind) :
    (p.root.recordedLength kind).toNat = (c.residents kind).length := by
  rw [hp.root, Contents.recordedLength_root hp.length_lt]

/-- The chains are much shorter than memory. -/
theorem recordedLength_le (hp : p.Valid c) (kind : ChainKind) :
    3 * (p.root.recordedLength kind).toNat ≤ maxSlots := by
  have hlength := hp.length_le
  rw [hp.recordedLength_eq kind]
  cases kind <;> simp only [Contents.residents] <;> omega

/-- Both chains together are much shorter than memory. -/
theorem count_le (hp : p.Valid c) :
    3 * (p.root.entryCount.toNat + p.root.victimCount.toNat) ≤ maxSlots := by
  have hlength := hp.length_le
  have hentries : p.root.entryCount.toNat = c.entries.length := hp.recordedLength_eq .entries
  have hvictims : p.root.victimCount.toNat = c.victims.length := hp.recordedLength_eq .victims
  omega

theorem logCount_eq (hp : p.Valid c) :
    p.root.logCount.toNat = (c.log .a).length + (c.log .b).length := by
  rw [hp.root, Contents.logCount_root hp.length_lt]

/-- **The chains of a pool that is in order are formed.** -/
theorem formed (hp : p.Valid c) (kind : ChainKind) : p.Formed kind (nodes (c.residents kind)) :=
  formed_of_root hp.root hp.length_lt (hp.chain_le kind)

/-- **The strict walk** finds nothing to object to. -/
theorem strictWalk_eq (hp : p.Valid c) (kind : ChainKind) :
    p.strictWalk kind = .ok (nodes (c.residents kind)) :=
  strictWalk_eq_ok_iff.2 (hp.formed kind)

/-- **Every pair is read.** -/
theorem pair_eq (hp : p.Valid c) (kind : ChainKind) {x : Resident} (hx : x ∈ c.residents kind) :
    p.pair x.node = .ok (x.key, x.value) := pair_of_chain (hp.chain_le kind) hx

theorem bufferHead_eq (hp : p.Valid c) (y : Buffer) :
    p.root.bufferHead y = firstOf (logNodes (c.log y)) none := by
  rw [hp.root]
  cases y <;> rfl

/-- **The commands of a log buffer** are read, oldest first. -/
theorem pending_eq (hp : p.Valid c) (y : Buffer) :
    LogBuffer.pending p (p.root.bufferHead y) = .ok ((c.log y).reverse.map Logged.command) := by
  obtain ⟨t, ht, hheap⟩ := hp.exists_heap_eq
  rw [hp.bufferHead_eq]
  refine LogBuffer.pending_of_threaded (ht y) (log_le_of_heap_eq hheap y) ?_
  rw [hp.logCount_eq]
  cases y <;> simp

end Pool.Valid

/-- **A pool that holds some contents is in order.** -/
theorem Pool.Holds.valid {p : Pool} {c : Contents} (hp : p.Holds c) : p.Valid c :=
  valid_of_heap_eq hp.root (fun y => threaded_logChain none (c.log y)) hp.heap

end PersistentTier
