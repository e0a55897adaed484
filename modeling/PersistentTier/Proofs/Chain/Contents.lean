import PersistentTier.LogBuffer
import PersistentTier.Proofs.Scope.Triple

/-!
# The contents of a pool

Read by following its links, a pool is four lists: the entry store and the victim pipeline with
their pairs, and the two log buffers with their commands. From the lists one can read off the root
and the heap again, down to every link, tag and counter. A pool holds some contents if its root and
its heap are the ones that belong to them; nothing else is in the heap, so nothing has leaked.

## Main definitions

* `Resident`, `Logged`: a pair and a command, with the handles of their objects
* `chain`, `logChain`: the heap of a chain, and of a log buffer
* `Threaded`: the heap of a log buffer whose links back may be anything
* `Contents`, `Contents.root`, `Contents.heap`
* `Pool.Holds`: a pool with given contents

## Main results

* `chain_append`: a chain is cut by the link that joins its halves
* `Contents.mem_heap_entry`: every entry node is one of a list
-/

namespace PersistentTier

open Pool

/-! ## The ends of a list of handles -/

/-- The first of the handles, or `after` if there are none. -/
def firstOf : List Handle → (after : Option Handle) → Option Handle
  | [], after => after
  | h :: _, _ => some h

/-- The last of the handles, or `before` if there are none. -/
def lastOf : (before : Option Handle) → List Handle → Option Handle
  | before, [] => before
  | _, h :: hs => lastOf (some h) hs

@[simp] theorem firstOf_nil (after : Option Handle) : firstOf [] after = after := rfl

@[simp] theorem firstOf_cons (h : Handle) (hs : List Handle) (after : Option Handle) :
    firstOf (h :: hs) after = some h := rfl

@[simp] theorem lastOf_nil (before : Option Handle) : lastOf before [] = before := rfl

@[simp] theorem lastOf_cons (h : Handle) (hs : List Handle) (before : Option Handle) :
    lastOf before (h :: hs) = lastOf (some h) hs := rfl

@[simp] theorem firstOf_append (l r : List Handle) (after : Option Handle) :
    firstOf (l ++ r) after = firstOf l (firstOf r after) := by cases l <;> rfl

@[simp] theorem lastOf_append (l r : List Handle) (before : Option Handle) :
    lastOf before (l ++ r) = lastOf (lastOf before l) r := by
  induction l generalizing before with
  | nil => rfl
  | cons h l ih => exact ih _

theorem firstOf_none (hs : List Handle) : firstOf hs none = hs.head? := by cases hs <;> rfl

theorem lastOf_none (hs : List Handle) : lastOf none hs = hs.getLast? := by
  rcases hs.eq_nil_or_concat with rfl | ⟨hs, h, rfl⟩ <;> simp

/-! ## Pairs and commands -/

/-- A key/value pair in the pool, with the handles of its objects. -/
structure Resident where
  node : Handle
  keyHandle : Handle
  valueHandle : Handle
  key : Bytes
  value : Bytes
  deriving DecidableEq, Inhabited

namespace Resident

variable (x : Resident)

/-- The node of a pair, with a given tag and given links. -/
def entry (chain : ChainKind) (prev next : Option Handle) : EntryNode :=
  { key := x.keyHandle, value := x.valueHandle, next, prev, chain }

/-- The heap of the key and the value of a pair. -/
def payloads : Heap := cell x.keyHandle (.payload x.key) + cell x.valueHandle (.payload x.value)

/-- The heap of a pair whose node has a given tag and given links. -/
def heap (chain : ChainKind) (prev next : Option Handle) : Heap :=
  cell x.node (.entry (x.entry chain prev next)) + x.payloads

/-- The handles of the objects of a pair. -/
def handles : List Handle := [x.node, x.keyHandle, x.valueHandle]

end Resident

/-- The nodes of pairs. -/
abbrev nodes (xs : List Resident) : List Handle := xs.map Resident.node

/-- **The heap of a chain** between two nodes that do not belong to it. -/
def chain (kind : ChainKind) : (before : Option Handle) → List Resident →
    (after : Option Handle) → Heap
  | _, [], _ => 0
  | before, x :: xs, after =>
    x.heap kind before (firstOf (nodes xs) after) + chain kind (some x.node) xs after

/-- A logged command in the pool, with the handles of its objects. -/
structure Logged where
  node : Handle
  payload : Handle
  command : Bytes
  deriving DecidableEq, Inhabited

/-- The nodes of logged commands. -/
abbrev logNodes (xs : List Logged) : List Handle := xs.map Logged.node

/-- The node of a logged command, with given links. -/
def Logged.entry (x : Logged) (prev next : Option Handle) : LogNode :=
  { command := x.payload, next, prev }

/-- The heap of a logged command whose node has given links. -/
def Logged.heap (x : Logged) (prev next : Option Handle) : Heap :=
  cell x.node (.log (x.entry prev next)) + cell x.payload (.payload x.command)

/-- The handles of the objects of a logged command. -/
def Logged.handles (x : Logged) : List Handle := [x.node, x.payload]

/-- The heap of the commands of a log buffer that come after a node. -/
def logChain : (before : Option Handle) → List Logged → Heap
  | _, [] => 0
  | before, x :: xs => x.heap before (firstOf (logNodes xs) none) + logChain (some x.node) xs

/-- **The heap of logged commands** whose links lead from each to the next one. What the links back
say is left open. -/
inductive Threaded : List Logged → Heap → Prop
  | nil : Threaded [] 0
  | cons {x : Logged} {xs : List Logged} {m : Heap} (before : Option Handle) (rest : Threaded xs m) :
    Threaded (x :: xs) (x.heap before (firstOf (logNodes xs) none) + m)

theorem threaded_logChain (before : Option Handle) (xs : List Logged) :
    Threaded xs (logChain before xs) := by
  induction xs generalizing before with
  | nil => exact .nil
  | cons x xs ih => exact .cons before (ih _)

namespace Threaded

variable {xs : List Logged} {m : Heap}

theorem card_eq (h : Threaded xs m) : m.card = 2 * xs.length := by
  induction h with
  | nil => rfl
  | cons before rest ih => simp [Logged.heap, ih]; omega

theorem map_eq (h : Threaded xs m) : m.map Prod.fst = xs.flatMap Logged.handles := by
  induction h with
  | nil => rfl
  | cons before rest ih =>
    simp only [Logged.heap, Multiset.map_add, map_cell, ih]
    rfl

theorem not_mem_entry {h : Handle} {e : EntryNode} (hm : Threaded xs m) : (h, .entry e) ∉ m := by
  induction hm with
  | nil => simp
  | cons before rest ih => simp [Logged.heap, ih]

/-- Every command is there, with a link to the next one. -/
theorem exists_mem {l r : List Logged} {x : Logged} (h : Threaded (l ++ x :: r) m) :
    (∃ prev, (x.node, .log (x.entry prev (firstOf (logNodes r) none))) ∈ m) ∧
      (x.payload, .payload x.command) ∈ m := by
  induction l generalizing m with
  | nil =>
    cases h with
    | cons before rest => exact ⟨⟨before, by simp [Logged.heap]⟩, by simp [Logged.heap]⟩
  | cons y l ih =>
    cases h with
    | cons before rest =>
      obtain ⟨⟨prev, hnode⟩, hcommand⟩ := ih rest
      exact ⟨⟨prev, Multiset.mem_add.2 (.inr hnode)⟩, Multiset.mem_add.2 (.inr hcommand)⟩

end Threaded

section Chains

variable {kind : ChainKind} {before after : Option Handle} {xs : List Resident} {ys : List Logged}

/-- **A chain is cut** by the link that joins its halves. -/
theorem chain_append (kind : ChainKind) (before after : Option Handle) (l r : List Resident) :
    chain kind before (l ++ r) after =
      chain kind before l (firstOf (nodes r) after) +
        chain kind (lastOf before (nodes l)) r after := by
  induction l generalizing before with
  | nil => simp [chain]
  | cons x l ih =>
    simp only [List.cons_append, chain, ih, List.map_append, firstOf_append, List.map_cons,
      lastOf_cons, add_assoc]

theorem card_chain (kind : ChainKind) (before after : Option Handle) (xs : List Resident) :
    (chain kind before xs after).card = 3 * xs.length := by
  induction xs generalizing before with
  | nil => rfl
  | cons x xs ih => simp [chain, Resident.heap, Resident.payloads, ih]; omega

theorem map_chain (kind : ChainKind) (before after : Option Handle) (xs : List Resident) :
    (chain kind before xs after).map Prod.fst = xs.flatMap Resident.handles := by
  induction xs generalizing before with
  | nil => rfl
  | cons x xs ih =>
    simp only [chain, Resident.heap, Resident.payloads, Multiset.map_add, map_cell, ih]
    rfl

theorem card_logChain (before : Option Handle) (xs : List Logged) :
    (logChain before xs).card = 2 * xs.length := (threaded_logChain before xs).card_eq

theorem map_logChain (before : Option Handle) (xs : List Logged) :
    (logChain before xs).map Prod.fst = xs.flatMap Logged.handles :=
  (threaded_logChain before xs).map_eq

theorem sublist_handles_of_nodes (xs : List Resident) :
    (nodes xs).Sublist (xs.flatMap Resident.handles) := by
  induction xs with
  | nil => exact .slnil
  | cons x xs ih => exact (ih.cons _ |>.cons _).cons_cons _

theorem sublist_handles_of_logNodes (xs : List Logged) :
    (logNodes xs).Sublist (xs.flatMap Logged.handles) := by
  induction xs with
  | nil => exact .slnil
  | cons x xs ih => exact (ih.cons _).cons_cons _

/-- A node of a list is that of a pair with some pairs before it and some after it. -/
theorem exists_append_of_mem_nodes {h : Handle} (hh : h ∈ nodes xs) :
    ∃ l x r, xs = l ++ x :: r ∧ x.node = h := by
  obtain ⟨x, hx, rfl⟩ := List.mem_map.1 hh
  obtain ⟨l, r, rfl⟩ := List.append_of_mem hx
  exact ⟨l, x, r, rfl, rfl⟩

/-- A node in the heap of a chain is one of the list. -/
theorem mem_chain_entry {h : Handle} {e : EntryNode} (hm : (h, .entry e) ∈ chain kind before xs after) :
    e.chain = kind ∧ ∃ l x r, xs = l ++ x :: r ∧ x.node = h := by
  induction xs generalizing before with
  | nil => simp [chain] at hm
  | cons x xs ih =>
    rw [chain, Multiset.mem_add] at hm
    rcases hm with hm | hm
    -- It is the first node: what comes before it is empty.
    · obtain ⟨rfl, rfl⟩ := by simpa [Resident.heap, Resident.payloads] using hm
      exact ⟨rfl, [], x, xs, rfl, rfl⟩
    -- It comes later, so the first node belongs to what comes before it.
    · obtain ⟨hk, l, y, r, rfl, hy⟩ := ih hm
      exact ⟨hk, x :: l, y, r, rfl, hy⟩

theorem not_mem_logChain_entry {h : Handle} {e : EntryNode} : (h, .entry e) ∉ logChain before ys :=
  (threaded_logChain before ys).not_mem_entry

end Chains

/-! ## Contents -/

/-- The four lists of a pool, each in the order of its links. -/
structure Contents where
  entries : List Resident := []
  victims : List Resident := []
  log : Buffer → List Logged := fun _ => []
  active : Buffer := .a
  deriving Inhabited

namespace Contents

variable (c : Contents)

/-- The pairs of a chain. -/
def residents : ChainKind → List Resident
  | .entries => c.entries
  | .victims => c.victims

/-- The contents with other commands in one log buffer. -/
def setLog (buffer : Buffer) (xs : List Logged) : Contents :=
  { c with log := Function.update c.log buffer xs }

/-- A root with the links of the contents. It keeps its counters. -/
def links (r : Root) : Root :=
  { r with
    entryFirst := firstOf (nodes c.entries) none
    entryLast := lastOf none (nodes c.entries)
    victimFirst := firstOf (nodes c.victims) none
    logBufferA := firstOf (logNodes (c.log .a)) none
    logBufferB := firstOf (logNodes (c.log .b)) none
    activeBuffer := c.active }

/-- A root with the counters of the contents. -/
def counters : Root where
  entryCount := UInt64.ofNat c.entries.length
  victimCount := UInt64.ofNat c.victims.length
  logCount := UInt64.ofNat ((c.log .a).length + (c.log .b).length)

/-- **The root that belongs to the contents.** -/
def root : Root := c.links c.counters

theorem first_root (kind : ChainKind) :
    c.root.first kind = firstOf (nodes (c.residents kind)) none := by
  cases kind <;> rfl

section Counters

-- The counters of a root have 64 bits.
variable {c} (hlength : c.entries.length < 2 ^ 64 ∧ c.victims.length < 2 ^ 64 ∧
  (c.log .a).length + (c.log .b).length < 2 ^ 64)
include hlength

theorem recordedLength_root (kind : ChainKind) :
    (c.root.recordedLength kind).toNat = (c.residents kind).length := by
  obtain ⟨hentries, hvictims, -⟩ := hlength
  cases kind with
  | entries => exact UInt64.toNat_ofNat_of_lt' hentries
  | victims => exact UInt64.toNat_ofNat_of_lt' hvictims

theorem logCount_root : c.root.logCount.toNat = (c.log .a).length + (c.log .b).length :=
  UInt64.toNat_ofNat_of_lt' hlength.2.2

end Counters

/-- The heap of the log buffers. -/
def logHeap : Heap := logChain none (c.log .a) + logChain none (c.log .b)

/-- **The heap that belongs to the contents.** -/
def heap : Heap :=
  chain .entries none c.entries none + chain .victims none c.victims none + c.logHeap

theorem card_heap : c.heap.card =
    3 * (c.entries.length + c.victims.length) + 2 * ((c.log .a).length + (c.log .b).length) := by
  simp only [heap, logHeap, Multiset.card_add, card_chain, card_logChain]
  omega

/-- **Every key/value node is one of a list.** -/
theorem mem_heap_entry {h : Handle} {e : EntryNode} (hm : (h, .entry e) ∈ c.heap) :
    ∃ l x r, c.residents e.chain = l ++ x :: r ∧ x.node = h := by
  simp only [heap, logHeap, Multiset.mem_add, not_mem_logChain_entry, or_false] at hm
  rcases hm with hm | hm
  · obtain ⟨hk, hx⟩ := mem_chain_entry hm
    rwa [hk]
  · obtain ⟨hk, hx⟩ := mem_chain_entry hm
    rwa [hk]

/-- The handles of the objects of the contents. -/
def handles : List Handle :=
  c.entries.flatMap Resident.handles ++ c.victims.flatMap Resident.handles
    ++ (c.log .a).flatMap Logged.handles ++ (c.log .b).flatMap Logged.handles

theorem map_heap : c.heap.map Prod.fst = c.handles := by
  simp only [heap, logHeap, handles, Multiset.map_add, map_chain, map_logChain,
    ← Multiset.coe_add, add_assoc]

theorem sublist_handles : (nodes c.entries ++ nodes c.victims).Sublist c.handles := by
  simp only [handles, List.append_assoc]
  refine (sublist_handles_of_nodes _).append ((sublist_handles_of_nodes _).trans ?_)
  exact List.sublist_append_left _ _

theorem sublist_handles_log :
    (logNodes (c.log .a) ++ logNodes (c.log .b)).Sublist c.handles := by
  simp only [handles, List.append_assoc]
  refine (List.Sublist.append (sublist_handles_of_logNodes _) (sublist_handles_of_logNodes _)).trans ?_
  exact (List.sublist_append_right _ _).trans (List.sublist_append_right _ _)

/-- The log buffers in either order. -/
theorem logHeap_eq (x : Buffer) :
    c.logHeap = logChain none (c.log x) + logChain none (c.log x.flipped) := by
  cases x with
  | a => rfl
  | b => exact add_comm _ _

end Contents

/-- **A pool with given contents**, whose free list names vacancies. -/
structure Pool.Holds (p : Pool) (c : Contents) : Prop where
  root : p.root = c.root
  heap : p.heap = c.heap
  vacant : p.Vacant p.free

theorem Pool.holds_empty (id : UInt64) (options : PoolOptions) :
    (Pool.empty id options).Holds {} where
  root := rfl
  heap := rfl
  vacant := ⟨List.nodup_nil, by simp [Pool.empty]⟩

theorem Pool.Holds.padded {p q : Pool} {c : Contents} (hp : p.Holds c) (hpq : Padded p q) :
    q.Holds c := by
  obtain ⟨n, hn⟩ := hpq
  exact ⟨hn.root.trans hp.root, hn.heap_eq.trans hp.heap, hn.vacant_free hp.vacant⟩

end PersistentTier
