import PersistentTier.Eviction
import PersistentTier.Proofs.Chain.Formed
import PersistentTier.Proofs.Log.Recital

/-!
# Reading a pool with known contents

Nothing goes wrong when a pool is read that holds some contents. The walks yield the nodes of the
lists, the lazy ones as well as the strict ones, and every pair and every command can be read.

## Main results

* `Pool.Holds.entry_eq`, `Pool.Holds.pair_eq`: a node, and a pair
* `Pool.Holds.formed`: each chain is what the root records
* `Pool.Holds.walk_forward`, `walk_backward`, `strictWalk_eq`: the walks along a chain
* `Pool.recites_of_threaded`, `Pool.Holds.pending_eq`: the commands of a log buffer
* `Pool.Holds.stepForward_eq`: every position of the entry store is reached
-/

namespace PersistentTier

open Pool

section Heaps

variable {p : Pool} {kind : ChainKind} {before after : Option Handle} {xs : List Resident}
  {ys : List Logged}

/-- The first pair of a chain is read, and the rest of the chain is there. -/
theorem Pool.entry_of_chain {x : Resident} (hp : chain kind before (x :: xs) after ≤ p.heap) :
    p.entry x.node = .ok (x.entry kind before (firstOf (nodes xs) after)) ∧
      chain kind (some x.node) xs after ≤ p.heap :=
  ⟨entry_eq_ok_iff.2 (Multiset.mem_of_le hp (by simp [chain, Resident.heap])),
    (Multiset.le_add_left _ _).trans hp⟩

/-- **The commands of a log buffer** are read to its end, newest first. -/
theorem Pool.recites_of_threaded {m : Heap} (hys : Threaded ys m) (hp : m ≤ p.heap) :
    p.Recites (firstOf (logNodes ys) none) ys := by
  induction hys with
  | nil => exact .nil
  | @cons y ys m before _ ih =>
    have hnode : p.logNode y.node = .ok (y.entry before (firstOf (logNodes ys) none)) :=
      logNode_eq_ok_iff.2 (Multiset.mem_of_le hp (by simp [Logged.heap]))
    have hcommand : p.bytes y.payload = .ok y.command :=
      bytes_eq_ok_iff.2 (Multiset.mem_of_le hp (by simp [Logged.heap]))
    exact .cons hnode hcommand (ih ((Multiset.le_add_left _ _).trans hp))

/-- The commands of a log buffer, oldest first. -/
theorem LogBuffer.pending_of_threaded {m : Heap} (hys : Threaded ys m) (hp : m ≤ p.heap)
    (hcount : ys.length ≤ p.root.logCount.toNat) :
    pending p (firstOf (logNodes ys) none) = .ok (ys.reverse.map Logged.command) :=
  pending_eq_ok_iff.2 ⟨ys, recites_of_threaded hys hp, hcount, rfl⟩

/-- The payloads of a pair of a chain are there. -/
theorem payloads_le_chain {x : Resident} (hx : x ∈ xs) : x.payloads ≤ chain kind before xs after := by
  induction xs generalizing before with
  | nil => simp at hx
  | cons y xs ih =>
    rcases List.mem_cons.1 hx with rfl | hx
    · exact (Multiset.le_add_left _ _).trans (Multiset.le_add_right _ _)
    · exact (ih hx).trans (Multiset.le_add_left _ _)

/-- The nodes of a chain are read, and so are their payloads. -/
theorem Pool.exists_entry_of_chain {x : Resident} (hp : chain kind before xs after ≤ p.heap)
    (hx : x ∈ xs) : (∃ prev next, p.entry x.node = .ok (x.entry kind prev next)) ∧
      p.bytes x.keyHandle = .ok x.key ∧ p.bytes x.valueHandle = .ok x.value := by
  have hpayloads := (payloads_le_chain hx).trans hp
  obtain ⟨l, r, rfl⟩ := List.append_of_mem hx
  rw [chain_append] at hp
  refine ⟨⟨_, _, (entry_of_chain ((Multiset.le_add_left _ _).trans hp)).1⟩, ?_, ?_⟩
  · exact bytes_eq_ok_iff.2 (Multiset.mem_of_le hpayloads (by simp [Resident.payloads]))
  · exact bytes_eq_ok_iff.2 (Multiset.mem_of_le hpayloads (by simp [Resident.payloads]))

/-- **The pairs of a chain are read.** -/
theorem Pool.pair_of_chain {x : Resident} (hp : chain kind before xs after ≤ p.heap) (hx : x ∈ xs) :
    p.pair x.node = .ok (x.key, x.value) := by
  obtain ⟨⟨prev, next, hentry⟩, hkey, hvalue⟩ := exists_entry_of_chain hp hx
  simp [Pool.pair, hentry, Resident.entry, hkey, hvalue, bind, Except.bind, pure, Except.pure]

/-- **A number of steps** along a chain that is longer leads to the node in that place. -/
theorem Policy.stepForward_eq {pick steps : Nat} {recorded : UInt64}
    (hp : chain kind before xs none ≤ p.heap) (hsteps : steps < xs.length) :
    stepForward p pick recorded steps (firstOf (nodes xs) none) = .ok xs[steps].node := by
  -- Induction on the chain: a step uses up one node of it.
  induction xs generalizing before steps with
  | nil => simp at hsteps
  | cons x xs ih =>
    obtain ⟨hx, hrest⟩ := entry_of_chain hp
    cases steps with
    | zero => rfl
    | succ steps =>
      have hstep := ih hrest (show steps < xs.length by simpa using hsteps)
      simp only [List.map_cons, firstOf_cons, stepForward, hx, Resident.entry, hstep]
      rfl

end Heaps

/-! ## Contents -/

/-- **A chain is formed** if it is in the heap and the root is that of the contents. -/
theorem Pool.formed_of_root {p : Pool} {c : Contents} {kind : ChainKind} (hroot : p.root = c.root)
    (hlength : c.entries.length < 2 ^ 64 ∧ c.victims.length < 2 ^ 64 ∧
      (c.log .a).length + (c.log .b).length < 2 ^ 64)
    (hchain : chain kind none (c.residents kind) none ≤ p.heap) :
    p.Formed kind (nodes (c.residents kind)) := by
  apply formed_of_chain hchain
  · rw [hroot, Contents.first_root]
  · rw [hroot, Contents.recordedLength_root hlength]
  · rintro rfl
    rw [hroot]
    rfl

namespace Pool.Holds

variable {p : Pool} {c : Contents}

/-- The lists are no longer than the arena. -/
theorem length_lt (hp : p.Holds c) : c.entries.length < 2 ^ 64 ∧ c.victims.length < 2 ^ 64 ∧
    (c.log .a).length + (c.log .b).length < 2 ^ 64 := by
  have hbound : maxSlots < 2 ^ 64 := by decide
  have hcard := p.card_heap_le.trans p.size_le
  rw [hp.heap, c.card_heap] at hcard
  omega

theorem nodup_handles (hp : p.Holds c) : c.handles.Nodup := by
  have := p.nodup_heap
  rw [hp.heap, c.map_heap] at this
  exact Multiset.coe_nodup.1 this

/-- Each chain is part of the heap. -/
theorem chain_le (hp : p.Holds c) (kind : ChainKind) :
    chain kind none (c.residents kind) none ≤ p.heap := by
  rw [hp.heap, Contents.heap]
  cases kind with
  | entries => exact (Multiset.le_add_right _ _).trans (Multiset.le_add_right _ _)
  | victims => exact (Multiset.le_add_left _ _).trans (Multiset.le_add_right _ _)

/-- Each log buffer is part of the heap. -/
theorem logChain_le (hp : p.Holds c) (y : Buffer) : logChain none (c.log y) ≤ p.heap := by
  rw [hp.heap, Contents.heap, c.logHeap_eq y]
  exact (Multiset.le_add_right _ _).trans (Multiset.le_add_left _ _)

theorem first_eq (hp : p.Holds c) (kind : ChainKind) :
    p.root.first kind = firstOf (nodes (c.residents kind)) none := by
  rw [hp.root, Contents.first_root]

theorem recordedLength_eq (hp : p.Holds c) (kind : ChainKind) :
    (p.root.recordedLength kind).toNat = (c.residents kind).length := by
  rw [hp.root, Contents.recordedLength_root hp.length_lt]

theorem logCount_eq (hp : p.Holds c) :
    p.root.logCount.toNat = (c.log .a).length + (c.log .b).length := by
  rw [hp.root, Contents.logCount_root hp.length_lt]

/-- A counter of zero means that nothing is logged. -/
theorem log_eq_nil (hp : p.Holds c) (hcount : p.root.logCount = 0) (y : Buffer) : c.log y = [] := by
  have hlength := hp.logCount_eq
  have hzero : (0 : UInt64).toNat = 0 := rfl
  rw [hcount, hzero] at hlength
  refine List.eq_nil_of_length_eq_zero ?_
  cases y <;> omega

/-- **Every node is read** with its tag and its links. -/
theorem entry_eq (hp : p.Holds c) {kind : ChainKind} {l r : List Resident} {x : Resident}
    (hc : c.residents kind = l ++ x :: r) :
    p.entry x.node = .ok (x.entry kind (lastOf none (nodes l)) (firstOf (nodes r) none)) := by
  have hle := hp.chain_le kind
  rw [hc, chain_append] at hle
  exact (entry_of_chain ((Multiset.le_add_left _ _).trans hle)).1

/-- The node of a pair is read, and so are its payloads. -/
theorem exists_entry (hp : p.Holds c) {x : Resident} (hx : x ∈ c.entries ++ c.victims) :
    (∃ kind before after, p.entry x.node = .ok (x.entry kind before after)) ∧
      p.bytes x.keyHandle = .ok x.key ∧ p.bytes x.valueHandle = .ok x.value := by
  rcases List.mem_append.1 hx with hx | hx
  · obtain ⟨hentry, hbytes⟩ := exists_entry_of_chain (hp.chain_le .entries) hx
    exact ⟨⟨_, hentry⟩, hbytes⟩
  · obtain ⟨hentry, hbytes⟩ := exists_entry_of_chain (hp.chain_le .victims) hx
    exact ⟨⟨_, hentry⟩, hbytes⟩

/-- **Every pair is read.** -/
theorem pair_eq (hp : p.Holds c) {x : Resident} (hx : x ∈ c.entries ++ c.victims) :
    p.pair x.node = .ok (x.key, x.value) := by
  rcases List.mem_append.1 hx with hx | hx
  · exact pair_of_chain (hp.chain_le .entries) hx
  · exact pair_of_chain (hp.chain_le .victims) hx

/-- **Each chain is formed** as the root records. -/
theorem formed (hp : p.Holds c) (kind : ChainKind) : p.Formed kind (nodes (c.residents kind)) :=
  formed_of_root hp.root hp.length_lt (hp.chain_le kind)

/-- **The forward walk** yields the nodes of a chain. -/
theorem walk_forward (hp : p.Holds c) (kind : ChainKind) :
    p.walk kind .forward = nodes (c.residents kind) :=
  (hp.formed kind).walk_forward

/-- **The backward walk** yields the nodes of the entry store from its tail on. -/
theorem walk_backward (hp : p.Holds c) :
    p.walk .entries .backward = (nodes c.entries).reverse :=
  (hp.formed .entries).walk_backward

/-- **The strict walk** finds nothing to object to. -/
theorem strictWalk_eq (hp : p.Holds c) (kind : ChainKind) :
    p.strictWalk kind = .ok (nodes (c.residents kind)) :=
  strictWalk_eq_ok_iff.2 (hp.formed kind)

theorem length_log_le (hp : p.Holds c) (y : Buffer) :
    (c.log y).length ≤ p.root.logCount.toNat := by
  rw [hp.logCount_eq]
  cases y <;> simp

/-- **The commands of a log buffer** are read to its end. -/
theorem recites_log (hp : p.Holds c) (y : Buffer) :
    p.Recites (firstOf (logNodes (c.log y)) none) (c.log y) :=
  recites_of_threaded (threaded_logChain _ _) (hp.logChain_le y)

/-- **The commands of a log buffer** are read, oldest first. -/
theorem pending_eq (hp : p.Holds c) (y : Buffer) :
    LogBuffer.pending p (firstOf (logNodes (c.log y)) none) =
      .ok ((c.log y).reverse.map Logged.command) :=
  LogBuffer.pending_of_threaded (threaded_logChain _ _) (hp.logChain_le y) (hp.length_log_le y)

/-- The nodes of a log buffer are walked through. -/
theorem nodes_log_eq (hp : p.Holds c) (y : Buffer) :
    LogBuffer.nodes p (firstOf (logNodes (c.log y)) none) = logNodes (c.log y) :=
  (hp.recites_log y).nodesFrom_eq (hp.length_log_le y)

/-- **Every position of the entry store** is reached in as many steps. -/
theorem stepForward_eq (hp : p.Holds c) {pick steps : Nat} {recorded : UInt64}
    (hsteps : steps < c.entries.length) :
    Policy.stepForward p pick recorded steps p.root.entryFirst = .ok c.entries[steps].node := by
  have hfirst : p.root.entryFirst = firstOf (nodes c.entries) none := hp.first_eq .entries
  rw [hfirst]
  exact Policy.stepForward_eq (hp.chain_le .entries) hsteps

end Pool.Holds

end PersistentTier
