import Mathlib.Data.List.Induction
import PersistentTier.Chain.Walk
import PersistentTier.Proofs.Chain.Contents

/-!
# Chains that are formed as their root records

A strict walk goes through a pool that may be corrupt in any way. It yields the nodes of a chain that
is formed as its root records, and nothing else. That no node comes twice is not checked: a node that
came twice would have two predecessors, so these would be the same, and so on back to the head, which
has none. Nor is it checked that there is an end, but the walk gives up behind the recorded number of
nodes. The lazy walks along such a chain yield its nodes too.

## Main definitions

* `Pool.Linked`: handles that lead from node to node
* `Pool.Formed`: the nodes of a chain that is what its root records

## Main results

* `Pool.strictWalk_eq_ok_iff`: a strict walk yields the nodes of a formed chain
* `Pool.Formed.nodup`, `Pool.Formed.unique`: these are distinct, and they are determined by the pool
* `Pool.Formed.walk_forward`, `Pool.Formed.walk_backward`: the lazy walks along a formed chain
* `Pool.formed_of_chain`: a chain of the heap is formed
-/

namespace PersistentTier

/-- **Handles that lead from node to node** of a chain, to the end of the chain: each node has the
chain's tag and is linked to the one before it and the one after it. -/
def Pool.Linked (p : Pool) (chain : ChainKind) : (before : Option Handle) → List Handle → Prop
  | _, [] => True
  | before, h :: hs =>
    (∃ e, p.entry h = .ok e ∧ e.chain = chain ∧ e.prev = before ∧ e.next = hs.head?) ∧
      p.Linked chain (some h) hs

/-- **The nodes of a chain that is formed as its root records.** -/
structure Pool.Formed (p : Pool) (kind : ChainKind) (hs : List Handle) : Prop where
  /-- There are as many nodes as recorded. -/
  length : hs.length = (p.root.recordedLength kind).toNat
  /-- The first one is the head of the chain. -/
  first : p.root.first kind = hs.head?
  /-- Each one is tagged, and linked to the one before it and the one after it. -/
  node : ∀ l h r, hs = l ++ h :: r →
    ∃ e, p.entry h = .ok e ∧ e.chain = kind ∧ e.prev = l.getLast? ∧ e.next = r.head?
  /-- The last one is the recorded tail, if there is one recorded. -/
  last : kind = .entries → p.root.entryLast = hs.getLast?

namespace Pool

variable {p : Pool} {kind : ChainKind} {budget : Nat} {before cursor tail : Option Handle}
  {hs hs' : List Handle} {xs : List Resident}

/-- **What a check accepts**: linked nodes from the cursor on, which are not too many. -/
theorem checkFrom_eq_ok_iff : p.checkFrom kind budget before cursor = .ok (hs, tail) ↔
    hs.length ≤ budget ∧ cursor = hs.head? ∧ p.Linked kind before hs ∧ tail = lastOf before hs := by
  -- Induction on the budget. Without any left, the check accepts only if there is no node either.
  induction budget generalizing before cursor hs with
  | zero =>
    cases cursor with
    | none => cases hs <;> simp [checkFrom_none, Linked, eq_comm]
    | some h => cases hs <;> simp [checkFrom]
  | succ budget ih =>
    cases cursor with
    | none => cases hs <;> simp [checkFrom_none, Linked, eq_comm]
    | some h =>
      rw [checkFrom_cons_eq_ok_iff]
      constructor
      · rintro ⟨e, rest, he, hprev, hchain, hrest, rfl⟩
        obtain ⟨hlength, hnext, hlinked, htail⟩ := ih.1 hrest
        exact ⟨Nat.succ_le_succ hlength, rfl, ⟨⟨e, he, hchain, hprev, hnext⟩, hlinked⟩, htail⟩
      · rintro ⟨hlength, hcursor, hlinked, htail⟩
        cases hs with
        | nil => cases hcursor
        | cons h' rest =>
          obtain rfl : h = h' := Option.some.inj hcursor
          obtain ⟨⟨e, he, hchain, hprev, hnext⟩, hrest⟩ := hlinked
          exact ⟨e, rest, he, hprev, hchain,
            ih.2 ⟨Nat.le_of_succ_le_succ hlength, hnext, hrest, htail⟩, rfl⟩

/-- Linked nodes, by their places. -/
theorem linked_iff : p.Linked kind before hs ↔ ∀ l h r, hs = l ++ h :: r →
    ∃ e, p.entry h = .ok e ∧ e.chain = kind ∧ e.prev = lastOf before l ∧ e.next = r.head? := by
  induction hs generalizing before with
  | nil => simp [Linked]
  | cons h hs ih =>
    rw [Linked, ih]
    constructor
    · rintro ⟨hnode, hrest⟩ (- | ⟨g, l⟩) x r heq
      · obtain ⟨rfl, rfl⟩ := List.cons.inj heq
        exact hnode
      · obtain ⟨rfl, rfl⟩ := List.cons.inj heq
        exact hrest l x r rfl
    · intro hnode
      refine ⟨hnode [] h hs rfl, fun l x r heq => ?_⟩
      exact hnode (h :: l) x r (congrArg (h :: ·) heq)

/-- **What a strict walk accepts**: the nodes of a formed chain. -/
theorem strictWalk_eq_ok_iff : p.strictWalk kind = .ok hs ↔ p.Formed kind hs := by
  rw [strictWalk_eq_ok_iff_checkFrom]
  simp only [checkFrom_eq_ok_iff, linked_iff, lastOf_none]
  constructor
  · rintro ⟨_, ⟨-, hfirst, hnode, rfl⟩, hlength, hlast⟩
    exact ⟨hlength, hfirst, hnode, hlast⟩
  · rintro ⟨hlength, hfirst, hnode, hlast⟩
    exact ⟨_, ⟨hlength.le, hfirst, hnode, rfl⟩, hlength, hlast⟩

/-- Linked nodes are formed as a chain if the root records them. -/
theorem formed_of_linked (hlinked : p.Linked kind none hs)
    (hlength : hs.length = (p.root.recordedLength kind).toNat)
    (hfirst : p.root.first kind = hs.head?)
    (hlast : kind = .entries → p.root.entryLast = hs.getLast?) : p.Formed kind hs where
  length := hlength
  first := hfirst
  node := by
    intro l h r heq
    obtain ⟨e, he, hchain, hprev, hnext⟩ := linked_iff.1 hlinked l h r heq
    exact ⟨e, he, hchain, hprev.trans (lastOf_none l), hnext⟩
  last := hlast

namespace Formed

/-- **No node of a formed chain comes twice.** -/
theorem nodup (hf : p.Formed kind hs) : hs.Nodup := by
  -- Induction on how far the chain has been gone through.
  suffices h : ∀ l r, hs = l ++ r → l.Nodup from h hs [] (by simp)
  intro l
  induction l using List.reverseRecOn with
  | nil => exact fun _ _ => List.nodup_nil
  | append_singleton l h ih =>
    intro r heq
    have hl : l.Nodup := ih (h :: r) (by simpa using heq)
    refine List.nodup_append.2 ⟨hl, List.nodup_singleton h, ?_⟩
    rintro x hx _ (_ | ⟨_, ⟨⟩⟩) rfl
    -- The node has been there before, so its two predecessors are the same.
    obtain ⟨l₁, l₂, rfl⟩ := List.append_of_mem hx
    obtain ⟨e, he, -, hprev, -⟩ := hf.node (l₁ ++ x :: l₂) x r (by simpa using heq)
    obtain ⟨e', he', -, hprev', -⟩ := hf.node l₁ x (l₂ ++ x :: r) (by simpa using heq)
    obtain rfl : e = e' := Except.ok.inj (he.symm.trans he')
    have hsame : (x :: l₂).getLast? = l₁.getLast? :=
      calc (x :: l₂).getLast? = (l₁ ++ x :: l₂).getLast? := by
            rw [List.getLast?_append_of_ne_nil _ (List.cons_ne_nil x l₂)]
        _ = e.prev := hprev.symm
        _ = l₁.getLast? := hprev'
    have hlast := List.getLast?_eq_some_getLast (List.cons_ne_nil x l₂)
    exact List.disjoint_of_nodup_append hl (List.mem_of_getLast? (hsame ▸ hlast))
      (List.mem_of_getLast? hlast)

/-- **A pool determines** the nodes of a formed chain. -/
theorem unique (hf : p.Formed kind hs) (hf' : p.Formed kind hs') : hs' = hs :=
  Except.ok.inj ((strictWalk_eq_ok_iff.2 hf').symm.trans (strictWalk_eq_ok_iff.2 hf))

/-- **The forward walk** yields the nodes of a formed chain. -/
theorem walk_forward (hf : p.Formed kind hs) : p.walk kind .forward = hs := by
  -- Induction on what is still ahead.
  have hwalk : ∀ r l, hs = l ++ r → p.walkFrom .forward r.length r.head? = r := by
    intro r
    induction r with
    | nil => exact fun _ _ => rfl
    | cons h r ih =>
      intro l heq
      obtain ⟨e, he, -, -, hnext⟩ := hf.node l h r heq
      simp only [List.length_cons, List.head?_cons, walkFrom, he, EntryNode.after, hnext]
      rw [ih (l ++ [h]) (by simpa using heq)]
  simp only [walk, ← hf.length, hf.first]
  exact hwalk hs [] rfl

/-- **The backward walk** along the entry store yields them the other way round. -/
theorem walk_backward (hf : p.Formed .entries hs) : p.walk .entries .backward = hs.reverse := by
  have hwalk : ∀ l r, hs = l ++ r → p.walkFrom .backward l.length l.getLast? = l.reverse := by
    intro l
    induction l using List.reverseRecOn with
    | nil => exact fun _ _ => rfl
    | append_singleton l h ih =>
      intro r heq
      obtain ⟨e, he, -, hprev, -⟩ := hf.node l h r (by simpa using heq)
      simp only [List.length_append, List.length_singleton, List.getLast?_concat, walkFrom, he,
        EntryNode.after, hprev, List.reverse_concat]
      rw [ih (h :: r) (by simpa using heq)]
  have hlast : p.root.last .entries = hs.getLast? := hf.last rfl
  simp only [walk, ← hf.length, hlast]
  exact hwalk hs [] (by simp)

end Formed

/-! ## Chains of the heap -/

/-- A chain of the heap is read off node by node. -/
theorem linked_of_heap (hp : chain kind before xs none ≤ p.heap) :
    p.Linked kind before (nodes xs) := by
  induction xs generalizing before with
  | nil => trivial
  | cons x xs ih =>
    refine ⟨⟨x.entry kind before (firstOf (nodes xs) none), entry_eq_ok_iff.2 ?_, rfl, rfl,
      firstOf_none _⟩, ih ((Multiset.le_add_left _ _).trans hp)⟩
    exact Multiset.mem_of_le hp (by simp [chain, Resident.heap])

/-- **A chain of the heap is formed** if its root records it. -/
theorem formed_of_chain (hp : chain kind none xs none ≤ p.heap)
    (hfirst : p.root.first kind = firstOf (nodes xs) none)
    (hlength : (p.root.recordedLength kind).toNat = xs.length)
    (hlast : kind = .entries → p.root.entryLast = lastOf none (nodes xs)) :
    p.Formed kind (nodes xs) := by
  apply formed_of_linked (linked_of_heap hp)
  · rw [nodes, List.length_map, hlength]
  · rw [hfirst, firstOf_none]
  · intro he
    rw [hlast he, lastOf_none]

end Pool

end PersistentTier
