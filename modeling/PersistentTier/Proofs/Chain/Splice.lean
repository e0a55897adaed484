import PersistentTier.Proofs.Chain.Contents

/-!
# Splicing, link by link

Linking a node in and taking one out change a chain as a list: a pair comes to the front, a pair is
left out. Both edits are made of the same two halves. The part of the chain before the edit gets
another successor, the part after it another predecessor, and either part may be empty, in which
case it is an end of the chain, kept in the root, that changes.

## Main definitions

* `Root.setLast`, `Root.setEnds`: the ends of a chain in the root

## Main results

* `yields_setNext`, `yields_setPrev`: the two halves
* `yields_linkFront_node`, `yields_linkFront`, `yields_spliceOut`: the two edits
-/

namespace PersistentTier

open Tx

namespace Root

/-- The root with another tail for one chain, if the chain has one. -/
def setLast (r : Root) (chain : ChainKind) (tail : Option Handle) : Root :=
  match chain with
  | .entries => { r with entryLast := tail }
  | .victims => r

/-- The root with the ends of a chain of given nodes. -/
def setEnds (r : Root) (chain : ChainKind) (hs : List Handle) : Root :=
  (r.setFirst chain (firstOf hs none)).setLast chain (lastOf none hs)

variable (r : Root) (kind : ChainKind) (hs hs' : List Handle) (h h' : Option Handle)

@[simp] theorem first_setFirst : (r.setFirst kind h).first kind = h := by cases kind <;> rfl

@[simp] theorem first_setLast : (r.setLast kind h).first kind = r.first kind := by cases kind <;> rfl

@[simp] theorem setFirst_setFirst :
    (r.setFirst kind h).setFirst kind h' = r.setFirst kind h' := by cases kind <;> rfl

@[simp] theorem setLast_setLast :
    (r.setLast kind h).setLast kind h' = r.setLast kind h' := by cases kind <;> rfl

theorem setLast_setFirst :
    (r.setFirst kind h).setLast kind h' = (r.setLast kind h').setFirst kind h := by
  cases kind <;> rfl

@[simp] theorem first_setEnds : (r.setEnds kind hs).first kind = firstOf hs none := by
  simp [setEnds]

theorem setFirst_first : r.setFirst kind (r.first kind) = r := by cases kind <;> rfl

@[simp] theorem setEnds_setEnds : (r.setEnds kind hs).setEnds kind hs' = r.setEnds kind hs' := by
  simp [setEnds, setLast_setFirst]

end Root

section Edits

variable {E : Failure → Prop} {room : Nat} {R : Root} {m : Heap} {kind : ChainKind}
  {before after after' : Option Handle} {l r xs : List Resident} {x : Resident}

/-- **The part of a chain before an edit** gets another successor. -/
theorem yields_setNext (hfirst : R.first kind = firstOf (nodes l) after) :
    Yields E ⟨room, R, chain kind none l after + m⟩
      (setNext kind (lastOf none (nodes l)) after') ()
      ⟨room, R.setFirst kind (firstOf (nodes l) after'), chain kind none l after' + m⟩ := by
  rcases l.eq_nil_or_concat' with rfl | ⟨l, x, rfl⟩
  · exact yields_editRoot fun r => r.setFirst kind after'
  -- The part has a last node: the root keeps its head, and this node's link changes.
  · have hkeep : R.setFirst kind (firstOf (nodes (l ++ [x])) after') = R := by
      have : firstOf (nodes (l ++ [x])) after' = R.first kind := by rw [hfirst]; cases l <;> rfl
      rw [this, Root.setFirst_first]
    have hheap : ∀ next, chain kind none (l ++ [x]) next + m =
        cell x.node (.entry (x.entry kind (lastOf none (nodes l)) next)) +
          (chain kind none l (some x.node) + x.payloads + m) := by
      intro next
      simp only [chain_append, chain, Resident.heap, List.map_cons, List.map_nil, firstOf_cons,
        firstOf_nil, add_zero]
      abel
    have hlast : lastOf none (nodes (l ++ [x])) = some x.node := by simp
    rw [hkeep, hlast, hheap, hheap]
    exact yields_editEntry _ _

/-- **The part of a chain after an edit** gets another predecessor. -/
theorem yields_setPrev (before' : Option Handle)
    (hlast : kind = .entries → R.entryLast = lastOf before (nodes r)) :
    Yields E ⟨room, R, chain kind before r none + m⟩
      (setPrev kind before' (firstOf (nodes r) none)) ()
      ⟨room, R.setLast kind (lastOf before' (nodes r)), chain kind before' r none + m⟩ := by
  cases r with
  | nil =>
    cases kind with
    | entries => exact yields_editRoot fun r => { r with entryLast := before' }
    | victims => exact .pure _ ()
  | cons x r =>
    -- The part is not empty, so the tail is one of its nodes and the root stays as it is.
    have hkeep : R.setLast kind (lastOf before' (nodes (x :: r))) = R := by
      cases kind with
      | entries =>
        have : lastOf before' (nodes (x :: r)) = R.entryLast := (hlast rfl).symm
        rw [this]
        rfl
      | victims => rfl
    have hheap : ∀ prev, chain kind prev (x :: r) none + m =
        cell x.node (.entry (x.entry kind prev (firstOf (nodes r) none))) +
          (x.payloads + chain kind (some x.node) r none + m) := by
      intro prev
      simp only [chain, Resident.heap]
      abel
    rw [hkeep, hheap, hheap]
    exact yields_editEntry _ _

/-- **Linking a node at the head** of a chain. Its tag and its links may be anything before, and its
payloads need not be there. -/
theorem yields_linkFront_node {h : Handle} (e : EntryNode) :
    Yields E ⟨room, R.setEnds kind (nodes xs), cell h (.entry e) + (chain kind none xs none + m)⟩
      (linkFront kind h) ()
      ⟨room, R.setEnds kind (h :: nodes xs),
        cell h (.entry { e with next := firstOf (nodes xs) none, prev := none, chain := kind }) +
          (chain kind (some h) xs none + m)⟩ := by
  refine yields_root.bind ?_
  rw [Root.first_setEnds]
  refine (yields_editEntry e _).bind ?_
  rw [add_left_comm]
  refine (yields_setPrev (some h) fun hk => by subst hk; rfl).bind ?_
  -- The old head is linked back to the node, and the root forward.
  have hroot : R.setEnds kind (h :: nodes xs) =
      ((R.setEnds kind (nodes xs)).setLast kind (lastOf (some h) (nodes xs))).setFirst kind
        (some h) := by
    simp [Root.setEnds, Root.setLast_setFirst]
  rw [hroot, add_left_comm]
  exact yields_editRoot fun r => r.setFirst kind (some h)

/-- A pair becomes the head of a chain. -/
theorem yields_linkFront {tag : ChainKind} {prev next : Option Handle} :
    Yields E ⟨room, R.setEnds kind (nodes xs), chain kind none xs none + (x.heap tag prev next + m)⟩
      (linkFront kind x.node) ()
      ⟨room, R.setEnds kind (nodes (x :: xs)), chain kind none (x :: xs) none + m⟩ := by
  refine (yields_linkFront_node (x.entry tag prev next) (m := x.payloads + m)).congr
    (View.ext rfl rfl ?_) (View.ext rfl rfl ?_)
  · simp only [Resident.heap]
    abel
  · simp only [chain, Resident.heap, Resident.entry]
    abel

/-- **Taking a node out** of a chain. It keeps its tag and its payloads. -/
theorem yields_spliceOut :
    Yields E ⟨room, R.setEnds kind (nodes (l ++ x :: r)), chain kind none (l ++ x :: r) none + m⟩
      (spliceOut kind x.node) ()
      ⟨room, R.setEnds kind (nodes (l ++ r)),
        chain kind none (l ++ r) none + (x.heap kind none none + m)⟩ := by
  have hheap : chain kind none (l ++ x :: r) none + m =
      chain kind none l (some x.node) + (chain kind (some x.node) r none +
        (x.heap kind (lastOf none (nodes l)) (firstOf (nodes r) none) + m)) := by
    simp only [chain_append, chain, List.map_cons, firstOf_cons]
    abel
  have hnode : ∀ (a b : Heap) (prev next : Option Handle), a + (b + (x.heap kind prev next + m)) =
      cell x.node (.entry (x.entry kind prev next)) + (a + b + x.payloads + m) := by
    intro a b prev next
    simp only [Resident.heap]
    abel
  rw [hheap]
  refine (yields_entry _ (hnode _ _ _ _)).bind ?_
  dsimp only [Resident.entry]
  refine (yields_require rfl _).bind ?_
  refine yields_root.bind ?_
  -- A node without a predecessor must be the head, or the operation gives up.
  have hhead : (lastOf none (nodes l)).isSome ∨
      (R.setEnds kind (nodes (l ++ x :: r))).first kind = some x.node := by
    rcases l.eq_nil_or_concat with rfl | ⟨l, y, rfl⟩
    · exact .inr (by simp)
    · exact .inl (by simp)
  refine (yields_require hhead _).bind ?_
  refine (yields_setNext (by simp)).bind ?_
  refine yields_root.bind ?_
  -- A node without a successor must be the tail, if the chain has one.
  have htail : (firstOf (nodes r) none).isSome ∨ kind = .victims ∨
      ((R.setEnds kind (nodes (l ++ x :: r))).setFirst kind
        (firstOf (nodes l) (firstOf (nodes r) none))).entryLast = some x.node := by
    cases r with
    | nil =>
      cases kind with
      | entries => exact .inr (.inr (by simp [Root.setEnds, Root.setLast, Root.setFirst]))
      | victims => exact .inr (.inl rfl)
    | cons y r => exact .inl rfl
  refine (yields_require htail _).bind ?_
  rw [add_left_comm]
  refine (yields_setPrev (lastOf none (nodes l)) fun hk => ?_).bind ?_
  · subst hk
    simp [Root.setEnds, Root.setLast, Root.setFirst]
  -- The two halves now have each other's ends; the node itself is left with no links.
  have hroot : ((R.setEnds kind (nodes (l ++ x :: r))).setFirst kind
      (firstOf (nodes l) (firstOf (nodes r) none))).setLast kind
        (lastOf (lastOf none (nodes l)) (nodes r)) = R.setEnds kind (nodes (l ++ r)) := by
    simp [Root.setEnds, Root.setLast_setFirst]
  have hrest : chain kind none (l ++ r) none + (x.heap kind none none + m) =
      chain kind (lastOf none (nodes l)) r none + (chain kind none l (firstOf (nodes r) none) +
        (x.heap kind none none + m)) := by
    rw [chain_append]
    abel
  rw [hroot, hrest, hnode, hnode]
  exact yields_editEntry _ _

end Edits

end PersistentTier
