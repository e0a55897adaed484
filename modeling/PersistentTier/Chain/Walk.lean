import PersistentTier.Pool.Basic

/-!
# Walking a chain

The entry store and the victim pipeline are chains of key/value nodes. A lazy walk never fails: it
stops at a node that cannot be read, and after the recorded number of nodes. A strict walk checks
every link, tag and counter, and it refuses a chain that is not exactly what its root records.

## Main definitions

* `Direction`, `Root.first`, `Root.recordedLength`
* `Pool.walk`: the lazy walk
* `Pool.strictWalk`: the strict walk

## Main results

* `Pool.checkFrom_cons_eq_ok_iff`, `Pool.strictWalk_eq_ok_iff_checkFrom`: when a strict walk succeeds
-/

namespace PersistentTier

/-- The two ways along a chain. -/
inductive Direction
  /-- From head to tail. -/
  | forward
  /-- From tail to head. -/
  | backward
  deriving DecidableEq, Repr, Inhabited

namespace Root

/-- The head of a chain. -/
def first (r : Root) : ChainKind → Option Handle
  | .entries => r.entryFirst
  | .victims => r.victimFirst

/-- The root with another head for one chain. -/
def setFirst (r : Root) (chain : ChainKind) (head : Option Handle) : Root :=
  match chain with
  | .entries => { r with entryFirst := head }
  | .victims => { r with victimFirst := head }

/-- The tail of a chain. Only the entry store has one. -/
def last (r : Root) : ChainKind → Option Handle
  | .entries => r.entryLast
  | .victims => none

/-- The recorded number of nodes of a chain. -/
def recordedLength (r : Root) : ChainKind → UInt64
  | .entries => r.entryCount
  | .victims => r.victimCount

end Root

/-- The node that comes next in a direction. -/
def EntryNode.after (node : EntryNode) : Direction → Option Handle
  | .forward => node.next
  | .backward => node.prev

namespace Pool

/-- At most `budget` nodes from `cursor` on. -/
def walkFrom (p : Pool) (direction : Direction) : (budget : Nat) → (cursor : Option Handle) →
    List Handle
  | 0, _ => []
  | _ + 1, none => []
  | budget + 1, some h =>
    match p.entry h with
    | .ok node => h :: walkFrom p direction budget (node.after direction)
    | .error _ => []

/-- The nodes of a chain as far as they can be read. The victim pipeline has no tail, so its
backward walk is empty. -/
def walk (p : Pool) (chain : ChainKind) (direction : Direction) : List Handle :=
  let start := match direction with
    | .forward => p.root.first chain
    | .backward => p.root.last chain
  p.walkFrom direction (p.root.recordedLength chain).toNat start

/-- Checks the nodes from `cursor` on, of which there may be `budget`. `prev` is the node before
them. Returns them, and the last node of the chain. -/
def checkFrom (p : Pool) (chain : ChainKind) : (budget : Nat) → (prev cursor : Option Handle) →
    Except Corruption (List Handle × Option Handle)
  | _, prev, none => .ok ([], prev)
  | 0, _, some _ => .error (.chainTooLong chain (p.root.recordedLength chain))
  | budget + 1, prev, some h =>
    match p.entry h with
    | .error reason => .error (.nodeUnreadable chain h reason)
    | .ok node =>
      if node.prev ≠ prev then .error (.backLinkBroken chain h)
      else if node.chain ≠ chain then .error (.mistagged h chain node.chain)
      else do
        let (nodes, tail) ← p.checkFrom chain budget (some h) node.next
        return (h :: nodes, tail)

/-- The nodes of a chain that is exactly what its root records: linked both ways, tagged, of the
recorded length and, for the entry store, ending at the recorded tail. -/
def strictWalk (p : Pool) (chain : ChainKind) : Except Corruption (List Handle) := do
  let recorded := p.root.recordedLength chain
  let (nodes, tail) ← p.checkFrom chain recorded.toNat none (p.root.first chain)
  if nodes.length ≠ recorded.toNat then
    throw (.chainTooShort chain nodes.length recorded)
  if chain = .entries ∧ p.root.entryLast ≠ tail then
    throw (.tailMismatch chain)
  return nodes

section Strict

variable {p : Pool} {chain : ChainKind} {budget : Nat} {prev tail : Option Handle} {h : Handle}
  {nodes : List Handle}

theorem checkFrom_none : p.checkFrom chain budget prev none = .ok ([], prev) := by
  cases budget <;> rfl

/-- A check goes on behind a node that is linked to the one before it and has the chain's tag. -/
theorem checkFrom_cons_eq_ok_iff :
    p.checkFrom chain (budget + 1) prev (some h) = .ok (nodes, tail) ↔
      ∃ node rest, p.entry h = .ok node ∧ node.prev = prev ∧ node.chain = chain ∧
        p.checkFrom chain budget (some h) node.next = .ok (rest, tail) ∧ nodes = h :: rest := by
  simp only [checkFrom]
  cases p.entry h with
  | error reason => simp
  | ok node =>
    by_cases hprev : node.prev = prev
    · by_cases hchain : node.chain = chain
      · simp only [hprev, hchain, ne_eq, not_true_eq_false, if_false]
        cases hrest : p.checkFrom chain budget (some h) node.next with
        | error corruption => simp [hrest, bind, Except.bind, hprev, hchain]
        | ok found =>
          obtain ⟨rest, last⟩ := found
          have hnodes : h :: rest = nodes ∧ last = tail ↔ last = tail ∧ nodes = h :: rest :=
            and_comm.trans (and_congr_right fun _ => eq_comm)
          simpa [hrest, bind, Except.bind, pure, Except.pure, hprev, hchain, and_assoc] using hnodes
      · simp [hprev, hchain]
    · simp [hprev]

/-- A strict walk compares the count and the tail with what has been checked. -/
theorem strictWalk_eq_ok_iff_checkFrom : p.strictWalk chain = .ok nodes ↔
    ∃ tail, p.checkFrom chain (p.root.recordedLength chain).toNat none (p.root.first chain) =
        .ok (nodes, tail) ∧ nodes.length = (p.root.recordedLength chain).toNat ∧
      (chain = .entries → p.root.entryLast = tail) := by
  unfold strictWalk
  cases hcheck : p.checkFrom chain (p.root.recordedLength chain).toNat none (p.root.first chain) with
  | error corruption => simp [hcheck, bind, Except.bind]
  | ok found =>
    obtain ⟨found, last⟩ := found
    simp only [hcheck, bind, Except.bind, Except.ok.injEq, Prod.mk.injEq]
    constructor
    · intro h
      split at h
      · cases h
      · rename_i hlength
        split at h
        · cases h
        · rename_i htail
          obtain rfl := Except.ok.inj h
          exact ⟨last, ⟨rfl, rfl⟩, Decidable.not_not.1 hlength,
            fun he => Decidable.not_not.1 fun hne => htail ⟨he, hne⟩⟩
    · rintro ⟨_, ⟨rfl, rfl⟩, hlength, htail⟩
      rw [if_neg (Decidable.not_not.2 hlength), if_neg fun h => h.2 (htail h.1)]
      rfl

end Strict

end Pool

end PersistentTier
