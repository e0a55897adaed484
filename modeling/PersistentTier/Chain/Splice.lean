import PersistentTier.Chain.Walk
import PersistentTier.Scope.Basic

/-!
# Splicing chains

Linking a node at the head of a chain and taking one out are the two edits that both chains share.
They leave the counters alone.

## Main definitions

* `Tx.decrement`: lower a counter, but not below zero
* `Tx.add`, `Tx.increment`: raise a counter, as far as it goes
* `Tx.setNext`, `Tx.setPrev`: one link, from a node or from the root
* `Tx.linkFront`, `Tx.spliceOut`
-/

namespace PersistentTier

namespace Root

/-- The value of a counter. -/
def counter (r : Root) : Counter → UInt64
  | .entryCount => r.entryCount
  | .victimCount => r.victimCount
  | .logCount => r.logCount

/-- The root with another value of a counter. -/
def setCounter (r : Root) (counter : Counter) (value : UInt64) : Root :=
  match counter with
  | .entryCount => { r with entryCount := value }
  | .victimCount => { r with victimCount := value }
  | .logCount => { r with logCount := value }

end Root

namespace Tx

/-- Lowers a counter of the root. It refuses to go below zero. -/
def decrement (counter : Counter) (amount : UInt64) : Tx Unit := do
  recordRoot
  let current := (← root).counter counter
  require (amount ≤ current) (.corrupt (.counterBelowZero counter current amount))
  editRoot fun r => r.setCounter counter (current - amount)

/-- The sum of two numbers. If it does not fit into 64 bits, the process stops. -/
def add (a b : UInt64) : Tx UInt64 :=
  match checkedAdd a b with
  | .ok sum => pure sum
  | .error crash => throw (.crash crash)

theorem add_of_lt {a b : UInt64} (h : a.toNat + b.toNat < UInt64.size) :
    add a b = pure (a + b) := by rw [add, checkedAdd_of_lt h]

theorem add_of_le {a b : UInt64} (h : UInt64.size ≤ a.toNat + b.toNat) :
    add a b = throw (.crash (.overflow a b)) := by rw [add, checkedAdd_of_le h]

/-- Raises a counter of the root. -/
def increment (counter : Counter) (amount : UInt64) : Tx Unit := do
  recordRoot
  let sum ← add ((← root).counter counter) amount
  editRoot fun r => r.setCounter counter sum

/-- Makes `next` what comes after `prev`, or the head of the chain if nothing comes before it. -/
def setNext (chain : ChainKind) (prev next : Option Handle) : Tx Unit :=
  match prev with
  | some h => editEntry h fun e => { e with next := next }
  | none => editRoot fun r => r.setFirst chain next

/-- Makes `prev` what comes before `next`, or the tail of the chain if nothing comes after it. The
victim pipeline has no tail. -/
def setPrev (chain : ChainKind) (prev next : Option Handle) : Tx Unit :=
  match next, chain with
  | some h, _ => editEntry h fun e => { e with prev := prev }
  | none, .entries => editRoot fun r => { r with entryLast := prev }
  | none, .victims => return

/-- Links a node as the new head of a chain. -/
def linkFront (chain : ChainKind) (node : Handle) : Tx Unit := do
  let oldFirst := (← root).first chain
  editEntry node fun e => { e with next := oldFirst, prev := none, chain := chain }
  setPrev chain (some node) oldFirst
  setNext chain none (some node)

/-- Takes a node out of its chain by joining its neighbours. The node keeps its key and value. -/
def spliceOut (chain : ChainKind) (node : Handle) : Tx Unit := do
  let entry ← Tx.entry node
  require (entry.chain = chain) (.corrupt (.wrongChain node entry.chain chain))
  require (entry.prev.isSome ∨ (← root).first chain = some node) (.corrupt (.notHead node chain))
  setNext chain entry.prev entry.next
  require (entry.next.isSome ∨ chain = .victims ∨ (← root).entryLast = some node)
    (.corrupt (.notTail node chain))
  setPrev chain entry.prev entry.next
  editEntry node fun e => { e with next := none, prev := none }

end Tx

end PersistentTier
