import PersistentTier.Durability
import PersistentTier.Failure
import PersistentTier.Location

/-!
# The pool

A pool is an arena of slots together with a root. A slot is empty or holds an object; empty slots
are listed for reuse, the one to be taken next first. All reading goes through handles, which are
checked against the pool's id and the size of the arena.

A pool may be backed by an image file, and it may carry a write budget: once the budget is spent the
next write fails.

## Main definitions

* `Pool`, `Pool.empty`
* `Pool.object?`, `Pool.resolve`, `Pool.entry`, `Pool.logNode`, `Pool.bytes`: reading
* `Pool.place`, `Pool.setObject`, `Pool.clearSlot`, `Pool.discard`: the changes a scope is made of
* `Pool.release`, `Pool.unrelease`: what a commit does to the free list, and takes back if it fails
* `Pool.stats`

## Main results

* `Pool.resolve_eq_ok_iff`: what resolving means
* `Pool.object?_setObject`, `Pool.object?_clearSlot`: a change touches one handle only
-/

namespace PersistentTier

/-- How a pool treats its image and how slow its media are. -/
structure PoolOptions where
  durability : Durability := .sync
  /-- Emulated nanoseconds per resolved handle. -/
  readLatency : Nat := 0
  /-- Emulated nanoseconds per allocation, free or undo record. -/
  writeLatency : Nat := 0
  deriving DecidableEq, Repr, Inhabited

/-- Whether no latency is emulated. -/
def PoolOptions.latencyDisabled (options : PoolOptions) : Bool :=
  options.readLatency == 0 && options.writeLatency == 0

/-- A block of memory is shorter than this many bytes. -/
def memoryBound : Nat := UInt64.size / 2

/-- The number of slots that fit into memory, at 88 bytes each. -/
def maxSlots : Nat := (memoryBound - 1) / 88

/-- An arena of objects with its root. -/
structure Pool where
  id : UInt64
  root : Root := {}
  slots : Array (Option Object) := #[]
  /-- Offsets of empty slots, the next one to be used first. -/
  free : List UInt64 := []
  /-- The image file, if the pool has one. -/
  image : Option Location := none
  options : PoolOptions := {}
  /-- How many writes succeed before one fails, if that is limited. -/
  writeBudget : Option Nat := none
  size_le : slots.size ≤ maxSlots := by decide
  deriving DecidableEq, Repr

namespace Pool

/-- A pool without objects and without an image. -/
def empty (id : UInt64) (options : PoolOptions) : Pool where
  id := id
  options := options

instance : Inhabited Pool := ⟨empty 0 {}⟩

/-! ## Reading -/

/-- The index of the slot that a handle names. -/
def slotIndex? (p : Pool) (h : Handle) : Option Nat :=
  if h.pool = p.id ∧ h.offset ≠ 0 ∧ h.offset.toNat ≤ p.slots.size then
    some (h.offset.toNat - 1)
  else none

/-- The object that a handle names. -/
def object? (p : Pool) (h : Handle) : Option Object :=
  (p.slotIndex? h).bind fun i => (p.slots[i]?).join

/-- The object that a handle names. -/
def resolve (p : Pool) (h : Handle) : Except Unreadable Object :=
  match p.object? h with
  | some object => .ok object
  | none => .error (.invalidHandle h)

/-- The key/value node that a handle names. -/
def entry (p : Pool) (h : Handle) : Except Unreadable EntryNode := do
  match ← p.resolve h with
  | .entry node => .ok node
  | _ => .error (.typeMismatch h .entryNode)

/-- The log node that a handle names. -/
def logNode (p : Pool) (h : Handle) : Except Unreadable LogNode := do
  match ← p.resolve h with
  | .log node => .ok node
  | _ => .error (.typeMismatch h .logNode)

/-- The byte payload that a handle names. -/
def bytes (p : Pool) (h : Handle) : Except Unreadable Bytes := do
  match ← p.resolve h with
  | .payload bytes => .ok bytes
  | _ => .error (.typeMismatch h .bytePayload)

/-- The key and the value of a node. -/
def pair (p : Pool) (h : Handle) : Except Unreadable (Bytes × Bytes) := do
  let node ← p.entry h
  return (← p.bytes node.key, ← p.bytes node.value)

/-- Object counts and footprint of a pool. -/
structure Stats where
  liveObjects : Nat := 0
  entryNodes : Nat := 0
  logNodes : Nat := 0
  payloads : Nat := 0
  usedBytes : Nat := 0
  freeSlots : Nat := 0
  deriving DecidableEq, Repr, Inhabited

/-- The objects of a pool, in the order of their slots. -/
def objects (p : Pool) : List Object := p.slots.toList.filterMap fun slot => slot

/-- Counts the objects of a pool. -/
def stats (p : Pool) : Stats where
  liveObjects := p.objects.length
  entryNodes := p.objects.countP (·.kind = .entryNode)
  logNodes := p.objects.countP (·.kind = .logNode)
  payloads := p.objects.countP (·.kind = .bytePayload)
  usedBytes := p.objects.foldl (fun bytes object => bytes + object.footprint) 0
  freeSlots := p.free.length

/-! ## Changing -/

/-- The pool with other contents of one slot. -/
def setSlot (p : Pool) (i : Nat) (contents : Option Object) : Pool :=
  { p with
    slots := p.slots.setIfInBounds i contents
    size_le := by simpa using p.size_le }

/-- Puts an object where a handle points, if that is a slot of the pool. -/
def setObject (p : Pool) (h : Handle) (object : Object) : Pool :=
  match p.slotIndex? h with
  | some i => p.setSlot i (some object)
  | none => p

/-- Empties the slot that a handle points to, if that is a slot of the pool. -/
def clearSlot (p : Pool) (h : Handle) : Pool :=
  match p.slotIndex? h with
  | some i => p.setSlot i none
  | none => p

/-- Takes an allocation back: its slot is emptied and listed for reuse. -/
def discard (p : Pool) (h : Handle) : Pool :=
  match p.slotIndex? h with
  | some i => { p.setSlot i none with free := h.offset :: p.free }
  | none => p

/-- Lists offsets for reuse, in front of those listed before. -/
def release (p : Pool) (offsets : List UInt64) : Pool := { p with free := offsets ++ p.free }

/-- Takes the `count` offsets listed last off the free list again. -/
def unrelease (p : Pool) (count : Nat) : Pool := { p with free := p.free.drop count }

/-- Stores an object in the next free slot, or in a new one at the end if none is free. -/
def place (p : Pool) (object : Object) : Except Crash (Handle × Pool) :=
  match p.free with
  | offset :: free =>
    if offset ≠ 0 ∧ offset.toNat ≤ p.slots.size then
      .ok (⟨p.id, offset⟩, { p.setSlot (offset.toNat - 1) (some object) with free := free })
    else .error (.freeListOutOfRange offset)
  | [] =>
    if h : p.slots.size < maxSlots then
      .ok (⟨p.id, UInt64.ofNat (p.slots.size + 1)⟩,
        { p with slots := p.slots.push (some object), size_le := by simpa using Nat.succ_le_of_lt h })
    else .error .outOfMemory

/-! ## Laws of reading and changing -/

/-- Offsets that are listed and taken off again leave the pool as it was. -/
@[simp] theorem unrelease_release (p : Pool) (offsets : List UInt64) :
    (p.release offsets).unrelease offsets.length = p := by
  simp [release, unrelease]

theorem resolve_eq_ok_iff {p : Pool} {h : Handle} {object : Object} :
    p.resolve h = .ok object ↔ p.object? h = some object := by
  unfold resolve; split <;> simp_all

@[simp] theorem id_setSlot (p : Pool) (i : Nat) (contents : Option Object) :
    (p.setSlot i contents).id = p.id := rfl

@[simp] theorem slots_setSlot (p : Pool) (i : Nat) (contents : Option Object) :
    (p.setSlot i contents).slots = p.slots.setIfInBounds i contents := rfl

@[simp] theorem slotIndex?_setSlot (p : Pool) (i : Nat) (contents : Option Object) (h : Handle) :
    (p.setSlot i contents).slotIndex? h = p.slotIndex? h := by simp [slotIndex?]

/-- A handle names a slot inside the arena. -/
theorem lt_size_of_slotIndex? {p : Pool} {h : Handle} {i : Nat} (hi : p.slotIndex? h = some i) :
    i < p.slots.size := by
  simp only [slotIndex?] at hi
  split at hi
  · rename_i hv
    obtain ⟨-, h0, hle⟩ := hv
    have : h.offset.toNat ≠ 0 := fun e => h0 (UInt64.toNat_inj.1 (by simpa using e))
    simp only [Option.some.injEq] at hi
    omega
  · simp at hi

/-- Two handles of one slot are equal. -/
theorem slotIndex?_inj {p : Pool} {h h' : Handle} {i : Nat} (hi : p.slotIndex? h = some i)
    (hi' : p.slotIndex? h' = some i) : h = h' := by
  simp only [slotIndex?] at hi hi'
  split at hi <;> split at hi' <;> simp_all
  rename_i hv hv'
  obtain ⟨hp, h0, -⟩ := hv
  obtain ⟨hp', h0', -⟩ := hv'
  have e : h.offset.toNat ≠ 0 := fun e => h0 (UInt64.toNat_inj.1 (by simpa using e))
  have e' : h'.offset.toNat ≠ 0 := fun e => h0' (UInt64.toNat_inj.1 (by simpa using e))
  have : h.offset = h'.offset := UInt64.toNat_inj.1 (by omega)
  cases h; cases h'; simp_all

/-- Putting an object somewhere changes what that one handle names. -/
theorem object?_setObject (p : Pool) (h h' : Handle) (object : Object) :
    (p.setObject h object).object? h' =
      if h' = h ∧ (p.slotIndex? h).isSome then some object else p.object? h' := by
  simp only [setObject]
  split
  · rename_i i hi
    have hlt := lt_size_of_slotIndex? hi
    by_cases e : h' = h
    · subst e
      simp only [object?, slotIndex?_setSlot, slots_setSlot, hi, Option.bind_some]
      simp [hlt]
    · have hne : ∀ j, p.slotIndex? h' = some j → i ≠ j := fun j hj hij =>
        e (slotIndex?_inj (hij ▸ hj) hi)
      simp only [object?, slotIndex?_setSlot, e, false_and, if_false]
      cases hj : p.slotIndex? h' with
      | none => rfl
      | some j => simp [Array.getElem?_setIfInBounds_ne (hne j hj)]
  · simp_all

/-- Emptying a slot changes what that one handle names. -/
theorem object?_clearSlot (p : Pool) (h h' : Handle) :
    (p.clearSlot h).object? h' = if h' = h then none else p.object? h' := by
  simp only [clearSlot]
  split
  · rename_i i hi
    have hlt := lt_size_of_slotIndex? hi
    by_cases e : h' = h
    · subst e
      simp only [object?, slotIndex?_setSlot, slots_setSlot, hi, Option.bind_some]
      simp [hlt]
    · have hne : ∀ j, p.slotIndex? h' = some j → i ≠ j := fun j hj hij =>
        e (slotIndex?_inj (hij ▸ hj) hi)
      simp only [object?, slotIndex?_setSlot, e, if_false]
      cases hj : p.slotIndex? h' with
      | none => rfl
      | some j => simp [Array.getElem?_setIfInBounds_ne (hne j hj)]
  · rename_i hi
    by_cases e : h' = h
    · subst e; simp [object?, hi]
    · simp [e]

end Pool

end PersistentTier
