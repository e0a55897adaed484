import PersistentTier.Proofs.Pool.EmptySlots
import Mathlib.Algebra.Order.Group.Multiset
import Mathlib.Tactic.Abel

/-!
# The heap of a pool

The heap is what is left of an arena if the order of its slots, its empty slots and its free list
are forgotten: the objects, each under its handle. A heap is a sum of cells, so a statement about a
few objects speaks of a few cells and of a remainder `m` that may be anything.

## Main definitions

* `Heap`, `cell`: a multiset of objects under handles, and one object under one handle
* `Pool.heap`: the objects of a pool

## Main results

* `Pool.mem_heap`, `Pool.entry_eq_ok_iff`: a heap holds what handles resolve to
* `Pool.nodup_heap`: no handle names two objects
* `Pool.object?_of_heap_exchange`: what is read where a part of the heap has been exchanged
* `Pool.heap_setObject`, `Pool.heap_clearSlot`, `Pool.heap_place`: a change exchanges, takes away or
  adds one cell
-/

namespace PersistentTier

/-- Objects under their handles. -/
abbrev Heap := Multiset (Handle × Object)

/-- The heap of one object. -/
def cell (h : Handle) (a : Object) : Heap := {(h, a)}

@[simp] theorem card_cell (h : Handle) (a : Object) : (cell h a).card = 1 :=
  Multiset.card_singleton _

@[simp] theorem mem_cell {h : Handle} {a : Object} {x : Handle × Object} :
    x ∈ cell h a ↔ x = (h, a) :=
  Multiset.mem_singleton

@[simp] theorem map_cell {α : Type} (f : Handle × Object → α) (h : Handle) (a : Object) :
    (cell h a).map f = {f (h, a)} :=
  Multiset.map_singleton f _

/-- The handle of the slot at an index. -/
def slotHandle (id : UInt64) (i : Nat) : Handle := ⟨id, UInt64.ofNat (i + 1)⟩

/-- The heap of one slot. -/
def slotHeap (h : Handle) : Option Object → Heap
  | none => 0
  | some a => cell h a

/-- The heap of the slots from index `i` on. -/
def slotsHeap (id : UInt64) : (i : Nat) → List (Option Object) → Heap
  | _, [] => 0
  | i, x :: slots => slotHeap (slotHandle id i) x + slotsHeap id (i + 1) slots

namespace Pool

/-- The objects of a pool under their handles. -/
def heap (p : Pool) : Heap := slotsHeap p.id 0 p.slots.toList

end Pool

/-! ## Slots -/

section Slots

variable {id : UInt64}

theorem mem_slotsHeap {i : Nat} {slots : List (Option Object)} {h : Handle} {a : Object} :
    (h, a) ∈ slotsHeap id i slots ↔ ∃ j, slots[j]? = some (some a) ∧ h = slotHandle id (i + j) := by
  induction slots generalizing i with
  | nil => simp [slotsHeap]
  | cons x slots ih =>
    rw [slotsHeap, Multiset.mem_add, ih]
    constructor
    · rintro (hx | ⟨j, hj, rfl⟩)
      · cases x with
        | none => simp [slotHeap] at hx
        | some b =>
          obtain ⟨rfl, rfl⟩ := by simpa [slotHeap] using hx
          exact ⟨0, by simp, rfl⟩
      · exact ⟨j + 1, by simpa using hj, by rw [Nat.add_assoc, Nat.add_comm 1]⟩
    · rintro ⟨j, hj, rfl⟩
      cases j with
      | zero =>
        obtain rfl : x = some a := by simpa using hj
        exact .inl (by simp [slotHeap])
      | succ j => exact .inr ⟨j, by simpa using hj, by rw [Nat.add_assoc, Nat.add_comm 1]⟩

theorem card_slotsHeap (i : Nat) (slots : List (Option Object)) :
    (slotsHeap id i slots).card = (slots.filterMap fun x => x).length := by
  induction slots generalizing i with
  | nil => rfl
  | cons x slots ih => cases x <;> simp [slotsHeap, slotHeap, ih, Nat.add_comm]

/-- Another content of one slot exchanges the heap of that slot. -/
theorem slotsHeap_set (id : UInt64) {slots : List (Option Object)} {j : Nat} {old : Option Object}
    (i : Nat)
    (hj : slots[j]? = some old) (new : Option Object) :
    slotHeap (slotHandle id (i + j)) old + slotsHeap id i (slots.set j new) =
      slotHeap (slotHandle id (i + j)) new + slotsHeap id i slots := by
  induction slots generalizing i j with
  | nil => simp at hj
  | cons x slots ih =>
    cases j with
    | zero =>
      obtain rfl : x = old := by simpa using hj
      simp only [List.set_cons_zero, slotsHeap, Nat.add_zero]
      abel
    | succ j =>
      have := ih (i + 1) (j := j) (by simpa using hj)
      rw [show i + 1 + j = i + (j + 1) by omega] at this
      simp only [List.set_cons_succ, slotsHeap]
      rw [add_left_comm, this, add_left_comm]

theorem slotsHeap_concat (id : UInt64) (i : Nat) (slots : List (Option Object)) (x : Option Object) :
    slotsHeap id i (slots ++ [x]) =
      slotHeap (slotHandle id (i + slots.length)) x + slotsHeap id i slots := by
  induction slots generalizing i with
  | nil => simp [slotsHeap]
  | cons y slots ih =>
    simp only [List.cons_append, slotsHeap, ih, List.length_cons]
    rw [show i + 1 + slots.length = i + (slots.length + 1) by omega]
    abel

theorem slotHandle_inj {i j : Nat} (hi : i ≤ maxSlots) (hj : j ≤ maxSlots)
    (he : slotHandle id i = slotHandle id j) : i = j := by
  have hbound : maxSlots + 1 < 2 ^ 64 := by decide
  have := congrArg (fun h => h.offset.toNat) he
  simp only [slotHandle, UInt64.toNat_ofNat'] at this
  rw [Nat.mod_eq_of_lt (by omega), Nat.mod_eq_of_lt (by omega)] at this
  omega

theorem nodup_slotsHeap {i : Nat} {slots : List (Option Object)} (hle : i + slots.length ≤ maxSlots) :
    ((slotsHeap id i slots).map Prod.fst).Nodup := by
  induction slots generalizing i with
  | nil => simp [slotsHeap]
  | cons x slots ih =>
    rw [List.length_cons] at hle
    have hrest := ih (i := i + 1) (by omega)
    cases x with
    | none => simpa [slotsHeap, slotHeap] using hrest
    | some a =>
      simp only [slotsHeap, slotHeap, cell, Multiset.singleton_add, Multiset.map_cons,
        Multiset.nodup_cons]
      refine ⟨fun hm => ?_, hrest⟩
      -- The handle of a later slot is another one, since indices do not wrap around.
      obtain ⟨⟨h, b⟩, hb, rfl⟩ := Multiset.mem_map.1 hm
      obtain ⟨j, hj, he⟩ := mem_slotsHeap.1 hb
      have hlt := (List.getElem?_eq_some_iff.1 hj).1
      have := slotHandle_inj (by omega) (by omega) he
      omega

end Slots

/-! ## Pools -/

namespace Pool

variable {p q : Pool} {h : Handle} {a b : Object} {m r : Heap}

/-- A handle of a slot is the handle of the slot's index. -/
theorem eq_slotHandle {i : Nat} (hi : p.slotIndex? h = some i) : h = slotHandle p.id i := by
  have hlt := lt_size_of_slotIndex? hi
  have hle := p.size_le
  have hbound : maxSlots < 2 ^ 64 := by decide
  simp only [slotIndex?] at hi
  split at hi
  · rename_i hc
    obtain ⟨hp, h0, hle'⟩ := hc
    have hpos : h.offset.toNat ≠ 0 := fun e => h0 (UInt64.toNat_inj.1 (by simpa using e))
    simp only [Option.some.injEq] at hi
    have hoff : h.offset = UInt64.ofNat (i + 1) := by
      rw [show i + 1 = h.offset.toNat by omega, UInt64.ofNat_toNat]
    cases h
    simp_all [slotHandle]
  · simp at hi

theorem slotIndex?_slotHandle {i : Nat} (hi : i < p.slots.size) :
    p.slotIndex? (slotHandle p.id i) = some i := by
  have hle := p.size_le
  have hbound : maxSlots < 2 ^ 64 := by decide
  have hoff : (UInt64.ofNat (i + 1)).toNat = i + 1 := UInt64.toNat_ofNat_of_lt' (by
    simp only [UInt64.size]; omega)
  have h0 : UInt64.ofNat (i + 1) ≠ 0 := fun e => by rw [e] at hoff; simp at hoff
  rw [slotHandle, slotIndex?_of_offset p h0 (by omega), hoff]
  simp

/-- **A heap holds what handles resolve to.** -/
theorem mem_heap : (h, a) ∈ p.heap ↔ p.object? h = some a := by
  rw [heap, mem_slotsHeap]
  simp only [Nat.zero_add, Array.getElem?_toList]
  constructor
  · rintro ⟨j, hj, rfl⟩
    have hlt := (Array.getElem?_eq_some_iff.1 hj).1
    simp [object?, slotIndex?_slotHandle hlt, hj]
  · intro ho
    obtain ⟨i, hi, hs⟩ := exists_slotIndex?_of_object? a ho
    exact ⟨i, hs, eq_slotHandle hi⟩

/-- Handles of nodes and payloads are those of the heap. -/
theorem entry_eq_ok_iff {e : EntryNode} : p.entry h = .ok e ↔ (h, .entry e) ∈ p.heap := by
  rw [mem_heap, ← resolve_eq_ok_iff, Pool.entry]
  cases p.resolve h with
  | error reason => simp [bind, Except.bind]
  | ok a => cases a <;> simp [bind, Except.bind]

theorem logNode_eq_ok_iff {n : LogNode} : p.logNode h = .ok n ↔ (h, .log n) ∈ p.heap := by
  rw [mem_heap, ← resolve_eq_ok_iff, Pool.logNode]
  cases p.resolve h with
  | error reason => simp [bind, Except.bind]
  | ok a => cases a <;> simp [bind, Except.bind]

theorem bytes_eq_ok_iff {b : Bytes} : p.bytes h = .ok b ↔ (h, .payload b) ∈ p.heap := by
  rw [mem_heap, ← resolve_eq_ok_iff, Pool.bytes]
  cases p.resolve h with
  | error reason => simp [bind, Except.bind]
  | ok a => cases a <;> simp [bind, Except.bind]

/-- **No handle names two objects.** -/
theorem nodup_heap (p : Pool) : (p.heap.map Prod.fst).Nodup :=
  nodup_slotsHeap (by simpa using p.size_le)

theorem card_heap (p : Pool) : p.heap.card = p.objects.length := card_slotsHeap 0 _

theorem card_heap_le (p : Pool) : p.heap.card ≤ p.slots.size := by
  rw [card_heap, objects]
  exact (List.length_filterMap_le _ _).trans_eq (by simp)

theorem object?_of_heap (hp : p.heap = cell h a + m) : p.object? h = some a :=
  mem_heap.1 (by simp [hp])

/-- The object that a handle resolves to is one cell of the heap. -/
theorem exists_heap_eq (ho : p.object? h = some a) : ∃ m, p.heap = cell h a + m := by
  obtain ⟨m, hm⟩ := Multiset.exists_cons_of_mem (mem_heap.2 ho)
  exact ⟨m, by rw [hm, cell, Multiset.singleton_add]⟩

/-- A handle whose object is gone names nothing. -/
theorem object?_eq_none_of_keys {gone : Multiset Handle}
    (hkeys : p.heap.map Prod.fst = gone + q.heap.map Prod.fst) (hh : h ∈ gone) :
    q.object? h = none := by
  have hnodup := p.nodup_heap
  rw [hkeys, Multiset.nodup_add] at hnodup
  refine Option.eq_none_iff_forall_ne_some.2 fun a ha => ?_
  exact Multiset.disjoint_left.1 hnodup.2.2 hh (Multiset.mem_map_of_mem Prod.fst (mem_heap.2 ha))

/-- What is exchanged in a heap is gone from the pool, but for the handles of what has come in its
place. -/
theorem object?_of_heap_exchange {m m' : Heap} (hp : p.heap = m + r) (hq : q.heap = m' + r)
    (hh : h ∉ m'.map Prod.fst) :
    q.object? h = if h ∈ m.map Prod.fst then none else p.object? h := by
  have hleft : ∀ a, q.object? h = some a ↔ (h, a) ∈ r := fun a => by
    rw [← mem_heap, hq, Multiset.mem_add]
    exact or_iff_right fun hm => hh (Multiset.mem_map_of_mem Prod.fst hm)
  split
  · rename_i hm
    have hnodup := p.nodup_heap
    rw [hp, Multiset.map_add, Multiset.nodup_add] at hnodup
    refine Option.eq_none_iff_forall_ne_some.2 fun a ha => ?_
    exact Multiset.disjoint_left.1 hnodup.2.2 hm (Multiset.mem_map_of_mem Prod.fst ((hleft a).1 ha))
  · rename_i hm
    refine Option.ext fun a => ?_
    rw [hleft, ← mem_heap, hp, Multiset.mem_add]
    exact (or_iff_right fun ha => hm (Multiset.mem_map_of_mem Prod.fst ha)).symm

/-- What is gone from a heap is gone from the pool. -/
theorem object?_of_heap_add {m : Heap} {gone : List Handle} (hheap : p.heap = m + q.heap)
    (hgone : m.map Prod.fst = gone) (h : Handle) :
    q.object? h = if h ∈ gone then none else p.object? h := by
  rw [object?_of_heap_exchange hheap (zero_add q.heap).symm (by simp), hgone]
  rfl

@[simp] theorem heap_withRoot (p : Pool) (root : Root) : (p.withRoot root).heap = p.heap := rfl

theorem heap_setSlot {i : Nat} {old : Option Object} (hi : p.slots[i]? = some old)
    (new : Option Object) :
    slotHeap (slotHandle p.id i) old + (p.setSlot i new).heap =
      slotHeap (slotHandle p.id i) new + p.heap := by
  have := slotsHeap_set p.id 0 (show p.slots.toList[i]? = some old by simpa using hi) new
  simpa [heap] using this

/-- Putting an object in place of another exchanges one cell. -/
theorem heap_setObject (hp : p.heap = cell h a + m) (b : Object) :
    (p.setObject h b).heap = cell h b + m := by
  obtain ⟨i, hi, hs⟩ := exists_slotIndex?_of_object? a (object?_of_heap hp)
  have := heap_setSlot hs (some b)
  rw [← eq_slotHandle hi, hp] at this
  simp only [slotHeap] at this
  rw [setObject_of_some b hi]
  exact add_left_cancel (this.trans (add_left_comm _ _ _))

/-- Emptying a slot takes one cell away. -/
theorem heap_clearSlot (hp : p.heap = cell h a + m) : (p.clearSlot h).heap = m := by
  obtain ⟨i, hi, hs⟩ := exists_slotIndex?_of_object? a (object?_of_heap hp)
  have := heap_setSlot hs none
  rw [← eq_slotHandle hi, hp] at this
  simp only [slotHeap, zero_add] at this
  simp only [clearSlot, hi]
  exact add_left_cancel this

/-- Placing an object adds one cell. -/
theorem heap_place (hv : p.Vacant p.free) (hp : p.place a = .ok (h, q)) :
    q.heap = cell h a + p.heap := by
  rcases place_cases hp with ⟨free, hs, hf, hi, rfl⟩ | ⟨hf, hid, hoff, hs, rfl⟩
  -- The slot that is reused was empty, so no cell is lost.
  · have hempty := (hv.empty h.offset (hf ▸ List.mem_cons_self)).2
    have := heap_setSlot hempty (some a)
    rw [← eq_slotHandle hi] at this
    change (p.setSlot (h.offset.toNat - 1) (some a)).heap = _
    simpa [slotHeap] using this
  · have hh : h = slotHandle p.id p.slots.size := by
      cases h
      simp only [slotHandle, Handle.mk.injEq]
      exact ⟨hid, by rw [← hoff, UInt64.ofNat_toNat]⟩
    have := slotsHeap_concat p.id 0 p.slots.toList (some a)
    simp only [Nat.zero_add, Array.length_toList, ← hh, slotHeap] at this
    simpa [heap] using this

/-- Padding is invisible in the heap. -/
theorem PaddedBy.heap_eq {n : Nat} (hpq : PaddedBy n p q) : q.heap = p.heap := by
  have happend : ∀ (slots : List (Option Object)) (i n : Nat),
      slotsHeap p.id i (slots ++ List.replicate n none) = slotsHeap p.id i slots := by
    intro slots i n
    induction n with
    | zero => simp
    | succ n ih =>
      rw [List.replicate_succ', ← List.append_assoc, slotsHeap_concat, ih]
      simp [slotHeap]
  rw [heap, hpq.id, hpq.slots, happend, heap]

end Pool

end PersistentTier
