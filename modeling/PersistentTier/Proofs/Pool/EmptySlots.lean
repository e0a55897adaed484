import PersistentTier.Pool.Basic
import Mathlib.Data.List.Nodup

/-!
# Empty slots

The free list of a pool names empty slots, each once. A pool that an aborted scope leaves behind may
have more slots than before: they are empty and come last on the free list, and no handle can tell
the difference.

## Main definitions

* `Pool.Vacant`: offsets of empty slots, each once
* `Pool.withRoot`: a pool with another root
* `Pool.newOffsets`: the offsets of slots added at the end of the arena
* `Pool.Padded`: a pool with more empty slots at its end

## Main results

* `Pool.Padded.object?_eq`: padding is invisible to handles
* `Pool.Padded.setSlot`, `Pool.Padded.discard`: changes within the arena commute with padding
* `Pool.place_cases`, `Pool.place_error_cases`: where an object is placed, and why it is not
* `Pool.padded_discard_place`: taking an allocation back leaves the pool padded
-/

namespace PersistentTier.Pool

/-- The pool with another root. -/
def withRoot (p : Pool) (root : Root) : Pool := { p with root := root }

/-! ## Laws of changing slots -/

section Laws

variable (p : Pool) (h h' : Handle) (a b : Object)

@[simp] theorem root_setSlot (i : Nat) (x : Option Object) : (p.setSlot i x).root = p.root := rfl

@[simp] theorem free_setSlot (i : Nat) (x : Option Object) : (p.setSlot i x).free = p.free := rfl

@[simp] theorem image_setSlot (i : Nat) (x : Option Object) : (p.setSlot i x).image = p.image := rfl

@[simp] theorem options_setSlot (i : Nat) (x : Option Object) :
    (p.setSlot i x).options = p.options := rfl

theorem setSlot_setSlot (i : Nat) (x y : Option Object) :
    (p.setSlot i x).setSlot i y = p.setSlot i y := by
  simp [setSlot]

theorem setSlot_comm {i j : Nat} (hij : i ≠ j) (x y : Option Object) :
    (p.setSlot i x).setSlot j y = (p.setSlot j y).setSlot i x := by
  simp [setSlot, Array.setIfInBounds_comm x y hij]

/-- A slot that is given the contents it has stays the same. -/
theorem setSlot_self {i : Nat} {x : Option Object} (hx : p.slots[i]? = some x) :
    p.setSlot i x = p := by
  have hs : p.slots.setIfInBounds i x = p.slots := by
    apply Array.ext_getElem?
    intro j
    rw [Array.getElem?_setIfInBounds]
    split
    · rename_i hij
      subst hij
      split <;> simp_all
    · rfl
  cases p
  simpa [setSlot] using hs

@[simp] theorem slotIndex?_setObject : (p.setObject h a).slotIndex? h' = p.slotIndex? h' := by
  unfold setObject; split <;> simp

@[simp] theorem slotIndex?_clearSlot : (p.clearSlot h).slotIndex? h' = p.slotIndex? h' := by
  unfold clearSlot; split <;> simp

@[simp] theorem free_setObject : (p.setObject h a).free = p.free := by
  unfold setObject; split <;> rfl

@[simp] theorem free_clearSlot : (p.clearSlot h).free = p.free := by
  unfold clearSlot; split <;> rfl

@[simp] theorem root_setObject : (p.setObject h a).root = p.root := by
  unfold setObject; split <;> rfl

@[simp] theorem root_clearSlot : (p.clearSlot h).root = p.root := by
  unfold clearSlot; split <;> rfl

@[simp] theorem size_setObject : (p.setObject h a).slots.size = p.slots.size := by
  unfold setObject; split <;> simp

@[simp] theorem size_clearSlot : (p.clearSlot h).slots.size = p.slots.size := by
  unfold clearSlot; split <;> simp

@[simp] theorem writeBudget_setObject : (p.setObject h a).writeBudget = p.writeBudget := by
  unfold setObject; split <;> rfl

@[simp] theorem writeBudget_clearSlot : (p.clearSlot h).writeBudget = p.writeBudget := by
  unfold clearSlot; split <;> rfl

@[simp] theorem slotIndex?_discard : (p.discard h).slotIndex? h' = p.slotIndex? h' := by
  unfold discard; split <;> simp [slotIndex?]

variable {p h h'} in
/-- A handle of an object names a slot with that object. -/
theorem exists_slotIndex?_of_object? (ho : p.object? h = some a) :
    ∃ i, p.slotIndex? h = some i ∧ p.slots[i]? = some (some a) := by
  obtain ⟨i, hi, hj⟩ := Option.bind_eq_some_iff.1 ho
  exact ⟨i, hi, by simpa [Option.join_eq_some_iff] using hj⟩

variable {p h} in
theorem setObject_of_some {i : Nat} (hi : p.slotIndex? h = some i) :
    p.setObject h a = p.setSlot i (some a) := by simp [setObject, hi]

variable {p h} in
theorem setObject_of_none (hi : p.slotIndex? h = none) : p.setObject h a = p := by
  simp [setObject, hi]

variable {p h} in
theorem discard_of_some {i : Nat} (hi : p.slotIndex? h = some i) :
    p.discard h = { p.setSlot i none with free := h.offset :: p.free } := by simp [discard, hi]

/-- A slot with an object is named by the handle of its offset. -/
theorem slotIndex?_of_offset {o : UInt64} (h0 : o ≠ 0) (hle : o.toNat ≤ p.slots.size) :
    p.slotIndex? ⟨p.id, o⟩ = some (o.toNat - 1) := by
  simp [slotIndex?, h0, hle]

variable {p h} in
/-- Which slot a handle is of. -/
theorem slotIndex?_eq_some_iff {i : Nat} : p.slotIndex? h = some i ↔
    h.pool = p.id ∧ h.offset ≠ 0 ∧ h.offset.toNat ≤ p.slots.size ∧ h.offset.toNat - 1 = i := by
  simp only [slotIndex?]
  split
  · rename_i hc
    simp [hc.1, hc.2.1, hc.2.2]
  · rename_i hc
    simp only [reduceCtorEq, false_iff]
    exact fun hh => hc ⟨hh.1, hh.2.1, hh.2.2.1⟩

theorem setObject_setObject : (p.setObject h a).setObject h b = p.setObject h b := by
  cases hi : p.slotIndex? h with
  | none => rw [setObject_of_none a hi]
  | some i =>
    rw [setObject_of_some b (i := i) (by simpa using hi), setObject_of_some a hi,
      setObject_of_some b hi, setSlot_setSlot]

variable {h h'} in
theorem setObject_comm (hne : h ≠ h') :
    (p.setObject h a).setObject h' b = (p.setObject h' b).setObject h a := by
  cases hi : p.slotIndex? h with
  | none => rw [setObject_of_none a hi, setObject_of_none a (by simpa using hi)]
  | some i =>
    cases hj : p.slotIndex? h' with
    | none => rw [setObject_of_none b hj, setObject_of_none b (by simpa using hj)]
    | some j =>
      have hij : i ≠ j := fun e => hne (slotIndex?_inj hi (e ▸ hj))
      rw [setObject_of_some b (i := j) (by simpa using hj), setObject_of_some a hi,
        setObject_of_some a (i := i) (by simpa using hi), setObject_of_some b hj,
        setSlot_comm p hij]

theorem setObject_withRoot (root : Root) :
    (p.withRoot root).setObject h a = (p.setObject h a).withRoot root := by
  have hw : (p.withRoot root).slotIndex? h = p.slotIndex? h := rfl
  cases hi : p.slotIndex? h with
  | none => rw [setObject_of_none a (hw.trans hi), setObject_of_none a hi]
  | some i =>
    rw [setObject_of_some a (hw.trans hi), setObject_of_some a hi]
    rfl

theorem discard_withRoot (root : Root) :
    (p.withRoot root).discard h = (p.discard h).withRoot root := by
  have hw : (p.withRoot root).slotIndex? h = p.slotIndex? h := rfl
  cases hi : p.slotIndex? h with
  | none => simp [discard, hw, hi]
  | some i =>
    rw [discard_of_some (hw.trans hi), discard_of_some hi]
    rfl

theorem discard_setObject : (p.setObject h a).discard h = p.discard h := by
  cases hi : p.slotIndex? h with
  | none => rw [setObject_of_none a hi]
  | some i =>
    rw [setObject_of_some a hi]
    simp only [discard, slotIndex?_setSlot, hi, setSlot_setSlot]
    rfl

variable {h h'} in
theorem discard_setObject_comm (hne : h ≠ h') :
    (p.setObject h a).discard h' = (p.discard h').setObject h a := by
  cases hi : p.slotIndex? h with
  | none => rw [setObject_of_none a hi, setObject_of_none a (by simpa using hi)]
  | some i =>
    rw [setObject_of_some a hi, setObject_of_some a (i := i) (by simpa using hi)]
    cases hj : p.slotIndex? h' with
    | none => simp [discard, hj]
    | some j =>
      have hij : i ≠ j := fun e => hne (slotIndex?_inj hi (e ▸ hj))
      simp only [discard, slotIndex?_setSlot, hj, setSlot_comm p hij]
      rfl

variable {p h a} in
/-- An object that is put where it is leaves the pool the same. -/
theorem setObject_self (ho : p.object? h = some a) : p.setObject h a = p := by
  obtain ⟨i, hi, hs⟩ := exists_slotIndex?_of_object? a ho
  simp only [setObject, hi]
  exact setSlot_self p hs

variable {p h a} in
/-- An object put back into the slot it was taken from. -/
theorem setObject_clearSlot (ho : p.object? h = some a) : (p.clearSlot h).setObject h a = p := by
  obtain ⟨i, hi, hs⟩ := exists_slotIndex?_of_object? a ho
  simp only [clearSlot, hi, setObject, slotIndex?_setSlot, setSlot_setSlot]
  exact setSlot_self p hs

end Laws

/-! ## Vacancies -/

/-- **Vacancies**: offsets of empty slots, each once. -/
structure Vacant (p : Pool) (offsets : List UInt64) : Prop where
  nodup : offsets.Nodup
  empty : ∀ o ∈ offsets, o ≠ 0 ∧ p.slots[o.toNat - 1]? = some none

namespace Vacant

variable {p q : Pool} {offsets : List UInt64}

/-- Vacancies depend on the slots they name only. -/
theorem of_slots (hv : p.Vacant offsets)
    (hs : ∀ o ∈ offsets, q.slots[o.toNat - 1]? = p.slots[o.toNat - 1]?) : q.Vacant offsets :=
  ⟨hv.nodup, fun o ho => ⟨(hv.empty o ho).1, hs o ho ▸ (hv.empty o ho).2⟩⟩

theorem toNat_pos (hv : p.Vacant offsets) {o : UInt64} (ho : o ∈ offsets) : 0 < o.toNat := by
  have h0 := (hv.empty o ho).1
  exact Nat.pos_of_ne_zero fun e => h0 (UInt64.toNat_inj.1 (by simpa using e))

theorem toNat_le (hv : p.Vacant offsets) {o : UInt64} (ho : o ∈ offsets) :
    o.toNat ≤ p.slots.size := by
  have hlt := (Array.getElem?_eq_some_iff.1 (hv.empty o ho).2).1
  omega

/-- Two vacancies with one slot are one. -/
theorem eq_of_slot (hv : p.Vacant offsets) {o o' : UInt64} (ho : o ∈ offsets) (ho' : o' ∈ offsets)
    (he : o.toNat - 1 = o'.toNat - 1) : o = o' := by
  have h := hv.toNat_pos ho
  have h' := hv.toNat_pos ho'
  exact UInt64.toNat_inj.1 (by omega)

/-- Whatever happens in a slot that is not vacant, the vacancies stay. -/
theorem setSlot (hv : p.Vacant offsets) {i : Nat} (hi : p.slots[i]? ≠ some none)
    (x : Option Object) : (p.setSlot i x).Vacant offsets := by
  refine hv.of_slots fun o ho => ?_
  have hne : i ≠ o.toNat - 1 := fun e => hi (e ▸ (hv.empty o ho).2)
  simp [Array.getElem?_setIfInBounds_ne hne]

/-- A vacancy that is taken leaves the others vacant. -/
theorem tail {o : UInt64} (hv : p.Vacant (o :: offsets)) (x : Option Object) :
    (p.setSlot (o.toNat - 1) x).Vacant offsets := by
  obtain ⟨hnot, hnodup⟩ := List.nodup_cons.1 hv.nodup
  refine ⟨hnodup, fun o' ho' => ?_⟩
  have hne : o.toNat - 1 ≠ o'.toNat - 1 := fun e =>
    hnot (hv.eq_of_slot (List.mem_cons_of_mem _ ho') List.mem_cons_self e.symm ▸ ho')
  have hem := hv.empty o' (List.mem_cons_of_mem _ ho')
  simpa [Array.getElem?_setIfInBounds_ne hne] using hem

theorem of_append_right {others : List UInt64} (hv : p.Vacant (others ++ offsets)) :
    p.Vacant offsets :=
  ⟨(List.nodup_append.1 hv.nodup).2.1, fun o ho => hv.empty o (List.mem_append_right _ ho)⟩

theorem perm (hv : p.Vacant offsets) {offsets' : List UInt64} (hp : offsets.Perm offsets') :
    p.Vacant offsets' :=
  ⟨hp.nodup_iff.1 hv.nodup, fun o ho => hv.empty o (hp.mem_iff.2 ho)⟩

/-- The slot of an object that is freed becomes vacant. -/
theorem clearSlot (hv : p.Vacant offsets) {h : Handle} {a : Object} (ho : p.object? h = some a) :
    (p.clearSlot h).Vacant (h.offset :: offsets) := by
  obtain ⟨i, hi, hs⟩ := exists_slotIndex?_of_object? a ho
  have hlt := lt_size_of_slotIndex? hi
  have hoff : h.offset ≠ 0 ∧ h.offset.toNat - 1 = i := by
    simp only [slotIndex?] at hi
    split at hi
    · rename_i hc
      exact ⟨hc.2.1, by simpa using hi⟩
    · simp at hi
  simp only [Pool.clearSlot, hi]
  have hv' := hv.setSlot (i := i) (by simp [hs]) none
  refine ⟨List.nodup_cons.2 ⟨fun hm => ?_, hv.nodup⟩, ?_⟩
  -- The slot was filled, so its offset is not listed yet.
  · have hem := (hv.empty _ hm).2
    rw [hoff.2, hs] at hem
    simp at hem
  · intro o ho
    rcases List.mem_cons.1 ho with rfl | ho
    · exact ⟨hoff.1, by simp [hoff.2, hlt]⟩
    · exact hv'.empty o ho

end Vacant

/-! ## Padding -/

/-- The offsets of the `n` slots after the first `size`, in order. -/
def newOffsets (size n : Nat) : List UInt64 := (List.range' (size + 1) n).map UInt64.ofNat

theorem newOffsets_add (size m n : Nat) :
    newOffsets size (m + n) = newOffsets size m ++ newOffsets (size + m) n := by
  have : size + m + 1 = size + 1 + m := by omega
  simp [newOffsets, ← List.map_append, this]

/-- **A padded pool**: one with `n` more empty slots at the end, which come last on the free
list. The write budget does not matter. -/
structure PaddedBy (n : Nat) (p q : Pool) : Prop where
  id : q.id = p.id
  root : q.root = p.root
  image : q.image = p.image
  options : q.options = p.options
  slots : q.slots.toList = p.slots.toList ++ List.replicate n none
  free : q.free = p.free ++ newOffsets p.slots.size n

/-- A pool with more empty slots at the end. -/
def Padded (p q : Pool) : Prop := ∃ n, PaddedBy n p q

variable {p q r : Pool} {m n : Nat}

namespace PaddedBy

theorem size_eq (hpq : PaddedBy n p q) : q.slots.size = p.slots.size + n := by
  have := congrArg List.length hpq.slots
  simpa using this

theorem getElem?_eq (hpq : PaddedBy n p q) (i : Nat) :
    q.slots[i]? = if i < p.slots.size then p.slots[i]?
      else if i < p.slots.size + n then some none else none := by
  rw [← Array.getElem?_toList, hpq.slots, List.getElem?_append]
  simp only [Array.length_toList, Array.getElem?_toList, List.getElem?_replicate]
  split
  · rfl
  · congr 1
    simp only [eq_iff_iff]
    omega

/-- **Padding is invisible**: every handle names the object it named. -/
theorem object?_eq (hpq : PaddedBy n p q) (h : Handle) : q.object? h = p.object? h := by
  simp only [object?, slotIndex?, hpq.id, hpq.size_eq]
  by_cases hc : h.pool = p.id ∧ h.offset ≠ 0
  · obtain ⟨hp, h0⟩ := hc
    have hpos : h.offset.toNat ≠ 0 := fun e => h0 (UInt64.toNat_inj.1 (by simpa using e))
    -- An offset is of an old slot, of an added one, which is empty, or of none.
    by_cases hle : h.offset.toNat ≤ p.slots.size
    · have : h.offset.toNat ≤ p.slots.size + n := by omega
      simp [hp, h0, hle, this, hpq.getElem?_eq, show h.offset.toNat - 1 < p.slots.size by omega]
    · by_cases hle' : h.offset.toNat ≤ p.slots.size + n
      · simp [hp, h0, hle, hle', hpq.getElem?_eq, show ¬ h.offset.toNat - 1 < p.slots.size by omega,
          show h.offset.toNat - 1 < p.slots.size + n by omega]
      · simp [hp, h0, hle, hle']
  · have hc' : ∀ c : Prop, ¬ (h.pool = p.id ∧ h.offset ≠ 0 ∧ c) := fun c hh => hc ⟨hh.1, hh.2.1⟩
    simp [hc']

theorem slotIndex?_eq (hpq : PaddedBy n p q) {h : Handle} {i : Nat} (hi : p.slotIndex? h = some i) :
    q.slotIndex? h = some i := by
  simp only [slotIndex?, hpq.id, hpq.size_eq] at hi ⊢
  split at hi
  · rename_i hc
    rw [if_pos ⟨hc.1, hc.2.1, by omega⟩]
    exact hi
  · simp at hi

theorem trans (hpq : PaddedBy m p q) (hqr : PaddedBy n q r) : PaddedBy (m + n) p r where
  id := hqr.id.trans hpq.id
  root := hqr.root.trans hpq.root
  image := hqr.image.trans hpq.image
  options := hqr.options.trans hpq.options
  slots := by rw [hqr.slots, hpq.slots, List.append_assoc, List.replicate_append_replicate]
  free := by rw [hqr.free, hpq.free, hpq.size_eq, List.append_assoc, ← newOffsets_add]

theorem setSlot (hpq : PaddedBy n p q) {i : Nat} (hi : i < p.slots.size) (x : Option Object) :
    PaddedBy n (p.setSlot i x) (q.setSlot i x) where
  id := hpq.id
  root := hpq.root
  image := hpq.image
  options := hpq.options
  slots := by simp [hpq.slots, List.set_append_left _ _ (show i < p.slots.toList.length by simpa)]
  free := by simp [hpq.free]

theorem setObject (hpq : PaddedBy n p q) {h : Handle} (hin : (p.slotIndex? h).isSome) (a : Object) :
    PaddedBy n (p.setObject h a) (q.setObject h a) := by
  obtain ⟨i, hi⟩ := Option.isSome_iff_exists.1 hin
  rw [setObject_of_some a hi, setObject_of_some a (hpq.slotIndex?_eq hi)]
  exact hpq.setSlot (lt_size_of_slotIndex? hi) _

theorem discard (hpq : PaddedBy n p q) {h : Handle} (hin : (p.slotIndex? h).isSome) :
    PaddedBy n (p.discard h) (q.discard h) := by
  obtain ⟨i, hi⟩ := Option.isSome_iff_exists.1 hin
  have hset := hpq.setSlot (lt_size_of_slotIndex? hi) none
  simp only [Pool.discard, hi, hpq.slotIndex?_eq hi]
  exact { hset with free := by simp [hpq.free] }

theorem withRoot (hpq : PaddedBy n p q) (root : Root) :
    PaddedBy n (p.withRoot root) (q.withRoot root) :=
  { hpq with root := rfl }

/-- Padding adds vacancies to the free list. -/
theorem vacant_free (hpq : PaddedBy n p q) (hv : p.Vacant p.free) : q.Vacant q.free := by
  have hbound : maxSlots < 2 ^ 64 := by decide
  have hsize := hpq.size_eq
  have hle := q.size_le
  have hnew : ∀ o ∈ newOffsets p.slots.size n, p.slots.size < o.toNat ∧ o.toNat ≤ q.slots.size := by
    intro o ho
    obtain ⟨i, hi, rfl⟩ := List.mem_map.1 ho
    obtain ⟨hi, hi'⟩ := List.mem_range'_1.1 hi
    rw [UInt64.toNat_ofNat_of_lt' (by simp only [UInt64.size]; omega)]
    omega
  constructor
  -- The new offsets are distinct and larger than the old ones.
  · rw [hpq.free, List.nodup_append]
    refine ⟨hv.nodup, ?_, ?_⟩
    · refine (List.nodup_range').map_on fun i hi j hj he => ?_
      obtain ⟨hi, hi'⟩ := List.mem_range'_1.1 hi
      obtain ⟨hj, hj'⟩ := List.mem_range'_1.1 hj
      have := congrArg UInt64.toNat he
      rwa [UInt64.toNat_ofNat_of_lt' (by simp only [UInt64.size]; omega),
        UInt64.toNat_ofNat_of_lt' (by simp only [UInt64.size]; omega)] at this
    · intro o ho o' ho' he
      have := hv.toNat_le ho
      have := (hnew o' ho').1
      rw [he] at *
      omega
  · intro o ho
    rw [hpq.free, List.mem_append] at ho
    rcases ho with ho | ho
    · have hle := hv.toNat_le ho
      have hpos := hv.toNat_pos ho
      rw [hpq.getElem?_eq, if_pos (by omega)]
      exact hv.empty o ho
    · obtain ⟨hlt, hle⟩ := hnew o ho
      refine ⟨fun e => by simp [e] at hlt, ?_⟩
      rw [hpq.getElem?_eq, if_neg (by omega), if_pos (by omega)]

end PaddedBy

theorem Padded.trans (hpq : Padded p q) (hqr : Padded q r) : Padded p r :=
  let ⟨_, hm⟩ := hpq
  let ⟨_, hn⟩ := hqr
  ⟨_, hm.trans hn⟩

theorem paddedBy_writeBudget (p : Pool) (budget : Option Nat) :
    PaddedBy 0 p { p with writeBudget := budget } :=
  ⟨rfl, rfl, rfl, rfl, by simp, by simp [newOffsets]⟩

theorem Padded.refl (p : Pool) : Padded p p := ⟨0, paddedBy_writeBudget p p.writeBudget⟩

/-- **What placing does**: it takes the next free slot, or adds one if none is free. -/
theorem place_cases {a : Object} {h : Handle} (hp : p.place a = .ok (h, q)) :
    (∃ free hs, p.free = h.offset :: free ∧ p.slotIndex? h = some (h.offset.toNat - 1) ∧
      q = { p.setSlot (h.offset.toNat - 1) (some a) with free := free, size_le := hs }) ∨
    (p.free = [] ∧ h.pool = p.id ∧ h.offset.toNat = p.slots.size + 1 ∧
      ∃ hs, q = { p with slots := p.slots.push (some a), size_le := hs }) := by
  unfold place at hp
  split at hp
  · rename_i offset free hf
    split at hp
    · rename_i hc
      simp only [Except.ok.injEq, Prod.mk.injEq] at hp
      obtain ⟨rfl, rfl⟩ := hp
      exact .inl ⟨free, _, hf, slotIndex?_of_offset p hc.1 hc.2, rfl⟩
    · simp at hp
  · rename_i hf
    split at hp
    · rename_i hlt
      simp only [Except.ok.injEq, Prod.mk.injEq] at hp
      obtain ⟨rfl, rfl⟩ := hp
      refine .inr ⟨hf, rfl, ?_, _, rfl⟩
      have hbound : maxSlots < UInt64.size := by decide
      exact UInt64.toNat_ofNat_of_lt' (by omega)
    · simp at hp

/-- **What is in the way of an object**: an offset that is listed leads out of the arena, or none is
listed and the arena is full. -/
theorem place_error_cases {a : Object} {crash : Crash} (hplace : p.place a = .error crash) :
    (∃ o ∈ p.free, (o = 0 ∨ p.slots.size < o.toNat) ∧ crash = .freeListOutOfRange o) ∨
      p.free = [] ∧ p.slots.size = maxSlots ∧ crash = .outOfMemory := by
  unfold place at hplace
  split at hplace
  · rename_i o free hfree
    split at hplace
    · cases hplace
    · rename_i hout
      refine .inl ⟨o, hfree ▸ List.mem_cons_self, ?_, (Except.error.inj hplace).symm⟩
      rwa [not_and_or, not_not, Nat.not_le] at hout
  · rename_i hfree
    have hle := p.size_le
    split at hplace
    · cases hplace
    · rename_i hfull
      exact .inr ⟨hfree, by omega, (Except.error.inj hplace).symm⟩

/-- Where the free list names empty slots, nothing but a full arena is in the way of an object. -/
theorem place_error {a : Object} {crash : Crash} (hv : p.Vacant p.free)
    (hplace : p.place a = .error crash) :
    crash = .outOfMemory ∧ p.free = [] ∧ p.slots.size = maxSlots := by
  rcases place_error_cases hplace with ⟨o, ho, hout, -⟩ | ⟨hfree, hfull, hcrash⟩
  · rcases hout with hzero | hlarge
    · exact absurd hzero (hv.empty o ho).1
    · exact absurd (hv.toNat_le ho) (by omega)
  · exact ⟨hcrash, hfree, hfull⟩

/-- An object is found where it has been placed. -/
theorem object?_place {a : Object} {h : Handle} (hp : p.place a = .ok (h, q)) :
    q.object? h = some a := by
  rcases place_cases hp with ⟨free, hs, -, hi, rfl⟩ | ⟨-, hid, hoff, hs, rfl⟩
  · change (p.setSlot (h.offset.toNat - 1) (some a)).object? h = some a
    rw [← setObject_of_some a hi, object?_setObject]
    simp [hi]
  · have h0 : h.offset ≠ 0 := fun e => by simp [e] at hoff
    simp [object?, slotIndex?, hid, h0, hoff]

theorem root_place {a : Object} {h : Handle} (hp : p.place a = .ok (h, q)) : q.root = p.root := by
  rcases place_cases hp with ⟨free, hs, -, -, rfl⟩ | ⟨-, -, -, hs, rfl⟩ <;> rfl

theorem writeBudget_place {a : Object} {h : Handle} (hp : p.place a = .ok (h, q)) :
    q.writeBudget = p.writeBudget := by
  rcases place_cases hp with ⟨free, hs, -, -, rfl⟩ | ⟨-, -, -, hs, rfl⟩ <;> rfl

/-- A slot is reused or added. -/
theorem size_place_le {a : Object} {h : Handle} (hp : p.place a = .ok (h, q)) :
    q.slots.size ≤ p.slots.size + 1 := by
  rcases place_cases hp with ⟨free, hs, -, -, rfl⟩ | ⟨-, -, -, hs, rfl⟩
  · simp only [slots_setSlot, Array.size_setIfInBounds]
    omega
  · simp only [Array.size_push]
    omega

/-- **An allocation taken back** leaves the pool padded: an empty slot is listed again, or a new one
is left behind. -/
theorem padded_discard_place {a : Object} {h : Handle} (hv : p.Vacant p.free)
    (hp : p.place a = .ok (h, q)) : Padded p (q.discard h) := by
  rcases place_cases hp with ⟨free, hs, hf, hi, rfl⟩ | ⟨hf, hid, hoff, hs, rfl⟩
  -- The slot was on the free list and comes back to its front.
  · have hem := (hv.empty h.offset (hf ▸ List.mem_cons_self)).2
    rw [discard_of_some (i := h.offset.toNat - 1) (by simpa [slotIndex?] using hi)]
    refine ⟨0, rfl, rfl, rfl, rfl, ?_, by simp [hf, newOffsets]⟩
    have hself := congrArg (fun p : Pool => p.slots.toList) (setSlot_self p hem)
    simpa using hself
  -- The slot was added: it stays, empty, and its offset is the first new one.
  · have h0 : h.offset ≠ 0 := fun e => by simp [e] at hoff
    rw [discard_of_some (i := p.slots.size) (by simp [slotIndex?, hid, h0, hoff])]
    refine ⟨1, rfl, rfl, rfl, rfl, by simp, ?_⟩
    have : UInt64.ofNat (p.slots.size + 1) = h.offset := by rw [← hoff, UInt64.ofNat_toNat]
    simp [hf, newOffsets, this]

end PersistentTier.Pool
