import PersistentTier.Proofs.Chain.Operations
import PersistentTier.Proofs.Chain.Reading
import PersistentTier.Proofs.Object.Stored
import PersistentTier.Proofs.Scope.Transaction

/-!
# The image keeps what the pool holds

A pool with an image is written out at every commit in the synchronous mode, and at a checkpoint or
on closing in the asynchronous one. What stands at its place is always the image of some pool with
known contents: those of the pool itself in the synchronous mode, earlier ones in the other.

Nothing stands in the way of file access here, so writing the image never fails.

## Main definitions

* `Contents.Regular`: contents that can be stored, with every key once
* `Location.Keeps`, `Pool.Keeps`: the place of an image, and a pool with its image
* `Pool.Follows`: what a tier may rely on from one transaction to the next

## Main results

* `Pool.Keeps.transaction`: a transaction whose operation satisfies a triple
* `Location.Keeps.exists_open`: a pool is opened with the contents that its place keeps
* `Pool.Keeps.close`: a place keeps the contents of the pool that is closed there
-/

namespace PersistentTier

open Pool Scope Tx

/-! ## Regular contents -/

/-- A pair whose write fits. -/
def Resident.Fits (x : Resident) : Prop := (Command.set x.key x.value).Fits

/-- A logged command that fits, in its encoded form. -/
def Logged.Fits (x : Logged) : Prop := ∃ cmd : Command, cmd.Fits ∧ x.command = cmd.encode

namespace Contents

/-- The pairs of both chains. -/
def pairs (c : Contents) : List Resident := c.entries ++ c.victims

/-- **Regular contents**: no key is in two pairs, and everything is short enough to be stored. -/
structure Regular (c : Contents) : Prop where
  keys : (c.pairs.map Resident.key).Nodup
  pairs : ∀ x ∈ c.pairs, x.Fits
  log : ∀ y, ∀ z ∈ c.log y, z.Fits

theorem regular_empty : ({} : Contents).Regular :=
  ⟨List.nodup_nil, fun _ h => absurd h List.not_mem_nil, fun _ _ h => absurd h List.not_mem_nil⟩

end Contents

section Storable

variable {kind : ChainKind} {before after : Option Handle} {h : Handle} {a : Object}

theorem storable_of_mem_chain {xs : List Resident} (hxs : ∀ x ∈ xs, x.Fits)
    (hm : (h, a) ∈ chain kind before xs after) : a.Storable := by
  induction xs generalizing before with
  | nil => simp [chain] at hm
  | cons x xs ih =>
    have hx : x.key.length < 2 ^ 32 ∧ x.value.length < 2 ^ 32 := (hxs x List.mem_cons_self).storable
    rw [chain, Multiset.mem_add] at hm
    rcases hm with hm | hm
    · simp only [Resident.heap, Resident.payloads, Multiset.mem_add, mem_cell, Prod.mk.injEq] at hm
      rcases hm with ⟨-, rfl⟩ | ⟨-, rfl⟩ | ⟨-, rfl⟩
      · trivial
      · exact hx.1
      · exact hx.2
    · exact ih (fun y hy => hxs y (List.mem_cons_of_mem _ hy)) hm

theorem storable_of_mem_logChain {ys : List Logged} (hys : ∀ y ∈ ys, y.Fits)
    (hm : (h, a) ∈ logChain before ys) : a.Storable := by
  induction ys generalizing before with
  | nil => simp [logChain] at hm
  | cons y ys ih =>
    obtain ⟨cmd, hfits, hcommand⟩ := hys y List.mem_cons_self
    rw [logChain, Multiset.mem_add] at hm
    rcases hm with hm | hm
    · simp only [Logged.heap, Multiset.mem_add, mem_cell, Prod.mk.injEq] at hm
      rcases hm with ⟨-, rfl⟩ | ⟨-, rfl⟩
      · trivial
      · rw [hcommand]
        exact hfits
    · exact ih (fun z hz => hys z (List.mem_cons_of_mem _ hz)) hm

/-- What regular contents consist of can be stored. -/
theorem Contents.Regular.storable {c : Contents} (hc : c.Regular) (hm : (h, a) ∈ c.heap) :
    a.Storable := by
  simp only [Contents.heap, Contents.logHeap, Multiset.mem_add] at hm
  rcases hm with (hm | hm) | hm | hm
  · exact storable_of_mem_chain (fun x hx => hc.pairs x (List.mem_append_left _ hx)) hm
  · exact storable_of_mem_chain (fun x hx => hc.pairs x (List.mem_append_right _ hx)) hm
  · exact storable_of_mem_logChain (hc.log .a) hm
  · exact storable_of_mem_logChain (hc.log .b) hm

end Storable

/-! ## Images -/

variable {p q : Pool} {c : Contents} {place : Location} {bound : Nat} {P : Contents → Prop}

/-- The handles of all slots. -/
def Pool.slotHandles (p : Pool) : List Handle := (List.range p.slots.size).map (slotHandle p.id)

theorem Pool.mem_slotHandles {h : Handle} {i : Nat} (hi : p.slotIndex? h = some i) :
    h ∈ p.slotHandles := by
  rw [eq_slotHandle hi]
  exact List.mem_map_of_mem (List.mem_range.2 (lt_size_of_slotIndex? hi))

/-- **Objects and vacancies** are in different slots. -/
theorem Pool.Vacant.handles_le {offsets : List UInt64} (hv : p.Vacant offsets) :
    p.heap.map Prod.fst + (offsets.map (Handle.mk p.id) : List Handle) ≤ p.slotHandles := by
  have hvacant : (offsets.map (Handle.mk p.id)).Nodup :=
    hv.nodup.map fun o o' he => congrArg Handle.offset he
  have hslot : ∀ o ∈ offsets, p.slotIndex? ⟨p.id, o⟩ = some (o.toNat - 1) := fun o ho =>
    slotIndex?_of_offset p (hv.empty o ho).1 (hv.toNat_le ho)
  -- No handle is both that of an object and that of a vacancy.
  have hapart : Disjoint (p.heap.map Prod.fst)
      (offsets.map (Handle.mk p.id) : List Handle) := by
    refine Multiset.disjoint_left.2 fun hheap hh => ?_
    obtain ⟨⟨h, a⟩, ha, rfl⟩ := Multiset.mem_map.1 hheap
    obtain ⟨o, ho, rfl⟩ := List.mem_map.1 (Multiset.mem_coe.1 hh)
    obtain ⟨i, hi, hs⟩ := exists_slotIndex?_of_object? a (mem_heap.1 ha)
    obtain rfl := Option.some.inj ((hslot o ho).symm.trans hi)
    rw [(hv.empty o ho).2] at hs
    cases hs
  refine (Multiset.le_iff_subset
    ((Multiset.Nodup.add_iff p.nodup_heap (Multiset.coe_nodup.2 hvacant)).2 hapart)).2 fun h hh => ?_
  rcases Multiset.mem_add.1 hh with hheap | hh
  · obtain ⟨⟨h, a⟩, ha, rfl⟩ := Multiset.mem_map.1 hheap
    obtain ⟨i, hi, -⟩ := exists_slotIndex?_of_object? a (mem_heap.1 ha)
    exact mem_slotHandles hi
  · obtain ⟨o, ho, rfl⟩ := List.mem_map.1 (Multiset.mem_coe.1 hh)
    exact mem_slotHandles (hslot o ho)

/-- There are at least as many slots as objects and vacancies. -/
theorem Pool.Vacant.card_add_length_le {offsets : List UInt64} (hv : p.Vacant offsets) :
    p.heap.card + offsets.length ≤ p.slots.size := by
  simpa [slotHandles] using Multiset.card_le_card hv.handles_le

/-- The image of a pool can be stored if its lists and its objects are short enough. -/
theorem Pool.storable_toImage (hsize : p.slots.size < 2 ^ 32) (hfree : p.free.length < 2 ^ 32)
    (hobjects : ∀ z ∈ p.heap, z.2.Storable) : p.toImage.Storable where
  slots := by simpa [toImage] using hsize
  free := by simpa [toImage] using hfree
  objects a ha := by
    obtain ⟨i, hi⟩ := List.mem_iff_getElem?.1 ha
    exact hobjects (slotHandle p.id (0 + i), a) (mem_slotsHeap.2 ⟨i, hi, rfl⟩)

/-- **The image of a pool with regular contents is read back.** -/
theorem Pool.Holds.decode_toImage (hp : p.Holds c) (hc : c.Regular) (hsize : p.slots.size < 2 ^ 32) :
    Image.decode p.toImage.encode = .ok p.toImage := by
  have hfree : p.free.length < 2 ^ 32 := by
    have hslots := hp.vacant.card_add_length_le
    omega
  have hobjects : ∀ z ∈ p.heap, z.2.Storable := fun z hz => hc.storable (h := z.1) (hp.heap ▸ hz)
  exact Image.decode_encode rfl (storable_toImage hsize hfree hobjects)

/-- **A pool as it is opened** from its image at a place. -/
def Pool.loaded (p : Pool) (place : Location) (options : PoolOptions) : Pool :=
  { p with image := some place, options := options, writeBudget := none }

/-- The pool of the image of a pool. -/
theorem Pool.ofImage_toImage (p : Pool) (place : Location) (options : PoolOptions) :
    ofImage p.toImage place options = .ok (p.loaded place options) := by
  simp [ofImage, toImage, loaded, p.size_le]

/-- **A place that keeps an image**, of a pool with contents of which `P` holds. Nothing stands in
its way. So long as nothing has been written there, it keeps the empty contents. -/
structure Location.Keeps (place : Location) (bound : Nat) (P : Contents → Prop) : Prop where
  clear : place.obstacles = []
  kept : (place.standing = .absent ∧ P {}) ∨ ∃ p c, Pool.Holds p c ∧ P c ∧ p.slots.size ≤ bound ∧
    place.standing = .file p.toImage.encode

theorem Location.Keeps.mono {bound' : Nat} {P' : Contents → Prop} (hplace : place.Keeps bound P)
    (hbound : bound ≤ bound') (hP : ∀ c, P c → P' c) : place.Keeps bound' P' := by
  refine ⟨hplace.clear, hplace.kept.imp (.imp_right (hP {})) ?_⟩
  rintro ⟨p, c, hp, hc, hsize, hstanding⟩
  exact ⟨p, c, hp, hP c hc, hsize.trans hbound, hstanding⟩

/-- What is kept is a file or nothing. -/
theorem Location.Keeps.standing_ne (hplace : place.Keeps bound P) : place.standing ≠ .directory := by
  rcases hplace.kept with ⟨h, -⟩ | ⟨_, _, -, -, -, h⟩ <;> simp [h]

/-- The contents that the image of a pool may have: those of the pool in the synchronous mode. -/
def Pool.Images (p : Pool) (c : Contents) (image : Contents) : Prop :=
  if p.options.durability = .sync then image = c else image.Regular

/-- **A pool that keeps contents**, in its arena and, as far as its mode demands, in its image. -/
structure Pool.Keeps (p : Pool) (c : Contents) : Prop where
  holds : p.Holds c
  stored : ∀ place, p.image = some place → place.Keeps p.slots.size (p.Images c)

/-- **What may be relied on from one transaction to the next**: the options, whether there is an
image, and that the arena does not shrink. -/
structure Pool.Follows (p q : Pool) : Prop where
  options : q.options = p.options
  image : q.image.isSome = p.image.isSome
  size : p.slots.size ≤ q.slots.size
  budget : p.writeBudget = none → q.writeBudget = none

theorem Pool.SameHost.follows (hpq : SameHost p q) : Follows p q :=
  ⟨hpq.options, by rw [hpq.image], hpq.size, hpq.budget⟩

/-- A pool with the same image keeps it. -/
theorem Pool.SameHost.keeps (hpq : SameHost p q) (hp : p.Keeps c) (hq : q.Holds c) : q.Keeps c where
  holds := hq
  stored place himage := by
    refine (hp.stored place (hpq.image ▸ himage)).mono hpq.size fun c' hc' => ?_
    rwa [Images, hpq.options]

/-- A pool that has written its image keeps its contents. -/
theorem Pool.Holds.keeps_save (hp : p.Holds c) (hc : p.options.durability ≠ .sync → c.Regular)
    (hplace : place.Keeps bound P) :
    Pool.Keeps { p with image := some { place with standing := .file p.toImage.encode } } c where
  holds := ⟨hp.root, hp.heap, hp.vacant.of_slots fun _ _ => rfl⟩
  stored place' himage := by
    obtain rfl := Option.some.inj himage
    refine ⟨hplace.clear, .inr ⟨p, c, hp, ?_, Nat.le_refl _, rfl⟩⟩
    unfold Images
    split
    · rfl
    · rename_i hsync
      exact hc hsync

section Transactions

variable {α : Type} {fails : Failure → Prop} {room : Nat} {tx : Tx α} {R : α → Contents → Prop}

/-- What a commit makes durable. -/
theorem Pool.Keeps.exists_makeDurable {s : Pool} {c' : Contents} (hp : p.Keeps c) (hs : s.Holds c')
    (hhost : SameHost p s) : ∃ q, s.makeDurable = .ok q ∧ q.Keeps c' ∧ Follows p q := by
  -- Only the synchronous mode writes at a commit; in the others the image falls behind.
  have hstays : p.options.durability ≠ .sync → s.Keeps c' := fun hd =>
    ⟨hs, fun place himage => by
      refine (hp.stored place (hhost.image ▸ himage)).mono hhost.size fun c₀ hc₀ => ?_
      simp only [Images, if_neg hd] at hc₀
      simpa only [Images, hhost.options, if_neg hd] using hc₀⟩
  unfold makeDurable
  rw [hhost.options]
  cases hd : p.options.durability with
  | async | none => exact ⟨s, rfl, hstays (by simp [hd]), hhost.follows⟩
  | sync =>
    cases himage : s.image with
    | none =>
      exact ⟨s, by simp [save, himage], ⟨hs, fun place h => by simp [himage] at h⟩, hhost.follows⟩
    | some place =>
      have hplace := hp.stored place (hhost.image ▸ himage)
      have hsave := save_eq himage hplace.clear hplace.standing_ne
      refine ⟨_, hsave, hs.keeps_save (fun h => ?_) hplace, ?_⟩
      · exact absurd (hhost.options ▸ hd) h
      · exact ⟨hhost.options, by rw [← hhost.image, himage]; rfl, hhost.size, hhost.budget⟩

/-- A failure inside a scope that is permitted as it surfaces from the scope. -/
def Tx.Surfaces (fails : Failure → Prop) (e : Failure) : Prop := fails e.toAborted

/-- **A transaction whose operation satisfies a triple** ends with the contents that the triple says,
or with those it began with. -/
theorem Pool.Keeps.transaction (hp : p.Keeps c) (htx : tx.Stepwise)
    (ht : Triple (Surfaces fails) (Scope.Shows (Surfaces fails) (c.view room c.counters 0)) tx
      fun a s => ∃ c' room', R a c' ∧ s.Shows (Surfaces fails) (c'.view room' c'.counters 0))
    (hable : p.Able fails room) :
    match p.transaction tx with
    | (.ok a, q) => Follows p q ∧ ∃ c', R a c' ∧ q.Keeps c'
    | (.error e, q) => Follows p q ∧ fails e ∧ q.Keeps c := by
  have hshows : Scope.Shows (Surfaces fails) (c.view room c.counters 0) { pool := p } := by
    rw [c.view_zero]
    exact hp.holds.shows ⟨hable.unlimited, hable.roomy⟩
  have hends := ends_transaction hp.holds.vacant htx ht hshows
  generalize p.transaction tx = out at hends
  cases hends with
  | @committed a s q post sound host durable =>
    obtain ⟨c', room', hR, hs⟩ := post
    rw [c'.view_zero] at hs
    obtain ⟨q', hq', hkeeps, hfollows⟩ := hp.exists_makeDurable hs.holds_release
      ⟨host.id, host.options, host.image, host.size, host.budget⟩
    obtain rfl : q' = q := Except.ok.inj (hq'.symm.trans durable)
    exact ⟨hfollows, c', hR, hkeeps⟩
  | failed permitted padded host =>
    exact ⟨host.follows, permitted, host.keeps hp (hp.holds.padded padded)⟩
  | @undurable a s cause q post host refused padded =>
    -- Nothing stands in the way of writing the image, so the commit does not fail.
    obtain ⟨c', room', -, hs⟩ := post
    rw [c'.view_zero] at hs
    obtain ⟨q', hq', -⟩ := hp.exists_makeDurable hs.holds_release
      ⟨host.id, host.options, host.image, host.size, host.budget⟩
    simp [hq'] at refused

end Transactions

/-! ## Opening, writing out and closing -/

/-- **A checkpoint succeeds**, and the pool keeps what it kept. -/
theorem Pool.Keeps.exists_checkpoint (hp : p.Keeps c) (hc : c.Regular) :
    ∃ q, p.checkpoint = .ok q ∧ q.Keeps c ∧ Follows p q := by
  cases himage : p.image with
  | none =>
    exact ⟨p, by simp [checkpoint, save, himage], hp, (SameHost.refl p).follows⟩
  | some place =>
    have hplace := hp.stored place himage
    exact ⟨_, save_eq himage hplace.clear hplace.standing_ne, hp.holds.keeps_save (fun _ => hc) hplace,
      rfl, by simp [himage], Nat.le_refl _, fun h => h⟩

/-- **A place keeps the contents of the pool that is closed there**, unless the pool has been in
memory only. -/
theorem Pool.Keeps.close (hp : p.Keeps c) (hc : c.Regular) (hplace : p.close = some place) :
    place.Keeps p.slots.size (p.Images c) := by
  unfold Pool.close at hplace
  cases hd : p.options.durability with
  | sync | none =>
    rw [hd] at hplace
    exact hp.stored place hplace
  | async =>
    rw [hd] at hplace
    cases himage : p.image with
    | none => simp [checkpoint, save, himage, Except.toOption] at hplace
    | some place' =>
      have hplace' := hp.stored place' himage
      rw [checkpoint, save_eq himage hplace'.clear hplace'.standing_ne] at hplace
      exact (hp.holds.keeps_save (fun _ => hc) hplace').stored place hplace

/-- With durability a pool is read from its image, or written out if there is none. -/
theorem Pool.open_eq {options : PoolOptions} (hd : options.durability ≠ .none) (fresh : UInt64) :
    Pool.open place options fresh = match Image.load place with
      | .error cause => .error (.cause cause)
      | .ok (some image) => (ofImage image place options).mapError .crash
      | .ok none => ({ empty fresh options with image := some place }).save.mapError .cause := by
  unfold Pool.open
  split
  · rename_i h
    exact absurd h hd
  · rfl

/-- An image that can be read is loaded, if nothing stands in the way. -/
theorem Image.load_eq {image : Image} {bytes : Bytes} (hclear : place.obstacles = [])
    (hstanding : place.standing = .file bytes) (hdecode : Image.decode bytes = .ok image) :
    Image.load place = .ok (some image) := by
  simp [Image.load, hstanding, Location.attempt, hclear, hdecode, bind, Except.bind, pure, Except.pure]

/-- The pool is opened from its image once that is loaded. -/
theorem Pool.open_of_load {options : PoolOptions} (hload : Image.load place = .ok (some p.toImage))
    (hd : options.durability ≠ .none) (fresh : UInt64) :
    Pool.open place options fresh = .ok (p.loaded place options) := by
  simp only [Pool.open_eq hd, hload, p.ofImage_toImage place options]
  rfl

/-- **A pool is opened with the contents that its place keeps.** -/
theorem Location.Keeps.exists_open (hplace : place.Keeps bound P) (hbound : bound < 2 ^ 32)
    (hP : ∀ c, P c → c.Regular) {options : PoolOptions} (hd : options.durability ≠ .none)
    (fresh : UInt64) : ∃ p c, Pool.open place options fresh = .ok p ∧ P c ∧ p.Keeps c ∧
      p.image.isSome ∧ p.options = options ∧ p.writeBudget = none ∧ p.slots.size ≤ bound := by
  rw [Pool.open_eq hd]
  rcases hplace.kept with ⟨habsent, hempty⟩ | ⟨p, c, hp, hc, hsize, hstanding⟩
  -- Nothing has been written yet: the pool is empty, and is written out.
  · have hholds : ({ empty fresh options with image := some place } : Pool).Holds {} :=
      ⟨rfl, rfl, (holds_empty fresh options).vacant.of_slots fun _ _ => rfl⟩
    have hload : Image.load place = .ok none := by simp [Image.load, habsent, pure, Except.pure]
    have hsave := save_eq (p := { empty fresh options with image := some place }) rfl hplace.clear
      hplace.standing_ne
    simp only [hload, hsave]
    exact ⟨_, {}, rfl, hempty, hholds.keeps_save (fun _ => Contents.regular_empty) hplace, rfl, rfl,
      rfl, Nat.zero_le _⟩
  -- The image is read back, and is that of a pool with the contents.
  · have hload : Image.load place = .ok (some p.toImage) :=
      Image.load_eq hplace.clear hstanding (hp.decode_toImage (hP c hc) (hsize.trans_lt hbound))
    simp only [hload, p.ofImage_toImage place options]
    refine ⟨_, c, rfl, hc, ⟨⟨hp.root, hp.heap, hp.vacant.of_slots fun _ _ => rfl⟩, ?_⟩, rfl, rfl, rfl,
      hsize⟩
    rintro place' ⟨⟩
    refine ⟨hplace.clear, .inr ⟨p, c, hp, ?_, Nat.le_refl _, hstanding⟩⟩
    unfold Images
    split
    · rfl
    · exact hP c hc

end PersistentTier
