import PersistentTier.Proofs.Object.Overlong
import PersistentTier.Proofs.Pool.Mirrored
import PersistentTier.Proofs.Scope.Frugal

/-!
# The free list

A slot is empty or holds an object, and the free list names the empty ones. Inside a scope the slots
that the scope has freed are empty as well but not listed yet, so that an allocation in the same
scope does not take them. Every operation keeps the account, and so does every end of a scope; an
image is read back with the account that it was written with.

## Main definitions

* `Pool.Lists`: a list of exactly the empty slots
* `Pool.Reached`: a pool that has come about from an empty one
* `Scope.Accounted`: a scope whose empty slots are accounted for

## Main results

* `Pool.lists_iff`: a list of empty slots is complete if it is as long as the number of objects
  leaves room for
* `Pool.Lists.of_steps`, `Pool.Lists.after`: operations keep the account, and so do ends of scopes
* `Pool.Reached.accounted_attemptAll`: the account of a pool that has been reached, and of its
  scopes
-/

namespace PersistentTier

open Pool Scope

/-! ## Lists of empty slots -/

/-- **A list of the empty slots**: the offset of each is on it, once, and nothing else is. -/
structure Pool.Lists (p : Pool) (offsets : List UInt64) : Prop where
  nodup : offsets.Nodup
  mem_iff : ∀ o, o ∈ offsets ↔ o ≠ 0 ∧ p.slots[o.toNat - 1]? = some none

namespace Pool

variable {p q : Pool} {offsets : List UInt64} {s : Scope} {h : Handle}

/-- A handle of an empty slot names no object. -/
theorem object?_of_empty (hempty : p.slots[h.offset.toNat - 1]? = some none) :
    p.object? h = none := by
  cases hobject : p.object? h with
  | none => rfl
  | some a =>
    obtain ⟨i, hi, hs⟩ := exists_slotIndex?_of_object? a hobject
    obtain ⟨-, -, -, rfl⟩ := slotIndex?_eq_some_iff.1 hi
    rw [hempty] at hs
    cases hs

theorem nodup_slotHandles (p : Pool) : p.slotHandles.Nodup := by
  refine List.nodup_range.map_on fun i hi j hj he => ?_
  have hle := p.size_le
  rw [List.mem_range] at hi hj
  exact slotHandle_inj (by omega) (by omega) he

theorem Lists.vacant (hp : p.Lists offsets) : p.Vacant offsets :=
  ⟨hp.nodup, fun o ho => (hp.mem_iff o).1 ho⟩

theorem Lists.of_slots (hp : p.Lists offsets) (hslots : q.slots = p.slots) : q.Lists offsets :=
  ⟨hp.nodup, fun o => hslots ▸ hp.mem_iff o⟩

/-- Every slot has an object or is listed. -/
theorem Lists.slotHandles_le (hp : p.Lists offsets) : (p.slotHandles : Multiset Handle) ≤
    p.heap.map Prod.fst + (offsets.map (Handle.mk p.id) : List Handle) := by
  refine (Multiset.le_iff_subset (Multiset.coe_nodup.2 p.nodup_slotHandles)).2 fun h hh => ?_
  obtain ⟨i, hi, rfl⟩ := List.mem_map.1 (Multiset.mem_coe.1 hh)
  have hlt : i < p.slots.size := List.mem_range.1 hi
  have hslot := slotIndex?_slotHandle hlt
  obtain ⟨-, hzero, -, hindex⟩ := slotIndex?_eq_some_iff.1 hslot
  rw [Multiset.mem_add]
  cases hs : p.slots[i] with
  | some a =>
    have ha : p.object? (slotHandle p.id i) = some a := by
      simp [object?, hslot, Array.getElem?_eq_some_iff.2 ⟨hlt, hs⟩]
    exact .inl (Multiset.mem_map_of_mem Prod.fst (mem_heap.2 ha))
  | none =>
    have hempty : p.slots[(slotHandle p.id i).offset.toNat - 1]? = some none := by
      rw [hindex]
      exact Array.getElem?_eq_some_iff.2 ⟨hlt, hs⟩
    exact .inr (List.mem_map_of_mem ((hp.mem_iff _).2 ⟨hzero, hempty⟩))

/-- **A list of empty slots is complete** if it is as long as the objects leave room for. -/
theorem lists_iff :
    p.Lists offsets ↔ p.Vacant offsets ∧ p.heap.card + offsets.length = p.slots.size := by
  constructor
  · intro hp
    refine ⟨hp.vacant, Nat.le_antisymm hp.vacant.card_add_length_le ?_⟩
    simpa [slotHandles] using Multiset.card_le_card hp.slotHandles_le
  · rintro ⟨hv, hcount⟩
    have hall : p.heap.map Prod.fst + (offsets.map (Handle.mk p.id) : List Handle) =
        (p.slotHandles : Multiset Handle) :=
      Multiset.eq_of_le_of_card_le hv.handles_le (by simp [slotHandles, hcount])
    refine ⟨hv.nodup, fun o => ⟨hv.empty o, ?_⟩⟩
    rintro ⟨hzero, hempty⟩
    have hlt := (Array.getElem?_eq_some_iff.1 hempty).1
    -- The slot has no object, so it can only be on the list.
    have hmem : (⟨p.id, o⟩ : Handle) ∈ (p.slotHandles : Multiset Handle) :=
      mem_slotHandles (slotIndex?_of_offset p hzero (by omega))
    rw [← hall, Multiset.mem_add] at hmem
    rcases hmem with hheap | hlisted
    · obtain ⟨⟨h, a⟩, ha, hh⟩ := Multiset.mem_map.1 hheap
      obtain rfl : h = ⟨p.id, o⟩ := hh
      rw [mem_heap, object?_of_empty hempty] at ha
      cases ha
    · obtain ⟨o', ho', hh⟩ := List.mem_map.1 (Multiset.mem_coe.1 hlisted)
      obtain rfl : o' = o := congrArg Handle.offset hh
      exact ho'

/-- **No slot is lost**: each has an object or is listed. -/
theorem Lists.count (hp : p.Lists offsets) :
    p.stats.liveObjects + offsets.length = p.slots.size := by
  have hcount := (lists_iff.1 hp).2
  rwa [card_heap] at hcount

/-! ## What keeps the account -/

theorem lists_empty (id : UInt64) (options : PoolOptions) : (Pool.empty id options).Lists [] :=
  ⟨List.nodup_nil, fun o => by simp [Pool.empty]⟩

/-- Slots that are added empty are listed. -/
theorem PaddedBy.lists {n : Nat} (hpq : PaddedBy n p q) (hp : p.Lists p.free) : q.Lists q.free := by
  have hcount := (lists_iff.1 hp).2
  have hlength := congrArg List.length hpq.free
  rw [List.length_append, newOffsets, List.length_map, List.length_range'] at hlength
  refine lists_iff.2 ⟨hpq.vacant_free hp.vacant, ?_⟩
  rw [hpq.heap_eq, hpq.size_eq]
  omega

/-- **Steps keep the account**: the empty slots are those that are listed and those that have been
freed since the scope began. -/
theorem Lists.of_steps (hp : p.Lists p.free) (hsteps : Steps { pool := p } s) :
    s.pool.Lists (s.freedOffsets ++ s.pool.free) := by
  have hbegin := since_begin hp.vacant
  have hcount := (lists_iff.1 hp).2
  have htally := tally_of_steps hbegin.sound hsteps
  refine lists_iff.2 ⟨(since_of_steps hbegin hsteps).sound.vacant, ?_⟩
  simp only [tally, freedOffsets, List.filterMap_nil, List.nil_append] at htally ⊢
  omega

/-- What a commit makes of a scope. -/
theorem eq_of_commit (hcommit : s.commit = (.ok (), q)) :
    q.id = s.pool.id ∧ q.slots = s.pool.slots ∧ q.free = s.freedOffsets ++ s.pool.free ∧
      q.root = s.pool.root := by
  simp only [Scope.commit] at hcommit
  split at hcommit
  · rename_i q' hdurable
    obtain ⟨-, rfl⟩ := Prod.mk.inj hcommit
    obtain ⟨image, rfl⟩ := makeDurable_eq hdurable
    exact ⟨rfl, rfl, rfl, rfl⟩
  · cases hcommit

/-- **However a scope ends**, its empty slots are listed. -/
theorem Lists.ended (hp : p.Lists p.free) (hsteps : Steps { pool := p } s) :
    s.rollback.Lists s.rollback.free ∧ s.commit.2.Lists s.commit.2.free := by
  have hrollback : s.rollback.Lists s.rollback.free := by
    obtain ⟨n, hn⟩ := (since_of_steps (since_begin hp.vacant) hsteps).padded
    exact hn.lists hp
  refine ⟨hrollback, ?_⟩
  rcases s.commit_snd_cases with hback | hcommit
  · exact hback ▸ hrollback
  · obtain ⟨-, hslots, hfree, -⟩ := eq_of_commit hcommit
    rw [hfree]
    exact (hp.of_steps hsteps).of_slots hslots

/-- **What an event does to the slots**: it ends a scope in which steps have been taken, or it does
nothing to them. -/
theorem after_cases (p : Pool) (event : Event) :
    (∃ s, Steps { pool := p } s ∧ (p.after event = s.rollback ∨ p.after event = s.commit.2)) ∨
      (p.after event).slots = p.slots ∧ (p.after event).free = p.free := by
  cases event with
  | scope ops ending =>
    refine .inl ⟨_, steps_attemptAll { pool := p } ops, ?_⟩
    cases ending with
    | commit => exact .inr rfl
    | abort | drop => exact .inl rfl
  | transaction tx stepwise => exact .inl (p.exists_steps_transaction stepwise)
  | checkpoint =>
    refine .inr ?_
    change (p.checkpoint.toOption.getD p).slots = _ ∧ (p.checkpoint.toOption.getD p).free = _
    cases hsave : p.checkpoint with
    | error cause => exact ⟨rfl, rfl⟩
    | ok q =>
      obtain ⟨image, rfl⟩ := eq_of_save hsave
      exact ⟨rfl, rfl⟩
  | limit | obstruct | moveAside | moveBack => exact .inr ⟨rfl, rfl⟩

/-- **Every event keeps the account.** -/
theorem Lists.after (hp : p.Lists p.free) (event : Event) :
    (p.after event).Lists (p.after event).free := by
  rcases p.after_cases event with ⟨s, hsteps, hend | hend⟩ | ⟨hslots, hfree⟩
  · exact hend ▸ (hp.ended hsteps).1
  · exact hend ▸ (hp.ended hsteps).2
  · exact hfree ▸ hp.of_slots hslots

/-! ## Free lists that are not complete -/

/-- **However a scope ends**, its free list names empty slots, if that of its pool has done so. -/
theorem Vacant.ended (hp : p.Vacant p.free) (hsteps : Steps { pool := p } s) :
    s.rollback.Vacant s.rollback.free ∧ s.commit.2.Vacant s.commit.2.free := by
  have hsince := since_of_steps (since_begin hp) hsteps
  have hrollback : s.rollback.Vacant s.rollback.free := by
    obtain ⟨n, hn⟩ := hsince.padded
    exact hn.vacant_free hp
  refine ⟨hrollback, ?_⟩
  rcases s.commit_snd_cases with hback | hcommit
  · exact hback ▸ hrollback
  · obtain ⟨-, hslots, hfree, -⟩ := eq_of_commit hcommit
    rw [hfree]
    exact hsince.sound.vacant.of_slots fun _ _ => by rw [hslots]

theorem Vacant.transaction (hp : p.Vacant p.free) {α : Type} {tx : Tx α} (htx : tx.Stepwise) :
    (p.transaction tx).2.Vacant (p.transaction tx).2.free := by
  obtain ⟨s, hsteps, hend | hend⟩ := p.exists_steps_transaction htx
  · exact hend ▸ (hp.ended hsteps).1
  · exact hend ▸ (hp.ended hsteps).2

theorem Vacant.after (hp : p.Vacant p.free) (event : Event) :
    (p.after event).Vacant (p.after event).free := by
  rcases p.after_cases event with ⟨s, hsteps, hend | hend⟩ | ⟨hslots, hfree⟩
  · exact hend ▸ (hp.ended hsteps).1
  · exact hend ▸ (hp.ended hsteps).2
  · exact hfree ▸ hp.of_slots fun _ _ => by rw [hslots]

theorem Vacant.run (hp : p.Vacant p.free) (events : List Event) :
    (p.run events).Vacant (p.run events).free := by
  induction events generalizing p with
  | nil => exact hp
  | cons event events ih => exact ih (hp.after event)

/-! ## Pools that are reached -/

/-- **A pool that is reached** from an empty one. Between two events it may be opened again, from
the image of any pool that has been reached before. -/
inductive Reached : Pool → Prop
  | empty (id : UInt64) (options : PoolOptions) : Reached (Pool.empty id options)
  /-- The pool is created at a place where nothing stands. -/
  | created {p : Pool} {place : Location} {options : PoolOptions} {fresh : UInt64}
      (absent : place.standing = .absent) (opened : Pool.open place options fresh = .ok p) : Reached p
  | after {p : Pool} (reached : Reached p) (event : Event) : Reached (p.after event)
  /-- A pool is opened from the image of another. -/
  | reopened {p q : Pool} {place : Location} {options : PoolOptions} {fresh : UInt64}
      (reached : Reached p) (saved : place.standing = .file p.toImage.encode)
      (opened : Pool.open place options fresh = .ok q) : Reached q

variable {place : Location} {options : PoolOptions} {fresh : UInt64}

/-- Without durability a pool is empty when it is opened. -/
theorem eq_empty_of_open (hd : options.durability = .none)
    (hopen : Pool.open place options fresh = .ok p) : p = Pool.empty fresh options := by
  simp only [Pool.open, hd] at hopen
  exact (Except.ok.inj hopen).symm

theorem lists_of_created (habsent : place.standing = .absent)
    (hopen : Pool.open place options fresh = .ok p) : p.Lists p.free := by
  by_cases hd : options.durability = .none
  · rw [eq_empty_of_open hd hopen]
    exact lists_empty fresh options
  · have hload : Image.load place = .ok none := by simp [Image.load, habsent, pure, Except.pure]
    simp only [open_eq hd, hload] at hopen
    cases hsave : ({ Pool.empty fresh options with image := some place } : Pool).save with
    | error cause => simp [hsave, Except.mapError] at hopen
    | ok q =>
      rw [hsave] at hopen
      obtain rfl : q = p := Except.ok.inj hopen
      obtain ⟨image, rfl⟩ := eq_of_save hsave
      exact (lists_empty fresh options).of_slots rfl

/-- **An image is read back with its account.** -/
theorem Lists.reopened (hp : p.Lists p.free) (hsaved : place.standing = .file p.toImage.encode)
    (hopen : Pool.open place options fresh = .ok q) : q.Lists q.free := by
  by_cases hd : options.durability = .none
  · rw [eq_empty_of_open hd hopen]
    exact lists_empty fresh options
  · rw [open_eq hd] at hopen
    split at hopen
    · cases hopen
    · rename_i image hload
      obtain ⟨bytes, hbytes, hdecode⟩ := exists_files_of_load hload
      obtain rfl : p.toImage.encode = bytes := Standing.file.inj (hsaved.symm.trans hbytes)
      -- The image lists no more offsets than it has slots, so it is read back as it was written.
      have hfree : p.toImage.free.length ≤ p.toImage.slots.length := by
        have hcount := (lists_iff.1 hp).2
        simp only [toImage, List.length_reverse, Array.length_toList]
        omega
      obtain rfl := Image.eq_of_decode_encode rfl hfree hdecode
      rw [ofImage_toImage] at hopen
      obtain rfl : p.loaded place options = q := Except.ok.inj hopen
      exact hp.of_slots rfl
    · rename_i hload
      simp only [Image.load, hsaved] at hload
      obtain ⟨-, -, hload⟩ := exists_of_bind_eq_ok hload
      obtain ⟨-, -, hload⟩ := exists_of_bind_eq_ok hload
      split at hload <;> cases hload

/-- **A pool that is reached lists its empty slots.** -/
theorem Reached.lists (hp : p.Reached) : p.Lists p.free := by
  induction hp with
  | empty id options => exact lists_empty id options
  | created absent opened => exact lists_of_created absent opened
  | after reached event ih => exact ih.after event
  | reopened reached saved opened ih => exact ih.reopened saved opened

theorem Reached.run (hp : p.Reached) (events : List Event) : (p.run events).Reached := by
  induction events generalizing p with
  | nil => exact hp
  | cons event events ih => exact ih (hp.after event)

end Pool

/-! ## Allocations -/

namespace Scope

variable {s s' : Scope} {a : Object} {h : Handle} {e : Failure}

/-- **A scope whose empty slots are accounted for.** -/
structure Accounted (s : Scope) : Prop where
  /-- The empty slots are those that have been freed in the scope and those that are listed. -/
  lists : s.pool.Lists (s.freedOffsets ++ s.pool.free)
  /-- No slot is lost. -/
  count : s.pool.stats.liveObjects + s.freedOffsets.length + s.pool.stats.freeSlots =
    s.pool.slots.size
  /-- An allocation takes a slot which no object has and which has not been freed in the scope: the
  one that is listed first, or a new one if none is listed. -/
  fresh : ∀ {a h s'}, (Tx.alloc a).run s = .ok h s' →
    s.pool.object? h = none ∧ h.offset ∉ s.freedOffsets ∧ h.pool = s.pool.id ∧
      (s.pool.free.head? = some h.offset ∨
        s.pool.free = [] ∧ h.offset.toNat = s.pool.slots.size + 1)
  /-- An allocation fails only because the write is not paid for or the arena is full. -/
  refused : ∀ {a e s'}, (Tx.alloc a).run s = .error e s' → e = .aborted .injectedFault ∨
    e = .crash .outOfMemory ∧ s.pool.free = [] ∧ s.pool.slots.size = maxSlots
  /-- What has been freed is listed with a commit, and is taken again by the next allocations. -/
  reusable : ∀ {q}, s.commit = (.ok (), q) → q.free = s.freedOffsets ++ s.pool.free ∧
    ∀ objects : List Object, q.writeBudget = none → objects.length ≤ q.free.length →
      ∃ s', (objects.mapM Tx.alloc).run { pool := q } =
        .ok ((q.free.take objects.length).map (Handle.mk q.id)) s'

theorem fresh_of_alloc (hv : s.pool.Vacant (s.freedOffsets ++ s.pool.free))
    (hrun : (Tx.alloc a).run s = .ok h s') :
    s.pool.object? h = none ∧ h.offset ∉ s.freedOffsets ∧ h.pool = s.pool.id ∧
      (s.pool.free.head? = some h.offset ∨
        s.pool.free = [] ∧ h.offset.toNat = s.pool.slots.size + 1) := by
  obtain ⟨budget, q, hplace, -⟩ := exists_place_of_alloc hrun
  rcases place_cases hplace with ⟨free, -, hfree, hslot, -⟩ | ⟨hfree, hid, hnew, -, -⟩
  · replace hfree : s.pool.free = h.offset :: free := hfree
    have hlisted : h.offset ∈ s.pool.free := hfree ▸ List.mem_cons_self
    have hempty := (hv.empty h.offset (List.mem_append_right _ hlisted)).2
    have hnot : h.offset ∉ s.freedOffsets := fun hfreed =>
      (List.nodup_append.1 hv.nodup).2.2 _ hfreed _ hlisted rfl
    exact ⟨object?_of_empty hempty, hnot, (slotIndex?_eq_some_iff.1 hslot).1,
      .inl (by rw [hfree, List.head?_cons])⟩
  · replace hnew : h.offset.toNat = s.pool.slots.size + 1 := hnew
    have hnot : h.offset ∉ s.freedOffsets := by
      intro hfreed
      have hle := hv.toNat_le (List.mem_append_left s.pool.free hfreed)
      omega
    have hslot : s.pool.slotIndex? h = none := by
      simp only [slotIndex?]
      exact if_neg fun hc => absurd hc.2.2 (by omega)
    exact ⟨by simp [object?, hslot], hnot, hid, .inr ⟨hfree, hnew⟩⟩

theorem refused_of_alloc (hv : s.pool.Vacant s.pool.free) (hrun : (Tx.alloc a).run s = .error e s') :
    e = .aborted .injectedFault ∨
      e = .crash .outOfMemory ∧ s.pool.free = [] ∧ s.pool.slots.size = maxSlots := by
  obtain hfault | ⟨budget, crash, hplace, rfl, -⟩ := place_error_of_alloc hrun
  · exact .inl hfault
  · have hvacant : ({ s.pool with writeBudget := budget } : Pool).Vacant s.pool.free :=
      hv.of_slots fun _ _ => rfl
    obtain ⟨rfl, hfree, hfull⟩ := place_error hvacant hplace
    exact .inr ⟨rfl, hfree, hfull⟩

/-- **Vacancies are taken in the order in which they are listed.** -/
theorem exists_run_allocAll {objects : List Object} (hv : s.pool.Vacant s.pool.free)
    (hbudget : s.pool.writeBudget = none) (hlength : objects.length ≤ s.pool.free.length) :
    ∃ s', (objects.mapM Tx.alloc).run s =
      .ok ((s.pool.free.take objects.length).map (Handle.mk s.pool.id)) s' := by
  induction objects generalizing s with
  | nil => exact ⟨s, rfl⟩
  | cons a objects ih =>
    obtain ⟨o, free, hfree⟩ : ∃ o free, s.pool.free = o :: free :=
      List.exists_cons_of_length_pos (by rw [List.length_cons] at hlength; omega)
    rw [hfree] at hv hlength
    have hrange : o ≠ 0 ∧ o.toNat ≤ s.pool.slots.size :=
      ⟨(hv.empty o List.mem_cons_self).1, hv.toNat_le List.mem_cons_self⟩
    let taken : Scope :=
      { s with
        pool := { s.pool.setSlot (o.toNat - 1) (some a) with free := free }
        undo := .allocated ⟨s.pool.id, o⟩ :: s.undo }
    have hcharge : Tx.charge.run s = .ok () s := by simp [Tx.charge, EStateM.run, hbudget]
    have halloc : (Tx.alloc a).run s = .ok ⟨s.pool.id, o⟩ taken := by
      simp only [Tx.run_alloc, hcharge, place, hfree, if_pos hrange]
      rfl
    obtain ⟨s', hrest⟩ := ih (s := taken) ((hv.tail (some a)).of_slots fun _ _ => rfl) hbudget
      (Nat.le_of_succ_le_succ hlength)
    refine ⟨s', ?_⟩
    rw [List.mapM_cons, EStateM.run_bind, halloc]
    dsimp only
    rw [EStateM.run_bind, hrest, hfree]
    rfl

end Scope

/-- A scope neither shrinks nor grows the arena when it ends. -/
theorem Pool.size_afterScope (p : Pool) (ops : List Primitive) (ending : Ending) :
    (p.afterScope ops ending).slots.size =
      (Scope.attemptAll { pool := p } ops).pool.slots.size := by
  cases ending with
  | abort | drop => exact size_rollback _
  | commit =>
    change (Scope.attemptAll { pool := p } ops).commit.2.slots.size = _
    rcases (Scope.attemptAll { pool := p } ops).commit_snd_cases with hback | hcommit
    · exact hback ▸ size_rollback _
    · rw [(eq_of_commit hcommit).2.1]

/-- **The account of a pool.** Outside of scopes, the free list of a pool that has been reached
names exactly the empty slots. Whatever is attempted in a scope, its empty slots are accounted for,
and the arena keeps all of its slots however the scope ends. -/
theorem Pool.Reached.accounted_attemptAll {p : Pool} (hp : p.Reached) (ops : List Primitive) :
    p.Lists p.free ∧ (Scope.attemptAll { pool := p } ops).Accounted ∧
      ∀ ending, p.slots.size ≤ (p.afterScope ops ending).slots.size := by
  have hlists := hp.lists.of_steps (steps_attemptAll { pool := p } ops)
  have hended := hp.lists.ended (steps_attemptAll { pool := p } ops)
  have hgrown := (sameHost_of_steps (steps_attemptAll { pool := p } ops)).size
  refine ⟨hp.lists, ?_, fun ending => hgrown.trans_eq (p.size_afterScope ops ending).symm⟩
  generalize Scope.attemptAll { pool := p } ops = s at hlists hended
  refine ⟨hlists, ?_, fun hrun => fresh_of_alloc hlists.vacant hrun,
    fun hrun => refused_of_alloc hlists.vacant.of_append_right hrun, fun {q} hcommit => ?_⟩
  · have hcount := hlists.count
    rwa [List.length_append, ← Nat.add_assoc] at hcount
  · rw [hcommit] at hended
    exact ⟨(eq_of_commit hcommit).2.2.1, fun objects hbudget hlength =>
      exists_run_allocAll hended.2.vacant hbudget hlength⟩

/-- Three objects are allocated, one of them is freed, a commit fails, and a scope is aborted. -/
def Pool.churn : List Event :=
  [.scope [.alloc (.payload [1]), .alloc (.payload [2]), .alloc (.payload [3])] .commit,
    .scope [.free ⟨9, 2⟩] .commit, .obstruct [.writeImage],
    .scope [.free ⟨9, 1⟩, .alloc (.payload [4])] .commit, .obstruct [],
    .scope [.alloc (.payload [5]), .alloc (.payload [6]), .free ⟨9, 1⟩] .abort]

/-- A pool that has been opened again, and a scope in which slots are taken and others freed. -/
theorem Pool.Reached.accounted_attemptAll_churned :
    let p : Pool := { Pool.empty 9 {} with image := some (Pool.empty 9 {}).filed }
    let ops : List Primitive := [.alloc (.payload [7]), .free ⟨9, 1⟩, .free ⟨9, 1⟩,
      .alloc (.payload [8]), .alloc (.payload [9]), .free ⟨9, 5⟩]
    ∃ q, Pool.open {} {} 9 = .ok p ∧ Pool.open (p.run churn).filed {} 0 = .ok q ∧ q.Reached ∧
      q.free = [2, 4] ∧ (Scope.attemptAll { pool := q } ops).freedOffsets = [5, 1] ∧
      q.Lists q.free ∧ (Scope.attemptAll { pool := q } ops).Accounted ∧
      ∀ ending, q.slots.size ≤ (q.afterScope ops ending).slots.size := by
  intro p ops
  have hcreated : Pool.open {} {} 9 = .ok p := by decide +kernel
  have hp : (p.run churn).Reached := (Reached.created rfl hcreated).run churn
  have hopen : Pool.open (p.run churn).filed {} 0 =
      .ok ((p.run churn).loaded (p.run churn).filed {}) := by decide +kernel
  have hq : ((p.run churn).loaded (p.run churn).filed {}).Reached := hp.reopened rfl hopen
  exact ⟨_, hcreated, hopen, hq, by decide +kernel, by decide +kernel, hq.accounted_attemptAll ops⟩

end PersistentTier
