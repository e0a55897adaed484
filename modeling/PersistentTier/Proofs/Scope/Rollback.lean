import PersistentTier.Proofs.Pool.EmptySlots
import PersistentTier.Proofs.Scope.Steps

/-!
# Rollback

Taking the undo records back, the newest first, brings back the pool on which a scope began. The
proof goes step by step: each step of a scope leaves its rollback as it was, but for padding.

## Main definitions

* `Scope.Sound`: the undo records name slots, and what is free or freed is vacant
* `Scope.Since p`: a scope that began on the pool `p`
* `Primitive`, `Scope.attemptAll`: any sequence of primitive operations, failing ones included
* `Pool.RestoredAs`: a pool restored after a scope

## Main results

* `Scope.Step.padded_rollback`: a step leaves the rollback as it was
* `Scope.since_of_steps`: steps keep a scope the scope of its pool
* `Scope.root_rollback_of_steps`: the root is that of the pool, whatever the free list names
* `restoredAs_of_uncommitted`: however a scope ends without a commit, the pool is restored
-/

namespace PersistentTier

open Pool Relation

/-- The record names a slot of the pool, if it names any. -/
def UndoRecord.Inside (p : Pool) : UndoRecord → Prop
  | .root _ => True
  | .object h _ | .allocated h | .freed h _ => (p.slotIndex? h).isSome

namespace Scope

/-- **A sound scope**: its undo records name slots, and the slots that are free, or freed and not
yet listed, are vacant. -/
structure Sound (s : Scope) : Prop where
  inside : ∀ r ∈ s.undo, r.Inside s.pool
  vacant : s.pool.Vacant (s.freedOffsets ++ s.pool.free)

end Scope

/-! ## Reverting records -/

namespace UndoRecord

variable {p q : Pool} {r : UndoRecord}

@[simp] theorem slotIndex?_revert (p : Pool) (r : UndoRecord) (h : Handle) :
    (revert p r).slotIndex? h = p.slotIndex? h := by
  cases r with
  | root => rfl
  | object h' before | freed h' before => exact slotIndex?_setObject p h' h before
  | allocated h' => exact slotIndex?_discard p h' h

@[simp] theorem size_revert (p : Pool) (r : UndoRecord) :
    (revert p r).slots.size = p.slots.size := by
  cases r with
  | root => rfl
  | object h before | freed h before => simp only [revert, setObject]; split <;> simp
  | allocated h => simp only [revert, Pool.discard]; split <;> simp

theorem inside_iff (hpq : ∀ h, (p.slotIndex? h).isSome → (q.slotIndex? h).isSome)
    (hr : r.Inside p) : r.Inside q := by
  cases r with
  | root => trivial
  | object h | allocated h | freed h => exact hpq h hr

/-- Reverting a record commutes with padding. -/
theorem paddedBy_revert {n : Nat} (hpq : PaddedBy n p q) (hr : r.Inside p) :
    PaddedBy n (revert p r) (revert q r) := by
  cases r with
  | root before => exact hpq.withRoot before
  | object h before => exact hpq.setObject hr before
  | allocated h => exact hpq.discard hr
  | freed h before => exact hpq.setObject hr before

end UndoRecord

section Reverting

open UndoRecord

theorem padded_foldl_revert {p q : Pool} {undo : List UndoRecord} (hpq : Padded p q)
    (hin : ∀ r ∈ undo, r.Inside p) : Padded (undo.foldl revert p) (undo.foldl revert q) := by
  induction undo generalizing p q with
  | nil => exact hpq
  | cons r undo ih =>
    obtain ⟨n, hn⟩ := hpq
    refine ih ⟨n, paddedBy_revert hn (hin r List.mem_cons_self)⟩ fun r' hr' => ?_
    exact inside_iff (by simp) (hin r' (List.mem_cons_of_mem _ hr'))

/-- A recorded object may hold anything: its record brings its contents back. -/
theorem foldl_revert_setObject {undo : List UndoRecord} {h : Handle}
    (hrec : (undo.findSome? (permits? h)).getD false = true) (p : Pool) (a : Object) :
    undo.foldl revert (p.setObject h a) = undo.foldl revert p := by
  -- Induction on the records. One of the object, or of its allocation, overwrites the change; one
  -- of another object commutes with it; and one of its being freed does not permit writes.
  induction undo generalizing p with
  | nil => simp at hrec
  | cons r undo ih =>
    simp only [List.foldl_cons]
    cases r with
    | root before =>
      have hroot : revert (p.setObject h a) (.root before) =
          (revert p (.root before)).setObject h a := (setObject_withRoot p h a before).symm
      rw [hroot]
      exact ih hrec _
    | object h' before =>
      by_cases he : h' = h
      · subst he
        simp only [revert, setObject_setObject]
      · simp only [revert]
        rw [setObject_comm p a before (Ne.symm he)]
        exact ih (by simpa [permits?, he] using hrec) _
    | allocated h' =>
      by_cases he : h' = h
      · subst he
        simp only [revert, discard_setObject]
      · simp only [revert]
        rw [discard_setObject_comm p a (Ne.symm he)]
        exact ih (by simpa [permits?, he] using hrec) _
    | freed h' before =>
      by_cases he : h' = h
      · simp [permits?, he] at hrec
      · simp only [revert]
        rw [setObject_comm p a before (Ne.symm he)]
        exact ih (by simpa [permits?, he] using hrec) _

/-- A recorded root may be anything: its record brings it back. -/
theorem foldl_revert_withRoot {undo : List UndoRecord} (hrec : undo.any isRoot = true) (p : Pool)
    (root : Root) : undo.foldl revert (p.withRoot root) = undo.foldl revert p := by
  -- Likewise, except that the other records do not touch the root.
  induction undo generalizing p with
  | nil => simp at hrec
  | cons r undo ih =>
    simp only [List.foldl_cons]
    cases r with
    | root before => rfl
    | object h before | freed h before =>
      simp only [revert, setObject_withRoot]
      exact ih hrec _
    | allocated h =>
      simp only [revert, discard_withRoot]
      exact ih hrec _

/-! ## What a step does to the rollback -/

namespace Scope

variable {s s' : Scope}

theorem size_rollback (s : Scope) : s.rollback.slots.size = s.pool.slots.size := by
  have hsize : ∀ (undo : List UndoRecord) (p : Pool),
      (undo.foldl revert p).slots.size = p.slots.size := by
    intro undo
    induction undo with
    | nil => exact fun p => rfl
    | cons r undo ih => exact fun p => (ih _).trans (size_revert p r)
  exact hsize s.undo s.pool

/-- A change of the pool that reverting the newest record takes back, but for padding. -/
theorem padded_rollback_cons {p : Pool} {r : UndoRecord} (hs : s.Sound)
    (hp : Padded s.pool (revert p r)) :
    Padded s.rollback (rollback { s with pool := p, undo := r :: s.undo }) :=
  padded_foldl_revert hp hs.inside

/-- **A step leaves the rollback as it was**, but for padding. -/
theorem Step.padded_rollback (hs : s.Sound) (hstep : Step s s') :
    Padded s.rollback s'.rollback := by
  cases hstep with
  | charge budget => exact padded_foldl_revert ⟨0, paddedBy_writeBudget _ _⟩ hs.inside
  | recordRoot => exact padded_rollback_cons hs (.refl _)
  -- Changes of what is recorded do not show at all.
  | editRoot root recorded =>
    have hroot : rollback { s with pool := s.pool.withRoot root } = s.rollback :=
      foldl_revert_withRoot recorded s.pool root
    exact hroot.symm ▸ Padded.refl s.rollback
  | record present =>
    refine padded_rollback_cons hs ?_
    simp only [revert, setObject_self present]
    exact .refl _
  | overwrite after recorded present =>
    have hobject : rollback { s with pool := s.pool.setObject _ after } = s.rollback :=
      foldl_revert_setObject recorded s.pool after
    exact hobject.symm ▸ Padded.refl s.rollback
  -- Only an allocation leaves padding behind.
  | alloc placed =>
    exact padded_rollback_cons hs (padded_discard_place hs.vacant.of_append_right placed)
  | free present =>
    refine padded_rollback_cons hs ?_
    simp only [revert, setObject_clearSlot present]
    exact .refl _

theorem Sound.insideAll (hs : s.Sound) {p : Pool}
    (hp : ∀ h, (s.pool.slotIndex? h).isSome → (p.slotIndex? h).isSome) :
    ∀ r ∈ s.undo, r.Inside p := fun r hr => inside_iff hp (hs.inside r hr)

/-- **A step keeps a scope sound.** -/
theorem Step.sound (hs : s.Sound) (hstep : Step s s') : s'.Sound := by
  cases hstep with
  | charge budget => exact ⟨hs.insideAll fun _ => id, hs.vacant.of_slots fun _ _ => rfl⟩
  | recordRoot => exact ⟨List.forall_mem_cons.2 ⟨trivial, hs.inside⟩, hs.vacant⟩
  | editRoot root => exact ⟨hs.insideAll fun _ => id, hs.vacant.of_slots fun _ _ => rfl⟩
  | record present =>
    obtain ⟨i, hi, -⟩ := exists_slotIndex?_of_object? _ present
    exact ⟨List.forall_mem_cons.2 ⟨by simp [UndoRecord.Inside, hi], hs.inside⟩, hs.vacant⟩
  | overwrite after recorded present =>
    obtain ⟨i, hi, hsome⟩ := exists_slotIndex?_of_object? _ present
    refine ⟨hs.insideAll fun _ => by simp, ?_⟩
    simp only [setObject_of_some after hi]
    exact hs.vacant.setSlot (by simp [hsome]) _
  | free present =>
    obtain ⟨i, hi, -⟩ := exists_slotIndex?_of_object? _ present
    refine ⟨List.forall_mem_cons.2 ⟨by simp [UndoRecord.Inside, hi], hs.insideAll ?_⟩, ?_⟩
    · exact fun _ => by simp
    · simpa [freedOffsets, freedOffset?] using hs.vacant.clearSlot present
  | @alloc object h p placed =>
    rcases place_cases placed with ⟨free, hsize, hf, hi, rfl⟩ | ⟨hf, hid, hoff, hsize, rfl⟩
    · refine ⟨List.forall_mem_cons.2 ⟨?_, hs.insideAll ?_⟩, ?_⟩
      · simpa [UndoRecord.Inside, slotIndex?] using Option.isSome_of_eq_some hi
      · simp [slotIndex?]
      -- A free slot is taken off the list and filled.
      · have hv : s.pool.Vacant (h.offset :: (s.freedOffsets ++ free)) :=
          hs.vacant.perm (by rw [hf]; exact List.perm_middle)
        exact (hv.tail (some object)).of_slots fun _ _ => rfl
    -- The arena has grown: no vacancy is where the new slot is.
    · have h0 : h.offset ≠ 0 := fun e => by simp [e] at hoff
      refine ⟨List.forall_mem_cons.2 ⟨?_, hs.insideAll ?_⟩, ?_⟩
      · simp [UndoRecord.Inside, slotIndex?, hid, h0, hoff]
      · intro h'
        simp only [slotIndex?, Array.size_push]
        split
        · rename_i hc
          rw [if_pos ⟨hc.1, hc.2.1, by omega⟩]
          simp
        · simp
      · refine hs.vacant.of_slots fun o ho => ?_
        have hle := hs.vacant.toNat_le ho
        have hpos := hs.vacant.toNat_pos ho
        simp [Array.getElem?_push, show o.toNat - 1 ≠ s.pool.slots.size by omega]

end Scope

end Reverting

/-! ## Scopes of a pool -/

namespace Scope

variable {s s' : Scope}

/-- **A scope that began on the pool `p`**: it is sound, and rolling it back brings `p` back. -/
structure Since (p : Pool) (s : Scope) : Prop where
  sound : s.Sound
  padded : Padded p s.rollback

theorem since_begin {p : Pool} (hfree : p.Vacant p.free) : Since p { pool := p } :=
  ⟨⟨by simp, by simpa [freedOffsets] using hfree⟩, Padded.refl p⟩

/-- Steps keep a scope the scope of its pool. -/
theorem since_of_steps {p : Pool} (hs : Since p s) (hsteps : Steps s s') : Since p s' := by
  induction hsteps with
  | refl => exact hs
  | tail _ hstep ih => exact ⟨hstep.sound ih.sound, ih.padded.trans (hstep.padded_rollback ih.sound)⟩

/-- A failed commit rolls back. -/
theorem eq_rollback_of_commit {failure : Failure} {q : Pool}
    (hc : s.commit = (.error failure, q)) : q = s.rollback := by
  simp only [commit] at hc
  cases hm : (s.pool.release s.freedOffsets).makeDurable with
  | ok p => simp [hm] at hc
  | error cause =>
    simp only [hm, unrelease_release, Prod.mk.injEq] at hc
    exact hc.2.symm

/-- A scope is committed, or it is rolled back. -/
theorem commit_snd_cases (s : Scope) :
    s.commit.2 = s.rollback ∨ s.commit = (.ok (), s.commit.2) := by
  rcases hc : s.commit with ⟨failure | _, q⟩
  · exact .inl (eq_rollback_of_commit hc)
  · exact .inr rfl

end Scope

/-! ## Any sequence of primitive operations -/

/-- The primitive operations of a scope with their arguments, which may be anything. -/
inductive Primitive
  | alloc (object : Object)
  | free (h : Handle)
  | record (h : Handle)
  | overwrite (h : Handle) (change : Object → Except Cause Object)
  | editEntry (h : Handle) (edit : EntryNode → EntryNode)
  | editLog (h : Handle) (edit : LogNode → LogNode)
  | editRoot (edit : Root → Root)

/-- Runs a primitive operation for what it does to the scope. -/
def Primitive.run : Primitive → Tx Unit
  | .alloc object => do let _ ← Tx.alloc object
  | .free h => Tx.free h
  | .record h => Tx.record h
  | .overwrite h change => do let _ ← Tx.overwrite h change
  | .editEntry h edit => Tx.editEntry h edit
  | .editLog h edit => Tx.editLog h edit
  | .editRoot edit => Tx.editRoot edit

theorem Primitive.stepwise (op : Primitive) : op.run.Stepwise := by
  cases op with
  | alloc object => exact (Tx.Stepwise.alloc object).bind fun _ => .pure ()
  | free h => exact .free h
  | record h => exact .record h
  | overwrite h change => exact (Tx.Stepwise.overwrite h change).bind fun _ => .pure ()
  | editEntry h edit => exact .editEntry h edit
  | editLog h edit => exact .editLog h edit
  | editRoot edit => exact .editRoot edit

namespace Scope

/-- Attempts operations one after another. One that fails leaves the scope as far as it got, and the
next one is attempted all the same. -/
def attemptAll (s : Scope) (ops : List Primitive) : Scope :=
  ops.foldl (fun s op => op.run.left s) s

theorem steps_attemptAll (s : Scope) (ops : List Primitive) : Steps s (s.attemptAll ops) := by
  induction ops generalizing s with
  | nil => exact .refl
  | cons op ops ih => exact (op.stepwise s).trans (ih _)

/-- **The ends of a scope without a commit**, each with the pool that is left. -/
inductive Uncommitted (s : Scope) : Pool → Prop
  /-- The scope is aborted, or dropped. -/
  | rolledBack : s.Uncommitted s.rollback
  /-- The commit fails. -/
  | failedCommit {failure : Failure} {q : Pool} (failed : s.commit = (.error failure, q)) :
    s.Uncommitted q

end Scope

/-- **A restored pool** `q`, after a scope that began on `p` and added `n` slots. Offsets are listed
for reuse in the order in which they are stored, the one to be used next at the end. -/
structure Pool.RestoredAs (p : Pool) (n : Nat) (q : Pool) : Prop where
  root : q.root = p.root
  size : q.slots.size = p.slots.size + n
  kept : ∀ i < p.slots.size, q.slots[i]? = p.slots[i]?
  emptied : ∀ i, p.slots.size ≤ i → i < q.slots.size → q.slots[i]? = some none
  free : q.toImage.free = (newOffsets p.slots.size n).reverse ++ p.toImage.free
  resolve : ∀ h, q.resolve h = p.resolve h

theorem Pool.PaddedBy.restoredAs {p q : Pool} {n : Nat} (hpq : PaddedBy n p q) :
    p.RestoredAs n q where
  root := hpq.root
  size := hpq.size_eq
  kept i hi := by simp [hpq.getElem?_eq, hi]
  emptied i hi hi' := by
    rw [hpq.size_eq] at hi'
    simp [hpq.getElem?_eq, Nat.not_lt.2 hi, hi']
  free := by simp [toImage, hpq.free]
  resolve h := by simp [Pool.resolve, hpq.object?_eq]

/-- **Rollback restores the pool exactly.** Whatever is attempted inside a scope, and in whichever
way the scope ends without a commit, the root and every slot are as they were when it began, the
slots it added are empty, and these are listed, the last one first, in front of what was listed. -/
theorem restoredAs_of_uncommitted {p : Pool} (hfree : p.Vacant p.free) (ops : List Primitive)
    {q : Pool} (hend : (Scope.attemptAll { pool := p } ops).Uncommitted q) :
    p.RestoredAs ((Scope.attemptAll { pool := p } ops).pool.slots.size - p.slots.size) q := by
  have hs := Scope.since_of_steps (Scope.since_begin hfree) (Scope.steps_attemptAll _ ops)
  have hq : q = (Scope.attemptAll { pool := p } ops).rollback := by
    cases hend with
    | rolledBack => rfl
    | failedCommit failed => exact Scope.eq_rollback_of_commit failed
  obtain ⟨n, hn⟩ := hs.padded
  have hsize := (Scope.size_rollback _).symm.trans hn.size_eq
  have : (Scope.attemptAll { pool := p } ops).pool.slots.size - p.slots.size = n := by omega
  rw [this, hq]
  exact hn.restoredAs

/-- A pool with one free slot, whose image cannot be written. -/
def Pool.obstructed : Pool where
  id := 9
  slots := #[some (.payload [1]), none]
  free := [2]
  image := some { obstacles := [.writeImage] }

/-- Allocations into a free slot and a new one, changes of the root and an object, a free of an old
and of a new object, and a free that fails. -/
def Primitive.medley : List Primitive :=
  [.alloc (.payload [2]), .alloc (.payload [3]), .record ⟨9, 1⟩,
    .overwrite ⟨9, 1⟩ fun _ => .ok (.payload [4]), .free ⟨9, 1⟩, .free ⟨9, 3⟩, .free ⟨9, 1⟩,
    .editRoot fun r => { r with logCount := 7 }]

theorem restoredAs_obstructed : obstructed.Vacant obstructed.free ∧
    obstructed.RestoredAs 1 ((Scope.attemptAll { pool := obstructed } Primitive.medley).commit).2 := by
  have hfree : obstructed.Vacant obstructed.free := ⟨by decide, by simp [obstructed]⟩
  have hfailed : (Scope.attemptAll { pool := obstructed } Primitive.medley).commit.1 =
      .error (.aborted (.notDurable (.io (.failed .writeImage .inputOutput)))) := rfl
  exact ⟨hfree, restoredAs_of_uncommitted hfree Primitive.medley
    (.failedCommit (Prod.ext hfailed rfl))⟩

end PersistentTier
