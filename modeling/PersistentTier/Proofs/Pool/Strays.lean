import PersistentTier.Proofs.Pool.Allocator

/-!
# Stray offsets

A free list that comes from a file may name anything. What a pool adds to it are offsets of its own
slots, and no slot ever goes away, so only the offsets that were listed in the first place can lead
out of the arena. That is kept by every step of a scope, by its end, and by every event.

## Main definitions

* `Pool.Ranges strays`: offsets that name slots, except for those in `strays`

## Main results

* `Scope.ranges_of_steps`: steps list no offset that names no slot
* `Pool.Ranges.transaction`, `Pool.Ranges.run`: neither do transactions and other events
-/

namespace PersistentTier

open Pool Scope UndoRecord

/-- **Offsets in range**: each of them names a slot, unless it is among the strays. -/
def Pool.Ranges (p : Pool) (strays offsets : List UInt64) : Prop :=
  ∀ o ∈ offsets, o ∈ strays ∨ o ≠ 0 ∧ o.toNat ≤ p.slots.size

namespace Pool

variable {p q : Pool} {strays offsets others : List UInt64}

theorem Vacant.ranges (hp : p.Vacant offsets) : p.Ranges [] offsets :=
  fun o ho => .inr ⟨(hp.empty o ho).1, hp.toNat_le ho⟩

/-- Offsets stay in range as long as no slot goes away. -/
theorem Ranges.mono (hp : p.Ranges strays offsets) (hsize : p.slots.size ≤ q.slots.size)
    (hsub : others ⊆ offsets) : q.Ranges strays others :=
  fun o ho => (hp o (hsub ho)).imp_right fun hrange => ⟨hrange.1, hrange.2.trans hsize⟩

theorem Ranges.cons {o : UInt64} (hp : p.Ranges strays offsets)
    (ho : o ≠ 0 ∧ o.toNat ≤ p.slots.size) : p.Ranges strays (o :: offsets) :=
  List.forall_mem_cons.2 ⟨.inr ho, hp⟩

/-- The slot that a handle names is in range. -/
theorem Ranges.cons_of_slotIndex? {h : Handle} {i : Nat} (hp : p.Ranges strays offsets)
    (hi : p.slotIndex? h = some i) : p.Ranges strays (h.offset :: offsets) :=
  have hh := slotIndex?_eq_some_iff.1 hi
  hp.cons ⟨hh.2.1, hh.2.2.1⟩

end Pool

/-! ## Scopes -/

namespace Scope

variable {s s' : Scope} {strays : List UInt64}

/-- **A step lists no offset that names no slot.** -/
theorem Step.ranges (hs : s.pool.Ranges strays (s.freedOffsets ++ s.pool.free))
    (hstep : Step s s') : s'.pool.Ranges strays (s'.freedOffsets ++ s'.pool.free) := by
  cases hstep with
  | charge | recordRoot | editRoot | record => exact hs
  | overwrite => exact hs.mono (by simp) (by simp [freedOffsets])
  -- An allocation takes an offset off the list, or none is listed.
  | alloc placed =>
    rcases place_cases placed with ⟨free, -, hfree, -, rfl⟩ | ⟨-, -, -, -, rfl⟩
    · refine hs.mono (by simp) (List.append_subset.2 ⟨List.subset_append_left _ _, fun o ho => ?_⟩)
      exact List.mem_append_right _ (hfree ▸ List.mem_cons_of_mem _ ho)
    · exact hs.mono (by simp) (List.Subset.refl _)
  | free present =>
    obtain ⟨i, hi, -⟩ := exists_slotIndex?_of_object? _ present
    exact (hs.cons_of_slotIndex? hi).mono (by simp) (by simp [freedOffsets, freedOffset?])

theorem ranges_of_steps (hs : s.pool.Ranges strays (s.freedOffsets ++ s.pool.free))
    (hsteps : Steps s s') : s'.pool.Ranges strays (s'.freedOffsets ++ s'.pool.free) := by
  induction hsteps with
  | refl => exact hs
  | tail _ hstep ih => exact hstep.ranges ih

/-- A record that is reverted lists the slot of its object, if any. -/
theorem ranges_revert {p : Pool} (hp : p.Ranges strays p.free) (r : UndoRecord) :
    (revert p r).Ranges strays (revert p r).free := by
  cases r with
  | root before => exact hp
  | object h before | freed h before => exact hp.mono (by simp [revert]) (by simp [revert])
  | allocated h =>
    cases hi : p.slotIndex? h with
    | none => simpa [revert, Pool.discard, hi] using hp
    | some i =>
      simp only [revert, discard_of_some hi]
      exact (hp.cons_of_slotIndex? hi).mono (by simp) (List.Subset.refl _)

theorem ranges_rollback (hs : s.pool.Ranges strays s.pool.free) :
    s.rollback.Ranges strays s.rollback.free := by
  have hfold : ∀ (undo : List UndoRecord) (p : Pool), p.Ranges strays p.free →
      (undo.foldl revert p).Ranges strays (undo.foldl revert p).free := by
    intro undo
    induction undo with
    | nil => exact fun p hp => hp
    | cons r undo ih => exact fun p hp => ih _ (ranges_revert hp r)
  exact hfold s.undo s.pool hs

end Scope

/-! ## Events -/

namespace Pool

variable {p : Pool} {strays : List UInt64} {s : Scope}

/-- **However a scope ends**, it lists no offset that names no slot. -/
theorem Ranges.ended (hp : p.Ranges strays p.free) (hsteps : Steps { pool := p } s) :
    s.rollback.Ranges strays s.rollback.free ∧ s.commit.2.Ranges strays s.commit.2.free := by
  have hs := ranges_of_steps (s := { pool := p }) hp hsteps
  have hrollback := ranges_rollback (hs.mono le_rfl (List.subset_append_right _ _))
  refine ⟨hrollback, ?_⟩
  rcases s.commit_snd_cases with hback | hcommit
  · exact hback ▸ hrollback
  · obtain ⟨-, hslots, hfree, -⟩ := eq_of_commit hcommit
    rw [hfree]
    exact hs.mono (by rw [hslots]) (List.Subset.refl _)

theorem Ranges.transaction (hp : p.Ranges strays p.free) {α : Type} {tx : Tx α}
    (htx : tx.Stepwise) : (p.transaction tx).2.Ranges strays (p.transaction tx).2.free := by
  obtain ⟨s, hsteps, hend | hend⟩ := p.exists_steps_transaction htx
  · exact hend ▸ (hp.ended hsteps).1
  · exact hend ▸ (hp.ended hsteps).2

theorem Ranges.after (hp : p.Ranges strays p.free) (event : Event) :
    (p.after event).Ranges strays (p.after event).free := by
  rcases p.after_cases event with ⟨s, hsteps, hend | hend⟩ | ⟨hslots, hfree⟩
  · exact hend ▸ (hp.ended hsteps).1
  · exact hend ▸ (hp.ended hsteps).2
  · exact hfree ▸ hp.mono (by rw [hslots]) (List.Subset.refl _)

/-- **Whatever happens to a pool**, only the strays can lead out of its arena. -/
theorem Ranges.run (hp : p.Ranges strays p.free) (events : List Event) :
    (p.run events).Ranges strays (p.run events).free := by
  induction events generalizing p with
  | nil => exact hp
  | cons event events ih => exact ih (hp.after event)

end Pool

end PersistentTier
