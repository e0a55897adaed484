import PersistentTier.Proofs.Pool.Serving
import PersistentTier.Proofs.Tier.Triple

/-!
# Snapshots

A snapshot is a tier with the contents of its pool in place of the pool. Operations are told by what
they make of a snapshot, down to the order of every list and to the picks that the policy has left;
where an object has its handle from is all that is left open. With which failures an operation may end
depends on what may be in the way of its pool.

## Main definitions

* `Snapshot`, `Tier.Displays`: what counts of a tier, and a tier with a given snapshot
* `Tier.Turns`: what an operation makes of a snapshot, whether it succeeds or fails
* `Failure.Shortage`: the one failure of a tier that nothing troubles

## Main results

* `Turns.inTransaction`, `Turns.ofYields`, `Turns.onFile`: operations on the parts of a tier
* `Turns.tolerate`: a failure that is made up for
* `Displays.withRoom`: a tier that nothing troubles may only be short of memory
* `Turns.exists_ok`, `Turns.ok_or_crash`: such a tier goes through with an operation
-/

namespace PersistentTier

/-- **What counts of a tier**, with the contents of its pool in place of the pool. -/
structure Snapshot where
  contents : Contents
  index : Index
  file : AppendFile
  policy : Policy
  settings : Settings

/-- Failures that the process survives. -/
def Failure.Survivable (E : Failure → Prop) (e : Failure) : Prop :=
  E e ∧ ∀ crash, e ≠ .crash crash

/-- A shortage of memory in an arena of `size` slots, of which there cannot be more. -/
def Failure.Shortage (size : Nat) (e : Failure) : Prop :=
  e = .crash .outOfMemory ∧ maxSlots < size

namespace Tier

/-- **A tier with a given snapshot**, with room for some allocations. Its writes and its commits
succeed, unless `E` permits that they fail. -/
structure Displays (E : Failure → Prop) (room : Nat) (S : Snapshot) (t : Tier) : Prop where
  pool : t.pool.Serves E room S.contents
  index : t.index = S.index
  file : t.file = S.file
  policy : t.policy = S.policy
  settings : t.settings = S.settings

/-- **What an operation makes of a snapshot.** If it succeeds it does so with `Q`; if it fails, the
failure is permitted and what is left has `X`. -/
def Turns {α : Type} (E : Failure → Prop) (room : Nat) (S : Snapshot) (act : TierM α)
    (Q : α → Snapshot → Prop) (X : Snapshot → Prop) : Prop :=
  ∀ t : Tier, t.Displays E room S → match act.run t with
    | .ok a t' => t.pool.Precedes t'.pool ∧ ∃ S', t'.Displays E 0 S' ∧ Q a S'
    | .error e t' => t.pool.Precedes t'.pool ∧ E e ∧ ∃ S', t'.Displays E 0 S' ∧ X S'

section Rules

variable {α β : Type} {E E' : Failure → Prop} {room : Nat} {S : Snapshot} {t : Tier} {a : α}
  {act : TierM α} {f : α → TierM β} {Q Q' : α → Snapshot → Prop} {R : β → Snapshot → Prop}
  {X X' : Snapshot → Prop}

/-! ## Tiers with a snapshot -/

namespace Displays

theorem spent (ht : t.Displays E room S) : t.Displays E 0 S := { ht with pool := ht.pool.spent }

theorem entryCount (ht : t.Displays E room S) :
    t.pool.root.entryCount.toNat = S.contents.entries.length :=
  ht.pool.holds.recordedLength_eq .entries

theorem victimCount (ht : t.Displays E room S) :
    t.pool.root.victimCount.toNat = S.contents.victims.length :=
  ht.pool.holds.recordedLength_eq .victims

/-- Of the failures that are permitted only aborted scopes matter, so long as there is no need for
more room. -/
theorem of_aborted (ht : t.Displays E room S)
    (hE : ∀ abort, E (.aborted abort) → E' (.aborted abort)) : t.Displays E' 0 S :=
  { ht with pool := ht.pool.of_aborted hE }

end Displays

/-! ## Operations one after another -/

namespace Turns

theorem bind (hact : Turns E room S act Q X) (hf : ∀ a S', Q a S' → Turns E 0 S' (f a) R X) :
    Turns E room S (act >>= f) R X := by
  intro t ht
  have h := hact t ht
  rw [EStateM.run_bind]
  cases hr : act.run t with
  | error e t' =>
    rw [hr] at h
    exact h
  | ok a t' =>
    rw [hr] at h
    obtain ⟨hprecedes, S', ht', hQ⟩ := h
    have hnext := hf a S' hQ t' ht'
    dsimp only
    cases hr' : (f a).run t' with
    | ok | error =>
      rw [hr'] at hnext
      exact ⟨hprecedes.trans hnext.1, hnext.2⟩

theorem mono (hact : Turns E room S act Q X) (hQ : ∀ a S, Q a S → Q' a S) (hX : ∀ S, X S → X' S) :
    Turns E room S act Q' X' := by
  intro t ht
  have h := hact t ht
  split at h
  · obtain ⟨hprecedes, S', ht', hq⟩ := h
    exact ⟨hprecedes, S', ht', hQ _ _ hq⟩
  · obtain ⟨hprecedes, he, S', ht', hx⟩ := h
    exact ⟨hprecedes, he, S', ht', hX _ hx⟩

theorem pure (h : Q a S) : Turns E room S (Pure.pure a) Q X :=
  fun _ ht => ⟨.refl _, S, ht.spent, h⟩

theorem get {f : Tier → TierM β} (hf : ∀ t : Tier, t.Displays E room S → Turns E room S (f t) R X) :
    Turns E room S (MonadState.get >>= f) R X := fun t ht => hf t ht t ht

/-- An operation that only looks, and then another. -/
theorem read (hact : Reads S.contents S.index act a) (hf : Turns E room S (f a) R X) :
    Turns E room S (act >>= f) R X := by
  intro t ht
  rw [EStateM.run_bind, hact t ht.pool.holds ht.index]
  exact hf t ht

/-- A failure that is permitted. -/
theorem throw {e : Failure} (he : E e) (hX : X S) :
    Turns E room S (MonadExcept.throw e : TierM α) Q X :=
  fun _ ht => ⟨.refl _, he, S, ht.spent, hX⟩

/-! ## Operations on the parts of a tier -/

/-- **An operation in a scope of its own.** If it fails, the snapshot is as before. -/
theorem inTransaction {tx : Tx α} {P : α → Contents → Prop} (htx : tx.Stepwise)
    (ht : Tx.Triple (Tx.Surfaces E)
      (Scope.Shows (Tx.Surfaces E) (S.contents.view room S.contents.counters 0)) tx
      fun a s => ∃ c' room', P a c' ∧ s.Shows (Tx.Surfaces E) (c'.view room' c'.counters 0))
    (hdistinct : S.contents.Distinct → ∀ a c', P a c' → c'.Distinct) :
    Turns E room S (Tier.inTransaction tx)
      (fun a S' => ∃ c', P a c' ∧ S' = { S with contents := c' }) fun S' => S' = S := by
  intro t hdisplays
  have hends := hdisplays.pool.transaction htx ht hdistinct
  simp only [Tier.inTransaction, EStateM.run]
  generalize t.pool.transaction tx = out at hends ⊢
  obtain ⟨e | a, q⟩ := out
  · obtain ⟨hprecedes, he, hq⟩ := hends
    exact ⟨hprecedes, he, S, { hdisplays with pool := hq }, rfl⟩
  · obtain ⟨hprecedes, c', hP, hq⟩ := hends
    exact ⟨hprecedes, { S with contents := c' }, { hdisplays with pool := hq }, c', hP, rfl⟩

/-- An operation in a scope of its own of which the outcome is known. -/
theorem ofYields {tx : Tx α} {c' : Contents} (htx : tx.Stepwise)
    (ht : Tx.Yields (Tx.Surfaces E) (S.contents.view room S.contents.counters 0) tx a
      (c'.view 0 c'.counters 0))
    (hdistinct : S.contents.Distinct → c'.Distinct) :
    Turns E room S (Tier.inTransaction tx)
      (fun b S' => b = a ∧ S' = { S with contents := c' }) fun S' => S' = S := by
  refine (inTransaction (P := fun b c => b = a ∧ c = c') htx ?_ ?_).mono ?_ fun _ h => h
  · exact ht.mono fun _ _ hs => ⟨c', 0, ⟨hs.1, rfl⟩, hs.2⟩
  · rintro hc _ _ ⟨-, rfl⟩
    exact hdistinct hc
  · rintro _ _ ⟨_, ⟨rfl, rfl⟩, rfl⟩
    exact ⟨rfl, rfl⟩

/-- **An operation on the file.** If it fails, the file is as far as it got. -/
theorem onFile {act : FileOp α} (hfile : ∀ cause f, act.run S.file = .error cause f → E (.cause cause)) :
    Turns E room S (Tier.onFile act)
      (fun a S' => ∃ f, act.run S.file = .ok a f ∧ S' = { S with file := f })
      fun S' => ∃ f, S' = { S with file := f } := by
  intro t ht
  change match Tier.onFile act t with | .ok .. => _ | .error .. => _
  simp only [Tier.onFile, ht.file]
  cases hr : act.run S.file with
  | ok a f => exact ⟨.refl _, { S with file := f }, { ht.spent with file := rfl }, f, rfl, rfl⟩
  | error cause f =>
    exact ⟨.refl _, hfile cause f hr, { S with file := f }, { ht.spent with file := rfl }, f, rfl⟩

/-- **The index is changed.** -/
theorem updateIndex (change : Index → Index) :
    Turns E room S (Tier.updateIndex change)
      (fun _ S' => S' = { S with index := change S.index }) X :=
  fun _ ht => ⟨.refl _, { S with index := change S.index },
    { ht.spent with index := congrArg change ht.index }, rfl⟩

/-- The policy uses up a pick. -/
theorem setPolicy (policy : Policy) :
    Turns E room S (modify fun t : Tier => { t with policy := policy } : TierM Unit)
      (fun _ S' => S' = { S with policy := policy }) X :=
  fun _ ht => ⟨.refl _, { S with policy := policy }, { ht.spent with policy := rfl }, rfl⟩

/-- **A failure is made up for**, unless it is a crash. -/
theorem tolerate {act : TierM Unit} {P : Unit → Snapshot → Prop}
    (hact : Turns (Failure.Survivable E) 0 S act P X) :
    Turns E room S (Tier.tolerate act) (fun _ S' => P () S' ∨ X S') fun _ => False := by
  intro t ht
  have hback : ∀ {S' t'}, Displays (Failure.Survivable E) 0 S' t' → t'.Displays E 0 S' :=
    fun h => h.of_aborted fun _ h => h.1
  have h := hact t (ht.of_aborted fun abort h => ⟨h, nofun⟩)
  simp only [EStateM.run, Tier.tolerate] at h ⊢
  split at h
  · rename_i u t' hr
    obtain ⟨hprecedes, S', ht', hP⟩ := h
    simp only [hr]
    exact ⟨hprecedes, S', hback ht', .inl hP⟩
  · rename_i e t' hr
    obtain ⟨hprecedes, he, S', ht', hX⟩ := h
    rw [hr]
    cases e with
    | crash crash => exact absurd rfl (he.2 crash)
    | cause | aborted => exact ⟨hprecedes, S', hback ht', .inr hX⟩

end Turns

/-! ## Tiers that nothing troubles -/

/-- A tier of which no operation fails has the room that is wanted, or there is a shortage of memory. -/
theorem Displays.withRoom (ht : t.Displays (fun _ => False) 0 S) (room : Nat) :
    t.Displays (Failure.Shortage (t.pool.slots.size + room)) room S := by
  refine { ht with pool := { ht.pool.of_aborted fun _ h => h.elim with able := ⟨?_, ?_⟩ } }
  · exact .inr (ht.pool.able.unlimited.resolve_left id)
  · rcases Nat.lt_or_ge maxSlots (t.pool.slots.size + room) with hlt | hle
    · exact .inl ⟨rfl, hlt⟩
    · exact .inr hle

namespace Turns

/-- **Where no failure is permitted** an operation succeeds. -/
theorem exists_ok (hact : Turns (fun _ => False) room S act Q X)
    (ht : t.Displays (fun _ => False) room S) :
    ∃ a t' S', act.run t = .ok a t' ∧ t'.Displays (fun _ => False) 0 S' ∧ Q a S' := by
  have h := hact t ht
  split at h
  · rename_i a t' hrun
    obtain ⟨-, S', ht', hQ⟩ := h
    exact ⟨a, t', S', hrun, ht', hQ⟩
  · exact h.2.1.elim

/-- **A tier that nothing troubles** goes through with an operation, unless it is short of memory. -/
theorem ok_or_crash (hact : ∀ size, Turns (Failure.Shortage size) room S act Q X)
    (ht : t.Displays (fun _ => False) 0 S) :
    (∃ a t' S', act.run t = .ok a t' ∧ t'.Displays (fun _ => False) 0 S' ∧ Q a S') ∨
      (maxSlots < t.pool.slots.size + room ∧
        ∃ t', act.run t = .error (.crash .outOfMemory) t') := by
  have h := hact _ t (ht.withRoom room)
  split at h
  · rename_i a t' hrun
    obtain ⟨-, S', ht', hQ⟩ := h
    have hback : t'.Displays (fun _ => False) 0 S' := ht'.of_aborted fun _ h => nomatch h.1
    exact .inl ⟨a, t', S', hrun, hback, hQ⟩
  · rename_i e t' hrun
    obtain ⟨-, ⟨rfl, hshort⟩, -⟩ := h
    exact .inr ⟨hshort, t', hrun⟩

end Turns

end Rules

end Tier

end PersistentTier
