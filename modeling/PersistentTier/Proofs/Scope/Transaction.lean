import PersistentTier.Proofs.Chain.Contents

/-!
# Transactions

A transaction runs an operation in a scope of its own. There are three ways in which it may end: the
operation succeeds and the scope is committed, the operation fails, or the commit fails. In the last
two cases the pool is as before, but for padding.

## Main definitions

* `Pool.SameHost`: what no scope changes
* `Pool.Ends`: the three ends of a transaction

## Main results

* `Pool.exists_steps_transaction`: what a transaction leaves is a scope that has been ended
* `Pool.ends_transaction`: a transaction whose operation satisfies a triple ends in one of the three
  ways
* `Pool.holds_of_commit`: what a committed pool holds
* `Pool.post_of_transaction_ok`: what a transaction has committed
-/

namespace PersistentTier

open Pool Scope Tx

namespace Pool

/-- **What no scope changes**: the pool's id, its options and where its image is. The arena does
not shrink, and a write budget does not come out of nowhere. -/
structure SameHost (p q : Pool) : Prop where
  id : q.id = p.id
  options : q.options = p.options
  image : q.image = p.image
  size : p.slots.size ≤ q.slots.size
  budget : p.writeBudget = none → q.writeBudget = none

theorem SameHost.refl (p : Pool) : SameHost p p := ⟨rfl, rfl, rfl, Nat.le_refl _, fun h => h⟩

theorem SameHost.trans {p q r : Pool} (hpq : SameHost p q) (hqr : SameHost q r) : SameHost p r where
  id := hqr.id.trans hpq.id
  options := hqr.options.trans hpq.options
  image := hqr.image.trans hpq.image
  size := hpq.size.trans hqr.size
  budget h := hqr.budget (hpq.budget h)

end Pool

/-- Reverting a record leaves the pool at its host. -/
theorem UndoRecord.sameHost_revert (p : Pool) (r : UndoRecord) : SameHost p (r.revert p) := by
  cases r with
  | root => exact ⟨rfl, rfl, rfl, Nat.le_refl _, fun h => h⟩
  | object h before | freed h before =>
    simp only [revert, setObject]
    split
    · exact ⟨rfl, rfl, rfl, by simp, fun h => h⟩
    · exact .refl p
  | allocated h =>
    simp only [revert, Pool.discard]
    split
    · exact ⟨rfl, rfl, rfl, by simp, fun h => h⟩
    · exact .refl p

theorem Scope.sameHost_rollback (s : Scope) : SameHost s.pool s.rollback := by
  have hfold : ∀ (undo : List UndoRecord) (p : Pool), SameHost p (undo.foldl UndoRecord.revert p) := by
    intro undo
    induction undo with
    | nil => exact fun p => .refl p
    | cons r undo ih => exact fun p => (r.sameHost_revert p).trans (ih _)
  exact hfold s.undo s.pool

/-- A step leaves the pool at its host. -/
theorem Scope.Step.sameHost {s s' : Scope} (hstep : Step s s') : SameHost s.pool s'.pool := by
  cases hstep with
  | charge budget spent => exact ⟨rfl, rfl, rfl, Nat.le_refl _, spent⟩
  | recordRoot | editRoot | record => exact ⟨rfl, rfl, rfl, Nat.le_refl _, fun h => h⟩
  | overwrite after recorded present =>
    obtain ⟨i, hi, -⟩ := exists_slotIndex?_of_object? _ present
    rw [setObject_of_some after hi]
    exact ⟨rfl, rfl, rfl, by simp, fun h => h⟩
  | free present =>
    obtain ⟨i, hi, -⟩ := exists_slotIndex?_of_object? _ present
    simp only [clearSlot, hi]
    exact ⟨rfl, rfl, rfl, by simp, fun h => h⟩
  | alloc placed =>
    rcases place_cases placed with ⟨free, hs, -, -, rfl⟩ | ⟨-, -, -, hs, rfl⟩ <;>
      exact ⟨rfl, rfl, rfl, by simp, fun h => h⟩

theorem Scope.sameHost_of_steps {s s' : Scope} (hsteps : Steps s s') :
    SameHost s.pool s'.pool := by
  induction hsteps with
  | refl => exact .refl s.pool
  | tail _ hstep ih => exact ih.trans hstep.sameHost

section Transactions

variable {α : Type} {E : Failure → Prop} {p q : Pool} {tx : Tx α} {Q : α → Scope → Prop}

/-- **The ends of a transaction** on the pool `p`. -/
inductive Pool.Ends (E : Failure → Prop) (Q : α → Scope → Prop) (p : Pool) :
    Except Failure α × Pool → Prop
  /-- The operation has succeeded and its changes are made durable. -/
  | committed {a : α} {s : Scope} {q : Pool} (post : Q a s) (sound : s.Sound)
      (host : SameHost p s.pool) (durable : (s.pool.release s.freedOffsets).makeDurable = .ok q) :
    Ends E Q p (.ok a, q)
  /-- The operation has failed. -/
  | failed {e : Failure} {q : Pool} (permitted : E e) (padded : Padded p q) (host : SameHost p q) :
    Ends E Q p (.error e.toAborted, q)
  /-- The commit has failed. -/
  | undurable {a : α} {s : Scope} {cause : Cause} {q : Pool} (post : Q a s)
      (host : SameHost p s.pool)
      (refused : (s.pool.release s.freedOffsets).makeDurable = .error cause) (padded : Padded p q) :
    Ends E Q p (.error (.aborted (.notDurable cause)), q)

/-- **A transaction ends in one of the three ways.** -/
theorem Pool.ends_transaction {P : Scope → Prop} (hfree : p.Vacant p.free) (htx : tx.Stepwise)
    (ht : Triple E P tx Q) (hP : P { pool := p }) : p.Ends E Q (p.transaction tx) := by
  have hsteps := htx { pool := p }
  have hpost := ht _ hP
  unfold Pool.transaction
  -- The steps tell what rolling back gives, the triple what committing gives.
  cases hr : tx.run { pool := p } with
  | error e s =>
    rw [left_eq_of_error hr] at hsteps
    rw [hr] at hpost
    exact .failed hpost (since_of_steps (since_begin hfree) hsteps).padded
      ((sameHost_of_steps hsteps).trans s.sameHost_rollback)
  | ok a s =>
    rw [left_eq_of_ok hr] at hsteps
    rw [hr] at hpost
    have hsince := since_of_steps (since_begin hfree) hsteps
    have hhost := sameHost_of_steps hsteps
    simp only [Scope.finish]
    cases hd : (s.pool.release s.freedOffsets).makeDurable with
    | ok q =>
      have hc : s.commit = (.ok (), q) := by simp [Scope.commit, hd]
      simp only [hc]
      exact .committed hpost hsince.sound hhost hd
    | error cause =>
      have hc : s.commit = (.error (.aborted (.notDurable cause)), s.rollback) := by
        simp [Scope.commit, hd]
      simp only [hc]
      exact .undurable hpost hhost hd hsince.padded

/-- A transaction that fails leaves the pool at its host. -/
theorem Pool.sameHost_of_transaction_error {e : Failure} (htx : tx.Stepwise)
    (h : p.transaction tx = (.error e, q)) : SameHost p q := by
  have hhost : ∀ s, tx.left { pool := p } = s → SameHost p s.rollback := by
    rintro s rfl
    exact (sameHost_of_steps (htx { pool := p })).trans (sameHost_rollback _)
  unfold Pool.transaction at h
  cases hr : tx.run { pool := p } with
  | error e' s =>
    rw [hr] at h
    cases h
    exact hhost s (left_eq_of_error hr)
  | ok a s =>
    rw [hr] at h
    simp only [finish] at h
    split at h
    · cases h
    · rename_i hc
      cases h
      exact eq_rollback_of_commit hc ▸ hhost s (left_eq_of_ok hr)

/-- What a transaction leaves is the scope of its operation, committed or taken back. -/
theorem Pool.transaction_snd (p : Pool) (tx : Tx α) :
    (p.transaction tx).2 = (tx.left { pool := p }).rollback ∨
      (p.transaction tx).2 = (tx.left { pool := p }).commit.2 := by
  unfold Pool.transaction
  cases hr : tx.run { pool := p } with
  | error e s =>
    rw [left_eq_of_error hr]
    exact .inl rfl
  | ok a s =>
    rw [left_eq_of_ok hr]
    refine .inr ?_
    simp only [Scope.finish]
    rcases s.commit with ⟨outcome | _, q⟩ <;> rfl

/-- **A transaction ends a scope** in which steps have been taken: by a commit, or by taking them
back. -/
theorem Pool.exists_steps_transaction (htx : tx.Stepwise) (p : Pool) :
    ∃ s, Steps { pool := p } s ∧
      ((p.transaction tx).2 = s.rollback ∨ (p.transaction tx).2 = s.commit.2) :=
  ⟨tx.left { pool := p }, htx _, p.transaction_snd tx⟩

/-- What writing a pool changes: nothing but its image. -/
theorem Pool.eq_of_save {q : Pool} (h : p.save = .ok q) : ∃ image, q = { p with image := image } := by
  unfold save at h
  split at h
  · cases h
    exact ⟨p.image, rfl⟩
  · rename_i place _
    cases hi : install p.toImage place with
    | error cause => simp [hi, bind, Except.bind] at h
    | ok place' =>
      simp only [hi, bind, Except.bind, pure, Except.pure, Except.ok.injEq] at h
      exact ⟨some place', h.symm⟩

/-- **The image is written**, if nothing is in the way at its place. -/
theorem Pool.save_eq {place : Location} (himage : p.image = some place)
    (hclear : place.obstacles = []) (hstanding : place.standing ≠ .directory) :
    p.save = .ok { p with image := some { place with standing := .file p.toImage.encode } } := by
  have hattempt : ∀ step, place.attempt step = .ok () := fun step => by
    simp [Location.attempt, hclear]
  have honFile : place.attemptOnFile .installImage = .ok () := by
    unfold Location.attemptOnFile
    split
    · rename_i h
      exact absurd h hstanding
    · exact hattempt _
  simp [save, himage, install, hattempt, Location.install, honFile, bind, Except.bind, pure,
    Except.pure]

/-- What making a pool durable changes: nothing but its image. -/
theorem Pool.makeDurable_eq {q : Pool} (h : p.makeDurable = .ok q) :
    ∃ image, q = { p with image := image } := by
  unfold makeDurable at h
  split at h
  · exact eq_of_save h
  · cases h
    exact ⟨p.image, rfl⟩

/-- What a scope shows is what the pool holds that it commits. -/
theorem Scope.Shows.holds_release {s : Scope} {c : Contents} {room : Nat}
    (hs : s.Shows E ⟨room, c.root, c.heap⟩) : (s.pool.release s.freedOffsets).Holds c :=
  ⟨hs.root, hs.heap, hs.sound.vacant.of_slots fun _ _ => rfl⟩

/-- **What a committed pool holds**: the contents that its scope showed. -/
theorem Pool.holds_of_commit {s : Scope} {c : Contents} {room : Nat}
    (hs : s.Shows E ⟨room, c.root, c.heap⟩)
    (hd : (s.pool.release s.freedOffsets).makeDurable = .ok q) : q.Holds c := by
  obtain ⟨image, rfl⟩ := makeDurable_eq hd
  have hreleased := hs.holds_release
  exact ⟨hreleased.root, hreleased.heap, hreleased.vacant.of_slots fun _ _ => rfl⟩

/-- **A transaction that succeeds** has run its operation and made durable what that has left. -/
theorem Pool.exists_run_of_transaction_ok {a : α} (h : p.transaction tx = (.ok a, q)) :
    ∃ s image, tx.run { pool := p } = .ok a s ∧
      q = { s.pool.release s.freedOffsets with image := image } := by
  unfold Pool.transaction at h
  cases hr : tx.run { pool := p } with
  | error e s => simp [hr, finish] at h
  | ok b s =>
    simp only [hr, finish, commit] at h
    cases hd : (s.pool.release s.freedOffsets).makeDurable with
    | error cause => simp [hd] at h
    | ok q' =>
      simp only [hd, Prod.mk.injEq, Except.ok.injEq] at h
      obtain ⟨rfl, rfl⟩ := h
      obtain ⟨image, hq⟩ := makeDurable_eq hd
      exact ⟨s, image, rfl, hq⟩

/-- What is so after an operation that succeeds is so of the scope that its transaction commits. -/
theorem Pool.post_of_transaction_ok {P : Scope → Prop} {a : α}
    (ht : Triple (fun _ => True) P tx Q) (hP : P { pool := p })
    (h : p.transaction tx = (.ok a, q)) :
    ∃ s image, Q a s ∧ q = { s.pool.release s.freedOffsets with image := image } := by
  obtain ⟨s, image, hr, hq⟩ := exists_run_of_transaction_ok h
  have hpost := ht _ hP
  rw [hr] at hpost
  exact ⟨s, image, hpost, hq⟩

/-- The scope of a pool shows what the pool holds. -/
theorem Pool.Holds.shows {c : Contents} {room : Nat} (hp : p.Holds c) (hable : p.Able E room) :
    Scope.Shows E ⟨room, c.root, c.heap⟩ { pool := p } :=
  ⟨hp.root, hp.heap, (since_begin hp.vacant).sound, hable⟩

end Transactions

end PersistentTier
