import PersistentTier.VictimPipeline
import PersistentTier.LogBuffer
import Mathlib.Logic.Relation

/-!
# The steps of a scope

Whatever an operation does inside a scope, it does in steps of seven kinds: it pays for a write,
records the root or an object, changes what is recorded, allocates or frees. The steps are said
once, in `Scope.Step`; what every step keeps is kept by every operation, whether it succeeds or
gives up half-way.

## Main definitions

* `Scope.Step`, `Scope.Steps`: one step, and any number of them
* `Tx.left`: the scope that an operation leaves behind, whatever its outcome
* `Tx.Stepwise`: an operation that only takes steps

## Main results

* `Tx.Stepwise.bind`: operations one after another
* `Scope.exists_place_of_alloc`, `place_error_of_alloc`: what an allocation takes, and why it fails
* `stepwise_append`, `stepwise_remove`, `stepwise_evictAll`, …: every operation on the entry store,
  the victim pipeline and the log buffers takes steps
-/

namespace PersistentTier

open Relation

namespace Scope

/-- **One step of a scope.** Objects and the root change only once they are recorded. -/
inductive Step : Scope → Scope → Prop
  /-- The write budget changes. -/
  | charge (s : Scope) (budget : Option Nat) (spent : s.pool.writeBudget = none → budget = none) :
    Step s { s with pool := { s.pool with writeBudget := budget } }
  /-- The root is recorded. -/
  | recordRoot (s : Scope) : Step s { s with undo := .root s.pool.root :: s.undo }
  /-- The root, being recorded, changes. -/
  | editRoot (s : Scope) (root : Root) (recorded : s.rootRecorded = true) :
    Step s { s with pool := { s.pool with root := root } }
  /-- An object is recorded. -/
  | record (s : Scope) {h : Handle} {before : Object} (present : s.pool.object? h = some before) :
    Step s { s with undo := .object h before :: s.undo }
  /-- An object, being recorded, changes. -/
  | overwrite (s : Scope) {h : Handle} {before : Object} (after : Object)
      (recorded : s.isRecorded h = true) (present : s.pool.object? h = some before) :
    Step s { s with pool := s.pool.setObject h after }
  /-- An object is allocated. -/
  | alloc (s : Scope) {object : Object} {h : Handle} {p : Pool}
      (placed : s.pool.place object = .ok (h, p)) :
    Step s { s with pool := p, undo := .allocated h :: s.undo }
  /-- An object is freed. -/
  | free (s : Scope) {h : Handle} {before : Object} (present : s.pool.object? h = some before) :
    Step s { s with pool := s.pool.clearSlot h, undo := .freed h before :: s.undo }

/-- Any number of steps. -/
abbrev Steps : Scope → Scope → Prop := ReflTransGen Step

end Scope

open Scope

namespace Tx

variable {α β : Type}

/-- The scope that an operation leaves behind, whatever its outcome. -/
def left (tx : Tx α) (s : Scope) : Scope :=
  match tx.run s with
  | .ok _ s' | .error _ s' => s'

/-- An operation that only takes steps. -/
def Stepwise (tx : Tx α) : Prop := ∀ s, Steps s (tx.left s)

theorem left_eq_of_ok {tx : Tx α} {s s' : Scope} {a : α} (h : tx.run s = .ok a s') :
    tx.left s = s' := by simp [left, h]

theorem left_eq_of_error {tx : Tx α} {s s' : Scope} {e : Failure} (h : tx.run s = .error e s') :
    tx.left s = s' := by simp [left, h]

/-! ## The primitive operations -/

section Primitives

variable (s : Scope) (h : Handle)

theorem run_ofRead (look : Pool → Except Unreadable α) : (Tx.ofRead look).run s =
    match look s.pool with
    | .ok a => .ok a s
    | .error reason => .error (.cause (.unreadable reason)) s := rfl

theorem run_record : (record h).run s =
    if s.isRecorded h then .ok () s
    else match charge.run s with
      | .error e s' => .error e s'
      | .ok _ s' => match s'.pool.object? h with
        | none => .error (.cause (.unreadable (.invalidHandle h))) s'
        | some before => .ok () { s' with undo := .object h before :: s'.undo } := by
  by_cases hr : s.isRecorded h
  · simp [record, hr]
  · simp only [record, hr, EStateM.run_bind, EStateM.run_get, Bool.false_eq_true, if_false]
    cases charge.run s with
    | error e s' => rfl
    | ok _ s' =>
      simp only [run_ofRead, Pool.resolve]
      cases s'.pool.object? h <;> rfl

theorem run_overwrite (change : Object → Except Cause Object) : (overwrite h change).run s =
    if s.isRecorded h then
      match s.pool.object? h with
      | none => .error (.cause (.unreadable (.invalidHandle h))) s
      | some before => match change before with
        | .error cause => .error (.cause cause) s
        | .ok after => .ok before { s with pool := s.pool.setObject h after }
    else .error (.cause (.unloggedWrite h)) s := by
  by_cases hr : s.isRecorded h
  · simp only [overwrite, hr, EStateM.run_bind, EStateM.run_get, if_true, run_ofRead, Pool.resolve]
    cases s.pool.object? h with
    | none => rfl
    | some before =>
      simp only
      cases change before <;> rfl
  · simp [overwrite, hr, Tx.fail]

theorem run_free : (free h).run s =
    match charge.run s with
    | .error e s' => .error e s'
    | .ok _ s' => match s'.pool.object? h with
      | none => .error (.cause (.unreadable (.invalidHandle h))) s'
      | some before =>
        .ok () { s' with pool := s'.pool.clearSlot h, undo := .freed h before :: s'.undo } := by
  simp only [free, EStateM.run_bind]
  cases charge.run s with
  | error e s' => rfl
  | ok _ s' =>
    simp only [run_ofRead, Pool.resolve]
    cases s'.pool.object? h <;> rfl

theorem run_alloc (object : Object) : (alloc object).run s =
    match charge.run s with
    | .error e s' => .error e s'
    | .ok _ s' => match s'.pool.place object with
      | .error crash => .error (.crash crash) s'
      | .ok (h, p) => .ok h { s' with pool := p, undo := .allocated h :: s'.undo } := by
  simp only [alloc, EStateM.run_bind]
  cases charge.run s with
  | error e s' => rfl
  | ok _ s' =>
    simp only [EStateM.run_get]
    cases s'.pool.place object <;> rfl

theorem run_recordRoot : recordRoot.run s =
    if s.rootRecorded then .ok () s
    else match charge.run s with
      | .error e s' => .error e s'
      | .ok _ s' => .ok () { s' with undo := .root s'.pool.root :: s'.undo } := by
  by_cases hr : s.rootRecorded
  · simp [recordRoot, hr]
  · simp only [recordRoot, hr, EStateM.run_bind, EStateM.run_get, Bool.false_eq_true, if_false]
    cases charge.run s <;> rfl

variable {s} in
theorem rootRecorded_of_recordRoot {s' : Scope} {u : Unit} (hr : recordRoot.run s = .ok u s') :
    s'.rootRecorded = true := by
  rw [run_recordRoot] at hr
  split at hr
  · rename_i hrec
    cases hr
    exact hrec
  · cases hc : charge.run s with
    | error e s'' => simp [hc] at hr
    | ok _ s'' =>
      simp only [hc, EStateM.Result.ok.injEq, true_and] at hr
      subst hr
      simp [Scope.rootRecorded, UndoRecord.isRoot]

end Primitives

end Tx

namespace Scope

variable {s s' : Scope} {a : Object} {h : Handle} {e : Failure}

/-- Paying for a write changes nothing but the budget. -/
theorem exists_budget_of_charge {u : Unit} (hcharge : Tx.charge.run s = .ok u s') :
    ∃ budget, s' = { s with pool := { s.pool with writeBudget := budget } } := by
  simp only [Tx.charge, EStateM.run] at hcharge
  split at hcharge
  · cases hcharge
    exact ⟨s.pool.writeBudget, rfl⟩
  · cases hcharge
  · cases hcharge
    exact ⟨_, rfl⟩

theorem eq_of_charge_error (hcharge : Tx.charge.run s = .error e s') : e = .aborted .injectedFault := by
  simp only [Tx.charge, EStateM.run] at hcharge
  split at hcharge <;> cases hcharge
  rfl

/-- **What an allocation takes**: the slot that is listed first, or a new one if none is listed. -/
theorem exists_place_of_alloc (hrun : (Tx.alloc a).run s = .ok h s') :
    ∃ budget q, ({ s.pool with writeBudget := budget } : Pool).place a = .ok (h, q) ∧
      s' = { s with pool := q, undo := .allocated h :: s.undo } := by
  rw [Tx.run_alloc] at hrun
  split at hrun
  · cases hrun
  · rename_i hcharge
    obtain ⟨budget, rfl⟩ := exists_budget_of_charge hcharge
    split at hrun
    · cases hrun
    · rename_i hplace
      cases hrun
      exact ⟨budget, _, hplace, rfl⟩

/-- **Why an allocation fails**: the write is not paid for, or something is in the way of the object. -/
theorem place_error_of_alloc (hrun : (Tx.alloc a).run s = .error e s') :
    e = .aborted .injectedFault ∨ ∃ budget crash,
      ({ s.pool with writeBudget := budget } : Pool).place a = .error crash ∧ e = .crash crash ∧
        s' = { s with pool := { s.pool with writeBudget := budget } } := by
  rw [Tx.run_alloc] at hrun
  split at hrun
  · rename_i hcharge
    cases hrun
    exact .inl (eq_of_charge_error hcharge)
  · rename_i hcharge
    obtain ⟨budget, rfl⟩ := exists_budget_of_charge hcharge
    split at hrun
    · rename_i crash hplace
      cases hrun
      exact .inr ⟨budget, crash, hplace, rfl, rfl⟩
    · cases hrun

end Scope

namespace Tx

variable {α β : Type}

/-! ## What only takes steps -/

namespace Stepwise

/-- Operations one after another. -/
theorem bind {tx : Tx α} {f : α → Tx β} (htx : Stepwise tx) (hf : ∀ a, Stepwise (f a)) :
    Stepwise (tx >>= f) := by
  intro s
  have h := htx s
  cases hr : tx.run s with
  | ok a s' =>
    rw [left_eq_of_ok hr] at h
    have : (tx >>= f).left s = (f a).left s' := by simp [left, hr]
    exact this ▸ h.trans (hf a s')
  | error e s' =>
    rw [left_eq_of_error hr] at h
    have : (tx >>= f).left s = s' := by simp [left, hr]
    exact this ▸ h

theorem pure (a : α) : Stepwise (Pure.pure a : Tx α) := fun _ => .refl

theorem throw (e : Failure) : Stepwise (throw e : Tx α) := fun _ => .refl

theorem get : Stepwise (get : Tx Scope) := fun _ => .refl

theorem fail (cause : Cause) : Stepwise (Tx.fail cause : Tx α) := fun _ => .refl

theorem root : Stepwise Tx.root := fun _ => .refl

theorem ofRead (look : Pool → Except Unreadable α) : Stepwise (Tx.ofRead look) := by
  intro s
  have : (Tx.ofRead look).left s = s := by
    simp only [left, Tx.ofRead, EStateM.run]
    cases look s.pool <;> rfl
  rw [this]

theorem entry (h : Handle) : Stepwise (Tx.entry h) := ofRead _

theorem logNode (h : Handle) : Stepwise (Tx.logNode h) := ofRead _

theorem ite {c : Prop} [Decidable c] {tx tx' : Tx α} (h : Stepwise tx) (h' : Stepwise tx') :
    Stepwise (if c then tx else tx') := by split <;> assumption

theorem charge : Stepwise Tx.charge := by
  intro s
  unfold left
  cases hb : s.pool.writeBudget with
  | none => simpa [Tx.charge, EStateM.run, hb] using ReflTransGen.refl
  | some n =>
    cases n with
    | zero => simpa [Tx.charge, EStateM.run, hb] using .single (.charge s none (by simp))
    | succ n => simpa [Tx.charge, EStateM.run, hb] using .single (.charge s (some n) (by simp [hb]))

theorem record (h : Handle) : Stepwise (Tx.record h) := by
  intro s
  have hc := charge s
  unfold left at hc ⊢
  rw [run_record]
  by_cases hrec : s.isRecorded h
  · rw [if_pos hrec]
  · rw [if_neg hrec]
    cases hr : Tx.charge.run s with
    | error e s' => simpa [hr] using hc
    | ok _ s' =>
      rw [hr] at hc
      cases ho : s'.pool.object? h with
      | none => simpa [ho] using hc
      | some before => simpa [ho] using hc.tail (.record s' ho)

theorem overwrite (h : Handle) (change : Object → Except Cause Object) :
    Stepwise (Tx.overwrite h change) := by
  intro s
  unfold left
  rw [run_overwrite]
  by_cases hr : s.isRecorded h
  · rw [if_pos hr]
    cases ho : s.pool.object? h with
    | none => exact .refl
    | some before =>
      cases hc : change before with
      | error cause => simpa [hc] using ReflTransGen.refl
      | ok after => simpa [hc] using .single (.overwrite s after hr ho)
  · rw [if_neg hr]

theorem recordRoot : Stepwise Tx.recordRoot := by
  intro s
  have hc := charge s
  unfold left at hc ⊢
  rw [run_recordRoot]
  by_cases hrec : s.rootRecorded
  · rw [if_pos hrec]
  · rw [if_neg hrec]
    cases hr : Tx.charge.run s with
    | error e s' => simpa [hr] using hc
    | ok _ s' => rw [hr] at hc; exact hc.tail (.recordRoot s')

theorem alloc (object : Object) : Stepwise (Tx.alloc object) := by
  intro s
  have hc := charge s
  unfold left at hc ⊢
  rw [run_alloc]
  cases hr : Tx.charge.run s with
  | error e s' => simpa [hr] using hc
  | ok _ s' =>
    rw [hr] at hc
    cases hp : s'.pool.place object with
    | error crash => simpa [hp] using hc
    | ok placed => simpa [hp] using hc.tail (.alloc s' hp)

theorem free (h : Handle) : Stepwise (Tx.free h) := by
  intro s
  have hc := charge s
  unfold left at hc ⊢
  rw [run_free]
  cases hr : Tx.charge.run s with
  | error e s' => simpa [hr] using hc
  | ok _ s' =>
    rw [hr] at hc
    cases ho : s'.pool.object? h with
    | none => simpa [ho] using hc
    | some before => simpa [ho] using hc.tail (.free s' ho)

theorem editEntry (h : Handle) (edit : EntryNode → EntryNode) : Stepwise (Tx.editEntry h edit) :=
  (record h).bind fun _ => (overwrite h _).bind fun _ => pure ()

theorem editLog (h : Handle) (edit : LogNode → LogNode) : Stepwise (Tx.editLog h edit) :=
  (record h).bind fun _ => (overwrite h _).bind fun _ => pure ()

theorem editRoot (edit : Root → Root) : Stepwise (Tx.editRoot edit) := by
  intro s
  have hr := recordRoot s
  unfold left at hr ⊢
  simp only [Tx.editRoot, EStateM.run_bind]
  cases hrun : Tx.recordRoot.run s with
  | error e s' => simpa [hrun] using hr
  | ok _ s' =>
    rw [hrun] at hr
    exact hr.tail (.editRoot s' _ (rootRecorded_of_recordRoot hrun))

theorem require (c : Prop) [Decidable c] (cause : Cause) : Stepwise (Tx.require c cause) := by
  unfold Tx.require
  split
  · exact pure ()
  · exact fail cause

theorem allocBytes (bytes : Bytes) : Stepwise (Tx.allocBytes bytes) := alloc _

theorem add (a b : UInt64) : Stepwise (Tx.add a b) := by
  unfold Tx.add
  cases checkedAdd a b with
  | ok sum => exact pure sum
  | error crash => exact throw (.crash crash)

theorem increment (counter : Counter) (amount : UInt64) : Stepwise (Tx.increment counter amount) :=
  recordRoot.bind fun _ => root.bind fun _ => (add _ _).bind fun _ => editRoot _

theorem decrement (counter : Counter) (amount : UInt64) :
    Stepwise (Tx.decrement counter amount) :=
  recordRoot.bind fun _ => root.bind fun _ => (require _ _).bind fun _ => editRoot _

theorem setNext (chain : ChainKind) (prev next : Option Handle) :
    Stepwise (Tx.setNext chain prev next) := by
  cases prev with
  | none => exact editRoot fun r => r.setFirst chain next
  | some h => exact editEntry h fun e => { e with next := next }

theorem setPrev (chain : ChainKind) (prev next : Option Handle) :
    Stepwise (Tx.setPrev chain prev next) := by
  cases next with
  | some h => exact editEntry h fun e => { e with prev := prev }
  | none =>
    cases chain with
    | entries => exact editRoot fun r => { r with entryLast := prev }
    | victims => exact pure ()

theorem linkFront (chain : ChainKind) (node : Handle) : Stepwise (Tx.linkFront chain node) :=
  root.bind fun _ => (editEntry _ _).bind fun _ => (setPrev _ _ _).bind fun _ => setNext _ _ _

theorem spliceOut (chain : ChainKind) (node : Handle) : Stepwise (Tx.spliceOut chain node) :=
  (entry node).bind fun _ => (require _ _).bind fun _ => root.bind fun _ =>
    (require _ _).bind fun _ => (setNext _ _ _).bind fun _ => root.bind fun _ =>
      (require _ _).bind fun _ => (setPrev _ _ _).bind fun _ => editEntry _ _

end Stepwise

end Tx

/-! ## Loops -/

section Loops

open Tx

/-- **What one round keeps, the loop keeps** that frees the victim pipeline from a node on. It ends with a
result, or because more nodes are linked than there are slots. -/
theorem VictimPipeline.reclaimFrom_induction {P : Tx Nat → Prop} (done : ∀ count, P (pure count))
    (refused : ∀ cause, P (fail cause))
    (round : ∀ h f, (∀ next, P (f next)) → P (reclaimNode h >>= f))
    (budget : Nat) (cursor : Option Handle) (count : Nat) : P (reclaimFrom budget cursor count) := by
  induction budget generalizing cursor count with
  | zero =>
    cases cursor with
    | none => exact done count
    | some h => exact refused _
  | succ budget ih =>
    cases cursor with
    | none => exact done count
    | some h => exact round h _ fun next => ih next (count + 1)

/-- **What one round keeps, the loop keeps** that frees a log buffer from a node on. It ends with a result,
or because more nodes are linked than are recorded. -/
theorem LogBuffer.freeFrom_induction {P : Tx UInt64 → Prop} (done : ∀ count, P (pure count))
    (refused : ∀ cause, P (fail cause))
    (round : ∀ h f, (∀ next, P (f next)) → P (freeNode h >>= f)) (recorded : UInt64)
    (budget : Nat) (cursor : Option Handle) (count : UInt64) :
    P (freeFrom recorded budget cursor count) := by
  induction budget generalizing cursor count with
  | zero =>
    cases cursor with
    | none => exact done count
    | some h => exact refused _
  | succ budget ih =>
    cases cursor with
    | none => exact done count
    | some h => exact round h _ fun next => ih next (count + 1)

end Loops

/-! ## The operations on the chains and the log -/

namespace EntryStore

open Tx.Stepwise

theorem stepwise_insertFront (key value : Handle) : (insertFront key value).Stepwise :=
  (alloc _).bind fun _ => (linkFront _ _).bind fun _ => (increment _ _).bind fun _ => pure _

theorem stepwise_updateValue (node value : Handle) : (updateValue node value).Stepwise :=
  (record _).bind fun _ => (entry _).bind fun _ => (editEntry _ _).bind fun _ => pure _

theorem stepwise_unlink (node : Handle) : (unlink node).Stepwise :=
  (spliceOut _ _).bind fun _ => decrement _ _

theorem stepwise_release (node : Handle) : (release node).Stepwise :=
  (entry _).bind fun _ => (free _).bind fun _ => (free _).bind fun _ => free _

theorem stepwise_remove (node : Handle) : (remove node).Stepwise :=
  (stepwise_unlink _).bind fun _ => stepwise_release _

theorem stepwise_promote (node : Handle) : (promote node).Stepwise :=
  root.bind fun _ => ite (pure _) ((spliceOut _ _).bind fun _ => linkFront _ _)

end EntryStore

namespace VictimPipeline

open Tx.Stepwise

theorem stepwise_relink (node : Handle) : (relink node).Stepwise :=
  (spliceOut _ _).bind fun _ => linkFront _ _

theorem stepwise_evict (node : Handle) : (evict node).Stepwise :=
  (stepwise_relink _).bind fun _ => (decrement _ _).bind fun _ => increment _ _

theorem stepwise_forM {α : Type} {f : α → Tx Unit} (hf : ∀ a, (f a).Stepwise) (as : List α) :
    Tx.Stepwise (as.forM f) := by
  induction as with
  | nil => exact pure ()
  | cons a as ih => exact (hf a).bind fun _ => ih

theorem stepwise_evictAll (nodes : List Handle) : (evictAll nodes).Stepwise :=
  (stepwise_forM stepwise_relink nodes).bind fun _ => (decrement _ _).bind fun _ =>
    (increment _ _).bind fun _ => pure _

theorem stepwise_remove (node : Handle) : (remove node).Stepwise :=
  (spliceOut _ _).bind fun _ => (EntryStore.stepwise_release _).bind fun _ => decrement _ _

theorem stepwise_reclaimNode (node : Handle) : (reclaimNode node).Stepwise :=
  (entry _).bind fun _ => (require _ _).bind fun _ => (free _).bind fun _ => (free _).bind fun _ =>
    (free _).bind fun _ => (decrement _ _).bind fun _ => pure _

theorem stepwise_reclaimFrom (budget : Nat) (cursor : Option Handle) (count : Nat) :
    (reclaimFrom budget cursor count).Stepwise :=
  reclaimFrom_induction pure fail (fun h _ hf => (stepwise_reclaimNode h).bind hf) budget cursor count

theorem stepwise_cutBefore (head : Handle) (predecessor : Option Handle) :
    (cutBefore head predecessor).Stepwise := by
  refine root.bind fun _ => ite (editRoot _) ?_
  cases predecessor with
  | some prev => exact editEntry prev _
  | none => exact pure ()

theorem stepwise_reclaim (head : Handle) : (reclaim head).Stepwise :=
  (entry _).bind fun _ => get.bind fun _ => (stepwise_reclaimFrom _ _ _).bind fun _ =>
    (stepwise_cutBefore _ _).bind fun _ => pure _

end VictimPipeline

namespace LogBuffer

open Tx.Stepwise

theorem stepwise_setHead (role : BufferRole) (head : Option Handle) :
    (setHead role head).Stepwise := editRoot _

theorem stepwise_setPrev (node : Handle) (head : Option Handle) : (setPrev node head).Stepwise := by
  cases head with
  | some old => exact editLog old _
  | none => exact pure ()

theorem stepwise_append (command : Bytes) : (append command).Stepwise :=
  (allocBytes _).bind fun _ => (alloc _).bind fun _ => get.bind fun _ => (editLog _ _).bind fun _ =>
    (stepwise_setPrev _ _).bind fun _ => (stepwise_setHead _ _).bind fun _ =>
      (increment _ _).bind fun _ => pure _

theorem stepwise_switch : switch.Stepwise := (editRoot _).bind fun _ => root.bind fun _ => pure _

theorem stepwise_freeNode (h : Handle) : (freeNode h).Stepwise :=
  (logNode _).bind fun _ => (free _).bind fun _ => (free _).bind fun _ => pure _

theorem stepwise_freeFrom (recorded : UInt64) (budget : Nat) (cursor : Option Handle)
    (count : UInt64) : (freeFrom recorded budget cursor count).Stepwise :=
  freeFrom_induction pure fail (fun h _ hf => (stepwise_freeNode h).bind hf) recorded budget cursor count

theorem stepwise_clear (head : Option Handle) : (clear head).Stepwise :=
  get.bind fun _ => (require _ _).bind fun _ => (stepwise_freeFrom _ _ _ _).bind fun _ =>
    (stepwise_setHead _ _).bind fun _ => (decrement _ _).bind fun _ => pure _

end LogBuffer

end PersistentTier
