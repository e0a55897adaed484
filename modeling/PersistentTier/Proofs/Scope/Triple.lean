import PersistentTier.Proofs.Pool.Heap
import PersistentTier.Proofs.Scope.Rollback

/-!
# Triples

A triple says what an operation makes of a scope if it succeeds, and with which failures it may
end otherwise. What a failed operation leaves behind is of no interest, since its scope is rolled
back.

Of a scope, a triple sees the root, the heap and the room for allocations. Whether writes may be
refused is part of the failures it permits: if an injected fault is not among them, the scope has no
write budget, and if a shortage of memory is not among them, it has slots to spare.

## Main definitions

* `Pool.Able`: which writes a pool can take
* `View`, `Scope.Shows`: what a triple sees of a scope
* `Tx.Triple`: precondition, operation, postcondition, and the failures permitted
* `Tx.Yields`: a triple whose result and view are known
* `Tx.Triple.Partial`: a triple about an operation that may fail in any way

## Main results

* `Tx.Triple.bind`, `Tx.Yields.bind`: operations one after another
* `yields_editEntry`, `yields_editLog`, `yields_editRoot`, `yields_free`, `triple_alloc`: the
  primitive operations, each by the one cell it touches
-/

namespace PersistentTier

open Pool Scope

/-- **Which writes a pool can take.** They are not limited, unless the failures `E` include injected
faults, and there is room for some allocations, unless they include a shortage of memory. -/
structure Pool.Able (E : Failure → Prop) (room : Nat) (p : Pool) : Prop where
  unlimited : E (.aborted .injectedFault) ∨ p.writeBudget = none
  roomy : E (.crash .outOfMemory) ∨ p.slots.size + room ≤ maxSlots

/-- A pool of the same size with the same budget can take the same writes. -/
theorem Pool.Able.of_eq {E : Failure → Prop} {room : Nat} {p q : Pool} (hp : p.Able E room)
    (hbudget : q.writeBudget = p.writeBudget) (hsize : q.slots.size = p.slots.size) :
    q.Able E room := ⟨hbudget ▸ hp.unlimited, hsize ▸ hp.roomy⟩

/-- What a triple sees of a scope. -/
@[ext]
structure View where
  /-- The number of slots that can still be added. -/
  room : Nat
  root : Root
  heap : Heap

/-- **What a scope shows** to triples that permit the failures `E`. -/
structure Scope.Shows (E : Failure → Prop) (v : View) (s : Scope) : Prop where
  root : s.pool.root = v.root
  heap : s.pool.heap = v.heap
  sound : s.Sound
  able : s.pool.Able E v.room

namespace Tx

variable {α β : Type} {E : Failure → Prop}

/-- **A triple**: from a scope with `P` the operation succeeds with `Q`, or fails as `E` permits. -/
def Triple (E : Failure → Prop) (P : Scope → Prop) (tx : Tx α) (Q : α → Scope → Prop) : Prop :=
  ∀ s, P s → match tx.run s with
    | .ok a s' => Q a s'
    | .error e _ => E e

/-- A triple with a known result and a known view. -/
def Yields (E : Failure → Prop) (v : View) (tx : Tx α) (a : α) (v' : View) : Prop :=
  Triple E (Shows E v) tx fun b s => b = a ∧ s.Shows E v'

/-! ## Rules -/

namespace Triple

variable {P : Scope → Prop} {Q Q' : α → Scope → Prop} {R : β → Scope → Prop} {tx : Tx α}
  {f : α → Tx β} {v : View}

/-- Operations one after another. -/
theorem bind (htx : Triple E P tx Q) (hf : ∀ a, Triple E (Q a) (f a) R) :
    Triple E P (tx >>= f) R := by
  intro s hs
  have h := htx s hs
  rw [EStateM.run_bind]
  cases hr : tx.run s with
  | ok a s' =>
    rw [hr] at h
    exact hf a s' h
  | error e s' =>
    rw [hr] at h
    exact h

theorem mono (htx : Triple E P tx Q) (hQ : ∀ a s, Q a s → Q' a s) : Triple E P tx Q' := by
  intro s hs
  have h := htx s hs
  split at h
  · exact hQ _ _ h
  · exact h

theorem pure {a : α} (h : ∀ s, P s → Q a s) : Triple E P (Pure.pure a) Q := fun s hs => h s hs

theorem fail {cause : Cause} (h : E (.cause cause)) : Triple E P (Tx.fail cause : Tx α) Q :=
  fun _ _ => h

/-- A condition is checked: either it holds from there on, or the operation ends. -/
theorem require {c : Prop} [Decidable c] {cause : Cause} {f : Unit → Tx β}
    (hc : ¬ c → E (.cause cause)) (hf : c → Triple E P (f ()) R) :
    Triple E P (Tx.require c cause >>= f) R := by
  unfold Tx.require
  split
  · rename_i h
    exact hf h
  · rename_i h
    exact fun s _ => hc h

theorem get {f : Scope → Tx β} (hf : ∀ s : Scope, P s → Triple E P (f s) R) :
    Triple E P (MonadState.get >>= f) R := fun s hs => hf s hs s hs

theorem root {f : Root → Tx β} (hf : Triple E (Shows E v) (f v.root) R) :
    Triple E (Shows E v) (Tx.root >>= f) R := by
  intro s hs
  have h := hf s hs
  rw [← hs.root] at h
  exact h

/-- A read either finds something or ends the operation. -/
theorem ofRead {look : Pool → Except Unreadable α}
    (hok : ∀ a (s : Scope), P s → look s.pool = .ok a → Triple E P (f a) R)
    (herror : ∀ reason (s : Scope), P s → look s.pool = .error reason →
      E (.cause (.unreadable reason))) :
    Triple E P (Tx.ofRead look >>= f) R := by
  intro s hs
  rw [EStateM.run_bind, run_ofRead]
  cases hl : look s.pool with
  | ok a => exact hok a s hs hl s hs
  | error reason => exact herror reason s hs hl

/-- Whatever is so in every scope with a view may be used. -/
theorem of_shows (h : ∀ s : Scope, s.Shows E v → Triple E (Shows E v) tx Q) :
    Triple E (Shows E v) tx Q := fun s hs => h s hs s hs

/-- No handle of a view names two objects. -/
theorem of_nodup (h : (v.heap.map Prod.fst).Nodup → Triple E (Shows E v) tx Q) :
    Triple E (Shows E v) tx Q := of_shows fun s hs => h (hs.heap ▸ s.pool.nodup_heap)

end Triple

namespace Yields

variable {v v' v'' : View} {tx : Tx α} {f : α → Tx β} {a : α} {b : β} {R : β → Scope → Prop}

/-- An operation with a known result, and then another. -/
theorem bind (htx : Yields E v tx a v') (hf : Triple E (Shows E v') (f a) R) :
    Triple E (Shows E v) (tx >>= f) R := by
  refine Triple.bind htx fun b s hs => ?_
  obtain ⟨rfl, hs⟩ := hs
  exact hf s hs

theorem pure (v : View) (a : α) : Yields E v (Pure.pure a) a v := fun _ hs => ⟨rfl, hs⟩

/-- The views may be written in another way. -/
theorem congr {w w' : View} (htx : Yields E v tx a v') (hv : w = v) (hv' : w' = v') :
    Yields E w tx a w' := hv ▸ hv' ▸ htx

end Yields

end Tx

/-! ## Operations that may fail in any way -/

namespace Tx.Triple

variable {α : Type} {P : Scope → Prop}

/-- Triples about operations that may fail in any way. -/
abbrev Partial (P : Scope → Prop) (tx : Tx α) (Q : α → Scope → Prop) : Prop :=
  Triple (fun _ => True) P tx Q

/-- Nothing is known of what an operation leaves. -/
theorem unknown (tx : Tx α) : Partial P tx fun _ _ => True := by
  intro s _
  split <;> trivial

section Records

-- What is said of a scope is no matter of its budget or of its undo records.
variable (hP : ∀ (s : Scope) (budget : Option Nat) (undo : List UndoRecord), P s →
  P { pool := { s.pool with writeBudget := budget }, undo := undo })
include hP

theorem keep_charge : Partial P charge fun _ => P := by
  intro s hs
  simp only [charge, EStateM.run]
  cases hb : s.pool.writeBudget with
  | none => exact hs
  | some n =>
    cases n with
    | zero => trivial
    | succ n => exact hP s (some n) s.undo hs

theorem keep_record (h : Handle) : Partial P (record h) fun _ => P := by
  intro s hs
  have hcharge := keep_charge hP s hs
  rw [run_record]
  by_cases hr : s.isRecorded h
  · rw [if_pos hr]
    exact hs
  · rw [if_neg hr]
    cases hc : charge.run s with
    | error e s' => trivial
    | ok _ s' =>
      rw [hc] at hcharge
      cases ho : s'.pool.object? h with
      | none => simp only [ho]
      | some before =>
        simp only [ho]
        exact hP s' s'.pool.writeBudget _ hcharge

theorem keep_recordRoot : Partial P recordRoot fun _ => P := by
  intro s hs
  have hcharge := keep_charge hP s hs
  rw [run_recordRoot]
  by_cases hr : s.rootRecorded
  · rw [if_pos hr]
    exact hs
  · rw [if_neg hr]
    cases hc : charge.run s with
    | error e s' => trivial
    | ok _ s' =>
      rw [hc] at hcharge
      exact hP s' s'.pool.writeBudget _ hcharge

theorem keep_editRoot {edit : Root → Root} {Q : Scope → Prop}
    (hedit : ∀ s : Scope, P s → Q { s with pool := { s.pool with root := edit s.pool.root } }) :
    Partial P (editRoot edit) fun _ => Q :=
  (keep_recordRoot hP).bind fun _ s hs => hedit s hs

end Records

end Tx.Triple

/-! ## The primitive operations -/

section Primitives

open Tx

variable {E : Failure → Prop} {room : Nat} {r : Root} {m : Heap} {h : Handle} {v : View}
  {s s' : Scope}

theorem Scope.Sound.of_steps (hs : s.Sound) (hsteps : Steps s s') : s'.Sound := by
  induction hsteps with
  | refl => exact hs
  | tail _ hstep ih => exact hstep.sound ih

/-- A successful operation leaves a sound scope sound. -/
theorem Tx.Stepwise.sound {α : Type} {tx : Tx α} (htx : tx.Stepwise) (hs : s.Sound) :
    ∀ ⦃a s'⦄, tx.run s = .ok a s' → s'.Sound := by
  intro a s' hr
  have := hs.of_steps (htx s)
  rwa [left_eq_of_ok hr] at this

theorem Scope.Shows.object? {a : Object} (hs : s.Shows E v) (hv : v.heap = cell h a + m) :
    s.pool.object? h = some a := object?_of_heap (hs.heap.trans hv)

theorem yields_charge : Yields E v charge () v := by
  intro s hs
  have hsound := Tx.Stepwise.sound (s := s) .charge hs.sound
  cases hb : s.pool.writeBudget with
  | none =>
    have hr : charge.run s = .ok () s := by simp [charge, EStateM.run, hb]
    rw [hr]
    exact ⟨rfl, hs⟩
  | some n =>
    -- There is a budget, so injected faults are among the failures permitted.
    have hinjected := hs.able.unlimited.resolve_right fun hn => by simp [hb] at hn
    cases n with
    | zero => simpa [charge, EStateM.run, hb] using hinjected
    | succ n =>
      have hr : charge.run s =
          .ok () { s with pool := { s.pool with writeBudget := some n } } := by
        simp [charge, EStateM.run, hb]
      rw [hr]
      exact ⟨rfl, hs.root, hs.heap, hsound hr, .inl hinjected, hs.able.roomy⟩

/-- A write is paid for, and nothing else changes; or the budget has run out, and that is permitted. -/
theorem Scope.Shows.exists_charge (hs : s.Shows E v) :
    (∃ e s', charge.run s = .error e s' ∧ E e) ∨ ∃ s', charge.run s = .ok () s' ∧ s'.Shows E v := by
  have hcharge := yields_charge s hs
  cases hc : charge.run s with
  | error e s' =>
    rw [hc] at hcharge
    exact .inl ⟨e, s', rfl, hcharge⟩
  | ok _ s' =>
    rw [hc] at hcharge
    exact .inr ⟨s', rfl, hcharge.2⟩

/-- What is in the heap can be recorded. -/
theorem triple_record {a : Object} (hv : v.heap = cell h a + m) :
    Triple E (Shows E v) (record h) fun _ s => s.isRecorded h = true ∧ s.Shows E v := by
  intro s hs
  have hsound := Tx.Stepwise.sound (s := s) (.record h) hs.sound
  rw [run_record] at hsound ⊢
  by_cases hr : s.isRecorded h
  · rw [if_pos hr]
    exact ⟨hr, hs⟩
  · rw [if_neg hr] at hsound ⊢
    obtain ⟨e, s', hc, he⟩ | ⟨s', hc, hs'⟩ := hs.exists_charge
    · rw [hc]
      exact he
    · rw [hc] at hsound ⊢
      simp only [hs'.object? hv] at hsound ⊢
      exact ⟨by simp [Scope.isRecorded, UndoRecord.permits?], hs'.root, hs'.heap, hsound rfl,
        hs'.able⟩

theorem yields_record {a : Object} (hv : v.heap = cell h a + m) : Yields E v (record h) () v :=
  (triple_record hv).mono fun _ _ hs => ⟨rfl, hs.2⟩

/-- An object of the heap is exchanged for another. -/
theorem triple_overwrite {a b : Object} {change : Object → Except Cause Object}
    (hc : change a = .ok b) :
    Triple E (fun s => s.isRecorded h = true ∧ s.Shows E ⟨room, r, cell h a + m⟩)
      (overwrite h change) fun _ s => s.Shows E ⟨room, r, cell h b + m⟩ := by
  rintro s ⟨hrec, hs⟩
  have hsound := Tx.Stepwise.sound (s := s) (.overwrite h change) hs.sound
  rw [run_overwrite, if_pos hrec] at hsound ⊢
  simp only [hs.object? rfl, hc] at hsound ⊢
  exact ⟨(root_setObject ..).trans hs.root, heap_setObject hs.heap b, hsound rfl,
    hs.able.of_eq (writeBudget_setObject ..) (size_setObject ..)⟩

/-- **A key/value node is changed** in its cell. -/
theorem yields_editEntry (e : EntryNode) (edit : EntryNode → EntryNode) :
    Yields E ⟨room, r, cell h (.entry e) + m⟩ (editEntry h edit) ()
      ⟨room, r, cell h (.entry (edit e)) + m⟩ := by
  refine (triple_record rfl).bind fun _ => ?_
  refine (triple_overwrite (a := .entry e) (by rfl)).bind fun _ => ?_
  exact Triple.pure fun _ hs => ⟨rfl, hs⟩

/-- **A log node is changed** in its cell. -/
theorem yields_editLog (n : LogNode) (edit : LogNode → LogNode) :
    Yields E ⟨room, r, cell h (.log n) + m⟩ (editLog h edit) ()
      ⟨room, r, cell h (.log (edit n)) + m⟩ := by
  refine (triple_record rfl).bind fun _ => ?_
  refine (triple_overwrite (a := .log n) (by rfl)).bind fun _ => ?_
  exact Triple.pure fun _ hs => ⟨rfl, hs⟩

theorem yields_recordRoot : Yields E v recordRoot () v := by
  intro s hs
  have hsound := Tx.Stepwise.sound (s := s) .recordRoot hs.sound
  rw [run_recordRoot] at hsound ⊢
  by_cases hr : s.rootRecorded
  · rw [if_pos hr]
    exact ⟨rfl, hs⟩
  · rw [if_neg hr] at hsound ⊢
    obtain ⟨e, s', hc, he⟩ | ⟨s', hc, hs'⟩ := hs.exists_charge
    · rw [hc]
      exact he
    · rw [hc] at hsound ⊢
      exact ⟨rfl, hs'.root, hs'.heap, hsound rfl, hs'.able⟩

/-- **The root is changed.** -/
theorem yields_editRoot (edit : Root → Root) :
    Yields E ⟨room, r, m⟩ (editRoot edit) () ⟨room, edit r, m⟩ := by
  intro s hs
  have hsound := Tx.Stepwise.sound (s := s) (.editRoot edit) hs.sound
  have hrecord := yields_recordRoot s hs
  simp only [editRoot, EStateM.run_bind] at hsound ⊢
  cases hr : recordRoot.run s with
  | error e s' =>
    rw [hr] at hrecord
    exact hrecord
  | ok _ s' =>
    rw [hr] at hrecord hsound
    obtain ⟨-, hs'⟩ := hrecord
    exact ⟨trivial, congrArg edit hs'.root, hs'.heap, hsound rfl, hs'.able.of_eq rfl rfl⟩

/-- **An object is allocated**: the heap grows by one cell. -/
theorem triple_alloc (a : Object) :
    Triple E (Shows E ⟨room + 1, r, m⟩) (alloc a) fun h s =>
      s.Shows E ⟨room, r, cell h a + m⟩ := by
  intro s hs
  have hsound := Tx.Stepwise.sound (s := s) (.alloc a) hs.sound
  rw [run_alloc] at hsound ⊢
  obtain ⟨e, s', hc, he⟩ | ⟨s', hc, hs'⟩ := hs.exists_charge
  · rw [hc]
    exact he
  · rw [hc] at hsound ⊢
    have hfree := hs'.sound.vacant.of_append_right
    cases hp : s'.pool.place a with
    | error crash =>
      -- Without room the arena may be full, but then a shortage of memory is permitted.
      obtain ⟨rfl, -, hfull⟩ := place_error hfree hp
      simp only [hp]
      refine hs'.able.roomy.resolve_right fun hroom => ?_
      have : s'.pool.slots.size + (room + 1) ≤ maxSlots := hroom
      omega
    | ok placed =>
      obtain ⟨h, q⟩ := placed
      simp only [hp] at hsound ⊢
      refine ⟨(root_place hp).trans hs'.root, (heap_place hfree hp).trans (by rw [hs'.heap]),
        hsound rfl, writeBudget_place hp ▸ hs'.able.unlimited,
        hs'.able.roomy.imp_right fun hroom => ?_⟩
      -- Only a slot that is added uses up room.
      have hgrown := size_place_le hp
      have : s'.pool.slots.size + (room + 1) ≤ maxSlots := hroom
      simp only
      omega

/-- **An object is freed**: the heap loses its cell. -/
theorem yields_free (a : Object) :
    Yields E ⟨room, r, cell h a + m⟩ (free h) () ⟨room, r, m⟩ := by
  intro s hs
  have hsound := Tx.Stepwise.sound (s := s) (.free h) hs.sound
  rw [run_free] at hsound ⊢
  obtain ⟨e, s', hc, he⟩ | ⟨s', hc, hs'⟩ := hs.exists_charge
  · rw [hc]
    exact he
  · rw [hc] at hsound ⊢
    simp only [hs'.object? rfl] at hsound ⊢
    exact ⟨trivial, (root_clearSlot ..).trans hs'.root, heap_clearSlot hs'.heap, hsound rfl,
      hs'.able.of_eq (writeBudget_clearSlot ..) (size_clearSlot ..)⟩

/-- A key/value node of the heap is read. -/
theorem yields_entry (e : EntryNode) (hv : v.heap = cell h (.entry e) + m) :
    Yields E v (Tx.entry h) e v := by
  intro s hs
  have ho := resolve_eq_ok_iff.2 (hs.object? hv)
  simp only [Tx.entry, run_ofRead, Pool.entry, ho]
  exact ⟨rfl, hs⟩

/-- A log node of the heap is read. -/
theorem yields_logNode (n : LogNode) (hv : v.heap = cell h (.log n) + m) :
    Yields E v (Tx.logNode h) n v := by
  intro s hs
  have ho := resolve_eq_ok_iff.2 (hs.object? hv)
  simp only [Tx.logNode, run_ofRead, Pool.logNode, ho]
  exact ⟨rfl, hs⟩

theorem yields_root : Yields E v Tx.root v.root v := fun _ hs => ⟨hs.root, hs⟩

/-- A condition that holds is no obstacle. -/
theorem yields_require {c : Prop} [Decidable c] (hc : c) (cause : Cause) :
    Yields E v (require c cause) () v := by
  simp only [require, if_pos hc]
  exact .pure v ()

/-! ## Counters -/

/-- A counter that is large enough is lowered. -/
theorem yields_decrement {counter : Counter} {amount : UInt64} (hle : amount ≤ r.counter counter) :
    Yields E ⟨room, r, m⟩ (decrement counter amount) ()
      ⟨room, r.setCounter counter (r.counter counter - amount), m⟩ := by
  refine yields_recordRoot.bind (yields_root.bind ?_)
  exact (yields_require hle _).bind (yields_editRoot _)

/-- Numbers are added whose sum fits. -/
theorem yields_add {a b : UInt64} (hlt : a.toNat + b.toNat < UInt64.size) :
    Yields E v (add a b) (a + b) v := by
  rw [add_of_lt hlt]
  exact .pure v _

/-- A counter that leaves room for it is raised. -/
theorem yields_increment {counter : Counter} {amount : UInt64}
    (hlt : (r.counter counter).toNat + amount.toNat < UInt64.size) :
    Yields E ⟨room, r, m⟩ (increment counter amount) ()
      ⟨room, r.setCounter counter (r.counter counter + amount), m⟩ := by
  refine yields_recordRoot.bind (yields_root.bind ((yields_add hlt).bind ?_))
  exact yields_editRoot fun r' => r'.setCounter counter (r.counter counter + amount)

end Primitives

end PersistentTier
