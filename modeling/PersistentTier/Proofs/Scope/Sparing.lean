import PersistentTier.Proofs.Scope.Frugal

/-!
# Operations that allocate a few objects

An operation that allocates so many objects reads so many offsets of the free list. The rest of the
free list may say anything. What such an operation makes of the heap is known if the offsets that it
reads are those of empty slots.

## Main definitions

* `Tx.Sparing`: an operation that reads a few offsets of the free list
* `Pool.Performs`: an operation in a transaction of its own

## Main results

* `Tx.Sparing.alloc`: an allocation reads one offset
* `Pool.performs`, `Pool.transaction_of_yields`: an operation of which it is known what it makes of the
  root and the heap
-/

namespace PersistentTier

open Scope

/-- **An operation that reads `k` offsets of the free list** at most: what comes behind these makes no
difference. -/
def Tx.Sparing {α : Type} (k : Nat) (tx : Tx α) : Prop :=
  ∀ rest (s : Scope), k ≤ s.pool.free.length ∨ rest = [] →
    tx.run (s.lengthen rest) = Seen (Scope.lengthen rest) (tx.run s)

namespace Pool

variable {p q : Pool} {a : Object} {h : Handle}

theorem lengthen_nil (p : Pool) : p.lengthen [] = p := by
  simp [lengthen]

/-- An allocation reads the first offset of the free list, or finds it empty. -/
theorem place_lengthen {rest : List UInt64} (hp : p.free ≠ [] ∨ rest = []) (a : Object) :
    (p.lengthen rest).place a = (p.place a).map fun x => (x.1, x.2.lengthen rest) := by
  cases hfree : p.free with
  | nil =>
    obtain rfl : rest = [] := hp.resolve_left (absurd hfree)
    simp only [lengthen_nil, Prod.mk.eta]
    cases p.place a <;> rfl
  | cons offset free =>
    have hlisted : (p.lengthen rest).free = offset :: (free ++ rest) := by
      rw [lengthen, hfree, List.cons_append]
    have hsize : (p.lengthen rest).slots.size = p.slots.size := rfl
    simp only [place, hfree, hlisted, hsize]
    split <;> rfl

/-- An allocation takes one offset off the free list, if there is one. -/
theorem length_free_place {k : Nat} (hp : p.place a = .ok (h, q)) (hk : k + 1 ≤ p.free.length) :
    k ≤ q.free.length := by
  rcases place_cases hp with ⟨free, hs, hfree, -, rfl⟩ | ⟨hfree, -⟩
  · rw [hfree, List.length_cons] at hk
    exact Nat.le_of_succ_le_succ hk
  · simp [hfree] at hk

end Pool

namespace Tx

variable {α : Type} {tx : Tx α} {k : Nat}

theorem Frugal.sparing (htx : tx.Frugal) : tx.Sparing 0 := fun rest s _ => htx rest s

/-- **An allocation reads one offset.** -/
theorem Sparing.alloc {f : Handle → Tx α} (hf : ∀ h, (f h).Sparing k) (a : Object) :
    (Tx.alloc a >>= f).Sparing (k + 1) := by
  intro rest s hs
  have hcharge : charge.run (s.lengthen rest) = Seen (Scope.lengthen rest) (charge.run s) :=
    Frugal.charge rest s
  rw [EStateM.run_bind, EStateM.run_bind, run_alloc, run_alloc, hcharge]
  cases hc : charge.run s with
  | error e s' => rfl
  | ok u s' =>
    have hfree : s'.pool.free = s.pool.free := by
      obtain ⟨budget, rfl⟩ := exists_budget_of_charge hc
      rfl
    have hplace : (s'.pool.lengthen rest).place a =
        (s'.pool.place a).map fun x => (x.1, x.2.lengthen rest) := by
      refine Pool.place_lengthen (hs.imp_left fun hk hnil => ?_) a
      rw [← hfree, hnil] at hk
      exact absurd hk (Nat.not_succ_le_zero k)
    simp only [Seen, Scope.lengthen, hplace]
    cases hp : s'.pool.place a with
    | error crash => rfl
    | ok placed =>
      obtain ⟨h, q⟩ := placed
      simp only [Except.map]
      exact hf h rest ⟨q, .allocated h :: s'.undo⟩
        (hs.imp_left fun hk => Pool.length_free_place hp (hfree ▸ hk))

end Tx

/-- Inserting a node allocates it. -/
theorem EntryStore.sparing_insertFront (key value : Handle) : (insertFront key value).Sparing 1 :=
  Tx.Sparing.alloc (fun node => ((Tx.Frugal.linkFront .entries node).bind fun _ =>
    (Tx.Frugal.increment .entryCount 1).bind fun _ => .pure node).sparing) _

/-! ## Transactions -/

namespace Pool

variable {α : Type} {tx : Tx α} {p q : Pool} {room k : Nat}

/-- **An operation in a transaction of its own.** If nothing is in the way of writes and there is
`room` for what it allocates, it succeeds. If it succeeds, its result and the pool are as `Q` says. -/
structure Performs (p : Pool) (room : Nat) (tx : Tx α) (Q : α → Pool → Prop) : Prop where
  succeeds : p.Unhindered → p.slots.size + room ≤ maxSlots → ∃ a q, p.transaction tx = (.ok a, q)
  post : ∀ a q, p.transaction tx = (.ok a, q) → Q a q

theorem Performs.mono {Q Q' : α → Pool → Prop} (h : p.Performs room tx Q)
    (hQ : ∀ a q, p.transaction tx = (.ok a, q) → Q a q → Q' a q) : p.Performs room tx Q' :=
  ⟨h.succeeds, fun a q hq => hQ a q hq (h.post a q hq)⟩

/-- Every pool is one with a shorter free list, but for its free list. -/
theorem exists_lengthen_take (hfree : p.Vacant (p.free.take k)) :
    ∃ (p₀ : Pool) (rest : List UInt64), p = p₀.lengthen rest ∧ p₀.Vacant p₀.free ∧
      (k ≤ p₀.free.length ∨ rest = []) := by
  refine ⟨{ p with free := p.free.take k }, p.free.drop k, ?_, hfree.of_slots fun _ _ => rfl, ?_⟩
  · simp only [lengthen, List.take_append_drop]
  · rcases Nat.le_total k p.free.length with hk | hk
    · exact .inl (List.length_take_of_le hk).ge
    · exact .inr (List.drop_eq_nil_of_le hk)

/-- **An operation of which it is known what it makes of the root and the heap**, in a pool of which
the slots that it may take are empty. -/
theorem performs (htx : tx.Stepwise) (hsparing : tx.Sparing k) (hfree : p.Vacant (p.free.take k))
    {Q : α → Root → Heap → Prop} (ht : ∀ E, Tx.Triple E (Shows E ⟨room, p.root, p.heap⟩) tx
      fun a s => Q a s.pool.root s.pool.heap) :
    p.Performs room tx fun a q => Q a q.root q.heap := by
  obtain ⟨p₀, rest, rfl, hvacant, hk⟩ := exists_lengthen_take hfree
  have hends := frugalEnds_of_run (hsparing rest { pool := p₀ } hk)
  have hshows : ∀ {E : Failure → Prop}, p₀.Able E room →
      Shows E ⟨room, (p₀.lengthen rest).root, (p₀.lengthen rest).heap⟩ { pool := p₀ } :=
    fun hable => ⟨rfl, rfl, (since_begin hvacant).sound, hable⟩
  constructor
  · intro hu hroom
    have hpost := ht (fun _ => False) _ (hshows ⟨.inr hu.budget, .inr hroom⟩)
    have hsteps := htx { pool := p₀ }
    cases hr : tx.run { pool := p₀ } with
    | error e s =>
      rw [hr] at hpost
      exact hpost.elim
    | ok a s =>
      -- What is left can be made durable, since nothing is in the way at its host.
      rw [Tx.left_eq_of_ok hr] at hsteps
      have hhost := sameHost_of_steps hsteps
      have hreleased : ((s.pool.release s.freedOffsets).lengthen rest).Unhindered :=
        hu.of_sameHost ⟨hhost.id, hhost.options, hhost.image, hhost.size, hhost.budget⟩
      obtain ⟨image, hdurable, -⟩ := hreleased.exists_makeDurable
      exact ⟨a, _, hends.eq_of_ok hr hdurable⟩
  · intro a q hq
    have hpost := ht (fun _ => True) _ (hshows ⟨.inl trivial, .inl trivial⟩)
    rw [hq] at hends
    cases hends with
    | committed run durable =>
      rw [run] at hpost
      obtain ⟨image, rfl⟩ := makeDurable_eq durable
      exact hpost

/-- **An operation that allocates nothing**, of which it is known what it makes of the root and the
heap: it succeeds if nothing is in the way of writes. -/
theorem transaction_of_yields (htx : tx.Stepwise) (hfrugal : tx.Frugal) {a : α} {root : Root}
    {heap : Heap} (ht : ∀ E, Tx.Yields E ⟨0, p.root, p.heap⟩ tx a ⟨0, root, heap⟩) :
    (p.Unhindered → ∃ q, p.transaction tx = (.ok a, q)) ∧
      ∀ b q, p.transaction tx = (.ok b, q) → b = a ∧ q.root = root ∧ q.heap = heap := by
  have hfree : p.Vacant (p.free.take 0) := ⟨List.nodup_nil, by simp⟩
  have hperforms : p.Performs 0 tx fun b q => b = a ∧ q.root = root ∧ q.heap = heap :=
    performs (Q := fun b r m => b = a ∧ r = root ∧ m = heap) htx hfrugal.sparing hfree
      fun E => (ht E).mono fun b s hs => ⟨hs.1, hs.2.root, hs.2.heap⟩
  refine ⟨fun hu => ?_, hperforms.post⟩
  obtain ⟨b, q, hq⟩ := hperforms.succeeds hu p.size_le
  obtain ⟨rfl, -⟩ := hperforms.post b q hq
  exact ⟨q, hq⟩

end Pool

end PersistentTier
