import PersistentTier.Proofs.Chain.Splice

/-!
# Operations on one chain

What an operation on the entry store or on the victim pipeline does is a matter of that chain, its ends
and its counter. Of the rest of the pool nothing need be known: it makes up a heap of its own, which
stays as it is.

## Main definitions

* `Root.setChain`: the root with the ends and the counter of a chain of given nodes

## Main results

* `triple_insertFront_chain`, `triple_insertFront`: a new node becomes the head
* `yields_promote_chain`, `yields_remove_chain`, `yields_removeVictim_chain`: a pair is moved to the
  head, or leaves its chain
-/

namespace PersistentTier

open Tx

/-- The counter of a chain. -/
def ChainKind.counter : ChainKind → Counter
  | .entries => .entryCount
  | .victims => .victimCount

namespace Root

/-- **The root with the ends and the counter** of a chain of given nodes. -/
def setChain (r : Root) (kind : ChainKind) (hs : List Handle) : Root :=
  (r.setEnds kind hs).setCounter kind.counter (UInt64.ofNat hs.length)

variable (r : Root) (kind : ChainKind) (hs hs' : List Handle) (n : UInt64)

/-- It makes no difference whether the ends or the counter are set first. -/
theorem setCounter_setEnds : (r.setEnds kind hs).setCounter kind.counter n =
    (r.setCounter kind.counter n).setEnds kind hs := by cases kind <;> rfl

@[simp] theorem setCounter_setCounter (n' : UInt64) :
    (r.setCounter kind.counter n).setCounter kind.counter n' = r.setCounter kind.counter n' := by
  cases kind <;> rfl

@[simp] theorem counter_setCounter : (r.setCounter kind.counter n).counter kind.counter = n := by
  cases kind <;> rfl

@[simp] theorem counter_setEnds : (r.setEnds kind hs).counter kind.counter = r.counter kind.counter := by
  cases kind <;> rfl

theorem setChain_eq_setEnds : r.setChain kind hs =
    (r.setCounter kind.counter (UInt64.ofNat hs.length)).setEnds kind hs :=
  r.setCounter_setEnds kind hs _

/-- What is said of a chain is said anew. -/
theorem setCounter_setChain : ((r.setChain kind hs).setEnds kind hs').setCounter kind.counter
    (UInt64.ofNat hs'.length) = r.setChain kind hs' := by
  rw [setChain_eq_setEnds, setEnds_setEnds, setCounter_setEnds, setCounter_setCounter,
    setChain_eq_setEnds]

end Root

section Chains

variable {E : Failure → Prop} {room : Nat} {R : Root} {m : Heap} {kind tag : ChainKind}
  {prev next : Option Handle} {l r xs : List Resident} {x : Resident}

/-! ## What a heap with a chain tells of it -/

/-- A chain is no longer than the arena, so its counter leaves room for another node. -/
theorem Tx.Triple.of_chain_length {α : Type} {tx : Tx α} {Q : α → Scope → Prop}
    (ht : xs.length + 1 < 2 ^ 64 →
      Triple E (Scope.Shows E ⟨room, R, chain kind none xs none + m⟩) tx Q) :
    Triple E (Scope.Shows E ⟨room, R, chain kind none xs none + m⟩) tx Q := by
  refine Triple.of_shows fun s hs => ht ?_
  have hbound : maxSlots + 1 < 2 ^ 64 := by decide
  have hcard := s.pool.card_heap_le.trans s.pool.size_le
  rw [hs.heap, Multiset.card_add, card_chain] at hcard
  omega

/-- The nodes of a chain are distinct. -/
theorem Tx.Triple.of_chain_nodup {α : Type} {tx : Tx α} {Q : α → Scope → Prop}
    (ht : (nodes xs).Nodup →
      Triple E (Scope.Shows E ⟨room, R, chain kind none xs none + m⟩) tx Q) :
    Triple E (Scope.Shows E ⟨room, R, chain kind none xs none + m⟩) tx Q := by
  refine Triple.of_nodup fun hn => ht ?_
  rw [Multiset.map_add, map_chain] at hn
  exact (Multiset.coe_nodup.1 (Multiset.nodup_of_le (Multiset.le_add_right _ _) hn)).sublist
    (sublist_handles_of_nodes xs)

/-! ## Freeing, and counting -/

/-- A pair that is in no chain is freed with its payloads. -/
theorem yields_release {v : View} (hv : v = ⟨room, R, x.heap tag prev next + m⟩) :
    Yields E v (EntryStore.release x.node) () ⟨room, R, m⟩ := by
  subst hv
  have hheap : x.heap tag prev next + m = cell x.keyHandle (.payload x.key) +
      (cell x.valueHandle (.payload x.value) +
        (cell x.node (.entry (x.entry tag prev next)) + m)) := by
    simp only [Resident.heap, Resident.payloads]
    abel
  refine (yields_entry (x.entry tag prev next) (m := x.payloads + m) (add_assoc _ _ _)).bind ?_
  rw [hheap]
  exact (yields_free _).bind ((yields_free _).bind (yields_free _))

/-- A counter is lowered that counts at least so many. -/
theorem yields_decrement_of_eq (counter : Counter) {a n : Nat} (ha : a + n < 2 ^ 64)
    (hR : R.counter counter = UInt64.ofNat (a + n)) :
    Yields E ⟨room, R, m⟩ (decrement counter (UInt64.ofNat n)) ()
      ⟨room, R.setCounter counter (UInt64.ofNat a), m⟩ := by
  have hle : UInt64.ofNat n ≤ R.counter counter := by
    rw [hR, UInt64.le_iff_toNat_le, UInt64.toNat_ofNat_of_lt' ha,
      UInt64.toNat_ofNat_of_lt' (show n < 2 ^ 64 by omega)]
    omega
  refine (yields_decrement hle).congr rfl ?_
  rw [hR, UInt64.ofNat_add, UInt64.add_sub_cancel]

/-- A counter is raised that is far from the greatest number. -/
theorem yields_increment_of_eq (counter : Counter) {a n : Nat} (ha : a + n < 2 ^ 64)
    (hR : R.counter counter = UInt64.ofNat a) :
    Yields E ⟨room, R, m⟩ (increment counter (UInt64.ofNat n)) ()
      ⟨room, R.setCounter counter (UInt64.ofNat (a + n)), m⟩ := by
  have hlt : (R.counter counter).toNat + (UInt64.ofNat n).toNat < UInt64.size := by
    rw [hR, UInt64.toNat_ofNat_of_lt' (show a < 2 ^ 64 by omega),
      UInt64.toNat_ofNat_of_lt' (show n < 2 ^ 64 by omega)]
    exact ha
  refine (yields_increment hlt).congr rfl ?_
  rw [hR, UInt64.ofNat_add]

/-- A node is taken out of a chain, and is still counted. -/
theorem yields_spliceOut_chain :
    Yields E ⟨room, R.setChain kind (nodes (l ++ x :: r)), chain kind none (l ++ x :: r) none + m⟩
      (spliceOut kind x.node) ()
      ⟨room, (R.setChain kind (nodes (l ++ x :: r))).setEnds kind (nodes (l ++ r)),
        chain kind none (l ++ r) none + (x.heap kind none none + m)⟩ := by
  rw [R.setChain_eq_setEnds, Root.setEnds_setEnds]
  exact yields_spliceOut

/-- One node less is counted, once the ends of the chain are those of the nodes that are left. -/
theorem yields_decrement_chain (hlength : (l ++ x :: r).length < 2 ^ 64) :
    Yields E ⟨room, (R.setChain kind (nodes (l ++ x :: r))).setEnds kind (nodes (l ++ r)), m⟩
      (decrement kind.counter 1) () ⟨room, R.setChain kind (nodes (l ++ r)), m⟩ := by
  have hsum : (l ++ x :: r).length = (nodes (l ++ r)).length + 1 := by simp; omega
  have hcount : ((R.setChain kind (nodes (l ++ x :: r))).setEnds kind (nodes (l ++ r))).counter
      kind.counter = UInt64.ofNat ((nodes (l ++ r)).length + 1) := by
    rw [Root.counter_setEnds, Root.setChain, Root.counter_setCounter, List.length_map, hsum]
  exact (yields_decrement_of_eq kind.counter (n := 1) (hsum ▸ hlength) hcount).congr rfl
    (congrArg (View.mk room · m) (R.setCounter_setChain kind _ _).symm)

/-- One node more is counted, once it is the head of the chain. -/
theorem yields_increment_chain (kind : ChainKind) {h : Handle} (hlength : xs.length + 1 < 2 ^ 64) :
    Yields E ⟨room, (R.setChain kind (nodes xs)).setEnds kind (h :: nodes xs), m⟩
      (increment kind.counter 1) () ⟨room, R.setChain kind (h :: nodes xs), m⟩ := by
  have hcount : ((R.setChain kind (nodes xs)).setEnds kind (h :: nodes xs)).counter
      kind.counter = UInt64.ofNat (nodes xs).length := by
    rw [Root.counter_setEnds, Root.setChain, Root.counter_setCounter]
  rw [← List.length_map (f := Resident.node)] at hlength
  exact (yields_increment_of_eq kind.counter (n := 1) hlength hcount).congr rfl
    (congrArg (View.mk room · m) (R.setCounter_setChain kind _ (h :: nodes xs)).symm)

/-! ## The operations -/

/-- **A new node becomes the head of the entry store.** Its key and its value may be anything. -/
theorem triple_insertFront_chain {k v : Handle} :
    Triple E (Scope.Shows E
        ⟨room + 1, R.setChain .entries (nodes xs), chain .entries none xs none + m⟩)
      (EntryStore.insertFront k v) fun h s => s.Shows E ⟨room, R.setChain .entries (h :: nodes xs),
        cell h (.entry { key := k, value := v, next := firstOf (nodes xs) none }) +
          (chain .entries (some h) xs none + m)⟩ := by
  refine Triple.of_chain_length fun hlength => (triple_alloc _).bind fun h => ?_
  have hlink : Yields E ⟨room, R.setChain .entries (nodes xs),
      cell h (.entry { key := k, value := v }) + (chain .entries none xs none + m)⟩
      (linkFront .entries h) ()
      ⟨room, (R.setChain .entries (nodes xs)).setEnds .entries (h :: nodes xs),
        cell h (.entry { key := k, value := v, next := firstOf (nodes xs) none }) +
          (chain .entries (some h) xs none + m)⟩ := by
    rw [R.setChain_eq_setEnds, Root.setEnds_setEnds]
    exact yields_linkFront_node _
  refine hlink.bind ?_
  exact (yields_increment_chain .entries hlength).bind (Triple.pure fun _ hs => hs)

/-- **A new pair becomes the head of the entry store**, if its key and its value are there already. -/
theorem triple_insertFront {k v : Handle} {key value : Bytes} :
    Triple E (Scope.Shows E ⟨room + 1, R.setChain .entries (nodes xs),
        chain .entries none xs none + (cell k (.payload key) + cell v (.payload value) + m)⟩)
      (EntryStore.insertFront k v) fun h s =>
        s.Shows E ⟨room, R.setChain .entries (nodes (⟨h, k, v, key, value⟩ :: xs)),
          chain .entries none (⟨h, k, v, key, value⟩ :: xs) none + m⟩ := by
  refine triple_insertFront_chain.mono fun h s hs => ⟨hs.root, hs.heap.trans ?_, hs.sound, hs.able⟩
  simp only [chain, Resident.heap, Resident.payloads, Resident.entry]
  abel

/-- **A pair becomes the head of the entry store.** -/
theorem yields_promote_chain :
    Yields E ⟨room, R.setEnds .entries (nodes (l ++ x :: r)), chain .entries none (l ++ x :: r) none + m⟩
      (EntryStore.promote x.node) ()
      ⟨room, R.setEnds .entries (nodes (x :: (l ++ r))),
        chain .entries none (x :: (l ++ r)) none + m⟩ := by
  refine Triple.of_chain_nodup fun hn => Triple.root ?_
  have hfirst : (R.setEnds .entries (nodes (l ++ x :: r))).entryFirst =
      firstOf (nodes (l ++ x :: r)) none := R.first_setEnds .entries _
  rw [hfirst]
  cases l with
  | nil =>
    -- The head is promoted: nothing is done.
    have hhead : firstOf (nodes ([] ++ x :: r)) none = some x.node := rfl
    rw [if_pos hhead]
    exact Yields.pure _ ()
  | cons y l =>
    -- Handles are distinct, so the pair is not the head and moves there.
    have hne : y.node ≠ x.node := by
      simp only [nodes, List.map_append, List.map_cons, List.cons_append, List.nodup_cons,
        List.mem_append, List.mem_cons] at hn
      exact fun e => hn.1 (by simp [e])
    rw [if_neg (by simpa using hne)]
    exact yields_spliceOut.bind yields_linkFront

/-- A pair that becomes the head is counted as before. -/
theorem yields_promote_counted :
    Yields E ⟨room, R.setChain .entries (nodes (l ++ x :: r)), chain .entries none (l ++ x :: r) none + m⟩
      (EntryStore.promote x.node) ()
      ⟨room, R.setChain .entries (nodes (x :: (l ++ r))),
        chain .entries none (x :: (l ++ r)) none + m⟩ := by
  have hlength : (nodes (x :: (l ++ r))).length = (nodes (l ++ x :: r)).length := by simp; omega
  rw [R.setChain_eq_setEnds, R.setChain_eq_setEnds, hlength]
  exact yields_promote_chain

/-- **A pair leaves the entry store** and is freed. -/
theorem yields_remove_chain :
    Yields E ⟨room, R.setChain .entries (nodes (l ++ x :: r)),
        chain .entries none (l ++ x :: r) none + m⟩ (EntryStore.remove x.node) ()
      ⟨room, R.setChain .entries (nodes (l ++ r)), chain .entries none (l ++ r) none + m⟩ := by
  refine Triple.of_chain_length fun hlength => ?_
  have hunlink : Yields E ⟨room, R.setChain .entries (nodes (l ++ x :: r)),
      chain .entries none (l ++ x :: r) none + m⟩ (EntryStore.unlink x.node) ()
      ⟨room, R.setChain .entries (nodes (l ++ r)),
        chain .entries none (l ++ r) none + (x.heap .entries none none + m)⟩ :=
    yields_spliceOut_chain.bind (yields_decrement_chain (Nat.lt_of_succ_lt hlength))
  exact hunlink.bind (yields_release (View.ext rfl rfl (add_left_comm _ _ _)))

/-- **A pair leaves the victim pipeline** and is freed. -/
theorem yields_removeVictim_chain :
    Yields E ⟨room, R.setChain .victims (nodes (l ++ x :: r)),
        chain .victims none (l ++ x :: r) none + m⟩ (VictimPipeline.remove x.node) ()
      ⟨room, R.setChain .victims (nodes (l ++ r)), chain .victims none (l ++ r) none + m⟩ := by
  refine Triple.of_chain_length fun hlength => ?_
  refine yields_spliceOut_chain.bind ?_
  have hrelease : Yields E
      ⟨room, (R.setChain .victims (nodes (l ++ x :: r))).setEnds .victims (nodes (l ++ r)),
        chain .victims none (l ++ r) none + (x.heap .victims none none + m)⟩
      (EntryStore.release x.node) ()
      ⟨room, (R.setChain .victims (nodes (l ++ x :: r))).setEnds .victims (nodes (l ++ r)),
        chain .victims none (l ++ r) none + m⟩ :=
    yields_release (View.ext rfl rfl (add_left_comm _ _ _))
  exact hrelease.bind (yields_decrement_chain (Nat.lt_of_succ_lt hlength))

end Chains

end PersistentTier
