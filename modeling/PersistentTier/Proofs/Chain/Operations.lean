import PersistentTier.Proofs.Chain.Edits

/-!
# Operations on the entry store and the victim pipeline

Each operation is said by what it makes of the lists. An operation given the node of a pair does to
the lists what its name says; an operation given any other handle gives up.

The counters are set after the links, so in the middle of an operation the root has the links of
some contents and other counters than theirs. `Contents.view` keeps the two apart.

## Main definitions

* `Contents.setResidents`, `Contents.view`
* `Contents.Evicts`: what evicting nodes one after another makes of the lists
* `Tx.Fails`: an operation that gives up in any case

## Main results

* `yields_updateValue`, `yields_promote`, `yields_remove`
* `yields_evict`, `yields_evictAll`, `yields_removeVictim`, `yields_reclaim`
-/

namespace PersistentTier

open Tx

/-! ## Contents with other counters -/

namespace Contents

variable (c : Contents) (kind : ChainKind) (xs : List Resident)

/-- The contents with other pairs in one chain. -/
def setResidents : Contents :=
  match kind with
  | .entries => { c with entries := xs }
  | .victims => { c with victims := xs }

variable {c kind xs} in
/-- The counters go by the lengths of the lists. -/
theorem counters_setResidents (hxs : xs.length = (c.residents kind).length) :
    (c.setResidents kind xs).counters = c.counters := by
  cases kind <;> simp_all [counters, setResidents, residents]

/-- The heap of everything but one chain. -/
def others : ChainKind → Heap
  | .entries => chain .victims none c.victims none + c.logHeap
  | .victims => chain .entries none c.entries none + c.logHeap

theorem heap_eq : c.heap = chain kind none (c.residents kind) none + c.others kind := by
  cases kind with
  | entries => exact add_assoc _ _ _
  | victims => simp only [heap, residents, others]; abel

@[simp] theorem residents_setResidents : (c.setResidents kind xs).residents kind = xs := by
  cases kind <;> rfl

@[simp] theorem others_setResidents : (c.setResidents kind xs).others kind = c.others kind := by
  cases kind <;> rfl

theorem setEnds_links (r : Root) :
    (c.links r).setEnds kind (nodes xs) = (c.setResidents kind xs).links r := by
  cases kind <;> rfl

theorem setResidents_residents : c.setResidents kind (c.residents kind) = c := by
  cases kind <;> rfl

/-- Pairs with the same nodes have the same links in the root. -/
theorem links_setResidents {xs : List Resident} (hxs : nodes xs = nodes (c.residents kind))
    (r : Root) : (c.setResidents kind xs).links r = c.links r := by
  cases kind <;> simp_all [links, setResidents, residents]

/-- What a scope shows that has the links of the contents, the counters of a root, and a heap `m`
besides that of the contents. -/
def view (room : Nat) (r : Root) (m : Heap) : View := ⟨room, c.links r, c.heap + m⟩

theorem view_zero (room : Nat) : c.view room c.counters 0 = ⟨room, c.root, c.heap⟩ :=
  View.ext rfl rfl (add_zero _)

@[simp] theorem counter_links (r : Root) (counter : Counter) :
    (c.links r).counter counter = r.counter counter := by cases counter <;> rfl

@[simp] theorem setCounter_links (r : Root) (counter : Counter) (n : UInt64) :
    (c.links r).setCounter counter n = c.links (r.setCounter counter n) := by cases counter <;> rfl

end Contents

/-- An operation that gives up in any case. -/
def Tx.Fails {α : Type} (E : Failure → Prop) (v : View) (tx : Tx α) : Prop :=
  Triple E (Scope.Shows E v) tx fun _ _ => False

section Operations

variable {E : Failure → Prop} {room : Nat} {R : Root} {m : Heap} {kind tag : ChainKind}
  {prev next : Option Handle} {c c' : Contents} {l r : List Resident} {x : Resident} {h : Handle}

theorem Tx.Fails.bind {α β : Type} {v : View} {tx : Tx α} {f : α → Tx β} (htx : Fails E v tx) :
    Fails E v (tx >>= f) := Triple.bind htx fun _ _ hs => hs.elim

theorem Tx.Fails.triple {α : Type} {v : View} {tx : Tx α} (htx : Fails E v tx)
    {Q : α → Scope → Prop} : Triple E (Scope.Shows E v) tx Q := htx.mono fun _ _ hs => hs.elim

/-- The lists are no longer than the arena, so their counters are far from the greatest number. -/
theorem Tx.Triple.of_length {α : Type} {tx : Tx α} {Q : α → Scope → Prop}
    (ht : c.entries.length + c.victims.length < 2 ^ 64 →
      (c.log .a).length + (c.log .b).length < 2 ^ 64 →
        Triple E (Scope.Shows E (c.view room R m)) tx Q) :
    Triple E (Scope.Shows E (c.view room R m)) tx Q := by
  refine Triple.of_shows fun s hs => ?_
  have hbound : maxSlots < 2 ^ 64 := by decide
  have hcard := (s.pool.card_heap_le).trans s.pool.size_le
  rw [hs.heap] at hcard
  simp only [Contents.view, Multiset.card_add, c.card_heap] at hcard
  exact ht (by omega) (by omega)

/-! ## Linking and splicing -/

/-- The contents keep their own ends. -/
theorem Contents.links_eq_setEnds (c : Contents) (kind : ChainKind) (r : Root) :
    c.links r = (c.links r).setEnds kind (nodes (c.residents kind)) := by
  rw [c.setEnds_links, c.setResidents_residents]

/-- The heap of contents of which one chain is known. -/
theorem Contents.heap_setResidents (c : Contents) (kind : ChainKind) (xs : List Resident) (m : Heap) :
    (c.setResidents kind xs).heap + m = chain kind none xs none + (c.others kind + m) := by
  rw [Contents.heap_eq _ kind, residents_setResidents, others_setResidents, add_assoc]

/-- The root of contents of which one chain is known. -/
theorem Contents.root_setResidents (c : Contents) (kind : ChainKind) (xs : List Resident) :
    (c.setResidents kind xs).root = c.root.setChain kind (nodes xs) := by
  cases kind <;>
    simp [root, links, counters, setResidents, Root.setChain, Root.setEnds, Root.setFirst,
      Root.setLast, Root.setCounter, ChainKind.counter]

theorem Contents.root_eq_setChain (c : Contents) (kind : ChainKind) :
    c.root = c.root.setChain kind (nodes (c.residents kind)) := by
  rw [← c.root_setResidents, c.setResidents_residents]

theorem Contents.heap_eq_chain (c : Contents) (kind : ChainKind) (m : Heap) :
    c.heap + m = chain kind none (c.residents kind) none + (c.others kind + m) := by
  rw [c.heap_eq kind, add_assoc]

/-- **What changes one chain** changes the contents accordingly. -/
theorem yields_of_ends {α : Type} {tx : Tx α} {a : α} {m' : Heap} {xs : List Resident}
    (kind : ChainKind)
    (ht : Yields E ⟨room, (c.links R).setEnds kind (nodes (c.residents kind)),
        chain kind none (c.residents kind) none + (c.others kind + m)⟩ tx a
      ⟨room, (c.links R).setEnds kind (nodes xs), chain kind none xs none + (c.others kind + m')⟩) :
    Yields E (c.view room R m) tx a ((c.setResidents kind xs).view room R m') :=
  ht.congr (View.ext rfl (c.links_eq_setEnds kind R) (c.heap_eq_chain kind m))
    (View.ext rfl (c.setEnds_links kind _ R).symm (c.heap_setResidents kind _ m'))

/-- What changes one chain, and its counter. -/
theorem yields_of_chain {α : Type} {tx : Tx α} {a : α} {xs : List Resident} (kind : ChainKind)
    (ht : Yields E ⟨room, c.root.setChain kind (nodes (c.residents kind)),
        chain kind none (c.residents kind) none + (c.others kind + m)⟩ tx a
      ⟨room, c.root.setChain kind (nodes xs), chain kind none xs none + (c.others kind + m)⟩) :
    Yields E (c.view room c.counters m) tx a
      ((c.setResidents kind xs).view room (c.setResidents kind xs).counters m) :=
  ht.congr (View.ext rfl (c.root_eq_setChain kind) (c.heap_eq_chain kind m))
    (View.ext rfl (c.root_setResidents kind xs) (c.heap_setResidents kind xs m))

theorem yields_linkFront_view (kind : ChainKind) :
    Yields E (c.view room R (x.heap tag prev next + m)) (linkFront kind x.node) ()
      ((c.setResidents kind (x :: c.residents kind)).view room R m) := by
  refine yields_of_ends kind ?_
  rw [add_left_comm (c.others kind)]
  exact yields_linkFront

theorem yields_spliceOut_view (kind : ChainKind) (hc : c.residents kind = l ++ x :: r) :
    Yields E (c.view room R m) (spliceOut kind x.node) ()
      ((c.setResidents kind (l ++ r)).view room R (x.heap kind none none + m)) := by
  refine yields_of_ends kind ?_
  rw [hc, add_left_comm (c.others kind)]
  exact yields_spliceOut

/-- Which failures arbitrary handles lead to: any cause but a counter below zero. -/
def Lenient (E : Failure → Prop) : Prop :=
  ∀ cause, (∀ counter a b, cause ≠ .corrupt (.counterBelowZero counter a b)) → E (.cause cause)

/-- A read of a key/value node finds one of the lists, or ends the operation. -/
theorem triple_entry {β : Type} {f : EntryNode → Tx β} {Q : β → Scope → Prop} (hE : Lenient E)
    (hm : ∀ e, (h, .entry e) ∉ m)
    (hf : ∀ kind l x r, c.residents kind = l ++ x :: r → x.node = h →
      ∀ e, e.chain = kind → Triple E (Scope.Shows E (c.view room R m)) (f e) Q) :
    Triple E (Scope.Shows E (c.view room R m)) (Tx.entry h >>= f) Q := by
  refine Triple.ofRead (fun e s hs he => ?_) fun reason s _ _ => hE _ (by simp)
  -- The extra heap `m` has no node, so this one belongs to the contents.
  have hmem := Pool.entry_eq_ok_iff.1 he
  rw [hs.heap, Contents.view, Multiset.mem_add] at hmem
  obtain ⟨l, x, r, hx, hnode⟩ := c.mem_heap_entry (hmem.resolve_right (hm e))
  exact hf e.chain l x r hx hnode e rfl

theorem fails_spliceOut (kind : ChainKind) (hE : Lenient E) (hh : h ∉ nodes (c.residents kind))
    (hm : ∀ e, (h, .entry e) ∉ m) : Fails E (c.view room R m) (spliceOut kind h) := by
  refine triple_entry hE hm fun kind' l x r hx hnode e he => ?_
  refine Triple.require (fun _ => hE _ (by simp)) fun hk => ?_
  obtain rfl : kind' = kind := he.symm.trans hk
  exact absurd (by simp [hx, hnode]) hh

/-! ## Counters -/

theorem yields_decrement_view (counter : Counter) {a n : Nat} (ha : a + n < 2 ^ 64)
    (hR : R.counter counter = UInt64.ofNat (a + n)) :
    Yields E (c.view room R m) (decrement counter (UInt64.ofNat n)) ()
      (c.view room (R.setCounter counter (UInt64.ofNat a)) m) := by
  rw [← c.counter_links] at hR
  refine (yields_decrement_of_eq counter ha hR).congr rfl ?_
  rw [c.setCounter_links]
  rfl

theorem yields_increment_view (counter : Counter) {a n : Nat} (ha : a + n < 2 ^ 64)
    (hR : R.counter counter = UInt64.ofNat a) :
    Yields E (c.view room R m) (increment counter (UInt64.ofNat n)) ()
      (c.view room (R.setCounter counter (UInt64.ofNat (a + n))) m) := by
  rw [← c.counter_links] at hR
  refine (yields_increment_of_eq counter ha hR).congr rfl ?_
  rw [c.setCounter_links]
  rfl

/-! ## The entry store -/

/-- **A pair gets another value.** The old one is left over. -/
theorem yields_updateValue {v : Handle} {value : Bytes} (hc : c.residents kind = l ++ x :: r) :
    Yields E (c.view room R (cell v (.payload value) + m)) (EntryStore.updateValue x.node v)
      x.valueHandle
      ((c.setResidents kind (l ++ { x with valueHandle := v, value := value } :: r)).view room R
        (cell x.valueHandle (.payload x.value) + m)) := by
  let y : Resident := { x with valueHandle := v, value := value }
  -- The cell of the node is taken out of the heap, before the edit and after it.
  have hx : (c.view room R (cell v (.payload value) + m)).heap =
      cell x.node (.entry (x.entry kind (lastOf none (nodes l)) (firstOf (nodes r) none))) +
        (chain kind none l (some x.node) + chain kind (some x.node) r none + c.others kind +
          x.payloads + cell v (.payload value) + m) := by
    simp only [Contents.view, c.heap_eq kind, hc, chain_append, chain, List.map_cons, firstOf_cons,
      Resident.heap]
    abel
  have hy : ((c.setResidents kind (l ++ y :: r)).view room R
        (cell x.valueHandle (.payload x.value) + m)).heap =
      cell x.node (.entry (y.entry kind (lastOf none (nodes l)) (firstOf (nodes r) none))) +
        (chain kind none l (some x.node) + chain kind (some x.node) r none + c.others kind +
          x.payloads + cell v (.payload value) + m) := by
    simp only [Contents.view, Contents.heap_eq _ kind, Contents.residents_setResidents,
      Contents.others_setResidents, chain_append, chain, List.map_cons, firstOf_cons,
      Resident.heap, Resident.payloads, y]
    abel
  have hlinks : (c.setResidents kind (l ++ y :: r)).links R = c.links R :=
    c.links_setResidents kind (by simp [hc, y]) R
  have hedit : Yields E (c.view room R (cell v (.payload value) + m))
      (editEntry x.node fun e => { e with value := v }) ()
      ((c.setResidents kind (l ++ y :: r)).view room R
        (cell x.valueHandle (.payload x.value) + m)) :=
    (yields_editEntry (x.entry _ _ _) _).congr (View.ext rfl rfl hx) (View.ext rfl hlinks hy)
  exact (yields_record hx).bind ((yields_entry _ hx).bind (hedit.bind (Yields.pure _ _)))

/-- The objects of the contents have distinct handles. -/
theorem Tx.Triple.of_nodup_handles {α : Type} {tx : Tx α} {Q : α → Scope → Prop}
    (ht : c.handles.Nodup → Triple E (Scope.Shows E (c.view room R m)) tx Q) :
    Triple E (Scope.Shows E (c.view room R m)) tx Q := by
  refine Triple.of_nodup fun hn => ht ?_
  rw [Contents.view, Multiset.map_add, c.map_heap] at hn
  exact Multiset.coe_nodup.1 (Multiset.nodup_of_le (Multiset.le_add_right _ _) hn)

/-- The nodes of the two chains are distinct handles. -/
theorem Tx.Triple.of_nodup_nodes {α : Type} {tx : Tx α} {Q : α → Scope → Prop}
    (ht : (nodes c.entries ++ nodes c.victims).Nodup →
      Triple E (Scope.Shows E (c.view room R m)) tx Q) :
    Triple E (Scope.Shows E (c.view room R m)) tx Q :=
  Triple.of_nodup_handles fun hn => ht (hn.sublist c.sublist_handles)

/-- **A pair of the entry store becomes its head.** -/
theorem yields_promote (hc : c.entries = l ++ x :: r) :
    Yields E (c.view room R m) (EntryStore.promote x.node) ()
      (({ c with entries := x :: (l ++ r) }).view room R m) := by
  refine yields_of_ends .entries ?_
  rw [show c.residents .entries = l ++ x :: r from hc]
  exact yields_promote_chain

/-- A pair that becomes the head is not counted again. -/
theorem yields_promote_counters (hc : c.entries = l ++ x :: r) :
    Yields E (c.view room c.counters m) (EntryStore.promote x.node) ()
      (({ c with entries := x :: (l ++ r) }).view room
        ({ c with entries := x :: (l ++ r) } : Contents).counters m) := by
  have hcounters : (c.setResidents .entries (x :: (l ++ r))).counters = c.counters := by
    refine Contents.counters_setResidents ?_
    rw [show c.residents .entries = l ++ x :: r from hc]
    exact List.perm_middle.symm.length_eq
  exact (yields_promote hc).congr rfl (hcounters ▸ rfl)

theorem fails_promote (hE : Lenient E) (hh : h ∉ nodes c.entries) (hm : ∀ e, (h, .entry e) ∉ m) :
    Fails E (c.view room R m) (EntryStore.promote h) := by
  refine Triple.root ?_
  have hfirst : (c.view room R m).root.entryFirst = firstOf (nodes c.entries) none := rfl
  have hne : firstOf (nodes c.entries) none ≠ some h := by
    intro he
    rw [firstOf_none] at he
    exact hh (List.mem_of_head? he)
  rw [hfirst, if_neg hne]
  exact (fails_spliceOut .entries hE hh hm).bind

/-- **A pair leaves the entry store** and is freed. -/
theorem yields_remove (hc : c.entries = l ++ x :: r) :
    Yields E (c.view room c.counters m) (EntryStore.remove x.node) ()
      (({ c with entries := l ++ r }).view room ({ c with entries := l ++ r }).counters m) := by
  refine yields_of_chain .entries ?_
  rw [show c.residents .entries = l ++ x :: r from hc]
  exact yields_remove_chain

/-! ## The victim pipeline -/

theorem yields_relink (hc : c.entries = l ++ x :: r) :
    Yields E (c.view room R m) (VictimPipeline.relink x.node) ()
      (({ c with entries := l ++ r, victims := x :: c.victims }).view room R m) :=
  (yields_spliceOut_view .entries hc).bind
    (yields_linkFront_view (c := { c with entries := l ++ r }) .victims)

namespace Contents

/-- **What evicting nodes makes of the lists**, one after another. -/
inductive Evicts : Contents → List Handle → Contents → Prop
  | nil (c : Contents) : Evicts c [] c
  | cons {c c' : Contents} {l r : List Resident} {x : Resident} {hs : List Handle}
      (hc : c.entries = l ++ x :: r)
      (hrest : Evicts { c with entries := l ++ r, victims := x :: c.victims } hs c') :
      Evicts c (x.node :: hs) c'

namespace Evicts

variable {hs : List Handle}

theorem length_entries (h : Evicts c hs c') : c.entries.length = c'.entries.length + hs.length := by
  induction h with
  | nil c => rfl
  | cons hc _ ih =>
    simp only [hc, List.length_append, List.length_cons] at ih ⊢
    omega

theorem length_victims (h : Evicts c hs c') : c'.victims.length = c.victims.length + hs.length := by
  induction h with
  | nil c => rfl
  | cons hc _ ih =>
    simp only [List.length_cons] at ih ⊢
    omega

theorem log_eq (h : Evicts c hs c') : c'.log = c.log := by
  induction h with
  | nil c => rfl
  | cons _ _ ih => exact ih

end Evicts

end Contents

theorem yields_relinkAll {hs : List Handle} (h : c.Evicts hs c') :
    Yields E (c.view room R m) (hs.forM VictimPipeline.relink) () (c'.view room R m) := by
  induction h with
  | nil c => exact .pure _ ()
  | cons hc _ ih => exact (yields_relink hc).bind ih

/-- **Pairs move to the victim pipeline**, the last of them to its head. -/
theorem yields_evictAll {hs : List Handle} (h : c.Evicts hs c') :
    Yields E (c.view room c.counters m) (VictimPipeline.evictAll hs) hs.length
      (c'.view room c'.counters m) := by
  refine Triple.of_length fun hlen _ => ?_
  have hentries := h.length_entries
  have hvictims := h.length_victims
  refine (yields_relinkAll h).bind ?_
  -- The counters are adjusted once, by the number of nodes.
  have hcount : c.counters.entryCount = UInt64.ofNat (c'.entries.length + hs.length) :=
    congrArg UInt64.ofNat hentries
  refine (yields_decrement_view .entryCount (by omega) hcount).bind ?_
  refine (yields_increment_view .victimCount (a := c.victims.length) (by omega) rfl).bind ?_
  refine (Yields.pure _ hs.length).congr ?_ rfl
  simp [Contents.counters, Root.setCounter, hvictims, h.log_eq]

/-- **A pair moves to the victim pipeline.** -/
theorem yields_evict (hc : c.entries = l ++ x :: r) :
    Yields E (c.view room c.counters m) (VictimPipeline.evict x.node) ()
      (({ c with entries := l ++ r, victims := x :: c.victims }).view room
        ({ c with entries := l ++ r, victims := x :: c.victims }).counters m) := by
  refine Triple.of_length fun hlen _ => ?_
  have hlength : c.entries.length = (l ++ r).length + 1 := by simp [hc]; omega
  have hcount : c.counters.entryCount = UInt64.ofNat ((l ++ r).length + 1) :=
    congrArg UInt64.ofNat hlength
  refine (yields_relink hc).bind ?_
  refine (yields_decrement_view .entryCount (n := 1) (by omega) hcount).bind ?_
  exact yields_increment_view .victimCount (a := c.victims.length) (n := 1) (by omega) rfl

/-- **A pair leaves the victim pipeline** and is freed. -/
theorem yields_removeVictim (hc : c.victims = l ++ x :: r) :
    Yields E (c.view room c.counters m) (VictimPipeline.remove x.node) ()
      (({ c with victims := l ++ r }).view room ({ c with victims := l ++ r }).counters m) := by
  refine yields_of_chain .victims ?_
  rw [show c.residents .victims = l ++ x :: r from hc]
  exact yields_removeVictim_chain

/-- One node of the pipeline is freed, and counted. -/
theorem yields_reclaimNode {before after : Option Handle} {a : Nat} (ha : a + 1 < 2 ^ 64)
    (hR : R.victimCount = UInt64.ofNat (a + 1)) :
    Yields E ⟨room, R, x.heap .victims before after + m⟩ (VictimPipeline.reclaimNode x.node) after
      ⟨room, { R with victimCount := UInt64.ofNat a }, m⟩ := by
  have hheap : x.heap .victims before after + m = cell x.keyHandle (.payload x.key) +
      (cell x.valueHandle (.payload x.value) +
        (cell x.node (.entry (x.entry .victims before after)) + m)) := by
    simp only [Resident.heap, Resident.payloads]
    abel
  refine (yields_entry (x.entry .victims before after) (add_assoc _ _ _)).bind ?_
  refine (yields_require rfl _).bind ?_
  rw [hheap]
  refine (yields_free _).bind ((yields_free _).bind ((yields_free _).bind ?_))
  exact (yields_decrement_of_eq .victimCount ha hR).bind (Yields.pure _ _)

/-- The nodes from one on are freed, and counted. -/
theorem yields_reclaimFrom {xs : List Resident} {before : Option Handle} {budget count a : Nat}
    (hbudget : xs.length ≤ budget) (ha : a + xs.length < 2 ^ 64)
    (hR : R.victimCount = UInt64.ofNat (a + xs.length)) :
    Yields E ⟨room, R, chain .victims before xs none + m⟩
      (VictimPipeline.reclaimFrom budget (firstOf (nodes xs) none) count) (count + xs.length)
      ⟨room, { R with victimCount := UInt64.ofNat a }, m⟩ := by
  -- Induction on the nodes left; the budget lasts as long as there are nodes.
  induction xs generalizing before budget count R with
  | nil =>
    have hsame : { R with victimCount := UInt64.ofNat a } = R := by
      rw [show UInt64.ofNat a = R.victimCount from hR.symm]
    rw [hsame]
    simpa [chain] using Yields.pure (E := E) ⟨room, R, m⟩ count
  | cons x xs ih =>
    cases budget with
    | zero => simp at hbudget
    | succ budget =>
      simp only [List.length_cons, ← Nat.add_assoc] at hbudget ha hR
      have hrest : Yields E ⟨room, { R with victimCount := UInt64.ofNat (a + xs.length) },
          chain .victims (some x.node) xs none + m⟩
          (VictimPipeline.reclaimFrom budget (firstOf (nodes xs) none) (count + 1))
          (count + 1 + xs.length) ⟨room, { R with victimCount := UInt64.ofNat a }, m⟩ :=
        ih (by omega) (by omega) rfl
      rw [chain, add_assoc, List.length_cons, Nat.add_comm xs.length, ← Nat.add_assoc]
      exact (yields_reclaimNode ha hR).bind hrest

/-- Cutting the pipeline before its node `h` leaves the nodes before it. -/
theorem yields_cutBefore (hfirst : R.victimFirst = firstOf (nodes l) (some h))
    (hh : h ∉ nodes l) :
    Yields E ⟨room, R, chain .victims none l (some h) + m⟩
      (VictimPipeline.cutBefore h (lastOf none (nodes l))) ()
      ⟨room, { R with victimFirst := firstOf (nodes l) none }, chain .victims none l none + m⟩ := by
  have hset : Yields E ⟨room, R, chain .victims none l (some h) + m⟩
      (setNext .victims (lastOf none (nodes l)) none) () _ := yields_setNext hfirst
  refine yields_root.bind ?_
  dsimp only
  rw [hfirst]
  rcases l.eq_nil_or_concat' with rfl | ⟨l, y, rfl⟩
  -- The whole pipeline is reclaimed: the root's link goes.
  · have hhead : firstOf (nodes []) (some h) = some h := rfl
    rw [if_pos hhead]
    exact hset
  -- Some nodes stay: the last one's link goes, and the root does not name `h`.
  · have hne : firstOf (nodes (l ++ [y])) (some h) ≠ some h := by
      intro he
      cases l with
      | nil => exact hh (by simp_all)
      | cons z l => exact hh (by simp_all)
    rw [if_neg hne]
    have hlast : lastOf none (nodes (l ++ [y])) = some y.node := by simp
    rw [hlast] at hset ⊢
    exact hset

/-- The nodes from one on are freed, and those before them are cut off. -/
theorem yields_reclaim_links {a : Nat} (hx : x.node ∉ nodes l) (ha : a + (x :: r).length < 2 ^ 64)
    (hR : R.victimCount = UInt64.ofNat (a + (x :: r).length))
    (hfirst : R.victimFirst = firstOf (nodes l) (some x.node)) :
    Yields E ⟨room, R, chain .victims (lastOf none (nodes l)) (x :: r) none +
        (chain .victims none l (some x.node) + m)⟩ (VictimPipeline.reclaim x.node) (r.length + 1)
      ⟨room, { R with
        victimFirst := firstOf (nodes l) none
        victimCount := UInt64.ofNat a }, chain .victims none l none + m⟩ := by
  have hentry : chain .victims (lastOf none (nodes l)) (x :: r) none +
      (chain .victims none l (some x.node) + m) =
      cell x.node (.entry (x.entry .victims (lastOf none (nodes l)) (firstOf (nodes r) none))) +
        (x.payloads + chain .victims (some x.node) r none +
          (chain .victims none l (some x.node) + m)) := by
    simp only [chain, Resident.heap]
    abel
  refine (yields_entry _ hentry).bind (Triple.get fun s hs => ?_)
  -- Each node fills three slots, so the size of the arena is budget enough.
  have hbudget : (x :: r).length ≤ s.pool.slots.size := by
    have hcard := s.pool.card_heap_le
    rw [hs.heap, Multiset.card_add, card_chain] at hcard
    omega
  have hfree : Yields E ⟨room, R, chain .victims (lastOf none (nodes l)) (x :: r) none +
      (chain .victims none l (some x.node) + m)⟩
      (VictimPipeline.reclaimFrom s.pool.slots.size (firstOf (nodes (x :: r)) none) 0)
      (0 + (x :: r).length) _ := yields_reclaimFrom hbudget ha hR
  rw [Nat.zero_add, List.length_cons] at hfree
  -- What is freed is still linked to by the nodes before it, until it is cut off.
  have hfirst' : ({ R with victimCount := UInt64.ofNat a } : Root).victimFirst =
      firstOf (nodes l) (some x.node) := hfirst
  refine hfree.bind ((yields_cutBefore hfirst' hx).bind ?_)
  exact Yields.pure _ _

/-- **Every pair from one on leaves the pipeline** and is freed. -/
theorem yields_reclaim (hc : c.victims = l ++ x :: r) :
    Yields E (c.view room c.counters m) (VictimPipeline.reclaim x.node) (r.length + 1)
      (({ c with victims := l }).view room ({ c with victims := l }).counters m) := by
  refine Triple.of_length fun hlen _ => Triple.of_nodup_nodes fun hn => ?_
  have hlength : c.victims.length = l.length + (x :: r).length := by simp [hc]
  have hx : x.node ∉ nodes l := by
    rw [hc] at hn
    have := (List.nodup_append.1 hn).2.1
    simp only [nodes, List.map_append, List.nodup_append] at this
    exact fun hm => this.2.2 _ hm _ (by simp) rfl
  have hheap : (c.view room c.counters m).heap = chain .victims (lastOf none (nodes l)) (x :: r) none +
      (chain .victims none l (some x.node) + (c.others .victims + m)) := by
    simp only [Contents.view, c.heap_eq .victims]
    rw [show c.residents .victims = l ++ x :: r from hc, chain_append,
      show firstOf (nodes (x :: r)) none = some x.node from rfl]
    abel
  have hcount : (c.links c.counters).victimCount = UInt64.ofNat (l.length + (x :: r).length) :=
    congrArg UInt64.ofNat hlength
  have hfirst : (c.links c.counters).victimFirst = firstOf (nodes l) (some x.node) := by
    simp [Contents.links, hc]
  have hleft : ({ c with victims := l } : Contents).heap + m =
      chain .victims none l none + (c.others .victims + m) := by
    simp only [Contents.others, Contents.heap, Contents.logHeap]
    abel
  have hfits : l.length + (x :: r).length < 2 ^ 64 :=
    hlength ▸ Nat.lt_of_le_of_lt (Nat.le_add_left _ _) hlen
  exact (yields_reclaim_links hx hfits hcount hfirst).congr (View.ext rfl rfl hheap)
    (View.ext rfl rfl hleft)

/-! ## Handles that name no pair -/

theorem fails_relink (hE : Lenient E) (hh : h ∉ nodes c.entries) (hm : ∀ e, (h, .entry e) ∉ m) :
    Fails E (c.view room R m) (VictimPipeline.relink h) := (fails_spliceOut .entries hE hh hm).bind

theorem fails_removeVictim (hE : Lenient E) (hh : h ∉ nodes c.victims)
    (hm : ∀ e, (h, .entry e) ∉ m) : Fails E (c.view room R m) (VictimPipeline.remove h) :=
  (fails_spliceOut .victims hE hh hm).bind

theorem fails_remove (hE : Lenient E) (hh : h ∉ nodes c.entries) (hm : ∀ e, (h, .entry e) ∉ m) :
    Fails E (c.view room R m) (EntryStore.remove h) :=
  Tx.Fails.bind (Tx.Fails.bind (fails_spliceOut .entries hE hh hm))

theorem fails_evict (hE : Lenient E) (hh : h ∉ nodes c.entries) (hm : ∀ e, (h, .entry e) ∉ m) :
    Fails E (c.view room R m) (VictimPipeline.evict h) := (fails_relink hE hh hm).bind

/-- Nodes that cannot be evicted one after another are not evicted at all. -/
theorem fails_evictAll {hs : List Handle} (hE : Lenient E) (hhs : ∀ c', ¬ c.Evicts hs c')
    (hm : ∀ h e, (h, .entry e) ∉ m) :
    Fails E (c.view room R m) (VictimPipeline.evictAll hs) := by
  have hrelink : Fails E (c.view room R m) (hs.forM VictimPipeline.relink) := by
    -- Some node is not in the entry store when its turn comes: induction on those before it.
    induction hs generalizing c with
    | nil => exact absurd (.nil c) (hhs c)
    | cons h hs ih =>
      by_cases hh : h ∈ nodes c.entries
      · obtain ⟨l, x, r, hc, rfl⟩ := exists_append_of_mem_nodes hh
        refine (yields_relink hc).bind (ih fun c' h => hhs c' (.cons hc h))
      · exact (fails_relink hE hh (hm h)).bind
  exact hrelink.bind

theorem fails_reclaim (hE : Lenient E) (hh : h ∉ nodes c.victims) (hm : ∀ e, (h, .entry e) ∉ m) :
    Fails E (c.view room R m) (VictimPipeline.reclaim h) := by
  refine triple_entry hE hm fun kind l x r hx hnode e he => Triple.get fun s _ => Tx.Fails.bind ?_
  -- The node may be of the entry store, in which case freeing it finds the wrong tag.
  cases hsize : s.pool.slots.size with
  | zero => exact Triple.fail (hE _ (by simp))
  | succ size =>
    refine Tx.Fails.bind (triple_entry hE hm fun kind' l' x' r' hx' hnode' e' he' => ?_)
    refine Triple.require (fun _ => hE _ (by simp)) fun hk => ?_
    obtain rfl : kind' = .victims := he'.symm.trans hk
    exact absurd (by simp [show c.victims = _ from hx', hnode']) hh

/-- Any handle may be recorded, but one of no object ends the operation. -/
theorem triple_record_any {v : View} (hE : Lenient E) :
    Triple E (Scope.Shows E v) (record h) fun _ s => s.Shows E v := by
  intro s hs
  cases ho : s.pool.object? h with
  | some a =>
    obtain ⟨m, hm⟩ := Pool.exists_heap_eq ho
    have := yields_record (E := E) (hs.heap.symm.trans hm) s hs
    split at this <;> simp_all
  | none =>
    have hcharge := yields_charge s hs
    rw [run_record]
    by_cases hr : s.isRecorded h
    · simpa [hr] using hs
    · rw [if_neg hr]
      cases hc : charge.run s with
      | error e s' => simpa [hc] using hcharge
      | ok _ s' =>
        -- Paying for the write has not brought the object into being.
        have hnone : s'.pool.object? h = none := by
          rw [hc] at hcharge
          refine Option.eq_none_iff_forall_ne_some.2 fun a ha => ?_
          have hmem := Pool.mem_heap.2 ha
          rw [hcharge.2.heap, ← hs.heap, Pool.mem_heap, ho] at hmem
          simp at hmem
        simpa [hnone] using hE _ (by simp)

theorem fails_updateValue {v : Handle} (hE : Lenient E)
    (hh : h ∉ nodes c.entries) (hh' : h ∉ nodes c.victims) (hm : ∀ e, (h, .entry e) ∉ m) :
    Fails E (c.view room R m) (EntryStore.updateValue h v) := by
  refine (triple_record_any hE).bind fun _ => ?_
  refine triple_entry hE hm fun kind l x r hx hnode e _ => ?_
  cases kind with
  | entries => exact absurd (by simp [show c.entries = _ from hx, hnode]) hh
  | victims => exact absurd (by simp [show c.victims = _ from hx, hnode]) hh'

end Operations

end PersistentTier
