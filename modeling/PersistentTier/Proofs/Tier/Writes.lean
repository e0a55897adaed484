import PersistentTier.Proofs.Log.Buffers
import PersistentTier.Tier.Commands

/-!
# What a write does to the pool

Setting or removing a key logs a command and changes the chains in one scope.

## Main results

* `triple_insertNew`, `triple_updateEntry`: a new pair, another value for a pair
-/

namespace PersistentTier.Tier

open Tx

section Writes

variable {E : Failure → Prop} {room : Nat} {m : Heap} {c : Contents} {kind : ChainKind}
  {l r : List Resident} {x : Resident} {h : Handle} {key value : Bytes}

/-- A new pair is stored at the head of the entry store, of which nothing else need be known. -/
theorem triple_insertNew_chain {R : Root} {xs : List Resident} (key value : Bytes) :
    Tx.Triple E (Scope.Shows E
        ⟨room + 3, R.setChain .entries (nodes xs), chain .entries none xs none + m⟩)
      (insertNew key value) fun h s => ∃ x : Resident, x.node = h ∧ x.key = key ∧ x.value = value ∧
        s.Shows E ⟨room, R.setChain .entries (nodes (x :: xs)), chain .entries none (x :: xs) none + m⟩ := by
  refine (triple_alloc _).bind fun k => (triple_alloc _).bind fun v => ?_
  have hview : (⟨room + 1, R.setChain .entries (nodes xs), cell v (.payload value) +
      (cell k (.payload key) + (chain .entries none xs none + m))⟩ : View) =
        ⟨room + 1, R.setChain .entries (nodes xs),
          chain .entries none xs none + (cell k (.payload key) + cell v (.payload value) + m)⟩ := by
    refine View.ext rfl rfl ?_
    dsimp only
    abel
  rw [hview]
  exact triple_insertFront.mono fun h s hs => ⟨⟨h, k, v, key, value⟩, rfl, rfl, rfl, hs⟩

/-- **A new pair is stored** at the head of the entry store. -/
theorem triple_insertNew (key value : Bytes) :
    Tx.Triple E (Scope.Shows E (c.view (room + 3) c.counters m)) (insertNew key value) fun h s =>
      ∃ x : Resident, x.node = h ∧ x.key = key ∧ x.value = value ∧
        s.Shows E (({ c with entries := x :: c.entries }).view room
          ({ c with entries := x :: c.entries }).counters m) := by
  have hview : c.view (room + 3) c.counters m = ⟨room + 3, c.root.setChain .entries (nodes c.entries),
      chain .entries none c.entries none + (c.others .entries + m)⟩ :=
    View.ext rfl (c.root_eq_setChain .entries) (c.heap_eq_chain .entries m)
  rw [hview]
  refine (triple_insertNew_chain key value).mono fun h s hs => ?_
  obtain ⟨x, hnode, hkey, hvalue, hs⟩ := hs
  refine ⟨x, hnode, hkey, hvalue, hs.root.trans ?_, hs.heap.trans ?_, hs.sound, hs.able⟩
  · exact (c.root_setResidents .entries (x :: c.entries)).symm
  · exact (c.heap_setResidents .entries (x :: c.entries) m).symm

/-- The lists after an update of the pair `x` between `l` and `r` to `y`. -/
def updated (c : Contents) (kind : ChainKind) (l r : List Resident) (y : Resident)
    (promote : Bool) : Contents :=
  c.setResidents kind (if promote then y :: (l ++ r) else l ++ y :: r)

/-- **A pair gets another value**, and moves to the head of the entry store if so required. -/
theorem triple_updateEntry (hc : c.residents kind = l ++ x :: r) (value : Bytes) {promote : Bool}
    (hpromote : promote = true → kind = .entries) :
    Tx.Triple E (Scope.Shows E (c.view (room + 1) c.counters m)) (updateEntry x.node value promote)
      fun h s => h = x.node ∧ ∃ v, s.Shows E
        ((updated c kind l r { x with valueHandle := v, value := value } promote).view room
          (updated c kind l r { x with valueHandle := v, value := value } promote).counters m) := by
  refine (triple_alloc _).bind fun v => ?_
  -- The new payload is there before the node refers to it, and the old one is freed after that.
  let y : Resident := { x with valueHandle := v, value := value }
  have hview : (⟨room, c.links c.counters, cell v (.payload value) + (c.heap + m)⟩ : View) =
      c.view room c.counters (cell v (.payload value) + m) :=
    View.ext rfl rfl (add_left_comm _ _ _)
  rw [hview]
  refine (yields_updateValue hc).bind ?_
  have hfree : Yields E ((c.setResidents kind (l ++ y :: r)).view room c.counters
      (cell x.valueHandle (.payload x.value) + m)) (free x.valueHandle) ()
        ((c.setResidents kind (l ++ y :: r)).view room c.counters m) :=
    (yields_free (.payload x.value)).congr (View.ext rfl rfl (add_left_comm _ _ _)) rfl
  refine hfree.bind ?_
  cases promote with
  | false =>
    refine Tx.Triple.pure fun s hs => ⟨rfl, v, ?_⟩
    simp only [updated]
    rw [Contents.counters_setResidents (by simp [hc])]
    exact hs
  | true =>
    obtain rfl := hpromote rfl
    have hpromoted : Yields E ((c.setResidents .entries (l ++ y :: r)).view room c.counters m)
        (EntryStore.promote x.node) ()
        ((c.setResidents .entries (y :: (l ++ r))).view room c.counters m) :=
      yields_promote (c := c.setResidents .entries (l ++ y :: r)) (x := y) rfl
    refine hpromoted.bind (Tx.Triple.pure fun s hs => ⟨rfl, v, ?_⟩)
    simp only [updated]
    rw [Contents.counters_setResidents (by simp [hc]; omega)]
    exact hs

theorem fails_updateEntry (hE : Lenient E) (hh : h ∉ nodes c.entries) (hh' : h ∉ nodes c.victims)
    (hm : ∀ e, (h, .entry e) ∉ m) (value : Bytes) (promote : Bool) :
    Fails E (c.view (room + 1) c.counters m) (updateEntry h value promote) := by
  refine (triple_alloc _).bind fun v => ?_
  have hview : (⟨room, c.links c.counters, cell v (.payload value) + (c.heap + m)⟩ : View) =
      c.view room c.counters (cell v (.payload value) + m) :=
    View.ext rfl rfl (add_left_comm _ _ _)
  rw [hview]
  refine Tx.Fails.bind (fails_updateValue hE hh hh' fun e he => ?_)
  rcases Multiset.mem_add.1 he with he | he
  · simp at he
  · exact hm e he

theorem stepwise_insertNew (key value : Bytes) : (insertNew key value).Stepwise :=
  (Stepwise.allocBytes _).bind fun _ => (Stepwise.allocBytes _).bind fun _ =>
    EntryStore.stepwise_insertFront _ _

theorem stepwise_updateEntry (node : Handle) (value : Bytes) (promote : Bool) :
    (updateEntry node value promote).Stepwise := by
  refine (Stepwise.allocBytes _).bind fun _ => (EntryStore.stepwise_updateValue _ _).bind fun _ =>
    (Stepwise.free _).bind fun _ => ?_
  cases promote with
  | false => exact Stepwise.pure _
  | true => exact (EntryStore.stepwise_promote _).bind fun _ => Stepwise.pure _

end Writes

end PersistentTier.Tier
