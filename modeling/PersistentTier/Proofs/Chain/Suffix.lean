import PersistentTier.Proofs.Chain.Validity
import PersistentTier.Proofs.Scope.Sparing

/-!
# Reclaiming a suffix of the pipeline

Victims are reclaimed from one of them to the end of the pipeline. Where the pipeline is to be cut is
settled when the nodes are gone already, by what the first of them said of the node before it. In a
pool that is in order this leaves the victims before it, and it leaves everything else alone. From a
handle that is no victim's nothing is reclaimed at all.

The loop over the nodes has no bound of its own. It ends in every pool, since each round empties slots
and a handle of an empty slot cannot be read.

## Main definitions

* `Pool.Reclaimed`: a pool of whose victims only the first ones are left
* `VictimPipeline.Reclaims`: the loop over the nodes, without a bound

## Main results

* `VictimPipeline.yields_reclaim_threaded`: reclaiming a suffix, as a change of the lists
* `VictimPipeline.transaction_reclaim_of_mistagged`: a handle that is no victim's
* `VictimPipeline.reclaims_iff`: the loop ends, and its bound is never felt
* `VictimPipeline.reclaim_suffix`: all of it
-/

namespace PersistentTier

open Tx

/-! ## The pipeline in a heap -/

/-- Only the last node of a chain knows what comes after it. -/
theorem mem_chain_of_ne_last {kind : ChainKind} {before : Option Handle} {xs : List Resident}
    {h : Handle} {a : Object} (hh : (nodes xs).getLast? ≠ some h) (after after' : Option Handle) :
    (h, a) ∈ chain kind before xs after ↔ (h, a) ∈ chain kind before xs after' := by
  rcases xs.eq_nil_or_concat' with rfl | ⟨xs, x, rfl⟩
  · rfl
  · have hne : h ≠ x.node := fun he => hh (by simp [he])
    simp [chain_append, chain, Resident.heap, hne]

section Contents

variable {c : Contents} {t : Buffer → Heap} {l r : List Resident} {x : Resident}

/-- The heap of the lists, the victims first. -/
theorem Contents.threadedHeap_eq_victims (c : Contents) (t : Buffer → Heap) : c.threadedHeap t =
    chain .victims none c.victims none + (chain .entries none c.entries none + (t .a + t .b)) := by
  rw [threadedHeap]
  abel

/-- The victims from one on come first, and then those before it. -/
theorem Contents.threadedHeap_split (hc : c.victims = l ++ x :: r) : c.threadedHeap t =
    chain .victims (lastOf none (nodes l)) (x :: r) none +
      (chain .victims none l (some x.node) +
        (chain .entries none c.entries none + (t .a + t .b))) := by
  rw [threadedHeap_eq_victims, hc, chain_append, show firstOf (nodes (x :: r)) none = some x.node from rfl]
  abel

/-- **Every pair from one on leaves the pipeline** of a pool whose log buffers are linked one way. -/
theorem VictimPipeline.yields_reclaim_threaded {E : Failure → Prop} {room : Nat}
    (hc : c.victims = l ++ x :: r) (hlength : c.victims.length < 2 ^ 64) (hx : x.node ∉ nodes l) :
    Yields E ⟨room, c.root, c.threadedHeap t⟩ (reclaim x.node) (r.length + 1)
      ⟨room, ({ c with victims := l } : Contents).root,
        ({ c with victims := l } : Contents).threadedHeap t⟩ := by
  have hsum : c.victims.length = l.length + (x :: r).length := by simp [hc]
  have hcount : c.root.victimCount = UInt64.ofNat (l.length + (x :: r).length) :=
    congrArg UInt64.ofNat hsum
  have hfirst : c.root.victimFirst = firstOf (nodes l) (some x.node) := by
    simp [Contents.root, Contents.links, hc]
  exact (yields_reclaim_links hx (hsum ▸ hlength) hcount hfirst).congr
    (View.ext rfl rfl (Contents.threadedHeap_split hc))
    (View.ext rfl rfl (Contents.threadedHeap_eq_victims _ t))

end Contents

/-! ## Pools that are in order -/

/-- **A pool of whose victims only the first `i` are left.** -/
structure Pool.Reclaimed (p : Pool) (c : Contents) (i : Nat) (q : Pool) : Prop where
  /-- The lists are as before, but for the victims. -/
  valid : q.Valid { c with victims := c.victims.take i }
  victimCount : q.root.victimCount.toNat = i
  victimFirst : q.root.victimFirst = none ↔ i = 0
  /-- The root says nothing else that is new. -/
  root : q.root = { p.root with
    victimFirst := q.root.victimFirst
    victimCount := q.root.victimCount }
  /-- The nodes of the other victims are gone, and so are their keys and values. -/
  freed : ∀ h ∈ (c.victims.drop i).flatMap Resident.handles, q.object? h = none
  /-- The last victim that is left is linked to nothing. -/
  last : ∀ h e, (nodes (c.victims.take i)).getLast? = some h → p.entry h = .ok e →
    q.entry h = .ok { e with next := none }
  /-- No other object has changed. -/
  kept : ∀ h, h ∉ (c.victims.drop i).flatMap Resident.handles →
    (nodes (c.victims.take i)).getLast? ≠ some h → q.object? h = p.object? h

namespace Pool.Valid

variable {p q : Pool} {c : Contents} {t : Buffer → Heap} {l r : List Resident} {x : Resident}
  {h : Handle} {e : EntryNode}

/-- A key/value node is one of the chain that it is tagged with. -/
theorem mem_nodes (hp : p.Valid c) (he : p.entry h = .ok e) : h ∈ nodes (c.residents e.chain) := by
  obtain ⟨t, ht, hheap⟩ := hp.exists_heap_eq
  exact c.mem_threadedHeap_entry ht (hheap ▸ entry_eq_ok_iff.1 he)

/-- No victim comes twice. -/
theorem not_mem_nodes (hp : p.Valid c) (hc : c.victims = l ++ x :: r) : x.node ∉ nodes l := by
  have hsub : (nodes c.victims).Sublist c.handles :=
    (List.sublist_append_right _ _).trans c.sublist_handles
  have hn := hp.owned.sublist hsub
  rw [hc, nodes, List.map_append, List.map_cons, List.nodup_append] at hn
  exact fun hm => hn.2.2 _ hm _ List.mem_cons_self rfl

/-- **What reclaiming leaves** has the root and the heap of the first victims, and of everything
else. -/
theorem reclaimed (hp : p.Valid c) (ht : ∀ y, Threaded (c.log y) (t y))
    (hheap : p.heap = c.threadedHeap t) (hc : c.victims = l ++ x :: r)
    (hroot : q.root = ({ c with victims := l } : Contents).root)
    (hleft : q.heap = ({ c with victims := l } : Contents).threadedHeap t) :
    p.Reclaimed c l.length q := by
  have htake : c.victims.take l.length = l := by simp [hc]
  have hdrop : c.victims.drop l.length = x :: r := by simp [hc]
  have hq : q.Valid { c with victims := l } := valid_of_heap_eq hroot ht hleft
  have hsplit := hheap.trans (Contents.threadedHeap_split hc)
  have hrest := hleft.trans (Contents.threadedHeap_eq_victims _ t)
  have hgone : (chain .victims (lastOf none (nodes l)) (x :: r) none).map Prod.fst =
      ((x :: r).flatMap Resident.handles : List Handle) := map_chain _ _ _ _
  refine ⟨by rw [htake]; exact hq, hq.recordedLength_eq .victims, ?_, ?_, ?_, ?_, ?_⟩
  · rw [hroot]
    cases l <;> simp [Contents.root, Contents.links]
  · rw [hroot, hp.root]
    rfl
  · intro h hh
    -- Links aside, the heap before is what is gone and what is left.
    have hkeys : p.heap.map Prod.fst =
        ((x :: r).flatMap Resident.handles : List Handle) + q.heap.map Prod.fst := by
      simp only [hsplit, hrest, Multiset.map_add, map_chain]
    exact object?_eq_none_of_keys hkeys (Multiset.mem_coe.2 (hdrop ▸ hh))
  · intro h e hlast he
    rw [htake] at hlast
    rcases l.eq_nil_or_concat' with rfl | ⟨l, y, rfl⟩
    · simp at hlast
    · obtain rfl : y.node = h := by simpa using hlast
      have hbefore := hp.node .victims l y (x :: r) (hc.trans (List.append_cons l y (x :: r)).symm)
      obtain rfl := Except.ok.inj (hbefore.symm.trans he)
      exact hq.node .victims l y [] rfl
  · intro h hh hlast
    rw [htake] at hlast
    rw [hdrop, ← Multiset.mem_coe, ← hgone] at hh
    refine Option.ext fun a => ?_
    rw [← mem_heap, ← mem_heap, hsplit, hrest]
    simp only [Multiset.mem_add]
    rw [mem_chain_of_ne_last hlast none (some x.node)]
    exact ⟨.inr, fun ha => ha.resolve_left fun hm => hh (Multiset.mem_map_of_mem Prod.fst hm)⟩

/-- **Reclaiming from a victim on in a transaction of its own**: it succeeds if nothing is in the way of
writes, and if it succeeds, the victims before that one are left. -/
theorem transaction_reclaim (hp : p.Valid c) (hc : c.victims = l ++ x :: r) :
    (p.Unhindered → ∃ q, p.transaction (VictimPipeline.reclaim x.node) = (.ok (r.length + 1), q)) ∧
      ∀ n q, p.transaction (VictimPipeline.reclaim x.node) = (.ok n, q) →
        n = r.length + 1 ∧ p.Reclaimed c l.length q := by
  obtain ⟨t, ht, hheap⟩ := hp.exists_heap_eq
  have hreclaim : ∀ E : Failure → Prop, Yields E ⟨0, p.root, p.heap⟩
      (VictimPipeline.reclaim x.node) (r.length + 1) ⟨0, ({ c with victims := l } : Contents).root,
        ({ c with victims := l } : Contents).threadedHeap t⟩ := fun E => by
    rw [hp.root, hheap]
    exact VictimPipeline.yields_reclaim_threaded hc hp.length_lt.2.1 (hp.not_mem_nodes hc)
  obtain ⟨hcommits, hcommitted⟩ := transaction_of_yields (VictimPipeline.stepwise_reclaim _)
    (VictimPipeline.frugal_reclaim _) hreclaim
  refine ⟨hcommits, fun n q h => ?_⟩
  obtain ⟨hn, hroot, hleft⟩ := hcommitted n q h
  exact ⟨hn, hp.reclaimed ht hheap hc hroot hleft⟩

end Pool.Valid

/-! ## Handles of other objects -/

namespace VictimPipeline

variable {p : Pool} {c : Contents} {h : Handle} {s s' : Scope}

/-- A node that is not tagged as a victim is not freed. -/
theorem run_reclaimNode_of_mistagged (hh : ∀ e, s.pool.entry h = .ok e → e.chain ≠ .victims) :
    ∃ cause, (reclaimNode h).run s = .error (.cause cause) s := by
  simp only [reclaimNode, EStateM.run_bind, Tx.entry, run_ofRead]
  cases he : s.pool.entry h with
  | error reason => exact ⟨_, rfl⟩
  | ok e =>
    simp only [Tx.require, if_neg (hh e he)]
    exact ⟨_, rfl⟩

/-- **From a handle that is not tagged as a victim nothing is reclaimed**, whatever the pool is like,
and the pool does not change at all. -/
theorem transaction_reclaim_of_mistagged (hh : ∀ e, p.entry h = .ok e → e.chain ≠ .victims) :
    ∃ cause, p.transaction (reclaim h) = (.error (.aborted (.failed cause)), p) := by
  suffices hrun : ∃ cause, (reclaim h).run { pool := p } = .error (.cause cause) { pool := p } by
    obtain ⟨cause, hrun⟩ := hrun
    exact ⟨cause, by rw [Pool.transaction, hrun]; rfl⟩
  simp only [reclaim, EStateM.run_bind, Tx.entry, run_ofRead]
  cases he : p.entry h with
  | error reason => exact ⟨_, rfl⟩
  | ok e =>
    simp only [EStateM.run_get]
    cases p.slots.size with
    | zero => exact ⟨_, rfl⟩
    | succ size =>
      obtain ⟨cause, hnode⟩ := run_reclaimNode_of_mistagged (s := { pool := p }) hh
      simp only [reclaimFrom, EStateM.run_bind, hnode]
      exact ⟨_, rfl⟩

/-! ## The end of the loop -/

/-- **The loop over the nodes**, without a bound on their number: how it ends that begins in the scope
`s` at `cursor`, when `count` nodes have been freed. -/
inductive Reclaims : (cursor : Option Handle) → (count : Nat) → (s : Scope) →
    EStateM.Result Failure Scope Nat → Prop
  /-- There is no node left. -/
  | done (count : Nat) (s : Scope) : Reclaims none count s (.ok count s)
  /-- A node is freed, and the loop goes on behind it. -/
  | freed {h : Handle} {next : Option Handle} {count : Nat} {s s' : Scope}
      {out : EStateM.Result Failure Scope Nat} (run : (reclaimNode h).run s = .ok next s')
      (rest : Reclaims next (count + 1) s' out) : Reclaims (some h) count s out
  /-- A node cannot be freed. -/
  | failed {h : Handle} {count : Nat} {s s' : Scope} {e : Failure}
      (run : (reclaimNode h).run s = .error e s') : Reclaims (some h) count s (.error e s')

variable {cursor : Option Handle} {count : Nat} {out out' : EStateM.Result Failure Scope Nat}

/-- The loop ends in one way at most. -/
theorem Reclaims.unique (h : Reclaims cursor count s out) (h' : Reclaims cursor count s out') :
    out = out' := by
  -- What a node leads to is what `reclaimNode` returns, which is the same both times.
  induction h generalizing out' with
  | done => cases h'; rfl
  | freed run rest ih =>
    cases h' with
    | freed run' rest' =>
      obtain ⟨rfl, rfl⟩ := EStateM.Result.ok.inj (run.symm.trans run')
      exact ih rest'
    | failed run' => cases run.symm.trans run'
  | failed run =>
    cases h' with
    | freed run' rest' => cases run.symm.trans run'
    | failed run' =>
      obtain ⟨rfl, rfl⟩ := EStateM.Result.error.inj (run.symm.trans run')
      rfl

/-- A scope whose pool has no more than `n` objects. -/
abbrev AtMost (n : Nat) (s : Scope) : Prop := s.pool.heap.card ≤ n

section AtMost

open Tx.Triple

variable {n : Nat}

theorem atMost_decrement (counter : Counter) (amount : UInt64) :
    Partial (AtMost n) (decrement counter amount) fun _ => AtMost n := by
  refine (keep_recordRoot fun _ _ _ hs => hs).bind fun _ s hs => ?_
  refine Triple.require (P := AtMost n) (fun _ => trivial) (fun _ => ?_) s hs
  exact keep_editRoot (fun _ _ _ hs => hs) fun _ hs => hs

/-- What is freed is one object less. -/
theorem atMost_free : Partial (AtMost (n + 1)) (free h) fun _ => AtMost n := by
  intro s hs
  have hcharge := keep_charge (P := AtMost (n + 1)) (fun _ _ _ hs => hs) s hs
  rw [run_free]
  cases hc : charge.run s with
  | error e s' => trivial
  | ok u s' =>
    rw [hc] at hcharge
    simp only
    cases ho : s'.pool.object? h with
    | none => trivial
    | some a =>
      obtain ⟨m, hm⟩ := Pool.exists_heap_eq ho
      have hcard : s'.pool.heap.card ≤ n + 1 := hcharge
      rw [hm, Multiset.card_add, card_cell] at hcard
      have hleft : (s'.pool.clearSlot h).heap.card ≤ n := by
        rw [Pool.heap_clearSlot hm]
        omega
      exact hleft

/-- **A round empties slots.** -/
theorem atMost_reclaimNode :
    Partial (AtMost (n + 1)) (reclaimNode h) fun _ => AtMost n := by
  refine Triple.ofRead (fun e _ _ _ => Triple.require (fun _ => trivial) fun _ => ?_)
    fun _ _ _ _ => trivial
  have hkeep : ∀ h, Partial (AtMost (n + 1)) (free h) fun _ => AtMost (n + 1) :=
    fun h => atMost_free.mono fun _ _ hs => Nat.le_succ_of_le hs
  refine (hkeep e.key).bind fun _ => (hkeep e.value).bind fun _ => atMost_free.bind fun _ => ?_
  exact (atMost_decrement .victimCount 1).bind fun _ => Triple.pure fun _ hs => hs

end AtMost

/-- Where there are no objects, there is no node to free. -/
theorem run_reclaimNode_of_empty (hs : AtMost 0 s) :
    (reclaimNode h).run s = .error (.cause (.unreadable (.invalidHandle h))) s := by
  have hnone : s.pool.object? h = none := by
    refine Option.eq_none_iff_forall_ne_some.2 fun a ha => ?_
    have hmem := Pool.mem_heap.2 ha
    rw [Multiset.card_eq_zero.1 (Nat.le_zero.1 hs)] at hmem
    exact absurd hmem (Multiset.notMem_zero _)
  simp only [reclaimNode, EStateM.run_bind, Tx.entry, run_ofRead, Pool.entry, Pool.resolve, hnone]
  rfl

/-- With a bound of as many nodes as there are objects, the loop ends by itself. -/
theorem reclaims_reclaimFrom {budget : Nat} (hs : AtMost budget s) :
    Reclaims cursor count s ((reclaimFrom budget cursor count).run s) := by
  -- Induction on the bound: a round that frees a node leaves fewer objects.
  induction budget generalizing cursor count s with
  | zero =>
    cases cursor with
    | none => exact .done count s
    | some h => exact .failed (run_reclaimNode_of_empty hs)
  | succ budget ih =>
    cases cursor with
    | none => exact .done count s
    | some h =>
      have hnode := atMost_reclaimNode (h := h) s hs
      simp only [reclaimFrom, EStateM.run_bind]
      cases hr : (reclaimNode h).run s with
      | error e s' => exact .failed hr
      | ok next s' =>
        rw [hr] at hnode
        exact .freed hr (ih hnode)

/-- **The loop ends in every pool**, and the bound on it is never felt. -/
theorem reclaims_iff : Reclaims cursor count s out ↔
    (reclaimFrom s.pool.slots.size cursor count).run s = out := by
  have hrun : Reclaims cursor count s ((reclaimFrom s.pool.slots.size cursor count).run s) :=
    reclaims_reclaimFrom s.pool.card_heap_le
  exact ⟨fun h => hrun.unique h, fun h => h ▸ hrun⟩

/-! ## All of it -/

/-- **Reclaiming a suffix of the pipeline.** In a pool that is in order, reclaiming from the victim at
`i` on leaves the first `i` victims and everything else; it does so unless something is in the way of
writes. From any other handle it is aborted, and the pool does not change. In a pool that is corrupt
in any way, the loop over the nodes ends. -/
theorem reclaim_suffix (p : Pool) :
    (∀ c, p.Valid c →
      (∀ i (hi : i < c.victims.length),
        (p.Unhindered →
          ∃ q, p.transaction (reclaim c.victims[i].node) = (.ok (c.victims.length - i), q)) ∧
        ∀ n q, p.transaction (reclaim c.victims[i].node) = (.ok n, q) →
          n = c.victims.length - i ∧ p.Reclaimed c i q) ∧
      ∀ h, h ∉ nodes c.victims →
        ∃ cause, p.transaction (reclaim h) = (.error (.aborted (.failed cause)), p)) ∧
    ∀ (s : Scope) cursor count out, Reclaims cursor count s out ↔
      (reclaimFrom s.pool.slots.size cursor count).run s = out := by
  refine ⟨fun c hp => ⟨fun i hi => ?_, fun h hh => ?_⟩, fun s cursor count out => reclaims_iff⟩
  · have hc : c.victims = c.victims.take i ++ c.victims[i] :: c.victims.drop (i + 1) := by
      rw [List.getElem_cons_drop, List.take_append_drop]
    have hlength : (c.victims.take i).length = i := List.length_take_of_le hi.le
    have hcount : (c.victims.drop (i + 1)).length + 1 = c.victims.length - i := by
      rw [List.length_drop]
      omega
    have hreclaim := hp.transaction_reclaim hc
    rwa [hlength, hcount] at hreclaim
  · refine transaction_reclaim_of_mistagged fun e he hchain => hh ?_
    have hmem := hp.mem_nodes he
    rwa [hchain] at hmem

/-- A pair of the entry store, and two victims. -/
def waiting : Pool where
  id := 9
  root := {
    entryFirst := some ⟨9, 1⟩
    entryLast := some ⟨9, 1⟩
    victimFirst := some ⟨9, 4⟩
    entryCount := 1
    victimCount := 2 }
  slots := #[
    some (.entry ⟨⟨9, 2⟩, ⟨9, 3⟩, none, none, .entries⟩), some (.payload [1]), some (.payload [10]),
    some (.entry ⟨⟨9, 5⟩, ⟨9, 6⟩, some ⟨9, 7⟩, none, .victims⟩), some (.payload [2]),
      some (.payload [20]),
    some (.entry ⟨⟨9, 8⟩, ⟨9, 9⟩, none, some ⟨9, 4⟩, .victims⟩), some (.payload [3]),
      some (.payload [30])]

/-- The lists of the pool. -/
def waitingContents : Contents where
  entries := [⟨⟨9, 1⟩, ⟨9, 2⟩, ⟨9, 3⟩, [1], [10]⟩]
  victims := [⟨⟨9, 4⟩, ⟨9, 5⟩, ⟨9, 6⟩, [2], [20]⟩, ⟨⟨9, 7⟩, ⟨9, 8⟩, ⟨9, 9⟩, [3], [30]⟩]

theorem valid_waiting : waiting.Valid waitingContents :=
  Pool.valid_of_heap_eq (t := fun _ => 0) rfl (fun _ => .nil) rfl

/-- The later victim is reclaimed, and the pair of the entry store is refused. -/
theorem reclaim_suffix_waiting : waiting.Valid waitingContents ∧ waiting.Unhindered ∧
    (∃ q, waiting.transaction (reclaim ⟨9, 7⟩) = (.ok 1, q) ∧ waiting.Reclaimed waitingContents 1 q) ∧
    ⟨9, 1⟩ ∉ nodes waitingContents.victims ∧
    ∃ cause, waiting.transaction (reclaim ⟨9, 1⟩) = (.error (.aborted (.failed cause)), waiting) := by
  obtain ⟨hreclaim, -⟩ := reclaim_suffix waiting
  obtain ⟨hvictims, hothers⟩ := hreclaim waitingContents valid_waiting
  have hu : waiting.Unhindered := ⟨rfl, by simp [waiting], by simp [waiting]⟩
  have hne : (⟨9, 1⟩ : Handle) ∉ nodes waitingContents.victims := by decide
  obtain ⟨hcommits, hreclaimed⟩ := hvictims 1 (by decide)
  obtain ⟨q, hq⟩ := hcommits hu
  exact ⟨valid_waiting, hu, ⟨q, hq, (hreclaimed _ _ hq).2⟩, hne, hothers _ hne⟩

end VictimPipeline

end PersistentTier
