import PersistentTier.Proofs.Chain.ListEdits
import PersistentTier.Proofs.Tier.Calls
import PersistentTier.Proofs.Tier.Site

/-!
# Evicting one entry

A policy names an entry by its position: the recency policy the last one, the random policy whatever
position its source of picks yields. That position is always one of an entry, and the walk that goes
there does not fail, so the policy names a live node as long as there is one. The node is then taken out
of the entry store and put in front of the victims, with its key and its value. Nothing else moves.

## Main definitions

* `Pool.Evicted`: one node has moved to the head of the victim pipeline
* `Tier.EvictsOne`: what evicting one entry does to a tier

## Main results

* `Picks.exists_next_eq`: every position is the pick of some source
* `Pool.Holds.exists_transaction_evict`: a node is evicted in a transaction of its own
* `Site.exists_evicted`: one entry is evicted
-/

namespace PersistentTier

open Tx

/-! ## Picks -/

namespace Picks

variable {count : UInt64} {i : Nat}

/-- Every position has a word. -/
theorem exists_scale_eq (hi : i < count.toNat) : ∃ word : UInt64, scale count word = i := by
  have hcount := count.toNat_lt
  have hsize : UInt64.size = 2 ^ 64 := rfl
  -- The first word whose product with `count` reaches the high half `i`.
  let word := (i * 2 ^ 64 + (count.toNat - 1)) / count.toNat
  have hdiv : count.toNat * word + (i * 2 ^ 64 + (count.toNat - 1)) % count.toNat =
      i * 2 ^ 64 + (count.toNat - 1) := Nat.div_add_mod _ _
  have hmod := Nat.mod_lt (i * 2 ^ 64 + (count.toNat - 1)) (show 0 < count.toNat by omega)
  have hword : word < 2 ^ 64 := by
    rw [Nat.div_lt_iff_lt_mul (by omega)]
    omega
  refine ⟨UInt64.ofNat word, ?_⟩
  rw [scale, UInt64.toNat_ofNat_of_lt' hword, hsize, Nat.mul_comm word]
  refine Nat.div_eq_of_lt_le ?_ ?_ <;> omega

/-- Where all words are the same, refused words make no difference. -/
theorem nextWithin_const (word : UInt64) (used attempts : Nat) :
    (nextWithin ⟨fun _ => word, used⟩ count attempts).1 = scale count word := by
  induction attempts generalizing used with
  | zero => rfl
  | succ attempts ih =>
    simp only [nextWithin]
    split
    · rfl
    · exact ih (used + 1)

/-- **Every position is the pick of some source.** -/
theorem exists_next_eq (hi : i < count.toNat) : ∃ picks : Picks, (picks.next count).1 = i := by
  obtain ⟨word, hword⟩ := exists_scale_eq hi
  exact ⟨⟨fun _ => word, 0⟩, (nextWithin_const word 0 1000).trans hword⟩

end Picks

/-- The random policy may name every position. -/
theorem Policy.exists_position_eq {n i : Nat} (hi : i < n) (hn : n < 2 ^ 64) :
    ∃ picks : Picks, ((Policy.random picks).position n).1 = i := by
  have hi' : i < (UInt64.ofNat n).toNat := by rwa [UInt64.toNat_ofNat_of_lt' hn]
  obtain ⟨picks, hpicks⟩ := Picks.exists_next_eq hi'
  exact ⟨picks, by rw [position, if_neg (by omega), hpicks]⟩

/-! ## One node that moves -/

/-- **One node has moved to the head of the victim pipeline.** In the pool `p` it was the entry `h`
between the other entries `left`, and `behind` were the victims. -/
structure Pool.Evicted (p : Pool) (left : List Handle) (h : Handle) (behind : List Handle)
    (q : Pool) : Prop where
  entries : q.strictWalk .entries = .ok left
  victims : q.strictWalk .victims = .ok (h :: behind)
  /-- The node keeps its key and its value, and is tagged and linked as the newest victim. -/
  moved : ∃ e, p.entry h = .ok e ∧
    q.entry h = .ok { e with prev := none, next := behind.head?, chain := .victims }
  /-- The other nodes keep their keys, their values and their tags. -/
  entry : ∀ h' e, h' ≠ h → p.entry h' = .ok e →
    ∃ prev next, q.entry h' = .ok { e with prev := prev, next := next }
  /-- Every pair is as before. -/
  pair : ∀ h' ∈ h :: (left ++ behind), q.pair h' = p.pair h'
  /-- Every object is as before that is no node of the two chains. -/
  object? : ∀ h', h' ∉ h :: (left ++ behind) → q.object? h' = p.object? h'
  /-- The commands of the log buffers are as before. -/
  pending : ∀ y, LogBuffer.pending q (q.root.bufferHead y) = LogBuffer.pending p (p.root.bufferHead y)
  /-- The root says nothing else that is new. -/
  root : q.root = (p.root.setChain .entries left).setChain .victims (h :: behind)

/-- **What evicting one entry does to a tier** with the nodes `entries` and `victims`: its policy names a
node by the position, if there is any node, and that one moves with all that belongs to it. The pick is
used up in any case. -/
structure Tier.EvictsOne (t : Tier) (entries victims : List Handle) : Prop where
  position : entries ≠ [] → (t.policy.position entries.length).1 < entries.length
  choice : t.policy.selectVictim t.pool =
    (.ok entries[(t.policy.position entries.length).1]?, (t.policy.position entries.length).2)
  nothing : entries = [] →
    evictOne.run t = .ok none { t with policy := (t.policy.position entries.length).2 }
  /-- Index, file, settings and report are those of before. -/
  moved : ∀ h, entries[(t.policy.position entries.length).1]? = some h →
    ∃ key value q, t.pool.pair h = .ok (key, value) ∧
      evictOne.run t =
        .ok (some key) { t with pool := q, policy := (t.policy.position entries.length).2 } ∧
      t.pool.Evicted (entries.eraseIdx (t.policy.position entries.length).1) h victims q

namespace Contents

variable {c : Contents} {i : Nat} {x y : Resident}

theorem perm_evictedAt (hx : c.entries[i]? = some x) :
    (x :: (c.entries.eraseIdx i ++ c.victims)).Perm (c.evictedAt i).pairs := by
  rw [pairs, evictedAt, hx]
  exact List.perm_middle.symm

/-- Every other pair stays in its chain. -/
theorem mem_residents_evictedAt (hx : c.entries[i]? = some x) {kind : ChainKind}
    (hy : y ∈ c.residents kind) (hne : y ≠ x) : y ∈ (c.evictedAt i).residents kind := by
  cases kind with
  | entries =>
    obtain ⟨j, hj⟩ := List.mem_iff_getElem?.1 hy
    refine List.mem_eraseIdx_iff_getElem?.2 ⟨j, ?_, hj⟩
    rintro rfl
    exact hne (Option.some.inj (hj.symm.trans hx))
  | victims => exact List.mem_append_right _ hy

/-- The root has the ends and the counters of two other chains. -/
theorem root_evictedAt (hx : c.entries[i]? = some x) : (c.evictedAt i).root =
    (c.root.setChain .entries (nodes (c.entries.eraseIdx i))).setChain .victims
      (x.node :: nodes c.victims) :=
  calc (c.evictedAt i).root
      = ((c.setResidents .entries (c.entries.eraseIdx i)).setResidents .victims
          (x :: c.victims)).root := by rw [evictedAt, hx]; rfl
    _ = _ := by rw [root_setResidents, root_setResidents]; rfl

/-- The heap of the nodes of both chains, and that of everything else. -/
theorem heap_eq_spines (c : Contents) : c.heap =
    spine .entries none c.entries none + spine .victims none c.victims none +
      ((c.pairs.map Resident.payloads).sum + c.logHeap) := by
  rw [heap, chain_eq_spine_add, chain_eq_spine_add, pairs, List.map_append, List.sum_append]
  abel

end Contents

namespace Pool.Holds

variable {p q : Pool} {c : Contents} {i : Nat} {x : Resident} {h : Handle}

/-- No object is touched that is no node of the two chains. -/
theorem object?_evictedAt (hp : p.Holds c) (hheap : q.heap = (c.evictedAt i).heap)
    (hh : h ∉ nodes (c.evictedAt i).pairs) : q.object? h = p.object? h := by
  have hbefore := hp.heap.trans c.heap_eq_spines
  have hafter := hheap.trans (c.evictedAt i).heap_eq_spines
  have hpayloads := ((c.pairs_evictedAt i).map Resident.payloads).sum_eq
  have hlog : (c.evictedAt i).logHeap = c.logHeap := rfl
  rw [hpayloads, hlog] at hafter
  -- The nodes of both chains are the same before and after.
  have hnot : ∀ c' : Contents, h ∉ nodes c'.pairs →
      h ∉ (spine .entries none c'.entries none + spine .victims none c'.victims none).map Prod.fst := by
    intro c' hc'
    rwa [Multiset.map_add, map_spine, map_spine, Multiset.coe_add, Multiset.mem_coe, ← List.map_append]
  have hh' : h ∉ nodes c.pairs := fun hm =>
    hh (((c.pairs_evictedAt i).map Resident.node).mem_iff.2 hm)
  rw [object?_of_heap_exchange hbefore hafter (hnot _ hh), if_neg (hnot c hh')]

/-- **What evicting the pair in one position leaves** of a pool with given contents. -/
theorem evicted (hp : p.Holds c) (hx : c.entries[i]? = some x)
    (hroot : q.root = (c.evictedAt i).root) (hheap : q.heap = (c.evictedAt i).heap) :
    p.Evicted (nodes (c.entries.eraseIdx i)) x.node (nodes c.victims) q := by
  -- The pool is in order again, so most of what is seen of it is read off its contents.
  have hq : q.Valid (c.evictedAt i) :=
    valid_of_heap_eq hroot (fun y => threaded_logChain none (c.log y)) hheap
  have hvictims : (c.evictedAt i).victims = x :: c.victims := by rw [Contents.evictedAt, hx]; rfl
  have hnodes : x.node :: (nodes (c.entries.eraseIdx i) ++ nodes c.victims) =
      nodes (x :: (c.entries.eraseIdx i ++ c.victims)) := by simp
  have hperm := Contents.perm_evictedAt hx
  constructor
  case entries => exact hq.strictWalk_eq .entries
  case victims =>
    rw [hq.strictWalk_eq .victims, Contents.residents, hvictims]
    rfl
  case moved =>
    obtain ⟨l, r, hc, -⟩ := Contents.exists_evictedAt_eq hx
    have hc' : c.residents .entries = l ++ x :: r := hc
    refine ⟨_, hp.entry_eq hc', ?_⟩
    rw [← firstOf_none]
    exact hq.node .victims [] x c.victims hvictims
  case entry =>
    intro h e hne he
    have hmem := entry_eq_ok_iff.1 he
    rw [hp.heap] at hmem
    obtain ⟨l, y, r, hy, rfl⟩ := c.mem_heap_entry hmem
    have hy' : y ∈ c.residents e.chain := hy ▸ List.mem_append_right l List.mem_cons_self
    have hyx : y ≠ x := fun h => hne (h ▸ rfl)
    exact exists_relinked (hp.chain_le e.chain) hy' (hq.chain_le e.chain)
      (Contents.mem_residents_evictedAt hx hy' hyx) he
  case pair =>
    intro h hh
    rw [hnodes] at hh
    obtain ⟨y, hy, rfl⟩ := List.mem_map.1 hh
    have hy' : y ∈ (c.evictedAt i).pairs := hperm.mem_iff.1 hy
    rw [hp.pair_eq ((c.pairs_evictedAt i).mem_iff.1 hy')]
    rcases List.mem_append.1 hy' with hentry | hvictim
    · exact hq.pair_eq .entries hentry
    · exact hq.pair_eq .victims hvictim
  case object? =>
    intro h hh
    refine hp.object?_evictedAt hheap fun hm => hh ?_
    rw [hnodes]
    exact (hperm.map Resident.node).mem_iff.2 hm
  case pending => exact fun y => (hq.pending_eq y).trans (hp.valid.pending_eq y).symm
  case root => rw [hroot, hp.root, Contents.root_evictedAt hx]

/-- **A node is evicted in a transaction of its own.** -/
theorem exists_transaction_evict (hp : p.Holds c) (hu : p.Unhindered) (hx : c.entries[i]? = some x) :
    ∃ q, p.transaction (VictimPipeline.evict x.node) = (.ok (), q) ∧
      p.Evicted (nodes (c.entries.eraseIdx i)) x.node (nodes c.victims) q := by
  obtain ⟨l, r, hc, hevicted⟩ := Contents.exists_evictedAt_eq hx
  have hyields : ∀ E, Yields E ⟨0, p.root, p.heap⟩ (VictimPipeline.evict x.node) ()
      ⟨0, (c.evictedAt i).root, (c.evictedAt i).heap⟩ := by
    intro E
    have h : Yields E (c.view 0 c.counters 0) (VictimPipeline.evict x.node) ()
        ((c.evictedAt i).view 0 (c.evictedAt i).counters 0) := by
      rw [hevicted]
      exact yields_evict hc
    rwa [Contents.view_zero, Contents.view_zero, ← hp.root, ← hp.heap] at h
  obtain ⟨hsucceeds, hpost⟩ := transaction_of_yields (VictimPipeline.stepwise_evict x.node)
    (VictimPipeline.frugal_evict x.node) hyields
  obtain ⟨q, hq⟩ := hsucceeds hu
  obtain ⟨-, hroot, hheap⟩ := hpost () q hq
  exact ⟨q, hq, hp.evicted hx hroot hheap⟩

end Pool.Holds

namespace Tier

variable {t : Tier} {policy : Policy} {node : Handle} {q : Pool} {key value : Bytes}

/-! ## An eviction step by step -/

/-- Without a choice nothing but the pick is used up. -/
theorem run_evictOne_of_none (hchoice : t.policy.selectVictim t.pool = (.ok none, policy)) :
    evictOne.run t = .ok none { t with policy := policy } := by
  simp only [evictOne, EStateM.run_bind, EStateM.run_get, hchoice]
  rfl

/-- A node that is chosen is evicted, and its key is read from where it is then. -/
theorem run_evictOne_of_some (hchoice : t.policy.selectVictim t.pool = (.ok (some node), policy))
    (hevict : t.pool.transaction (VictimPipeline.evict node) = (.ok (), q))
    (hpair : q.pair node = .ok (key, value)) :
    evictOne.run t = .ok (some key) { t with pool := q, policy := policy } := by
  have hkey : (do q.bytes (← q.entry node).key) = Except.ok key := by
    obtain ⟨e, hentry, hbytes⟩ := Pool.exists_of_bind_eq_ok hpair
    obtain ⟨_, hkey, hvalue⟩ := Pool.exists_of_bind_eq_ok hbytes
    obtain ⟨_, -, hpure⟩ := Pool.exists_of_bind_eq_ok hvalue
    cases hpure
    rw [hentry]
    exact hkey
  have hmoved : (inTransaction (VictimPipeline.evict node)).run { t with policy := policy } =
      .ok () { t with pool := q, policy := policy } := by
    simp only [EStateM.run, inTransaction, hevict]
  have hread : (keyOf node).run { t with pool := q, policy := policy } =
      .ok key { t with pool := q, policy := policy } := by
    simp only [EStateM.run, keyOf, readPool, hkey]
  simp only [evictOne, EStateM.run_bind, EStateM.run_get, EStateM.run_modify, hchoice, hmoved, hread]
  rfl

/-- A policy evicts from a pool with given contents that nothing troubles. -/
theorem evictsOne {c : Contents} (hp : t.pool.Holds c) (hu : t.pool.Unhindered) :
    t.EvictsOne (nodes c.entries) (nodes c.victims) := by
  have hlength : (nodes c.entries).length = c.entries.length := List.length_map _
  have hchoice := hp.selectVictim_eq t.policy
  rw [← hlength] at hchoice
  rw [← List.getElem?_map] at hchoice
  constructor
  case position =>
    intro hne
    exact t.policy.position_lt (List.length_pos_iff.2 hne) (hlength ▸ hp.length_lt.1)
  case choice => exact hchoice
  case nothing =>
    intro hempty
    refine run_evictOne_of_none (hchoice.trans ?_)
    rw [nodes] at hempty
    simp [hempty]
  case moved =>
    intro h hh
    rw [nodes, hh] at hchoice
    obtain ⟨x, hx, rfl⟩ := Option.map_eq_some_iff.1 ((List.getElem?_map ..).symm.trans hh)
    -- The key is read from its payload, which eviction leaves where it is.
    obtain ⟨q, hq, hevicted⟩ := hp.exists_transaction_evict hu hx
    have hmem : x ∈ c.pairs := List.mem_append_left _ (List.mem_of_getElem? hx)
    have hpair := hp.pair_eq hmem
    have hpair' : q.pair x.node = .ok (x.key, x.value) :=
      (hevicted.pair _ List.mem_cons_self).trans hpair
    refine ⟨x.key, x.value, q, hpair, run_evictOne_of_some hchoice hq hpair', ?_⟩
    rwa [nodes, List.eraseIdx_map]

end Tier

/-- **One entry is evicted**, whatever has happened at a site and whatever the policy picks, so long as
writes are not limited. -/
theorem Site.exists_evicted {s : Site} {t : Tier} (hs : s.Reachable fun _ a => a.Fits)
    (ht : s.tier = some t) (hbudget : t.pool.writeBudget = none) :
    ∃ entries victims, t.pool.strictWalk .entries = .ok entries ∧
      t.pool.strictWalk .victims = .ok victims ∧
      (∀ i < entries.length, ∃ picks, ((Policy.random picks).position entries.length).1 = i) ∧
      ∀ policy : Policy, Tier.EvictsOne { t with policy := policy } entries victims := by
  obtain ⟨settings, L, hshows, hL⟩ := (hs.sound fun _ _ h => h).tier t ht
  have hpool := (hshows.displays hL hbudget).pool
  have hp : t.pool.Holds L.contents := hpool.holds
  have hu : t.pool.Unhindered := hpool.durable.resolve_left fun h => h (.io (.reported ""))
  refine ⟨nodes L.contents.entries, nodes L.contents.victims, hp.valid.strictWalk_eq .entries,
    hp.valid.strictWalk_eq .victims, fun i hi => Policy.exists_position_eq hi ?_, fun policy => ?_⟩
  · exact (List.length_map _).trans_lt hp.length_lt.1
  · exact Tier.evictsOne hp hu

/-- Three entries and one victim: the entry in the middle is evicted if it is picked. -/
theorem Site.exists_evicted_middle :
    let s₁ := (Action.restart {} 1 0).perform {}
    let s₂ := (Action.operate (.insert [1] [10])).perform s₁
    let s₃ := (Action.operate (.insert [2] [20])).perform s₂
    let s₄ := (Action.operate (.insert [3] [30])).perform s₃
    let s₅ := (Action.operate (.insert [4] [40])).perform s₄
    let s₆ := (Action.operate .evictOne).perform s₅
    ∃ t picks picks' node₄ node₃ node₂ node₁ q, s₆.tier = some t ∧
      t.pool.strictWalk .entries = .ok [node₄, node₃, node₂] ∧
      t.pool.strictWalk .victims = .ok [node₁] ∧ t.pool.pair node₃ = .ok ([3], [30]) ∧
      Tier.evictOne.run { t with policy := .random picks } =
        .ok (some [3]) { t with pool := q, policy := picks' } ∧
      t.pool.Evicted [node₄, node₂] node₃ [node₁] q := by
  intro s₁ s₂ s₃ s₄ s₅ s₆
  obtain ⟨hfits₁, hfits₂, hfits₃, hfits₄⟩ : (Command.set [1] [10]).Fits ∧
      (Command.set [2] [20]).Fits ∧ (Command.set [3] [30]).Fits ∧ (Command.set [4] [40]).Fits := by
    decide
  have hs₃ : s₃.Reachable fun _ a => a.Fits :=
    .step (.step (.step .blank trivial (by decide +kernel)) hfits₁ (by decide +kernel))
      hfits₂ (by decide +kernel)
  have hs₆ : s₆.Reachable fun _ a => a.Fits :=
    .step (.step (.step hs₃ hfits₃ (by decide +kernel)) hfits₄ (by decide +kernel))
      trivial (by decide +kernel)
  have hfacts : s₆.tier.map (fun t => (t.pool.writeBudget,
      (t.pool.strictWalk .victims).toOption.map List.length)) = some (none, some 1) := by
    decide +kernel
  have hpairs : s₆.tier.map (fun t => (t.pool.strictWalk .entries).toOption.map
      (·.map fun h => (t.pool.pair h).toOption)) =
      some (some [some ([4], [40]), some ([3], [30]), some ([2], [20])]) := by
    decide +kernel
  obtain ⟨t, ht, hfacts⟩ := Option.map_eq_some_iff.1 hfacts
  obtain ⟨hbudget, hvictims⟩ := Prod.mk.inj hfacts
  obtain ⟨entries, victims, hwalk, hwalk', hpicks, hevicts⟩ :=
    Site.exists_evicted hs₆ ht hbudget
  rw [hwalk'] at hvictims
  rw [ht, Option.map_some, hwalk] at hpairs
  obtain ⟨node₁, rfl⟩ := List.length_eq_one_iff.1 (Option.some.inj hvictims)
  have hentries := Option.some.inj (Option.some.inj hpairs)
  obtain ⟨node₄, rest, rfl, -, hrest⟩ := List.map_eq_cons_iff.1 hentries
  obtain ⟨node₃, rest, rfl, hpair₃, hrest⟩ := List.map_eq_cons_iff.1 hrest
  obtain ⟨node₂, rest, rfl, -, hrest⟩ := List.map_eq_cons_iff.1 hrest
  obtain rfl := List.map_eq_nil_iff.1 hrest
  obtain ⟨picks, hpick⟩ := hpicks 1 (by simp)
  have hmoved := (hevicts (.random picks)).moved node₃
  rw [hpick] at hmoved
  obtain ⟨key, value, q, hpair, hrun, hevicted⟩ := hmoved rfl
  have hpair' := Option.some.inj ((congrArg Except.toOption hpair).symm.trans hpair₃)
  obtain ⟨rfl, rfl⟩ := Prod.mk.inj hpair'
  exact ⟨t, picks, _, node₄, node₃, node₂, node₁, q, ht, hwalk, hwalk', hpair, hrun, hevicted⟩

end PersistentTier
