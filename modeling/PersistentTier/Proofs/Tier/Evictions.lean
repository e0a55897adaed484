import Mathlib.Data.List.DropRight
import PersistentTier.Proofs.Tier.Recovery
import PersistentTier.Proofs.Tier.Triple

/-!
# Eviction and flushing

Evicting pairs moves them from one list to the other. Flushing tells the file of every victim before
it reclaims them. Whatever the settings ask for, and wherever it stops, the limits are enforced by
such steps only.

## Main definitions

* `Contents.evicted`: what evicting a batch makes of the two lists
* `Policy.position`: the position in the entry store that a policy names

## Main results

* `Pool.Holds.selectVictim_eq`, `Pool.Holds.selectVictims_eq`: what a policy chooses
* `leads_evictOne`, `leads_evictBatch`, `leads_flushVictims`: the three operations
* `leads_enforceLimits`: what a write does after it has been committed
-/

namespace PersistentTier

open Tx Ledger

/-! ## Choosing victims -/

namespace Contents

/-- Pairs at the tail of the entry store are evicted one after another, the last of them first. -/
theorem evicts_tail {c : Contents} {l r : List Resident} (hc : c.entries = l ++ r) :
    c.Evicts (nodes r).reverse { c with entries := l, victims := r ++ c.victims } := by
  -- The last pair is evicted first, so the tail is taken apart from its end.
  induction r using List.reverseRecOn generalizing c with
  | nil =>
    have hsame : { c with entries := l, victims := [] ++ c.victims } = c := by
      cases c
      simp_all
    rw [hsame]
    exact .nil c
  | append_singleton r x ih =>
    rw [nodes, List.map_append, List.reverse_append, List.append_assoc]
    have hc' : c.entries = (l ++ r) ++ x :: [] := by rw [hc, List.append_assoc]
    have hrest := ih (c := { c with entries := (l ++ r) ++ [], victims := x :: c.victims })
      (List.append_nil _)
    exact .cons hc' hrest

/-- **The contents after some pairs have been evicted** from the tail of the entry store. They keep
their order. -/
def evicted (c : Contents) (count : Nat) : Contents :=
  { c with entries := c.entries.rdrop count, victims := c.entries.rtake count ++ c.victims }

theorem evicts_evicted (c : Contents) (count : Nat) :
    c.Evicts (nodes (c.entries.rtake count)).reverse (c.evicted count) :=
  evicts_tail (List.take_append_drop _ _).symm

/-- Evicting pairs keeps them all. -/
theorem Evicts.reshuffled {c c' : Contents} {hs : List Handle} (h : c.Evicts hs c') :
    c.Reshuffled c' c.pairs := by
  induction h with
  | nil c => exact ⟨.refl _, rfl, rfl⟩
  | @cons c c' l r x hs hc _ ih =>
    refine ⟨ih.pairs.trans ?_, ih.log, ih.active⟩
    simp only [Contents.pairs, hc, List.append_assoc, List.cons_append]
    exact (List.perm_middle.append_left l).trans (.refl _)

end Contents

/-- The position among `n` entries that a policy names, and the policy afterwards. -/
def Policy.position (n : Nat) : Policy → Nat × Policy
  | .lru => (n - 1, .lru)
  | .random picks =>
    if n = 0 then (0, .random picks)
    else ((picks.next (UInt64.ofNat n)).1, .random (picks.next (UInt64.ofNat n)).2)

theorem Policy.supportsBatches_position (n : Nat) (policy : Policy) :
    (policy.position n).2.supportsBatches = policy.supportsBatches := by
  cases policy with
  | lru => rfl
  | random picks =>
    simp only [position]
    split <;> rfl

/-- The position is one of an entry, if there are any. -/
theorem Policy.position_lt {n : Nat} (policy : Policy) (hpos : 0 < n) (hn : n < 2 ^ 64) :
    (policy.position n).1 < n := by
  cases policy with
  | lru => exact Nat.sub_lt hpos Nat.one_pos
  | random picks =>
    have hcount : (UInt64.ofNat n).toNat = n := UInt64.toNat_ofNat_of_lt' hn
    have hpick := picks.next_lt (show 0 < (UInt64.ofNat n).toNat by omega)
    rw [position, if_neg (by omega)]
    omega

section Choosing

variable {p : Pool} {c : Contents}

/-- **The policy names the node in a position** of the entry store, or none if there is none. -/
theorem Pool.Holds.selectVictim_eq (hp : p.Holds c) (policy : Policy) :
    policy.selectVictim p =
      (.ok (c.entries[(policy.position c.entries.length).1]?.map Resident.node),
        (policy.position c.entries.length).2) := by
  have hcount : p.root.entryCount = UInt64.ofNat c.entries.length := by
    rw [hp.root]
    rfl
  -- The recency policy reads the tail; the random one walks as far as its pick says.
  cases policy with
  | lru =>
    have hlast : p.root.entryLast = (nodes c.entries).getLast? := by
      rw [hp.root, ← lastOf_none]
      rfl
    simp only [Policy.selectVictim, Policy.position, hlast, List.getLast?_eq_getElem?,
      List.length_map, List.getElem?_map]
  | random picks =>
    have hlength : p.root.entryCount.toNat = c.entries.length := hp.recordedLength_eq .entries
    by_cases hempty : c.entries.length = 0
    · have hzero : p.root.entryCount = 0 := by rw [hcount, hempty]; rfl
      simp [Policy.selectVictim, Policy.position, hzero, List.length_eq_zero_iff.1 hempty]
    · have hpos : 0 < p.root.entryCount.toNat := by omega
      have hne : p.root.entryCount ≠ 0 := fun h => by simp [h] at hpos
      have hpick := hlength ▸ picks.next_lt hpos
      rw [hcount] at hpick
      rw [hcount] at hne
      simp only [Policy.selectVictim, Policy.position, hcount, if_neg hne, if_neg hempty,
        hp.stepForward_eq hpick, List.getElem?_eq_getElem hpick]
      rfl

/-- **The recency policy names the tail** of the entry store. -/
theorem Pool.Holds.selectVictims_eq (hp : p.Holds c) {policy : Policy}
    (hpolicy : policy.supportsBatches = true) (k : Nat) :
    policy.selectVictims p k = .ok (nodes (c.entries.rtake k)).reverse := by
  cases policy with
  | random => cases hpolicy
  | lru =>
    rw [Policy.selectVictims, hp.walk_backward, List.take_reverse, List.length_map]
    simp only [nodes, List.map_drop, List.rtake]

end Choosing

/-- The file is told of commands in their encoded form. -/
theorem FileOp.yields_fileEncoded {live : Bool} (filed cmds : List Command) :
    FileOp.Yields live filed (Tier.fileEncoded (cmds.map Command.encode)) () (filed ++ cmds) := by
  have happend : FileOp.Yields live filed
      ((cmds.map Command.encode).forM AppendFile.appendEncoded) () (filed ++ cmds.map id) :=
    FileOp.Yields.forM cmds fun _ _ => rfl
  rw [List.map_id] at happend
  exact happend.bind AppendFile.yields_sync

namespace Tier

variable {m : Mode} {room : Nat} {L : Ledger}

/-! ## Reading -/

theorem reads_keyOf {c : Contents} {index : Index} {x : Resident} (hx : x ∈ c.pairs) :
    Reads c index (keyOf x.node) x.key := by
  refine Reads.readPool fun p hp => ?_
  obtain ⟨⟨kind, before, after, hentry⟩, hkey, -⟩ := hp.exists_entry hx
  simp only [hentry, bind, Except.bind]
  exact hkey

theorem reads_readVictim {c : Contents} {index : Index} {x : Resident} (hx : x ∈ c.pairs) :
    Reads c index (readVictim x.node) (x.node, x.key, x.value) :=
  (Reads.readPool fun _ hp => hp.pair_eq hx).bind (.pure _)

/-! ## Evicting -/

/-- **One pair is evicted**, if there is one. -/
theorem leads_evictOne (m : Mode) (L : Ledger) :
    Leads m Shift 0 L evictOne fun _ _ => True := by
  refine Leads.get fun t ht => ?_
  simp only [ht.pool.holds.selectVictim_eq]
  refine Triple.bind (Triple.setPolicy ((t.policy.supportsBatches_position _).trans ht.batches)) ?_
  rintro _ _ rfl
  cases hchoice : L.contents.entries[(t.policy.position L.contents.entries.length).1]? with
  | none => exact Leads.pure trivial
  | some x =>
    obtain ⟨l, r, hc⟩ := List.append_of_mem (List.mem_of_getElem? hchoice)
    let c' : Contents := { L.contents with entries := l ++ r, victims := x :: L.contents.victims }
    have hresult : L.contents.Reshuffled c' L.contents.pairs :=
      (Contents.Evicts.cons hc (.nil _)).reshuffled
    refine Leads.bind (Leads.inTransaction (P := fun _ c => c = c')
      (VictimPipeline.stepwise_evict x.node) ?_ ?_) ?_
    · exact (yields_evict hc).mono fun _ _ hs => ⟨c', 0, rfl, hs.2⟩
    · rintro _ _ rfl
      exact .single (.rearrange hresult)
    · rintro _ _ - ⟨_, rfl, rfl⟩
      refine Leads.read (reads_keyOf ?_) (Leads.pure trivial)
      exact List.mem_append_right _ List.mem_cons_self

/-- **Several pairs are evicted**, if the policy can choose them. -/
theorem leads_evictBatch (hm : m.batches = true ∨ m.Faulty) (L : Ledger)
    (count : Nat) : Leads m Shift 0 L (evictBatch count) fun _ _ => True := by
  refine Leads.get fun t ht => ?_
  by_cases hbatches : t.policy.supportsBatches = true
  · simp only [ht.pool.holds.selectVictims_eq hbatches]
    split
    · rename_i h
      cases h
    · exact Leads.pure trivial
    · rename_i hs _ h
      obtain rfl := Except.ok.inj h
      have hevicts := L.contents.evicts_evicted count
      refine (Leads.inTransaction (P := fun _ c => L.contents.Reshuffled c L.contents.pairs)
        (VictimPipeline.stepwise_evictAll _) ?_ ?_).mono fun _ _ _ _ => trivial
      · exact (yields_evictAll hevicts).mono fun _ _ hs => ⟨_, 0, hevicts.reshuffled, hs.2⟩
      · exact fun _ _ hresult => .single (.rearrange hresult)
  · have hfaulty := hm.resolve_left (ht.batches ▸ hbatches)
    cases hpolicy : t.policy with
    | lru => exact absurd (by rw [hpolicy]; rfl) hbatches
    | random picks => exact Triple.throw (hfaulty _) .refl

/-! ## Flushing -/

/-- To write pairs to the file is to write them in their encoded form, the last one first. -/
theorem filePairs_eq (xs : List Resident) :
    (do (xs.map fun x => (x.node, x.key, x.value)).reverse.forM fun x =>
            AppendFile.append (.set x.2.1 x.2.2)
        AppendFile.sync : FileOp Unit) =
      fileEncoded ((xs.reverse.map fun x => Command.set x.key x.value).map Command.encode) := by
  simp only [fileEncoded, ← List.map_reverse, List.forM_eq_forM, List.forM_map]
  rfl

/-- The file is told of pairs, the last one first. -/
theorem yields_filePairs (live : Bool) (filed : List Command) (xs : List Resident) :
    FileOp.Yields live filed
      (do (xs.map fun x => (x.node, x.key, x.value)).reverse.forM fun x =>
            AppendFile.append (.set x.2.1 x.2.2)
          AppendFile.sync) () (filed ++ xs.reverse.map fun x => .set x.key x.value) := by
  rw [filePairs_eq]
  exact FileOp.yields_fileEncoded filed _

/-- The file may be told of the victims, which are resident. -/
theorem shift_tell_victims (hL : L.Agrees) : Shift L { L with
    filed := L.filed ++ L.contents.victims.reverse.map fun x => .set x.key x.value } := by
  have hmem : ∀ x ∈ L.contents.victims.reverse, x ∈ L.contents.pairs := fun x hx =>
    List.mem_append_right _ (List.mem_reverse.1 hx)
  refine .tell (fun cmd hcmd => ?_) fun cmd hcmd => ?_
  · obtain ⟨x, hx, rfl⟩ := List.mem_map.1 hcmd
    exact hL.regular.pairs x (hmem x hx)
  · obtain ⟨x, hx, rfl⟩ := List.mem_map.1 hcmd
    exact List.mem_map_of_mem (hmem x hx)

/-- **The victims are flushed**: the file is told of them, and then they are reclaimed. -/
theorem leads_flushVictims (m : Mode) (hL : L.Agrees) :
    Leads m Shift 0 L flushVictims fun _ _ => True := by
  refine Leads.get fun t ht => ?_
  have hfirst : t.pool.root.victimFirst = firstOf (nodes L.contents.victims) none :=
    ht.pool.holds.first_eq .victims
  have hwalk : t.pool.walk .victims .forward = nodes L.contents.victims :=
    ht.pool.holds.walk_forward .victims
  rw [hfirst, hwalk]
  cases hvictims : L.contents.victims with
  | nil => exact Leads.pure trivial
  | cons x r =>
    let pending := L.contents.victims.map fun x => (x.node, x.key, x.value)
    let cmds : List Command := L.contents.victims.reverse.map fun x => .set x.key x.value
    let c₂ : Contents := { L.contents with victims := [] }
    have hpending : Reads L.contents L.index ((nodes (x :: r)).mapM readVictim) pending := by
      rw [← hvictims]
      refine Reads.mapM _ fun y hy => reads_readVictim (List.mem_append_right _ hy)
    have htold : ∀ y ∈ L.contents.victims,
        Command.verdict y.key (L.filed ++ cmds) = some (some y.value) := by
      intro y hy
      rw [Command.verdict_append, (verdict_victims hL.regular y.key).1 y hy rfl]
      rfl
    refine Leads.read hpending (Leads.bind
      (Leads.onFile (yields_filePairs m.live L.filed _) (shift_tell_victims hL)) ?_)
    -- From here on the file tells of every victim, so they may go.
    rintro _ _ - rfl
    refine Triple.bind (Triple.inTransaction (P := fun _ c => c = c₂)
      (VictimPipeline.stepwise_reclaim x.node) ?_ .refl) ?_
    · exact (yields_reclaim (c := L.contents) (l := []) hvictims).mono
        fun _ _ hs => ⟨c₂, 0, rfl, hs.2⟩
    · rintro _ _ ⟨_, rfl, rfl⟩
      refine Triple.bind (Triple.updateIndex _) ?_
      rintro _ _ rfl
      have hindex : pending.foldl (fun index x => index.clearNode x.2.1 x.1) L.index =
          cleared L.index L.contents.victims := by
        simp [pending, cleared, List.foldl_map]
      refine Triple.pure ⟨.single ?_, trivial⟩
      simp only [hindex]
      exact .reclaim htold

/-! ## Limits -/

theorem leads_evictSome (m : Mode) (L : Ledger) (excess : Nat) :
    Leads m Shift 0 L (evictSome excess) fun _ _ => True := by
  refine Leads.get fun t ht => ?_
  by_cases hbatches : t.policy.supportsBatches = true
  · rw [if_pos hbatches]
    exact leads_evictBatch (.inl (ht.batches ▸ hbatches)) L _
  · rw [if_neg hbatches]
    exact (leads_evictOne m L).bind fun _ _ _ _ => Leads.pure trivial

theorem leads_evictDownTo (m : Mode) (L : Ledger) (limit rounds : Nat) :
    Leads m Shift 0 L (evictDownTo limit rounds) fun _ _ => True := by
  induction rounds generalizing L with
  | zero => exact Leads.pure trivial
  | succ rounds ih =>
    refine Leads.get fun t _ => ?_
    dsimp only
    split
    · exact Leads.pure trivial
    · refine (leads_evictSome m L _).bind fun moved L' _ _ => ?_
      split
      · exact Leads.pure trivial
      · exact ih L'

/-- **The limits are enforced** by evicting and flushing. -/
theorem leads_enforceLimits (m : Mode) (hL : L.Agrees) :
    Leads m Shift 0 L enforceLimits fun _ _ => True := by
  have hentries : Leads m Shift 0 L enforceEntryLimit fun _ _ => True := by
    refine Leads.get fun t _ => ?_
    split
    · exact leads_evictDownTo m L _ _
    · exact Leads.pure trivial
  refine hentries.bind fun _ L' hsteps _ => Leads.get fun t _ => ?_
  split
  · exact (leads_flushVictims m (hL.shifts hsteps)).bind fun _ _ _ _ => Leads.pure trivial
  · exact Leads.pure trivial

end Tier

end PersistentTier
