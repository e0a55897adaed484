import PersistentTier.Proofs.Tier.Calls
import PersistentTier.Proofs.Tier.Site

/-!
# The recency policy

Under the recency policy the keys of a tier are those of a least-recently-used cache: what is written or
read goes to the front, what is too much leaves at the tail, and what has left waits in the order in
which it was evicted. Everything is said of the two lists of keys alone.

## Main definitions

* `KeyLists.after`: what a call makes of the keys
* `Tier.Lists`: a tier whose entry store and victim pipeline show given keys

## Main results

* `Cache.toKeyLists_afterAll`: calls on a cache move its keys as in a least-recently-used cache
* `Site.exists_lists_runAll`: and so do calls of a tier
-/

namespace PersistentTier

/-- **What a call makes of the keys** of a least-recently-used cache. -/
def KeyLists.after (settings : Settings) (q : KeyLists) : Call → KeyLists
  | .set key _ =>
    ((q.enter key).shorten settings.maxEntries settings.evictBatch).flushFrom settings.victimThreshold
  | .get key => q.use key
  | .del key => q.remove key
  | .evictOne => q.evict 1
  | .evictBatch count => q.evict count
  | .flushVictims => q.flush
  | .compact | .entries _ | .victimKeys | .dump | .flushLog | .append _ | .switch => q

namespace Cache

variable {c : Cache}

/-- Under the recency policy the limits are enforced in one go. -/
theorem limited_of_lru (hlru : c.policy = .lru) :
    c.limited = c.withKeys ((c.shorten c.settings.maxEntries c.settings.evictBatch).flushFrom
      c.settings.victimThreshold) := by
  have hshortened : c.shortened =
      c.withKeys (c.shorten c.settings.maxEntries c.settings.evictBatch) := by
    rw [shortened, hlru]
    exact if_pos rfl
  rw [limited, hshortened]
  rfl

/-- **A call on a cache moves its keys** as in a least-recently-used cache. Policy and settings stay. -/
theorem after_of_lru (hlru : c.policy = .lru) (call : Call) :
    (call.after c).toKeyLists = c.toKeyLists.after c.settings call ∧ (call.after c).policy = .lru ∧
      (call.after c).settings = c.settings := by
  cases call with
  | set key value =>
    have hput : (c.put key value).toKeyLists = c.enter key := by
      have hrecency : c.policy.tracksRecency = true := by rw [hlru]; rfl
      rw [put, if_pos (Or.inl hrecency)]
      rfl
    have hpolicy : (c.put key value).policy = .lru := hlru
    rw [Call.after, limited_of_lru hpolicy, toKeyLists_withKeys, hput]
    exact ⟨rfl, hlru, rfl⟩
  | get key =>
    rw [Call.after, touched, hlru]
    exact ⟨rfl, hlru, rfl⟩
  | evictOne =>
    -- The policy names the position at the tail, which is where batches are taken from.
    have hevicted : c.evictOne.toKeyLists = c.evict 1 := by
      rw [evictOne, hlru]
      exact KeyLists.evictAt_length_sub_one
    refine ⟨hevicted, ?_, rfl⟩
    rw [Call.after, evictOne, hlru]
    rfl
  | evictBatch count =>
    rw [Call.after, hlru]
    exact ⟨rfl, hlru, rfl⟩
  | del | flushVictims | compact | entries | victimKeys | dump | flushLog | append | switch =>
    exact ⟨rfl, hlru, rfl⟩

/-- **Calls on a cache move its keys** one after another. -/
theorem toKeyLists_afterAll (hlru : c.policy = .lru) (calls : List Call) :
    (Call.afterAll calls c).toKeyLists =
      calls.foldl (fun q call => q.after c.settings call) c.toKeyLists := by
  induction calls generalizing c with
  | nil => rfl
  | cons call calls ih =>
    obtain ⟨hkeys, hpolicy, hsettings⟩ := after_of_lru hlru call
    rw [Call.afterAll, List.foldl_cons, List.foldl_cons, ← hkeys, ← hsettings]
    exact ih hpolicy

end Cache

namespace Tier

/-- **A tier that shows given keys.** Read backwards, the entry store is the reverse of what it is read
forwards. -/
structure Lists (t : Tier) (q : KeyLists) : Prop where
  entries : ∃ pairs, (Tier.entries .forward).run t = .ok pairs t ∧ pairs.map Prod.fst = q.entries ∧
    (Tier.entries .backward).run t = .ok pairs.reverse t
  victims : victimKeys.run t = .ok q.victims t

theorem Appears.lists {E : Failure → Prop} {room : Nat} {c : Cache} {t : Tier}
    (ht : t.Appears E room c) : t.Lists c.toKeyLists := by
  obtain ⟨S, ht, hS⟩ := ht
  have hheld := ht.pool.holds
  refine ⟨⟨c.pairs, reads_entries hS .forward t hheld ht.index, ?_,
    reads_entries hS .backward t hheld ht.index⟩, ?_⟩
  · rw [Cache.pairs, List.map_map]
    exact List.map_id _
  · rw [← hS.victims]
    exact reads_victimKeys _ _ t hheld ht.index

end Tier

/-- **Under the recency policy a tier is a least-recently-used cache.** Whatever has happened at a site
before: from some lists of keys on, any calls of the tier that is open move its keys as in such a cache,
as long as nothing is in the way and there is memory. -/
theorem Site.exists_lists_runAll {s : Site} {t : Tier} (hs : s.Reachable fun _ a => a.Fits)
    (ht : s.tier = some t) (hlru : t.policy.kind = .lru) (hbudget : t.pool.writeBudget = none) :
    ∃ q, t.Lists q ∧ ∀ calls,
      (∃ answers t', (Call.runAll calls).run t = .ok answers t' ∧
          t'.Lists (calls.foldl (fun q call => q.after t.settings call) q)) ∨
        ∃ t', (Call.runAll calls).run t = .error (.crash .outOfMemory) t' ∧
          maxSlots < t'.pool.slots.size + 5 := by
  obtain ⟨settings, L, hshows, hL⟩ := (hs.sound fun _ _ h => h).tier t ht
  obtain ⟨c, hc⟩ := hshows.exists_appears hL hbudget
  have hpolicy : c.policy = .lru := by
    rw [← hc.policy]
    cases hkind : t.policy with
    | lru => rfl
    | random => rw [hkind] at hlru; cases hlru
  refine ⟨c.toKeyLists, hc.lists, fun calls => ?_⟩
  refine (hc.runAll calls).imp_left ?_
  rintro ⟨t', hrun, ht'⟩
  refine ⟨_, t', hrun, ?_⟩
  rw [hc.settings, ← Cache.toKeyLists_afterAll hpolicy]
  exact ht'.lists

/-- A key that has been read again outlives one that has not. -/
theorem Site.exists_lists_runAll_read :
    let s := (Action.restart { maxEntries := some 2, evictBatch := 1 } 1 0).perform {}
    let calls : List Call := [.set [1] [10], .set [2] [20], .get [1], .set [3] [30]]
    ∃ t answers t', s.tier = some t ∧ (Call.runAll calls).run t = .ok answers t' ∧
      t'.Lists ⟨[[3], [1]], [[2]]⟩ := by
  intro s calls
  have hs : s.Reachable fun _ a => a.Fits := .step .blank trivial (by decide +kernel)
  have hopened : s.tier.map (fun t => (t.policy.kind, t.pool.writeBudget, t.settings)) =
      some (.lru, none, { maxEntries := some 2, evictBatch := 1 }) := by decide +kernel
  obtain ⟨t, ht, hopened⟩ := Option.map_eq_some_iff.1 hopened
  simp only [Prod.mk.injEq] at hopened
  obtain ⟨hlru, hbudget, hsettings⟩ := hopened
  have hruns : s.tier.all (fun t => (Tier.entries .forward).run' t = some [] ∧
      Tier.victimKeys.run' t = some [] ∧ ((Call.runAll calls).run' t).isSome) = true := by
    decide +kernel
  rw [ht, Option.all_some, decide_eq_true_iff] at hruns
  obtain ⟨hentries, hvictims, hok⟩ := hruns
  obtain ⟨⟨entries, victims⟩, hlists, hrun⟩ := Site.exists_lists_runAll hs ht hlru hbudget
  obtain ⟨pairs, hforward, hpairs, -⟩ := hlists.entries
  -- Nothing is listed before the first call.
  unfold EStateM.run' at hentries hvictims hok
  simp only [hforward, hlists.victims, Option.some.injEq] at hentries hvictims
  subst hentries hvictims
  obtain rfl : [] = entries := hpairs
  obtain ⟨answers, t', hrun, ht'⟩ | ⟨t', hrun, -⟩ := hrun calls
  · rw [hsettings] at ht'
    exact ⟨t, answers, t', ht, hrun, ht'⟩
  · simp [hrun] at hok

end PersistentTier
