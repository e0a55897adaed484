import Mathlib.Data.List.DropRight
import PersistentTier.Proofs.Tier.Effects

/-!
# Caches

To its clients a tier is a cache: the keys of the entry store and of the victim pipeline in their order,
the values of all keys, and the policy that chooses what to evict. A cache knows neither of handles nor
of the log.

## Main definitions

* `Index.unplaced`: the values of keys, wherever the keys are
* `KeyLists`: the two lists of keys, and what moves keys in them
* `Cache`: what the clients of a tier see of it
* `Snapshot.Realizes`: a snapshot that is seen as a given cache

## Main results

* `Cache.toKeyLists_limited`: enforcing the limits under the recency policy
* `Snapshot.Puts.realizes`, `Snapshot.Takes.realizes`, `Snapshot.Realizes.touched`: the operations on a key
-/

namespace PersistentTier

open Ledger

/-! ## The values of keys -/

namespace Index

variable {index index' : Index} {key : Bytes}

/-- Indexes that know the same of every key are the same. -/
theorem ext_get? (h : ∀ key, index.get? key = index'.get? key) : index = index' := by
  have hnodup : ∀ i : Index, i.toList.Nodup := fun i =>
    i.sorted.imp fun {a b} (hlt : a.1 < b.1) (he : a = b) => Std.lt_irrefl (he ▸ hlt)
  have hperm : index.toList.Perm index'.toList := by
    refine (List.perm_ext_iff_of_nodup (hnodup _) (hnodup _)).2 fun pair => ?_
    rw [mem_toList, mem_toList, h]
  have hlists := hperm.eq_of_pairwise (fun a b _ _ hab hba => ?_) index.sorted index'.sorted
  · cases index
    cases index'
    cases hlists
    rfl
  · -- Both lists are sorted, so no two elements can stand either way.
    exact absurd (List.lt_trans hab hba) Std.lt_irrefl

/-- Erasing a key without a value makes no difference. -/
theorem erase_of_value?_eq_none (h : index.value? key = none) : index.erase key = index := by
  refine ext_get? fun key' => ?_
  rw [get?_erase]
  split
  · rename_i hk
    rw [← hk, Option.map_eq_none_iff.1 h]
  · rfl

/-- The index with the values of keys only. -/
def unplaced (index : Index) : Index where
  toList := index.toList.map fun pair => (pair.1, { value := pair.2.value })
  sorted := List.pairwise_map.2 index.sorted

@[simp] theorem pairs_unplaced (index : Index) : index.unplaced.pairs = index.pairs := by
  simp [pairs, unplaced, List.map_map, Function.comp_def]

@[simp] theorem value?_unplaced (index : Index) (key : Bytes) :
    index.unplaced.value? key = index.value? key := by
  refine Option.ext fun value => ?_
  rw [← mem_pairs, ← mem_pairs, pairs_unplaced]

theorem get?_unplaced (index : Index) (key : Bytes) :
    index.unplaced.get? key = (index.value? key).map fun value => { value := value } := by
  cases hentry : index.unplaced.get? key with
  | none =>
    rw [← value?_unplaced, value?, hentry]
    rfl
  | some entry =>
    obtain ⟨pair, -, he⟩ := List.mem_map.1 (mem_toList.2 hentry)
    obtain ⟨rfl, rfl⟩ := Prod.mk.inj he
    rw [← value?_unplaced, value?, hentry]
    rfl

/-- Where the keys are makes no difference to their values. -/
theorem unplaced_congr (h : ∀ key, index.value? key = index'.value? key) :
    index.unplaced = index'.unplaced :=
  ext_get? fun key => by rw [get?_unplaced, get?_unplaced, h]

/-- Indexes with the same values have the same pairs. -/
theorem pairs_congr (h : ∀ key, index.value? key = index'.value? key) : index.pairs = index'.pairs := by
  rw [← pairs_unplaced, unplaced_congr h, pairs_unplaced]

theorem unplaced_insert (index : Index) (key : Bytes) (entry : IndexEntry) :
    (index.insert key entry).unplaced = index.unplaced.insert key { value := entry.value } := by
  refine ext_get? fun key' => ?_
  rw [get?_unplaced, value?_insert, get?_insert, get?_unplaced]
  split <;> rfl

theorem unplaced_erase (index : Index) (key : Bytes) :
    (index.erase key).unplaced = index.unplaced.erase key := by
  refine ext_get? fun key' => ?_
  rw [get?_unplaced, value?_erase, get?_erase, get?_unplaced]
  split <;> rfl

end Index

/-! ## Lists of keys -/

/-- **The keys of a tier**: those of the entry store, the head first, and those of the victim pipeline,
the latest eviction first. -/
structure KeyLists where
  entries : List Bytes
  victims : List Bytes
  deriving DecidableEq, Repr

namespace KeyLists

variable (q : KeyLists)

/-- A key enters at the head, wherever it has been. -/
def enter (key : Bytes) : KeyLists where
  entries := key :: q.entries.filter (· ≠ key)
  victims := q.victims.filter (· ≠ key)

/-- A key in the entry store becomes the head. -/
def use (key : Bytes) : KeyLists :=
  if key ∈ q.entries then { q with entries := key :: q.entries.filter (· ≠ key) } else q

/-- A key is removed. -/
def remove (key : Bytes) : KeyLists where
  entries := q.entries.filter (· ≠ key)
  victims := q.victims.filter (· ≠ key)

/-- Keys move from the tail of the entry store to the victim pipeline, and keep their order. -/
def evict (count : Nat) : KeyLists where
  entries := q.entries.rdrop count
  victims := q.entries.rtake count ++ q.victims

/-- The key in one position moves to the victim pipeline, if there is one. -/
def evictAt (i : Nat) : KeyLists where
  entries := q.entries.eraseIdx i
  victims := q.entries[i]?.toList ++ q.victims

/-- The victim pipeline is emptied. -/
def flush : KeyLists := { q with victims := [] }

/-- The victim pipeline is emptied if there are enough keys in it. -/
def flushFrom (threshold : Nat) : KeyLists :=
  if threshold ≤ q.victims.length then q.flush else q

/-- Keys are evicted if the entry store is too long: those that are too many, or a batch. -/
def shorten (limit : Option Nat) (batch : Nat) : KeyLists :=
  match limit with
  | none => q
  | some limit =>
    if q.entries.length ≤ limit then q else q.evict (max (q.entries.length - limit) batch)

variable {q}

theorem use_of_mem {key : Bytes} (h : key ∈ q.entries) :
    q.use key = { q with entries := key :: q.entries.filter (· ≠ key) } := if_pos h

theorem use_of_not_mem {key : Bytes} (h : key ∉ q.entries) : q.use key = q := if_neg h

theorem length_evictAt {i : Nat} (hi : i < q.entries.length) :
    (q.evictAt i).entries.length + 1 = q.entries.length := by
  rw [evictAt, List.length_eraseIdx_of_lt hi]
  omega

/-- Eviction changes the place of keys, not their order. -/
theorem entries_append_victims_evict (count : Nat) :
    (q.evict count).entries ++ (q.evict count).victims = q.entries ++ q.victims := by
  rw [evict, ← List.append_assoc]
  exact congrArg (· ++ q.victims) (List.take_append_drop _ _)

/-- To evict the key at the tail is to evict one key. -/
theorem evictAt_length_sub_one : q.evictAt (q.entries.length - 1) = q.evict 1 := by
  have htail : q.entries[q.entries.length - 1]?.toList = q.entries.drop (q.entries.length - 1) := by
    rcases q.entries.eq_nil_or_concat with h | ⟨l, key, h⟩ <;> simp [h]
  have hfront : q.entries.eraseIdx (q.entries.length - 1) = q.entries.take (q.entries.length - 1) := by
    rcases q.entries.eq_nil_or_concat with h | ⟨l, key, h⟩ <;> simp [h, List.eraseIdx_append]
  rw [evictAt, evict, htail, hfront]
  rfl

/-- The keys of other pairs are left if that of one is left out. -/
theorem filter_ne_of_nodup {l r : List Resident} {x : Resident}
    (h : ((l ++ x :: r).map Resident.key).Nodup) :
    ((l ++ x :: r).map Resident.key).filter (· ≠ x.key) = (l ++ r).map Resident.key := by
  rw [List.map_append, List.map_cons] at h ⊢
  obtain ⟨hkey, -⟩ := List.nodup_cons.1 (List.nodup_middle.1 h)
  rw [List.filter_append, List.filter_cons_of_neg (by simp), ← List.filter_append, ← List.map_append]
    at *
  exact List.filter_eq_self.2 fun _ hm => decide_eq_true fun he => hkey (he ▸ hm)

theorem filter_ne_of_not_mem {keys : List Bytes} {key : Bytes} (h : key ∉ keys) :
    keys.filter (· ≠ key) = keys :=
  List.filter_eq_self.2 fun _ hm => decide_eq_true fun he => h (he ▸ hm)

end KeyLists

/-! ## Caches -/

/-- **A cache**: what the clients of a tier see of it. -/
structure Cache extends KeyLists where
  /-- The values of the keys, wherever they are. -/
  index : Index
  policy : Policy
  settings : Settings
  /-- Whether there is a file that is written. -/
  filed : Bool

namespace Cache

variable (c : Cache)

/-- The cache with other lists of keys. -/
def withKeys (q : KeyLists) : Cache := ⟨q, c.index, c.policy, c.settings, c.filed⟩

@[simp] theorem toKeyLists_withKeys (q : KeyLists) : (c.withKeys q).toKeyLists = q := rfl

/-- The pairs of the entry store. -/
def pairs : List (Bytes × Bytes) := c.entries.map fun key => (key, (c.index.value? key).getD [])

/-- The key that the policy names. -/
def choice : Option Bytes := c.entries[(c.policy.position c.entries.length).1]?

/-- The key that the policy names is evicted. -/
def evictOne : Cache :=
  { c.withKeys (c.evictAt (c.policy.position c.entries.length).1) with
    policy := (c.policy.position c.entries.length).2 }

/-- Keys are evicted from the tail. -/
def evictBatch (count : Nat) : Cache := c.withKeys (c.evict count)

/-- The victims are flushed. -/
def flushed : Cache := c.withKeys c.flush

/-- Keys are evicted until the entry store is within its limit, in one go if the policy can choose
several at once. -/
def shortened : Cache :=
  if c.policy.supportsBatches then
    c.withKeys (c.shorten c.settings.maxEntries c.settings.evictBatch)
  else
    match c.settings.maxEntries with
    | none => c
    | some limit => evictOne^[c.entries.length - limit] c

/-- The limits are enforced. -/
def limited : Cache :=
  c.shortened.withKeys (c.shortened.flushFrom c.shortened.settings.victimThreshold)

/-- A key is looked up. -/
def touched (key : Bytes) : Cache :=
  if c.policy.tracksRecency then c.withKeys (c.use key) else c

/-- A value is stored under a key. A key of the entry store keeps its place unless the policy goes by
recency. -/
def put (key value : Bytes) : Cache :=
  let q := if c.policy.tracksRecency ∨ key ∉ c.entries then c.enter key else c.toKeyLists
  { c.withKeys q with index := c.index.insert key { value := value } }

/-- A key is removed. -/
def erased (key : Bytes) : Cache :=
  { c.withKeys (c.remove key) with index := c.index.erase key }

end Cache

/-! ## Snapshots of a cache -/

/-- **A snapshot that is seen as a cache.** Index and pool agree, and neither the log nor the file is in
the way of any operation. -/
structure Snapshot.Realizes (S : Snapshot) (c : Cache) : Prop where
  entries : S.contents.entries.map Resident.key = c.entries
  victims : S.contents.victims.map Resident.key = c.victims
  index : S.index.unplaced = c.index
  policy : S.policy = c.policy
  settings : S.settings = c.settings
  tallies : Tallies S.contents S.index
  encoded : S.contents.Encoded
  flows : S.file.Flows c.filed

namespace Snapshot

variable {S S' : Snapshot} {c : Cache} {key value : Bytes}

namespace Realizes

theorem keys (hS : S.Realizes c) : (c.entries ++ c.victims).Nodup := by
  rw [← hS.entries, ← hS.victims, ← List.map_append]
  exact hS.tallies.keys

theorem not_mem_victims (hS : S.Realizes c) (hkey : key ∈ c.entries) : key ∉ c.victims := fun hm =>
  (List.nodup_append.1 hS.keys).2.2 key hkey key hm rfl

theorem nodup_entries (hS : S.Realizes c) : (S.contents.entries.map Resident.key).Nodup :=
  hS.entries ▸ (List.nodup_append.1 hS.keys).1

theorem nodup_victims (hS : S.Realizes c) : (S.contents.victims.map Resident.key).Nodup :=
  hS.victims ▸ (List.nodup_append.1 hS.keys).2.1

/-- A key that is not resident is in neither list. -/
theorem not_mem_pairs (hS : S.Realizes c) :
    key ∉ S.contents.pairs.map Resident.key ↔ key ∉ c.entries ∧ key ∉ c.victims := by
  rw [Contents.pairs, List.map_append, List.mem_append, hS.entries, hS.victims, not_or]

theorem mem_entries (hS : S.Realizes c) {l r : List Resident} {x : Resident}
    (hplace : S.contents.entries = l ++ x :: r) : x.key ∈ c.entries := by
  rw [← hS.entries, hplace]
  exact List.mem_map_of_mem (List.mem_append_right _ List.mem_cons_self)

theorem mem_victims (hS : S.Realizes c) {l r : List Resident} {x : Resident}
    (hplace : S.contents.victims = l ++ x :: r) : x.key ∈ c.victims := by
  rw [← hS.victims, hplace]
  exact List.mem_map_of_mem (List.mem_append_right _ List.mem_cons_self)

theorem length_entries (hS : S.Realizes c) : S.contents.entries.length = c.entries.length := by
  rw [← hS.entries, List.length_map]

theorem value?_eq (hS : S.Realizes c) (key : Bytes) : S.index.value? key = c.index.value? key := by
  rw [← hS.index, Index.value?_unplaced]

/-- A key without a value is nowhere. -/
theorem not_mem_of_value?_eq_none (hS : S.Realizes c) (hvalue : c.index.value? key = none) :
    key ∉ c.entries ++ c.victims := by
  rw [← hS.entries, ← hS.victims, ← List.map_append]
  intro hm
  obtain ⟨x, hx, rfl⟩ := List.mem_map.1 hm
  have := hS.tallies.value?_eq hx
  rw [hS.value?_eq, hvalue] at this
  cases this

/-- The log and the file do not matter so long as nothing is in the way. -/
theorem withLog (hS : S.Realizes c) {log : Buffer → List Logged} {active : Buffer} {file : AppendFile}
    (hlog : Contents.Encoded { S.contents with log := log, active := active })
    (hfile : file.Flows c.filed) :
    Realizes { S with
      contents := { S.contents with log := log, active := active }
      file := file } c :=
  { hS with
    tallies := hS.tallies.perm (.refl _)
    encoded := hlog
    flows := hfile }

theorem evictOne (hS : S.Realizes c) :
    Realizes { S with
      contents := S.contents.evictedAt (S.policy.position S.contents.entries.length).1
      policy := (S.policy.position S.contents.entries.length).2 } c.evictOne := by
  rw [hS.policy, hS.length_entries]
  refine { hS with
    policy := rfl
    entries := ?_
    victims := ?_
    tallies := Contents.tallies_evictedAt hS.tallies _ }
  · rw [Cache.evictOne, KeyLists.evictAt, ← hS.entries]
    exact (List.eraseIdx_map ..).symm
  · simp only [Cache.evictOne, Cache.toKeyLists_withKeys, KeyLists.evictAt, Contents.evictedAt,
      ← hS.entries, ← hS.victims, List.map_append, List.getElem?_map, Option.toList_map]

theorem evictBatch (hS : S.Realizes c) (count : Nat) :
    Realizes { S with contents := S.contents.evicted count } (c.evictBatch count) := by
  refine { hS with
    entries := ?_
    victims := ?_
    tallies := Contents.tallies_evicted hS.tallies count }
  · rw [Cache.evictBatch, Cache.toKeyLists_withKeys, KeyLists.evict, ← hS.entries]
    simp [Contents.evicted, List.rdrop, List.map_take]
  · rw [Cache.evictBatch, Cache.toKeyLists_withKeys, KeyLists.evict, ← hS.entries, ← hS.victims]
    simp [Contents.evicted, List.rtake, List.map_drop]

theorem flushed (hS : S.Realizes c) {file : AppendFile} (hfile : file.Flows c.filed) :
    Realizes { S with
      contents := { S.contents with victims := [] }
      index := cleared S.index S.contents.victims
      file := file } c.flushed :=
  { hS with
    victims := rfl
    index := (Index.unplaced_congr (value?_cleared _ _)).trans hS.index
    tallies := hS.tallies.reclaim
    flows := hfile }

theorem touched (hS : S.Realizes c) (key : Bytes) : (S.touched key).Realizes (c.touched key) := by
  rw [Snapshot.touched, Cache.touched, ← hS.policy]
  by_cases hrecency : S.policy.tracksRecency = true
  · rw [if_pos hrecency, if_pos hrecency]
    by_cases hkey : key ∈ c.entries
    · obtain ⟨x, hx, rfl⟩ := List.mem_map.1 (hS.entries ▸ hkey)
      obtain ⟨l, r, hentries⟩ := List.append_of_mem hx
      have hkeys := hS.nodup_entries
      have htallies := Contents.tallies_promoted hS.tallies x.key
      rw [Contents.promoted_eq hkeys hentries] at htallies ⊢
      rw [KeyLists.use_of_mem hkey]
      refine { hS with entries := ?_, tallies := htallies }
      rw [hentries] at hkeys
      rw [Cache.toKeyLists_withKeys, ← hS.entries, hentries, KeyLists.filter_ne_of_nodup hkeys,
        List.map_cons]
    · rw [Contents.promoted_of_not_mem (hS.entries ▸ hkey), KeyLists.use_of_not_mem hkey]
      exact hS
  · rw [if_neg hrecency, if_neg hrecency]
    exact hS

/-- The keys after a value has been stored: the one that it is stored under comes first, unless it stays
where it has been. -/
theorem keys_stored (hS : S.Realizes c) {x : Resident} {z : Logged} {c' : Contents}
    (hstored : (S.contents.append z).Stored S.policy.tracksRecency x c') :
    c'.entries.map Resident.key = (c.put x.key x.value).entries ∧
      c'.victims.map Resident.key = (c.put x.key x.value).victims := by
  simp only [Cache.put, Cache.toKeyLists_withKeys, ← hS.policy]
  cases hstored with
  | fresh missing =>
    obtain ⟨hentries, hvictims⟩ := hS.not_mem_pairs.1 missing
    rw [if_pos (.inr hentries), KeyLists.enter, KeyLists.filter_ne_of_not_mem hentries,
      KeyLists.filter_ne_of_not_mem hvictims, ← hS.entries]
    exact ⟨rfl, hS.victims⟩
  | @returned l r y place named =>
    -- The key comes back from the victim pipeline, so it has not been in the entry store.
    have hplace : S.contents.victims = l ++ y :: r := place
    have hvictims : x.key ∈ c.victims := named ▸ hS.mem_victims hplace
    have hentries : x.key ∉ c.entries := fun hm => hS.not_mem_victims hm hvictims
    have hkeys := hS.nodup_victims
    rw [if_pos (.inr hentries), KeyLists.enter, KeyLists.filter_ne_of_not_mem hentries,
      ← hS.entries, ← hS.victims, ← named]
    rw [hplace] at hkeys ⊢
    exact ⟨congrArg (· :: _) named.symm, (KeyLists.filter_ne_of_nodup hkeys).symm⟩
  | @updated l r y place named =>
    -- The key has been in the entry store, where it stays or becomes the head.
    have hplace : S.contents.entries = l ++ y :: r := place
    have hentries : x.key ∈ c.entries := named ▸ hS.mem_entries hplace
    have hkeys := hS.nodup_entries
    rw [hplace] at hkeys
    by_cases hrecency : S.policy.tracksRecency = true
    · rw [if_pos hrecency, if_pos (Or.inl hrecency), KeyLists.enter,
        KeyLists.filter_ne_of_not_mem (hS.not_mem_victims hentries), ← hS.entries, hplace, ← named,
        KeyLists.filter_ne_of_nodup hkeys]
      exact ⟨congrArg (· :: _) named.symm, hS.victims⟩
    · rw [if_neg (not_or.2 ⟨hrecency, not_not.2 hentries⟩), if_neg hrecency, ← hS.entries, hplace]
      exact ⟨by simp [named], hS.victims⟩

/-- The keys after one has been removed, from wherever it has been. -/
theorem keys_removed (hS : S.Realizes c) {z : Logged} {c' : Contents}
    (hremoved : (S.contents.append z).Removed key c') :
    c'.entries.map Resident.key = (c.erased key).entries ∧
      c'.victims.map Resident.key = (c.erased key).victims := by
  simp only [Cache.erased, Cache.toKeyLists_withKeys, KeyLists.remove]
  cases hremoved with
  | missing missing =>
    obtain ⟨hentries, hvictims⟩ := hS.not_mem_pairs.1 missing
    rw [KeyLists.filter_ne_of_not_mem hentries, KeyLists.filter_ne_of_not_mem hvictims]
    exact ⟨hS.entries, hS.victims⟩
  | @found kind l r x place named =>
    subst named
    cases kind with
    | entries =>
      have hplace : S.contents.entries = l ++ x :: r := place
      have hentries := hS.mem_entries hplace
      have hkeys := hS.nodup_entries
      rw [hplace] at hkeys
      rw [KeyLists.filter_ne_of_not_mem (hS.not_mem_victims hentries), ← hS.entries, hplace,
        KeyLists.filter_ne_of_nodup hkeys]
      exact ⟨rfl, hS.victims⟩
    | victims =>
      have hplace : S.contents.victims = l ++ x :: r := place
      have hvictims := hS.mem_victims hplace
      have hkeys := hS.nodup_victims
      rw [hplace] at hkeys
      rw [KeyLists.filter_ne_of_not_mem fun hm => hS.not_mem_victims hm hvictims, ← hS.victims, hplace,
        KeyLists.filter_ne_of_nodup hkeys]
      exact ⟨hS.entries, rfl⟩

end Realizes

/-- **Once a value has been stored** under a key, the snapshot is that of a cache with the value. -/
theorem Puts.realizes (h : S.Puts key value S') (hS : S.Realizes c) :
    S'.Realizes (c.put key value) := by
  obtain ⟨rfl, rfl, hlogged, hstored⟩ := h
  rename_i x z c'
  have hreshuffled := Contents.Stored.reshuffled (c := S.contents.append z) hS.tallies.keys hstored
  have hlists := hS.keys_stored hstored
  exact {
    entries := hlists.1
    victims := hlists.2
    index := by rw [Index.unplaced_insert, hS.index]; rfl
    policy := hS.policy
    settings := hS.settings
    tallies := hstored.tallies hS.tallies
    encoded := (hS.encoded.append _ hlogged).congr hreshuffled.log
    flows := hS.flows }

/-- **Once a key has been removed**, the snapshot is that of a cache without it. -/
theorem Takes.realizes (h : S.Takes key S') (hS : S.Realizes c) : S'.Realizes (c.erased key) := by
  obtain ⟨hlogged, hremoved⟩ := h
  rename_i z c'
  have hreshuffled := Contents.Removed.reshuffled (c := S.contents.append z) hS.tallies.keys hremoved
  have hlists := hS.keys_removed hremoved
  exact {
    entries := hlists.1
    victims := hlists.2
    index := by rw [Index.unplaced_erase, hS.index]; rfl
    policy := hS.policy
    settings := hS.settings
    tallies := hremoved.tallies hS.tallies
    encoded := (hS.encoded.append _ hlogged).congr hreshuffled.log
    flows := hS.flows }

/-- Without a value there is nothing to remove. -/
theorem Realizes.erased (hS : S.Realizes c) (hvalue : c.index.value? key = none) :
    S.Realizes (c.erased key) := by
  obtain ⟨hentries, hvictims⟩ := not_or.1 (List.mem_append.not.1 (hS.not_mem_of_value?_eq_none hvalue))
  have hlists : c.remove key = c.toKeyLists := by
    rw [KeyLists.remove, KeyLists.filter_ne_of_not_mem hentries, KeyLists.filter_ne_of_not_mem hvictims]
  rw [Cache.erased, hlists, Index.erase_of_value?_eq_none hvalue]
  exact hS

end Snapshot

end PersistentTier
