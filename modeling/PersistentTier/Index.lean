import PersistentTier.Object.Layout

/-!
# The key index

The index maps every key to its value and, if the key is resident in the pool, to its node. It is
kept as a list of pairs in the order of the keys, each key once.

## Main definitions

* `IndexEntry`, `Index`, `Index.empty`
* `Index.get?`, `insert`, `erase`, `clearNode`, `size`, `toList`

## Main results

* `Index.get?_insert`, `Index.get?_erase`, `Index.get?_clearNode`: the index as a map
-/

namespace PersistentTier

/-- What the index knows of a key. -/
structure IndexEntry where
  value : Bytes
  /-- The key's node, if the key is resident in the pool. -/
  node : Option Handle := none
  deriving DecidableEq, Repr, Inhabited

/-- The keys with what is known of them. -/
structure Index where
  /-- The keys in lexicographic order. -/
  toList : List (Bytes × IndexEntry)
  /-- Every key comes once and in its place. -/
  sorted : toList.Pairwise fun a b => a.1 < b.1
  deriving DecidableEq, Repr

namespace Index

/-- The index of no keys. -/
def empty : Index := ⟨[], .nil⟩

instance : Inhabited Index := ⟨empty⟩

/-- What a list of pairs says about a key. -/
def lookup (key : Bytes) : List (Bytes × IndexEntry) → Option IndexEntry
  | [] => none
  | (k, e) :: rest => if k = key then some e else lookup key rest

/-- What is known of a key. -/
def get? (index : Index) (key : Bytes) : Option IndexEntry := lookup key index.toList

/-- The number of keys. -/
def size (index : Index) : Nat := index.toList.length

/-- Whether there is no key. -/
def isEmpty (index : Index) : Bool := index.size == 0

/-- A list of pairs in the order of keys, with one more key or another entry for a key. -/
def insertSorted (key : Bytes) (entry : IndexEntry) : List (Bytes × IndexEntry) →
    List (Bytes × IndexEntry)
  | [] => [(key, entry)]
  | (k, e) :: rest =>
    if k = key then (key, entry) :: rest
    else if key < k then (key, entry) :: (k, e) :: rest
    else (k, e) :: insertSorted key entry rest

theorem mem_insertSorted {key : Bytes} {entry : IndexEntry} {list : List (Bytes × IndexEntry)}
    {pair : Bytes × IndexEntry} (h : pair ∈ insertSorted key entry list) :
    pair = (key, entry) ∨ pair ∈ list := by
  induction list with
  | nil => simpa [insertSorted] using h
  | cons head rest ih =>
    obtain ⟨k, e⟩ := head
    simp only [insertSorted] at h
    split at h
    · rcases List.mem_cons.1 h with h | h
      · exact .inl h
      · exact .inr (List.mem_cons_of_mem _ h)
    · split at h
      · simpa using h
      · rcases List.mem_cons.1 h with h | h
        · exact .inr (h ▸ List.mem_cons_self)
        · exact (ih h).imp_right (List.mem_cons_of_mem _)

theorem sorted_insertSorted (key : Bytes) (entry : IndexEntry)
    {list : List (Bytes × IndexEntry)} (h : list.Pairwise fun a b => a.1 < b.1) :
    (insertSorted key entry list).Pairwise fun a b => a.1 < b.1 := by
  induction list with
  | nil => simp [insertSorted]
  | cons head rest ih =>
    obtain ⟨k, e⟩ := head
    obtain ⟨hhead, hrest⟩ := List.pairwise_cons.1 h
    simp only [insertSorted]
    split
    · rename_i hk
      exact List.pairwise_cons.2 ⟨fun pair hp => hk ▸ hhead pair hp, hrest⟩
    · rename_i hk
      split
      · rename_i hlt
        refine List.pairwise_cons.2 ⟨fun pair hp => ?_, h⟩
        rcases List.mem_cons.1 hp with hp | hp
        · exact hp ▸ hlt
        · exact List.lt_trans hlt (hhead pair hp)
      · rename_i hlt
        refine List.pairwise_cons.2 ⟨fun pair hp => ?_, ih hrest⟩
        rcases mem_insertSorted hp with hp | hp
        · exact hp ▸ Std.lt_of_le_of_ne (List.not_lt.1 hlt) hk
        · exact hhead pair hp

/-- The index with an entry for a key. -/
def insert (index : Index) (key : Bytes) (entry : IndexEntry) : Index :=
  ⟨insertSorted key entry index.toList, sorted_insertSorted key entry index.sorted⟩

/-- The index without a key. -/
def erase (index : Index) (key : Bytes) : Index :=
  ⟨index.toList.filter fun pair => pair.1 ≠ key, index.sorted.filter _⟩

/-- The index in which a key no longer refers to a node, if it is that node it referred to. -/
def clearNode (index : Index) (key : Bytes) (node : Handle) : Index :=
  match index.get? key with
  | some entry =>
    if entry.node = some node then index.insert key { entry with node := none } else index
  | none => index

/-- The keys with their values, in the order of keys. -/
def pairs (index : Index) : List (Bytes × Bytes) :=
  index.toList.map fun (key, entry) => (key, entry.value)

theorem lookup_insertSorted (key key' : Bytes) (entry : IndexEntry)
    (list : List (Bytes × IndexEntry)) :
    lookup key' (insertSorted key entry list) =
      if key = key' then some entry else lookup key' list := by
  induction list with
  | nil => simp [insertSorted, lookup]
  | cons pair rest ih =>
    obtain ⟨k, e⟩ := pair
    simp only [insertSorted]
    split
    · rename_i hk
      subst hk
      simp only [lookup]
      split <;> rfl
    · split
      · simp only [lookup]
      · simp only [lookup, ih]
        split
        · rename_i hk
          subst hk
          simp_all [eq_comm]
        · rfl

/-- Inserting a key changes what is known of that key. -/
@[simp] theorem get?_insert (index : Index) (key key' : Bytes) (entry : IndexEntry) :
    (index.insert key entry).get? key' = if key = key' then some entry else index.get? key' :=
  lookup_insertSorted key key' entry index.toList

theorem lookup_filter_ne (key key' : Bytes) (list : List (Bytes × IndexEntry)) :
    lookup key' (list.filter fun pair => pair.1 ≠ key) =
      if key = key' then none else lookup key' list := by
  induction list with
  | nil => simp [lookup]
  | cons pair rest ih =>
    obtain ⟨k, e⟩ := pair
    by_cases hk : k = key
    · subst hk
      by_cases hk' : k = key' <;> simp_all [lookup]
    · by_cases hk' : key = key'
      · subst hk'
        simp_all [lookup]
      · simp_all [lookup]

/-- Erasing a key makes it unknown. -/
@[simp] theorem get?_erase (index : Index) (key key' : Bytes) :
    (index.erase key).get? key' = if key = key' then none else index.get? key' :=
  lookup_filter_ne key key' index.toList

/-- Clearing a node keeps every value. -/
theorem get?_clearNode (index : Index) (key key' : Bytes) (node : Handle) :
    (index.clearNode key node).get? key' = (index.get? key').map fun entry =>
      if key = key' ∧ entry.node = some node then { entry with node := none } else entry := by
  -- The index stays as it is unless the key has an entry that refers to the node.
  have hkept (hother : ∀ entry, index.get? key = some entry → entry.node ≠ some node) :
      index.get? key' = (index.get? key').map fun entry =>
        if key = key' ∧ entry.node = some node then { entry with node := none } else entry := by
    cases hentry : index.get? key' with
    | none => rfl
    | some entry =>
      have hne : ¬(key = key' ∧ entry.node = some node) := by
        rintro ⟨rfl, hnode⟩
        exact hother entry hentry hnode
      rw [Option.map_some, if_neg hne]
  simp only [clearNode]
  split
  · rename_i entry hentry
    split
    · rename_i hnode
      rw [get?_insert]
      split
      · rename_i hk
        subst hk
        simp [hentry, hnode]
      · rename_i hk
        cases index.get? key' <;> simp [hk]
    · rename_i hnode
      exact hkept fun entry' hentry' => Option.some.inj (hentry.symm.trans hentry') ▸ hnode
  · rename_i hnone
    exact hkept fun entry hentry => absurd (hnone.symm.trans hentry) (Option.some_ne_none entry).symm

end Index

end PersistentTier
