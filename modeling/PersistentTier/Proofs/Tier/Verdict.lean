import PersistentTier.Tier.Basic

/-!
# What a run of commands says of a key

Of the commands about a key the last one counts. Commands that are run one after another give a key
the value that the last of them says, and leave alone the keys they do not mention.

## Main definitions

* `Index.value?`: the value of a key
* `Command.verdict`: what commands say of a key, if they mention it

## Main results

* `Command.verdict_append`: later commands come first
* `Index.value?_foldl_apply`: the values after a run of commands
* `Index.verdict_pairs`: an index is told by one `set` for each of its keys
-/

namespace PersistentTier

/-! ## The values of an index -/

namespace Index

variable (index : Index) (key key' : Bytes)

/-- The value of a key. -/
def value? : Option Bytes := (index.get? key).map IndexEntry.value

@[simp] theorem value?_empty : empty.value? key = none := rfl

@[simp] theorem value?_insert (entry : IndexEntry) :
    (index.insert key entry).value? key' =
      if key = key' then some entry.value else index.value? key' := by
  simp only [value?, get?_insert]
  split <;> rfl

@[simp] theorem value?_erase :
    (index.erase key).value? key' = if key = key' then none else index.value? key' := by
  simp only [value?, get?_erase]
  split <;> rfl

@[simp] theorem value?_clearNode (node : Handle) :
    (index.clearNode key node).value? key' = index.value? key' := by
  rw [value?, get?_clearNode, Option.map_map, value?]
  congr 1
  funext entry
  simp only [Function.comp_apply]
  split <;> rfl

end Index

/-! ## Verdicts -/

namespace Command

/-- What a command makes of its key. -/
def outcome : Command → Option Bytes
  | .set _ value => some value
  | .del _ => none

/-- **What commands say of a key**, if they mention it. The last one counts. -/
def verdict (key : Bytes) : List Command → Option (Option Bytes)
  | [] => none
  | cmd :: cmds => (verdict key cmds).or (if cmd.key = key then some cmd.outcome else none)

variable {key : Bytes} {cmds : List Command}

@[simp] theorem verdict_nil (key : Bytes) : verdict key [] = none := rfl

@[simp] theorem verdict_singleton (key : Bytes) (cmd : Command) :
    verdict key [cmd] = if cmd.key = key then some cmd.outcome else none := rfl

/-- **Later commands come first.** -/
@[simp] theorem verdict_append (key : Bytes) (l r : List Command) :
    verdict key (l ++ r) = (verdict key r).or (verdict key l) := by
  induction l with
  | nil => simp
  | cons cmd l ih => rw [List.cons_append, verdict, ih, Option.or_assoc, verdict]

/-- Commands say nothing of the keys they do not mention. -/
theorem verdict_eq_none : verdict key cmds = none ↔ ∀ cmd ∈ cmds, cmd.key ≠ key := by
  induction cmds with
  | nil => simp
  | cons cmd cmds ih => simp [verdict, Option.or_eq_none_iff, ih, and_comm]

/-- What commands set a key to comes from one of them. -/
theorem mem_of_verdict {value : Bytes} (h : verdict key cmds = some (some value)) :
    .set key value ∈ cmds := by
  induction cmds with
  | nil => cases h
  | cons cmd cmds ih =>
    rw [verdict, Option.or_eq_some_iff] at h
    rcases h with h | ⟨-, h⟩
    · exact List.mem_cons_of_mem _ (ih h)
    · split at h
      · rename_i hk
        subst hk
        cases cmd with
        | set key' value' =>
          cases h
          exact List.mem_cons_self
        | del key' => cases h
      · cases h

/-- One `set` for each of some distinct keys says what they are set to. -/
theorem verdict_sets {α : Type} {name value : α → Bytes} {items : List α}
    (hkeys : (items.map name).Nodup) {x : α} (hx : x ∈ items) :
    verdict (name x) (items.map fun y => .set (name y) (value y)) = some (some (value x)) := by
  -- The keys that come later are other ones, so the first `set` of a key is the only one.
  induction items with
  | nil => simp at hx
  | cons y items ih =>
    obtain ⟨hy, hrest⟩ := List.nodup_cons.1 hkeys
    rw [List.map_cons, verdict]
    rcases List.mem_cons.1 hx with rfl | hx
    · have hnone : verdict (name x) (items.map fun y => .set (name y) (value y)) = none := by
        refine verdict_eq_none.2 fun cmd hcmd he => hy ?_
        obtain ⟨z, hz, rfl⟩ := List.mem_map.1 hcmd
        exact he ▸ List.mem_map_of_mem hz
      rw [hnone, Command.key, if_pos rfl]
      rfl
    · rw [ih hrest hx]
      rfl

end Command

namespace Index

open Command

variable (index : Index) (key : Bytes)

@[simp] theorem value?_apply (cmd : Command) :
    (index.apply cmd).value? key = if cmd.key = key then cmd.outcome else index.value? key := by
  cases cmd with
  | set key' value => exact value?_insert index key' key { value := value }
  | del key' => exact value?_erase index key' key

/-- **The values after a run of commands.** -/
theorem value?_foldl_apply (cmds : List Command) :
    (cmds.foldl Index.apply index).value? key = (verdict key cmds).getD (index.value? key) := by
  induction cmds generalizing index with
  | nil => rfl
  | cons cmd cmds ih =>
    rw [List.foldl_cons, ih, verdict, value?_apply]
    cases verdict key cmds with
    | some outcome => rfl
    | none => split <;> rfl

/-- No command makes a key resident in the pool. -/
theorem node_foldl_apply {cmds : List Command} {entry : IndexEntry}
    (h : (cmds.foldl Index.apply index).get? key = some entry)
    (hindex : ∀ entry, index.get? key = some entry → entry.node = none) : entry.node = none := by
  -- A `set` indexes its key without a node, and a `del` removes the key.
  induction cmds generalizing index with
  | nil => exact hindex entry h
  | cons cmd cmds ih =>
    refine ih (index.apply cmd) h fun entry he => ?_
    cases cmd with
    | set key' value =>
      simp only [apply, get?_insert] at he
      split at he
      · cases he
        rfl
      · exact hindex entry he
    | del key' =>
      simp only [apply, get?_erase] at he
      split at he
      · cases he
      · exact hindex entry he

variable {index key}

/-- What is known of a key is what its place in the list says. -/
theorem mem_toList {entry : IndexEntry} :
    (key, entry) ∈ index.toList ↔ index.get? key = some entry := by
  obtain ⟨list, sorted⟩ := index
  simp only [get?]
  induction list with
  | nil => simp [lookup]
  | cons pair rest ih =>
    obtain ⟨k, e⟩ := pair
    obtain ⟨hhead, hrest⟩ := List.pairwise_cons.1 sorted
    rw [List.mem_cons, lookup, ih hrest]
    by_cases hk : k = key
    · subst hk
      -- Later keys are greater, so the key does not come again.
      have hnot : lookup k rest ≠ some entry := fun hl =>
        absurd (hhead _ ((ih hrest).2 hl)) (Std.lt_irrefl)
      simp [hnot, eq_comm]
    · simp [hk, Ne.symm hk]

/-- The pairs in the order of keys are the keys with their values. -/
theorem mem_pairs {value : Bytes} : (key, value) ∈ index.pairs ↔ index.value? key = some value := by
  simp only [pairs, value?, List.mem_map, Option.map_eq_some_iff, ← mem_toList]
  constructor
  · rintro ⟨⟨k, e⟩, hm, he⟩
    obtain ⟨rfl, rfl⟩ := Prod.ext_iff.1 he
    exact ⟨e, hm, rfl⟩
  · rintro ⟨e, hm, rfl⟩
    exact ⟨(key, e), hm, rfl⟩

theorem nodup_keys (index : Index) : (index.pairs.map Prod.fst).Nodup := by
  have hmap : index.pairs.map Prod.fst = index.toList.map Prod.fst := by
    simp [pairs, List.map_map, Function.comp_def]
  rw [hmap]
  refine List.pairwise_map.2 (index.sorted.imp fun h he => ?_)
  exact Std.lt_irrefl (he ▸ h)

/-- **An index is told by one `set` for each of its keys.** -/
theorem verdict_pairs (index : Index) (key : Bytes) :
    verdict key (index.pairs.map fun pair => .set pair.1 pair.2) = (index.value? key).map some := by
  cases hv : index.value? key with
  | some value => exact verdict_sets index.nodup_keys (mem_pairs.2 hv)
  | none =>
    refine verdict_eq_none.2 fun cmd hcmd he => ?_
    obtain ⟨⟨k, v⟩, hm, rfl⟩ := List.mem_map.1 hcmd
    obtain rfl : k = key := he
    rw [mem_pairs.1 hm] at hv
    cases hv

end Index

end PersistentTier
