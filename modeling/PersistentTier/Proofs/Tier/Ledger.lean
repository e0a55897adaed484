import PersistentTier.Proofs.Log.Buffers
import PersistentTier.Proofs.Pool.Durable
import PersistentTier.Proofs.Tier.Verdict

/-!
# The ledger of a tier

What counts of a tier are the lists of its pool, its index and the commands of its file. An
operation changes them in a few steps, each of which is done or not done as a whole. There are steps
that move pairs about, that carry out a command, that hand a log generation over to the file, and
that use the log buffers in some other way. A discipline says which of them an operation may take: a
quiet operation leaves the log generations alone but for appending to the current one, an ordered one
drains them in their order, and a free one does as it likes.

## Main definitions

* `Ledger`: the contents of a tier
* `Ledger.Shift`, `Change`, `Handover`, `Loose`: the steps of operations
* `Ledger.Step`, `Ledger.Steps`: the steps that a discipline permits
* `Ledger.Tallies`, `Ledger.Agrees`: index and pool agree on which keys are resident, and where

## Main results

* `Ledger.Agrees.step`: every step keeps index and pool in agreement, whatever its discipline
* `Ledger.Steps.setAside`: quiet steps leave the generation out of service alone
-/

namespace PersistentTier

open Command

/-! ## Logged commands -/

/-- The command that is logged, if it can be read. -/
def Logged.command? (x : Logged) : Option Command := (Command.decode x.command).toOption

theorem Logged.command?_eq {x : Logged} {cmd : Command} (hcmd : cmd.Fits)
    (hx : x.command = cmd.encode) : x.command? = some cmd := by
  rw [command?, hx, decode_encode hcmd]
  rfl

namespace Contents

variable (c : Contents)

/-- The commands of a log buffer, oldest first. -/
def generation (y : Buffer) : List Command := (c.log y).reverse.filterMap Logged.command?

/-- The commands of both log buffers, oldest first. -/
def logged : List Command := c.generation c.active.flipped ++ c.generation c.active

/-- What is logged is the encoded form of the commands. -/
theorem Regular.encoded {c : Contents} (hc : c.Regular) (y : Buffer) :
    (c.log y).reverse.map Logged.command = (c.generation y).map encode := by
  have hfits : ∀ z ∈ (c.log y).reverse, z.Fits := fun z hz => hc.log y z (List.mem_reverse.1 hz)
  rw [generation]
  generalize (c.log y).reverse = zs at hfits
  induction zs with
  | nil => rfl
  | cons z zs ih =>
    obtain ⟨cmd, hcmd, hz⟩ := hfits z List.mem_cons_self
    have hrest := ih fun w hw => hfits w (List.mem_cons_of_mem _ hw)
    rw [List.filterMap_cons_some (Logged.command?_eq hcmd hz), List.map_cons, List.map_cons, hrest, hz]

theorem Regular.fits_of_mem {c : Contents} (hc : c.Regular) {y : Buffer} {cmd : Command}
    (hcmd : cmd ∈ c.generation y) : cmd.Fits := by
  obtain ⟨z, hz, hzc⟩ := List.mem_filterMap.1 hcmd
  obtain ⟨cmd', hfits, hencoded⟩ := hc.log y z (List.mem_reverse.1 hz)
  rw [Logged.command?_eq hfits hencoded] at hzc
  exact Option.some.inj hzc ▸ hfits

theorem Regular.fits_logged {c : Contents} (hc : c.Regular) : ∀ cmd ∈ c.logged, cmd.Fits :=
  List.forall_mem_append.2 ⟨fun _ => hc.fits_of_mem, fun _ => hc.fits_of_mem⟩

/-- A key is that of an entry or of a victim. -/
theorem mem_keys_pairs {key : Bytes} : key ∈ c.pairs.map Resident.key ↔
    key ∈ c.entries.map Resident.key ∨ key ∈ c.victims.map Resident.key := by
  rw [pairs, List.map_append, List.mem_append]

/-- No victim has the key of an entry. -/
theorem Regular.not_victim {c : Contents} {key : Bytes} (hc : c.Regular)
    (hkey : key ∈ c.entries.map Resident.key) : key ∉ c.victims.map Resident.key := by
  have hkeys := hc.keys
  rw [Contents.pairs, List.map_append, List.nodup_append] at hkeys
  exact fun hm => hkeys.2.2 key hkey key hm rfl

theorem generation_setLog (y : Buffer) (zs : List Logged) :
    (c.setLog y zs).generation y = zs.reverse.filterMap Logged.command? := by
  rw [generation, log_setLog]

theorem generation_flipped_setLog (y : Buffer) (zs : List Logged) :
    (c.setLog y zs).generation y.flipped = c.generation y.flipped := by
  rw [generation, log_flipped_setLog, generation]

/-- The contents with one more command in the current buffer. -/
def append (z : Logged) : Contents := c.setLog c.active (z :: c.log c.active)

/-- A command that is logged is the latest. -/
theorem logged_append {z : Logged} {cmd : Command} (hcmd : cmd.Fits) (hz : z.command = cmd.encode) :
    (c.append z).logged = c.logged ++ [cmd] := by
  have hactive : (c.append z).active = c.active := rfl
  rw [logged, hactive, append, generation_setLog, generation_flipped_setLog, List.reverse_cons,
    List.filterMap_append, List.filterMap_cons_some (Logged.command?_eq hcmd hz), List.filterMap_nil,
    ← List.append_assoc]
  rfl

/-- The commands that are out of service, in the pool. -/
def outOfService : List Logged := c.log c.active.flipped

/-- Contents with the roles of the buffers exchanged. -/
def switched : Contents := { c with active := c.active.flipped }

/-- Contents without the generation that is out of service. -/
def drained : Contents := c.setLog c.active.flipped []

/-- The order of the commands stays the same if no generation is out of service when the buffers
exchange their roles. -/
theorem logged_switched (hout : c.outOfService = []) : c.switched.logged = c.logged := by
  have hempty : c.generation c.active.flipped = [] := by
    have hlog : c.log c.active.flipped = [] := hout
    rw [generation, hlog]
    rfl
  have hlogged : c.switched.logged =
      c.generation c.active.flipped.flipped ++ c.generation c.active.flipped := rfl
  rw [hlogged, logged, hempty, Buffer.flipped_flipped, List.append_nil, List.nil_append]

/-- Of the two generations, the current one is left. -/
theorem logged_drained : c.drained.logged = c.generation c.active := by
  have hlogged : c.drained.logged = c.drained.generation c.active.flipped ++
      c.drained.generation c.active.flipped.flipped := by
    rw [Buffer.flipped_flipped]
    rfl
  rw [hlogged, drained, generation_setLog, generation_flipped_setLog, Buffer.flipped_flipped]
  rfl

/-- **Contents with the same log** and with given pairs, in whatever order. -/
structure Reshuffled (c c' : Contents) (xs : List Resident) : Prop where
  pairs : c'.pairs.Perm xs
  log : c'.log = c.log
  active : c'.active = c.active

/-- A pair of the entry store becomes its head. -/
theorem reshuffled_front {c : Contents} {l r : List Resident} {x : Resident}
    (hc : c.entries = l ++ x :: r) : c.Reshuffled { c with entries := x :: (l ++ r) } c.pairs := by
  refine ⟨?_, rfl, rfl⟩
  simp only [pairs, hc]
  exact (List.perm_middle.append_right _).symm

theorem Reshuffled.logged {c c' : Contents} {xs : List Resident} (h : c.Reshuffled c' xs) :
    c'.logged = c.logged := by
  simp only [Contents.logged, generation, h.log, h.active]

end Contents

/-! ## Steps -/

/-- What counts of a tier. -/
structure Ledger where
  contents : Contents
  index : Index
  /-- The commands of the file. -/
  filed : List Command

/-- **How much an operation may do** to the log generations. -/
inductive Discipline
  /-- Commands are logged, and nothing else happens to the generations. -/
  | quiet
  /-- Generations are drained into the file, the older one first. -/
  | ordered
  /-- The generations are used for whatever a caller wants. -/
  | free
  deriving DecidableEq

namespace Ledger

/-- The index in which some pairs are no longer resident. -/
def cleared (index : Index) (xs : List Resident) : Index :=
  xs.foldl (fun index x => index.clearNode x.key x.node) index

/-- **A shift**: pairs are moved about. -/
inductive Shift : Ledger → Ledger → Prop
  /-- The pairs change their places. -/
  | rearrange {c c' : Contents} {index : Index} {filed : List Command}
      (result : c.Reshuffled c' c.pairs) : Shift ⟨c, index, filed⟩ ⟨c', index, filed⟩
  /-- The file is told of keys that are resident. -/
  | tell {c : Contents} {index : Index} {filed cmds : List Command} (fits : ∀ cmd ∈ cmds, cmd.Fits)
      (resident : ∀ cmd ∈ cmds, cmd.key ∈ c.pairs.map Resident.key) :
      Shift ⟨c, index, filed⟩ ⟨c, index, filed ++ cmds⟩
  /-- The victims are reclaimed, all of which the file tells of. -/
  | reclaim {c : Contents} {index : Index} {filed : List Command}
      (told : ∀ x ∈ c.victims, verdict x.key filed = some (some x.value)) :
      Shift ⟨c, index, filed⟩ ⟨{ c with victims := [] }, cleared index c.victims, filed⟩

/-- **A change** that an operation on a key makes. -/
inductive Change (key : Bytes) : Ledger → Ledger → Prop
  /-- A value is stored under the key. -/
  | write {c c' : Contents} {index : Index} {filed : List Command} {x : Resident} {z : Logged}
      (fits : x.Fits) (named : x.key = key) (encoded : z.command = (Command.set x.key x.value).encode)
      (result : (c.append z).Reshuffled c' (x :: c.pairs.filter fun y => y.key ≠ x.key)) :
      Change key ⟨c, index, filed⟩
        ⟨c', index.insert x.key { value := x.value, node := some x.node }, filed⟩
  /-- The key is removed. -/
  | remove {c c' : Contents} {index : Index} {filed : List Command} {z : Logged}
      (fits : (Command.del key).Fits) (encoded : z.command = (Command.del key).encode)
      (result : (c.append z).Reshuffled c' (c.pairs.filter fun y => y.key ≠ key)) :
      Change key ⟨c, index, filed⟩ ⟨c', index.erase key, filed⟩
  | shift {L L' : Ledger} (shifted : Shift L L') : Change key L L'

/-- **A handover** of log generations to the file, the older one first. -/
inductive Handover : Ledger → Ledger → Prop
  /-- The buffers exchange their roles, if none is out of service. -/
  | switch {c : Contents} {index : Index} {filed : List Command} (drained : c.outOfService = []) :
      Handover ⟨c, index, filed⟩ ⟨c.switched, index, filed⟩
  /-- The file is told of the generation out of service. -/
  | file {c : Contents} {index : Index} {filed : List Command} :
      Handover ⟨c, index, filed⟩ ⟨c, index, filed ++ c.generation c.active.flipped⟩
  /-- The generation out of service is freed, as soon as the file ends with it. -/
  | free {c : Contents} {index : Index} {filed : List Command} :
      Handover ⟨c, index, filed ++ c.generation c.active.flipped⟩
        ⟨c.drained, index, filed ++ c.generation c.active.flipped⟩

/-- **Some other use of the log buffers.** -/
inductive Loose : Ledger → Ledger → Prop
  /-- A command is logged that is not carried out. -/
  | log {c : Contents} {index : Index} {filed : List Command} {z : Logged} (fits : z.Fits) :
      Loose ⟨c, index, filed⟩ ⟨c.append z, index, filed⟩
  /-- The buffers exchange their roles. -/
  | switch {c : Contents} {index : Index} {filed : List Command} :
      Loose ⟨c, index, filed⟩ ⟨c.switched, index, filed⟩
  /-- Commands are added to the file. -/
  | file {c : Contents} {index : Index} {filed cmds : List Command}
      (fits : ∀ cmd ∈ cmds, cmd.Fits) : Loose ⟨c, index, filed⟩ ⟨c, index, filed ++ cmds⟩
  /-- A log buffer is emptied. -/
  | clear {c : Contents} {index : Index} {filed : List Command} (y : Buffer) :
      Loose ⟨c, index, filed⟩ ⟨c.setLog y [], index, filed⟩

/-- **A step** from one ledger to another. -/
inductive Step (d : Discipline) : Ledger → Ledger → Prop
  | change {key : Bytes} {L L' : Ledger} (changed : Change key L L') : Step d L L'
  | handOver {L L' : Ledger} (loud : d ≠ .quiet) (handed : Handover L L') : Step d L L'
  | loosely {L L' : Ledger} (free : d = .free) (loose : Loose L L') : Step d L L'
  /-- The file is replaced by the index. -/
  | compact {c : Contents} {index : Index} {filed : List Command} (loud : d ≠ .quiet)
      (drained : ∀ y, c.log y = []) :
      Step d ⟨c, index, filed⟩
        ⟨c, index, index.pairs.map fun pair => .set pair.1 pair.2⟩

/-- Steps one after another. -/
abbrev Steps (d : Discipline) : Ledger → Ledger → Prop := Relation.ReflTransGen (Step d)

/-! ## Agreement -/

/-- What is known of a key after pairs have been cleared. -/
theorem get?_cleared (index : Index) (xs : List Resident) (key : Bytes) (value : Bytes)
    (node : Handle) : (cleared index xs).get? key = some { value, node := some node } ↔
      index.get? key = some { value, node := some node } ∧
        ∀ x ∈ xs, x.key = key → x.node ≠ node := by
  -- Induction on the pairs, of which the first one is cleared first.
  induction xs generalizing index with
  | nil => simp [cleared]
  | cons x xs ih =>
    have hfirst : (index.clearNode x.key x.node).get? key = some { value, node := some node } ↔
        index.get? key = some { value, node := some node } ∧ (x.key = key → x.node ≠ node) := by
      rw [Index.get?_clearNode]
      cases index.get? key with
      | none => simp
      | some entry =>
        obtain ⟨value', node'⟩ := entry
        simp only [Option.map_some, Option.some.injEq]
        split
        · rename_i h
          obtain ⟨rfl, rfl⟩ := h
          constructor
          · rintro ⟨⟩
          · rintro ⟨he, hne⟩
            exact absurd (Option.some.inj (IndexEntry.mk.inj he).2) (hne rfl)
        · rename_i h
          constructor
          · rintro ⟨rfl, rfl⟩
            exact ⟨rfl, fun hk hn => h ⟨hk, by rw [hn]⟩⟩
          · exact fun h => h.1
    have hrest := ih (index.clearNode x.key x.node)
    rw [hfirst] at hrest
    simpa [cleared, and_assoc] using hrest

@[simp] theorem value?_cleared (index : Index) (xs : List Resident) (key : Bytes) :
    (cleared index xs).value? key = index.value? key := by
  induction xs generalizing index with
  | nil => rfl
  | cons x xs ih => exact (ih _).trans (index.value?_clearNode x.key key x.node)

/-- **The index tallies with the pairs.** No key is in two pairs, and a key is indexed with a node if
and only if the node is on a chain and stores that key with that value. -/
structure Tallies (c : Contents) (index : Index) : Prop where
  keys : (c.pairs.map Resident.key).Nodup
  resident : ∀ key value node, index.get? key = some { value, node := some node } ↔
    ∃ x ∈ c.pairs, x.node = node ∧ x.key = key ∧ x.value = value

namespace Tallies

variable {c c' : Contents} {index : Index} {key : Bytes}

/-- The order of the pairs does not matter. -/
theorem perm (h : Tallies c index) (hpairs : c'.pairs.Perm c.pairs) : Tallies c' index where
  keys := (hpairs.map Resident.key).nodup_iff.2 h.keys
  resident key value node := by
    simp only [hpairs.mem_iff]
    exact h.resident key value node

/-- The keys of pairs that are left are distinct. -/
theorem nodup_filter (h : Tallies c index) (keep : Resident → Bool) :
    ((c.pairs.filter keep).map Resident.key).Nodup :=
  h.keys.sublist (List.filter_sublist.map _)

/-- A resident key is indexed with the value that its node stores. -/
theorem value?_eq (h : Tallies c index) {x : Resident} (hx : x ∈ c.pairs) :
    index.value? x.key = some x.value := by
  rw [Index.value?, (h.resident x.key x.value x.node).2 ⟨x, hx, rfl, rfl, rfl⟩]
  rfl

/-- A key that is not resident is not indexed with a node. -/
theorem node_eq_none (h : Tallies c index) (hkey : key ∉ c.pairs.map Resident.key) :
    (index.get? key).bind IndexEntry.node = none := by
  cases hindex : index.get? key with
  | none => rfl
  | some entry =>
    obtain ⟨value, node⟩ := entry
    cases node with
    | none => rfl
    | some node =>
      obtain ⟨x, hx, -, rfl, -⟩ := (h.resident key value node).1 hindex
      exact absurd (List.mem_map_of_mem hx) hkey

/-- **A value is stored under a key.** -/
theorem write (h : Tallies c index) {x : Resident}
    (hpairs : c'.pairs.Perm (x :: c.pairs.filter fun y => y.key ≠ x.key)) :
    Tallies c' (index.insert x.key { value := x.value, node := some x.node }) where
  keys := by
    refine (hpairs.map Resident.key).nodup_iff.2 ?_
    refine List.nodup_cons.2 ⟨fun hm => ?_, h.nodup_filter _⟩
    obtain ⟨y, hy, hkey⟩ := List.mem_map.1 hm
    simpa [hkey] using (List.mem_filter.1 hy).2
  resident key value node := by
    simp only [Index.get?_insert, hpairs.mem_iff, List.mem_cons, List.mem_filter]
    by_cases hk : x.key = key
    · subst hk
      rw [if_pos rfl]
      constructor
      · rintro ⟨⟩
        exact ⟨x, .inl rfl, rfl, rfl, rfl⟩
      · rintro ⟨y, rfl | ⟨-, hne⟩, rfl, hkey, rfl⟩
        · rfl
        · simp [hkey] at hne
    · -- Of another key the index says what it said, and its pair has not been touched.
      rw [if_neg hk, h.resident]
      constructor
      · rintro ⟨y, hy, rfl, rfl, rfl⟩
        exact ⟨y, .inr ⟨hy, by simpa using Ne.symm hk⟩, rfl, rfl, rfl⟩
      · rintro ⟨y, rfl | ⟨hy, -⟩, rfl, hkey, rfl⟩
        · exact absurd hkey hk
        · exact ⟨y, hy, rfl, hkey, rfl⟩

/-- **A key is removed.** -/
theorem remove (h : Tallies c index) {key : Bytes}
    (hpairs : c'.pairs.Perm (c.pairs.filter fun y => y.key ≠ key)) :
    Tallies c' (index.erase key) where
  keys := (hpairs.map Resident.key).nodup_iff.2 (h.nodup_filter _)
  resident key' value node := by
    simp only [Index.get?_erase, hpairs.mem_iff, List.mem_filter]
    by_cases hk : key = key'
    · subst hk
      rw [if_pos rfl]
      constructor
      · rintro ⟨⟩
      · rintro ⟨y, ⟨-, hne⟩, rfl, hkey, rfl⟩
        simp [hkey] at hne
    · rw [if_neg hk, h.resident]
      constructor
      · rintro ⟨y, hy, rfl, rfl, rfl⟩
        exact ⟨y, ⟨hy, by simpa using Ne.symm hk⟩, rfl, rfl, rfl⟩
      · rintro ⟨y, ⟨hy, -⟩, rfl, hkey, rfl⟩
        exact ⟨y, hy, rfl, hkey, rfl⟩

/-- **The victims are reclaimed**, and the index no longer refers to their nodes. -/
theorem reclaim (h : Tallies c index) :
    Tallies { c with victims := [] } (cleared index c.victims) where
  keys := h.keys.sublist (((List.nil_sublist _).append_left _).map _)
  resident key value node := by
    have hpairs : ({ c with victims := [] } : Contents).pairs = c.entries := List.append_nil _
    have hkeys := h.keys
    rw [get?_cleared, h.resident, hpairs]
    simp only [Contents.pairs, List.mem_append, List.map_append, List.nodup_append] at hkeys ⊢
    constructor
    · rintro ⟨⟨x, hx | hx, rfl, rfl, rfl⟩, hne⟩
      · exact ⟨x, hx, rfl, rfl, rfl⟩
      · exact absurd rfl (hne x hx rfl)
    · rintro ⟨x, hx, rfl, rfl, rfl⟩
      refine ⟨⟨x, .inl hx, rfl, rfl, rfl⟩, fun y hy he => ?_⟩
      -- Clearing the victims spares it.
      exact absurd he.symm (hkeys.2.2 _ (List.mem_map_of_mem hx) _ (List.mem_map_of_mem hy))

end Tallies

/-- **Index and pool agree.** A key is indexed with a node if and only if the node is on a chain and
stores that key with that value. Everything is short enough to be stored. -/
structure Agrees (L : Ledger) : Prop where
  regular : L.contents.Regular
  resident : ∀ key value node, L.index.get? key = some { value, node := some node } ↔
    ∃ x ∈ L.contents.pairs, x.node = node ∧ x.key = key ∧ x.value = value
  indexed : ∀ key value, L.index.value? key = some value → (Command.set key value).Fits
  filed : ∀ cmd ∈ L.filed, cmd.Fits

namespace Agrees

variable {c c' : Contents} {index : Index} {filed : List Command} {xs : List Resident}

theorem tallies {L : Ledger} (hL : L.Agrees) : Tallies L.contents L.index :=
  ⟨hL.regular.keys, hL.resident⟩

/-- Contents of which the index tallies are regular if everything in them fits. -/
theorem regular_of_tallies (h : Tallies c' index) (hc : c.Regular) (hlog : c'.log = c.log)
    (hfits : ∀ x ∈ c'.pairs, x.Fits) : c'.Regular where
  keys := h.keys
  pairs := hfits
  log y := hlog ▸ hc.log y

theorem regular_setLog (hc : c.Regular) {y : Buffer} {zs : List Logged} (hzs : ∀ z ∈ zs, z.Fits) :
    (c.setLog y zs).Regular where
  keys := hc.keys
  pairs := hc.pairs
  log y' := by
    by_cases hy : y' = y
    · subst hy
      rwa [c.log_setLog]
    · have : (c.setLog y zs).log y' = c.log y' := Function.update_of_ne hy _ _
      rw [this]
      exact hc.log y'

theorem regular_append (hc : c.Regular) {z : Logged} (hz : z.Fits) : (c.append z).Regular :=
  regular_setLog hc fun w hw => by
    rcases List.mem_cons.1 hw with rfl | hw
    · exact hz
    · exact hc.log _ w hw

/-- **A value is stored under a key.** -/
theorem write (hL : Agrees ⟨c, index, filed⟩) {x : Resident} {z : Logged} (fits : x.Fits)
    (encoded : z.command = (Command.set x.key x.value).encode)
    (result : (c.append z).Reshuffled c' (x :: c.pairs.filter fun y => y.key ≠ x.key)) :
    Agrees ⟨c', index.insert x.key { value := x.value, node := some x.node }, filed⟩ := by
  have htallies := hL.tallies.write result.pairs
  refine ⟨regular_of_tallies htallies (regular_append hL.regular ⟨_, fits, encoded⟩) result.log ?_,
    htallies.resident, ?_, hL.filed⟩
  · intro y hy
    rcases List.mem_cons.1 (result.pairs.mem_iff.1 hy) with rfl | hy
    · exact fits
    · exact hL.regular.pairs y (List.mem_filter.1 hy).1
  · intro key value h
    simp only [Index.value?_insert] at h
    split at h
    · rename_i hk
      cases h
      exact hk ▸ fits
    · exact hL.indexed key value h

/-- **A key is removed.** -/
theorem remove (hL : Agrees ⟨c, index, filed⟩) {key : Bytes} {z : Logged} (hz : z.Fits)
    (result : (c.append z).Reshuffled c' (c.pairs.filter fun y => y.key ≠ key)) :
    Agrees ⟨c', index.erase key, filed⟩ := by
  have htallies := hL.tallies.remove result.pairs
  refine ⟨regular_of_tallies htallies (regular_append hL.regular hz) result.log ?_,
    htallies.resident, ?_, hL.filed⟩
  · exact fun y hy => hL.regular.pairs y (List.mem_filter.1 (result.pairs.mem_iff.1 hy)).1
  · intro key' value h
    simp only [Index.value?_erase] at h
    split at h
    · cases h
    · exact hL.indexed key' value h

/-- **The victims are reclaimed**, and the index no longer refers to their nodes. -/
theorem reclaim (hL : Agrees ⟨c, index, filed⟩) :
    Agrees ⟨{ c with victims := [] }, cleared index c.victims, filed⟩ := by
  have htallies := hL.tallies.reclaim
  refine ⟨regular_of_tallies htallies hL.regular rfl ?_, htallies.resident, ?_, hL.filed⟩
  · rw [Contents.pairs, List.append_nil]
    exact fun x hx => hL.regular.pairs x (List.mem_append_left _ hx)
  · intro key value h
    rw [value?_cleared] at h
    exact hL.indexed key value h

end Agrees

variable {d : Discipline} {L L' : Ledger}

/-- Shifts keep index and pool in agreement. -/
theorem Agrees.shift (hL : L.Agrees) (hshift : Shift L L') : L'.Agrees := by
  have ⟨hregular, hresident, hindexed, hfiled⟩ := hL
  cases hshift with
  | rearrange result =>
    have htallies := hL.tallies.perm result.pairs
    refine ⟨regular_of_tallies htallies hregular result.log fun x hx => ?_, htallies.resident,
      hindexed, hfiled⟩
    exact hregular.pairs x (result.pairs.mem_iff.1 hx)
  | tell fits resident =>
    exact ⟨hregular, hresident, hindexed, fun cmd hcmd =>
      (List.mem_append.1 hcmd).elim (hfiled cmd) (fits cmd)⟩
  | reclaim told => exact hL.reclaim

/-- **Every step keeps index and pool in agreement.** -/
theorem Agrees.step (hL : L.Agrees) (hstep : Step d L L') : L'.Agrees := by
  have ⟨hregular, hresident, hindexed, hfiled⟩ := hL
  -- Only changes touch the index; the rest keep it, and the pairs.
  have hpairs : ∀ {c : Contents} {filed : List Command}, c.Regular → c.pairs = L.contents.pairs →
      (∀ cmd ∈ filed, cmd.Fits) → Agrees ⟨c, L.index, filed⟩ := fun hc hsame hfits =>
    ⟨hc, fun key value node => by rw [hresident, ← hsame], hindexed, hfits⟩
  have hfile : ∀ {cmds : List Command}, (∀ cmd ∈ cmds, cmd.Fits) →
      ∀ cmd ∈ L.filed ++ cmds, cmd.Fits := fun fits cmd hcmd =>
    (List.mem_append.1 hcmd).elim (hfiled cmd) (fits cmd)
  have hclear : ∀ y, (L.contents.setLog y []).Regular := fun y =>
    regular_setLog hregular fun _ h => absurd h List.not_mem_nil
  cases hstep with
  | change changed =>
    cases changed with
    | write fits named encoded result => exact hL.write fits encoded result
    | remove fits encoded result => exact hL.remove ⟨_, fits, encoded⟩ result
    | shift shifted => exact hL.shift shifted
  | handOver loud handed =>
    cases handed with
    | switch drained => exact hpairs ⟨hregular.keys, hregular.pairs, hregular.log⟩ rfl hfiled
    | file => exact hpairs hregular rfl (hfile fun _ h => hregular.fits_of_mem h)
    | free => exact hpairs (hclear _) rfl hfiled
  | loosely free loose =>
    cases loose with
    | log fits => exact hpairs (regular_append hregular fits) rfl hfiled
    | switch => exact hpairs ⟨hregular.keys, hregular.pairs, hregular.log⟩ rfl hfiled
    | file fits => exact hpairs hregular rfl (hfile fits)
    | clear y => exact hpairs (hclear y) rfl hfiled
  | compact loud drained =>
    refine hpairs hregular rfl fun cmd hcmd => ?_
    obtain ⟨⟨key, value⟩, hm, rfl⟩ := List.mem_map.1 hcmd
    exact hindexed key value (Index.mem_pairs.1 hm)

theorem Agrees.steps (hL : L.Agrees) (hsteps : Steps d L L') : L'.Agrees := by
  induction hsteps with
  | refl => exact hL
  | tail _ hstep ih => exact ih.step hstep

/-- Index and pool stay in agreement while the contents change in some way. -/
structure Moves (R : Contents → Contents → Prop) (L L' : Ledger) : Prop where
  agrees : L.Agrees → L'.Agrees
  contents : R L.contents L'.contents

section Moving

variable {R : Contents → Contents → Prop}

theorem Step.moves (h : Step d L L') (hR : R L.contents L'.contents) : Moves R L L' :=
  ⟨fun hL => hL.step h, hR⟩

theorem Handover.moves (h : Handover L L') (hR : R L.contents L'.contents) : Moves R L L' :=
  (Step.handOver (d := .ordered) (by simp) h).moves hR

theorem Loose.moves (h : Loose L L') (hR : R L.contents L'.contents) : Moves R L L' :=
  (Step.loosely rfl h).moves hR

end Moving

/-! ## Disciplines -/

/-- A shift leaves the log and the values alone. -/
theorem Shift.logged_eq (h : Shift L L') : L'.contents.logged = L.contents.logged := by
  cases h with
  | rearrange result => exact result.logged
  | tell | reclaim => rfl

theorem Shift.value?_eq (h : Shift L L') (key : Bytes) :
    L'.index.value? key = L.index.value? key := by
  cases h with
  | rearrange | tell => rfl
  | reclaim => exact value?_cleared _ _ key

/-- What shifts leave alone. -/
theorem Shift.kept (h : Relation.ReflTransGen Shift L L') :
    L'.contents.logged = L.contents.logged ∧
      ∀ key, L'.index.value? key = L.index.value? key := by
  induction h with
  | refl => exact ⟨rfl, fun _ => rfl⟩
  | tail _ hshift ih =>
    exact ⟨hshift.logged_eq.trans ih.1, fun key => (hshift.value?_eq key).trans (ih.2 key)⟩

/-- A shift is a change of any key, so it is permitted under any discipline. -/
theorem Shift.step (d : Discipline) (h : Shift L L') : Step d L L' :=
  .change (.shift h : Change [] L L')

theorem Shift.steps (d : Discipline) (h : Relation.ReflTransGen Shift L L') : Steps d L L' :=
  h.lift id fun _ _ => Shift.step d

/-- Changes are permitted under any discipline. -/
theorem Change.steps (d : Discipline) {key : Bytes} (h : Relation.ReflTransGen (Change key) L L') :
    Steps d L L' := h.lift id fun _ _ hchange => Step.change hchange

/-- Handovers are not permitted under the quiet discipline only. -/
theorem Handover.steps (hd : d ≠ .quiet) (h : Relation.ReflTransGen Handover L L') : Steps d L L' :=
  h.lift id fun _ _ hhand => Step.handOver hd hhand

theorem Agrees.shifts (hL : L.Agrees) (h : Relation.ReflTransGen Shift L L') : L'.Agrees :=
  hL.steps (Shift.steps .quiet h)

theorem Agrees.handovers (hL : L.Agrees) (h : Relation.ReflTransGen Handover L L') : L'.Agrees :=
  hL.steps (Handover.steps (d := .ordered) (by simp) h)

theorem Steps.of_quiet (hsteps : Steps .quiet L L') (d : Discipline) : Steps d L L' := by
  refine hsteps.lift id fun _ _ hstep => ?_
  cases hstep with
  | change changed => exact .change changed
  | handOver loud | compact loud => exact absurd rfl loud
  | loosely free => cases free

/-- **Logging goes to the current buffer only.** -/
theorem Change.log_eq {key : Bytes} (h : Change key L L') :
    L'.contents.active = L.contents.active ∧
      L'.contents.log L.contents.active.flipped = L.contents.log L.contents.active.flipped ∧
      ∃ newer, L'.contents.log L.contents.active = newer ++ L.contents.log L.contents.active := by
  have happend : ∀ {c c' : Contents} {xs : List Resident} {z : Logged},
      (c.append z).Reshuffled c' xs → c'.active = c.active ∧
        c'.log c.active.flipped = c.log c.active.flipped ∧
        ∃ newer, c'.log c.active = newer ++ c.log c.active := fun {c _ _ z} result => by
    refine ⟨result.active, ?_, [z], ?_⟩
    · rw [result.log]
      exact c.log_flipped_setLog _ _
    · rw [result.log]
      exact c.log_setLog _ _
  cases h with
  | write fits named encoded result => exact happend result
  | remove fits encoded result => exact happend result
  | shift shifted =>
    cases shifted with
    | rearrange result => exact ⟨result.active, by rw [result.log], [], by rw [result.log]; rfl⟩
    | tell | reclaim => exact ⟨rfl, rfl, [], rfl⟩

/-- **Quiet steps leave the generation out of service alone.** -/
theorem Steps.setAside (hsteps : Steps .quiet L L') :
    L'.contents.active = L.contents.active ∧
      L'.contents.log L.contents.active.flipped = L.contents.log L.contents.active.flipped := by
  induction hsteps with
  | refl => exact ⟨rfl, rfl⟩
  | tail _ hstep ih =>
    obtain ⟨hactive, hlog⟩ := ih
    cases hstep with
    | change changed =>
      obtain ⟨hactive', hlog', -⟩ := changed.log_eq
      rw [hactive] at hactive' hlog'
      exact ⟨hactive', hlog'.trans hlog⟩
    | handOver loud | compact loud => exact absurd rfl loud
    | loosely free => cases free

end Ledger

end PersistentTier
