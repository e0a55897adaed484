import PersistentTier.Proofs.Tier.Commands
import PersistentTier.Proofs.Tier.Snapshot

/-!
# What operations make of a snapshot

For each operation of a tier it is said what the lists, the index and the file are afterwards, and what
is left if it fails. An operation in a scope of its own leaves the snapshot alone if it fails. Flushing
and draining tell the file of something first, so a failure may leave the file with more commands.

## Main definitions

* `AppendFile.Flows`: a file on which no operation fails
* `Contents.evictedAt`, `Contents.promoted`: one pair moves
* `Snapshot.Rearranges`: pairs have been evicted
* `Snapshot.touched`: a key has been looked up
* `Snapshot.Puts`, `Snapshot.Takes`: a value has been stored under a key, a key has been removed
* `Snapshot.Tells`: the file has been told of a generation of the log

## Main results

* `turns_evictOne`, `turns_evictBatch`, `turns_flushVictims`: eviction and flushing
* `turns_evictSome`, `turns_enforceEntryLimit`: one round of the eviction loop, and the whole loop
* `turns_insert`, `turns_get?`, `turns_erase`: the operations on a key
* `turns_appendCommand`, `turns_switchBuffers`, `turns_clearCurrentBuffer`: the log
* `turns_beginDrain`, `turns_fileDrain`, `turns_completeDrain`, `turns_flushLog`: drains
-/

namespace PersistentTier

open Tx Ledger

/-- **A file on which no operation fails**: one of commands that is written, or one that is idle. -/
def AppendFile.Flows (live : Bool) (f : AppendFile) : Prop := ∃ filed, f.Carries live filed

namespace Contents

variable (c : Contents)

/-- The contents after the pair in one position has been evicted, if there is one. -/
def evictedAt (i : Nat) : Contents :=
  { c with entries := c.entries.eraseIdx i, victims := c.entries[i]?.toList ++ c.victims }

/-- The contents after the pair of a key has become the head of the entry store, if it is there. -/
def promoted (key : Bytes) : Contents :=
  { c with entries := c.entries.filter (·.key = key) ++ c.entries.filter (·.key ≠ key) }

/-- The log consists of commands in their encoded form. -/
def Encoded : Prop := ∀ y, ∀ z ∈ c.log y, ∃ cmd : Command, z.command = cmd.encode

/-- The buffer that is drained next. -/
def due : Buffer := if c.outOfService = [] then c.active else c.active.flipped

variable {c} {l r : List Resident} {x : Resident} {key : Bytes}

/-- Nothing is logged if the buffer that is drained next is empty. -/
theorem log_eq_nil_of_due (hdue : c.log c.due = []) (y : Buffer) : c.log y = [] := by
  unfold due at hdue
  split at hdue
  · rename_i hout
    by_cases hy : y = c.active
    · rw [hy, hdue]
    · rw [Buffer.eq_flipped_of_ne hy]
      exact hout
  · rename_i hout
    exact absurd hdue hout

/-- The buffer that is drained next and the other one, by their roles. -/
theorem length_due : (c.log c.due).length + (c.log c.due.flipped).length =
    c.outOfService.length + (c.log c.active).length := by
  unfold due
  split
  · exact Nat.add_comm _ _
  · rw [Buffer.flipped_flipped]
    rfl

/-- Once a drain has begun, the buffer that is drained next is out of service. -/
theorem outOfService_of_begun (c : Contents) {c' : Contents}
    (hc' : c' = if c.outOfService = [] then c.switched else c) :
    c'.outOfService = c.log c.due ∧
      c'.drained = { c.setLog c.due [] with active := c'.active } := by
  by_cases hempty : c.outOfService = []
  · have hdue : c.due = c.active := if_pos hempty
    rw [hc', if_pos hempty, hdue]
    simp only [outOfService, drained, switched, Buffer.flipped_flipped, true_and]
    rfl
  · have hdue : c.due = c.active.flipped := if_neg hempty
    rw [hc', if_neg hempty, hdue]
    exact ⟨rfl, rfl⟩

/-- When one generation has been drained and none is out of service, the other one is left. -/
theorem log_active_of_drained {c' : Contents} (hlogs : c'.log = (c.setLog c.due []).log)
    (hout : c'.outOfService = []) : c'.log c'.active = c.log c.due.flipped := by
  have hother : c'.log c.due.flipped = c.log c.due.flipped := by rw [hlogs, log_flipped_setLog]
  by_cases hy : c'.active = c.due
  · have hnone : c.log c.due.flipped = [] := by
      rw [← hother, ← hy]
      exact hout
    rw [hnone, hy, hlogs, log_setLog]
  · rw [Buffer.eq_flipped_of_ne hy, hother]

/-- Nothing is logged any more when the current generation has been drained as well. -/
theorem setLog_active_of_drained (hout : c.outOfService = []) :
    c.setLog c.active [] = { c with log := fun _ => [] } := by
  have hempty : Function.update c.log c.active [] = fun _ => [] := by
    funext y
    by_cases hy : y = c.active
    · rw [hy, Function.update_self]
    · rw [Function.update_of_ne hy, Buffer.eq_flipped_of_ne hy]
      exact hout
  rw [setLog, hempty]

/-- The commands of a buffer, oldest first. -/
theorem Encoded.exists_commands (hc : c.Encoded) (y : Buffer) :
    ∃ cmds : List Command, (c.log y).reverse.map Logged.command = cmds.map Command.encode := by
  have hmem : ∀ z ∈ (c.log y).reverse, ∃ cmd : Command, z.command = cmd.encode := fun z hz =>
    hc y z (List.mem_reverse.1 hz)
  generalize (c.log y).reverse = zs at hmem ⊢
  induction zs with
  | nil => exact ⟨[], rfl⟩
  | cons z zs ih =>
    obtain ⟨cmd, hz⟩ := hmem z List.mem_cons_self
    obtain ⟨cmds, hzs⟩ := ih fun w hw => hmem w (List.mem_cons_of_mem _ hw)
    exact ⟨cmd :: cmds, by rw [List.map_cons, hz, hzs, List.map_cons]⟩

theorem Encoded.congr {c' : Contents} (hc : c.Encoded) (h : c'.log = c.log) : c'.Encoded :=
  fun y z hz => hc y z (h ▸ hz)

theorem Encoded.append (hc : c.Encoded) {z : Logged} (cmd : Command) (hz : z.command = cmd.encode) :
    (c.append z).Encoded := by
  intro y w hw
  by_cases hy : y = c.active
  · subst hy
    rw [Contents.append, log_setLog] at hw
    rcases List.mem_cons.1 hw with rfl | hw
    · exact ⟨cmd, hz⟩
    · exact hc _ w hw
  · obtain rfl := Buffer.eq_flipped_of_ne hy
    rw [Contents.append, log_flipped_setLog] at hw
    exact hc _ w hw

theorem Encoded.setLog_nil (hc : c.Encoded) (y : Buffer) : (c.setLog y []).Encoded := by
  intro y' z hz
  by_cases hy : y' = y
  · subst hy
    rw [log_setLog] at hz
    exact absurd hz List.not_mem_nil
  · obtain rfl := Buffer.eq_flipped_of_ne hy
    rw [log_flipped_setLog] at hz
    exact hc _ z hz

theorem evictedAt_of_none {i : Nat} (h : c.entries[i]? = none) : c.evictedAt i = c := by
  simp only [evictedAt, h, List.eraseIdx_of_length_le (List.getElem?_eq_none_iff.1 h)]
  rfl

/-- A pair in a position is evicted from between those before it and those after it. -/
theorem exists_evictedAt_eq {i : Nat} (h : c.entries[i]? = some x) :
    ∃ l r, c.entries = l ++ x :: r ∧
      c.evictedAt i = { c with entries := l ++ r, victims := x :: c.victims } := by
  obtain ⟨hi, rfl⟩ := List.getElem?_eq_some_iff.1 h
  refine ⟨c.entries.take i, c.entries.drop (i + 1), ?_, ?_⟩
  · rw [List.cons_getElem_drop_succ, List.take_append_drop]
  · simp only [evictedAt, h, List.eraseIdx_eq_take_drop_succ]
    rfl

theorem promoted_of_not_mem (h : key ∉ c.entries.map Resident.key) : c.promoted key = c := by
  have hne : ∀ x ∈ c.entries, x.key ≠ key := fun x hx he => h (he ▸ List.mem_map_of_mem hx)
  have hnone : c.entries.filter (·.key = key) = [] :=
    List.filter_eq_nil_iff.2 fun x hx => by simpa using hne x hx
  have hall : c.entries.filter (·.key ≠ key) = c.entries :=
    List.filter_eq_self.2 fun x hx => by simpa using hne x hx
  simp only [promoted, hnone, hall]
  rfl

/-- A pair that is promoted leaves its place between the others. -/
theorem promoted_eq (hkeys : (c.entries.map Resident.key).Nodup) (hc : c.entries = l ++ x :: r) :
    c.promoted x.key = { c with entries := x :: (l ++ r) } := by
  rw [hc, List.map_append, List.map_cons, List.nodup_middle, List.nodup_cons, ← List.map_append]
    at hkeys
  have hne : ∀ y ∈ l ++ r, y.key ≠ x.key := fun y hy he => hkeys.1 (he ▸ List.mem_map_of_mem hy)
  have hl : ∀ y ∈ l, y.key ≠ x.key := fun y hy => hne y (List.mem_append_left _ hy)
  have hr : ∀ y ∈ r, y.key ≠ x.key := fun y hy => hne y (List.mem_append_right _ hy)
  have hnone : ∀ ys : List Resident, (∀ y ∈ ys, y.key ≠ x.key) →
      ys.filter (·.key = x.key) = [] ∧ ys.filter (·.key ≠ x.key) = ys := fun ys h =>
    ⟨List.filter_eq_nil_iff.2 fun y hy => by simpa using h y hy,
      List.filter_eq_self.2 fun y hy => by simpa using h y hy⟩
  simp only [promoted, hc, List.filter_append, List.filter_cons, (hnone l hl).1, (hnone l hl).2,
    (hnone r hr).1, (hnone r hr).2]
  simp

/-! The index goes on tallying while pairs move, and while a command is carried out. -/

variable {index : Index}

/-- Evicting a pair keeps it. -/
theorem pairs_evictedAt (c : Contents) (i : Nat) : (c.evictedAt i).pairs.Perm c.pairs := by
  cases hchoice : c.entries[i]? with
  | none => rw [evictedAt_of_none hchoice]
  | some x =>
    obtain ⟨l, r, hc, hevicted⟩ := exists_evictedAt_eq hchoice
    rw [hevicted]
    exact (Evicts.cons hc (.nil _)).reshuffled.pairs

theorem tallies_evictedAt (h : Tallies c index) (i : Nat) : Tallies (c.evictedAt i) index :=
  h.perm (c.pairs_evictedAt i)

theorem tallies_evicted (h : Tallies c index) (count : Nat) : Tallies (c.evicted count) index :=
  h.perm (c.evicts_evicted count).reshuffled.pairs

theorem tallies_promoted (h : Tallies c index) (key : Bytes) : Tallies (c.promoted key) index := by
  refine h.perm (.append_right c.victims ?_)
  have hsplit := List.filter_append_perm (fun x : Resident => decide (x.key = key)) c.entries
  simpa only [promoted, ne_eq, decide_not] using hsplit

theorem Stored.tallies {promote : Bool} {z : Logged} {c' : Contents} (h : Tallies c index)
    (hstored : (c.append z).Stored promote x c') :
    Tallies c' (index.insert x.key { value := x.value, node := some x.node }) := by
  have hlogged : Tallies (c.append z) index := ⟨h.keys, h.resident⟩
  exact hlogged.write (hstored.reshuffled hlogged.keys).pairs

theorem Removed.tallies {z : Logged} {c' : Contents} (h : Tallies c index)
    (hremoved : (c.append z).Removed key c') : Tallies c' (index.erase key) := by
  have hlogged : Tallies (c.append z) index := ⟨h.keys, h.resident⟩
  exact hlogged.remove (hremoved.reshuffled hlogged.keys).pairs

end Contents

/-- The pair of the node at the head comes first. -/
theorem Pool.Holds.eq_nil_of_first {p : Pool} {c : Contents} {l r : List Resident} {x : Resident}
    (hp : p.Holds c) (hc : c.entries = l ++ x :: r) (hfirst : p.root.entryFirst = some x.node) :
    l = [] := by
  have hnodes : (nodes c.entries).Nodup :=
    ((List.nodup_append.1 (hp.nodup_handles.sublist c.sublist_handles))).1
  have hhead : p.root.entryFirst = firstOf (nodes c.entries) none := hp.first_eq .entries
  cases l with
  | nil => rfl
  | cons y l =>
    rw [hc] at hhead hnodes
    have hy : x.node = y.node := Option.some.inj (hfirst.symm.trans hhead)
    refine absurd ?_ (List.nodup_cons.1 hnodes).1
    rw [← hy]
    exact List.mem_map_of_mem (List.mem_append_right _ List.mem_cons_self)

/-- **What a log generation becomes in the file**: commands of which it is the encoded form. -/
def Snapshot.Tells (S : Snapshot) (generation : List Logged) (f : AppendFile) : Prop :=
  ∀ live filed cmds, S.file.Carries live filed →
    generation.reverse.map Logged.command = cmds.map Command.encode → f.Carries live (filed ++ cmds)

/-- **What the file is after records have been written to it**: they have been appended, and the file has
been synced, unless there are none. -/
def AppendFile.Files (f : AppendFile) (records : List Bytes) (f' : AppendFile) : Prop :=
  if records = [] then f' = f else (Tier.fileEncoded records).run f = .ok () f'

namespace AppendFile

variable {f f' : AppendFile} {filed cmds : List Command} {live : Bool}

theorem files_nil (f : AppendFile) : f.Files [] f := by
  rw [Files, if_pos rfl]

/-- The file carries the commands that have been written to it. -/
theorem Files.carries (h : f.Files (cmds.map Command.encode) f') (hf : f.Carries live filed) :
    f'.Carries live (filed ++ cmds) := by
  unfold Files at h
  split at h
  · rename_i hnone
    rw [h, List.map_eq_nil_iff.1 hnone, List.append_nil]
    exact hf
  · obtain ⟨f'', hrun, hf'', -⟩ := FileOp.yields_fileEncoded filed cmds f hf
    cases hrun.symm.trans h
    exact hf''

/-- A file that is written gains the commands that are written to it. -/
theorem Files.gains (h : f.Files (cmds.map Command.encode) f') (hf : f.Carries true filed) :
    f.Gains cmds f' := by
  unfold Files at h
  split at h
  · rename_i hnone
    rw [h, List.map_eq_nil_iff.1 hnone]
    exact f.gains_nil
  · rename_i hsome
    exact hf.gains (fun hnone => hsome (hnone ▸ rfl)) h

end AppendFile

/-- The commands of a log generation in their encoded form, oldest first. -/
def Logged.records (generation : List Logged) : List Bytes := generation.reverse.map Logged.command

/-- Two generations are drained in their order, of whatever role the first one is. -/
theorem AppendFile.files_due {c : Contents} {f f₁ f₂ : AppendFile}
    (h₁ : f.Files (Logged.records (c.log c.due)) f₁)
    (h₂ : f₁.Files (Logged.records (c.log c.due.flipped)) f₂) :
    ∃ f', f.Files (Logged.records c.outOfService) f' ∧
      f'.Files (Logged.records (c.log c.active)) f₂ := by
  by_cases hout : c.outOfService = []
  · have hdue : c.due = c.active := if_pos hout
    have hnone : c.log c.active.flipped = [] := hout
    rw [hdue, hnone] at h₂
    rw [hdue] at h₁
    obtain rfl : f₂ = f₁ := by simpa [Files, Logged.records] using h₂
    exact ⟨f, hout ▸ f.files_nil, h₁⟩
  · have hdue : c.due = c.active.flipped := if_neg hout
    rw [hdue] at h₁
    rw [hdue, Buffer.flipped_flipped] at h₂
    exact ⟨f₁, h₁, h₂⟩

/-- A file to which a generation has been written has been told of it. -/
theorem Snapshot.tells_of_files {S : Snapshot} {generation : List Logged} {f : AppendFile}
    (h : S.file.Files (Logged.records generation) f) : S.Tells generation f := by
  intro live filed cmds hfile hcmds
  rw [Logged.records, hcmds] at h
  exact h.carries hfile

/-- A file flows on when it has been told of a generation. -/
theorem Snapshot.Tells.flows {S : Snapshot} {y : Buffer} {f : AppendFile} {live : Bool}
    (h : S.Tells (S.contents.log y) f) (hlog : S.contents.Encoded) (hfile : S.file.Flows live) :
    f.Flows live := by
  obtain ⟨filed, hcarries⟩ := hfile
  obtain ⟨cmds, hcmds⟩ := hlog.exists_commands y
  exact ⟨filed ++ cmds, h live filed cmds hcarries hcmds⟩

/-- **What evictions make of a snapshot**: its pairs are arranged in another way, and the policy may have
used up picks. -/
structure Snapshot.Rearranges (S S' : Snapshot) : Prop where
  contents : S.contents.Reshuffled S'.contents S.contents.pairs
  index : S'.index = S.index
  file : S'.file = S.file
  settings : S'.settings = S.settings

namespace Snapshot.Rearranges

variable {S S' S'' : Snapshot}

/-- Picks are used up even if nothing comes of them. -/
theorem repicked (S : Snapshot) (policy : Policy) : S.Rearranges { S with policy := policy } :=
  ⟨⟨.refl _, rfl, rfl⟩, rfl, rfl, rfl⟩

theorem refl (S : Snapshot) : S.Rearranges S := repicked S S.policy

theorem trans (h : S.Rearranges S') (h' : S'.Rearranges S'') : S.Rearranges S'' where
  contents := ⟨h'.contents.pairs.trans h.contents.pairs, h'.contents.log.trans h.contents.log,
    h'.contents.active.trans h.contents.active⟩
  index := h'.index.trans h.index
  file := h'.file.trans h.file
  settings := h'.settings.trans h.settings

theorem tallies (h : S.Rearranges S') (hS : Tallies S.contents S.index) :
    Tallies S'.contents S'.index :=
  h.index ▸ hS.perm h.contents.pairs

end Snapshot.Rearranges

/-- The snapshot after a key has been looked up: under the recency policy its pair is the head. -/
def Snapshot.touched (S : Snapshot) (key : Bytes) : Snapshot :=
  if S.policy.tracksRecency then { S with contents := S.contents.promoted key } else S

theorem Snapshot.touched_of_not_mem {S : Snapshot} {key : Bytes}
    (h : key ∉ S.contents.entries.map Resident.key) : S.touched key = S := by
  rw [touched, Contents.promoted_of_not_mem h]
  split <;> rfl

theorem Snapshot.tallies_touched {S : Snapshot} (hS : Tallies S.contents S.index) (key : Bytes) :
    Tallies (S.touched key).contents (S.touched key).index := by
  unfold touched
  split
  · exact Contents.tallies_promoted hS key
  · exact hS

/-- **A value has been stored under a key**: it is logged, its pair is in its place, and it is
indexed. -/
inductive Snapshot.Puts (S : Snapshot) (key value : Bytes) : Snapshot → Prop
  | intro {x : Resident} {z : Logged} {c' : Contents} (named : x.key = key) (valued : x.value = value)
      (logged : z.command = (Command.set key value).encode)
      (stored : (S.contents.append z).Stored S.policy.tracksRecency x c') :
      Puts S key value { S with
        contents := c'
        index := S.index.insert key { value := value, node := some x.node } }

/-- **A key has been removed**, and that is logged. -/
inductive Snapshot.Takes (S : Snapshot) (key : Bytes) : Snapshot → Prop
  | intro {z : Logged} {c' : Contents} (logged : z.command = (Command.del key).encode)
      (removed : (S.contents.append z).Removed key c') :
      Takes S key { S with contents := c', index := S.index.erase key }

theorem Snapshot.Puts.tallies {S S' : Snapshot} {key value : Bytes} (h : S.Puts key value S')
    (hS : Tallies S.contents S.index) : Tallies S'.contents S'.index := by
  obtain ⟨rfl, rfl, -, hstored⟩ := h
  exact hstored.tallies hS

/-- Storing a value leaves the log as appending its command has left it. -/
theorem Snapshot.Puts.exists_logged {S S' : Snapshot} {key value : Bytes} (h : S.Puts key value S')
    (hS : Tallies S.contents S.index) : ∃ z : Logged, z.command = (Command.set key value).encode ∧
      S'.contents.log = (S.contents.append z).log ∧ S'.contents.active = S.contents.active := by
  obtain ⟨rfl, rfl, hlogged, hstored⟩ := h
  rename_i z c'
  have hreshuffled := Contents.Stored.reshuffled (c := S.contents.append z) hS.keys hstored
  exact ⟨z, hlogged, hreshuffled.log, hreshuffled.active⟩

theorem Snapshot.Puts.file_eq {S S' : Snapshot} {key value : Bytes} (h : S.Puts key value S') :
    S'.file = S.file := by
  cases h
  rfl

theorem Snapshot.Puts.settings_eq {S S' : Snapshot} {key value : Bytes} (h : S.Puts key value S') :
    S'.settings = S.settings := by
  cases h
  rfl

theorem Snapshot.Puts.value?_eq {S S' : Snapshot} {key value : Bytes} (h : S.Puts key value S')
    (key' : Bytes) :
    S'.index.value? key' = if key = key' then some value else S.index.value? key' := by
  obtain ⟨rfl, rfl, -, -⟩ := h
  exact Index.value?_insert ..

theorem Snapshot.Takes.tallies {S S' : Snapshot} {key : Bytes} (h : S.Takes key S')
    (hS : Tallies S.contents S.index) : Tallies S'.contents S'.index := by
  obtain ⟨-, hremoved⟩ := h
  exact hremoved.tallies hS

namespace Tier

variable {E : Failure → Prop} {S : Snapshot} {live : Bool}

/-! ## Eviction -/

/-- **One pair is evicted**, the one in the position that the policy names. The pick is used up in any
case. -/
theorem turns_evictOne (E : Failure → Prop) (S : Snapshot) :
    Turns E 0 S evictOne
      (fun key S' => key = S.contents.entries[(S.policy.position S.contents.entries.length).1]?.map
          Resident.key ∧
        S' = { S with
          contents := S.contents.evictedAt (S.policy.position S.contents.entries.length).1
          policy := (S.policy.position S.contents.entries.length).2 })
      fun S' => S' = { S with policy := (S.policy.position S.contents.entries.length).2 } := by
  refine Turns.get fun t ht => ?_
  simp only [ht.policy, ht.pool.holds.selectVictim_eq]
  refine Turns.bind (Turns.setPolicy _) ?_
  rintro _ _ rfl
  cases hchoice : S.contents.entries[(S.policy.position S.contents.entries.length).1]? with
  | none => exact Turns.pure ⟨rfl, by rw [Contents.evictedAt_of_none hchoice]⟩
  | some x =>
    obtain ⟨l, r, hc, hevicted⟩ := Contents.exists_evictedAt_eq hchoice
    have hpairs := S.contents.pairs_evictedAt (S.policy.position S.contents.entries.length).1
    rw [hevicted] at hpairs ⊢
    refine Turns.bind (Turns.ofYields (VictimPipeline.stepwise_evict x.node) (yields_evict hc)
      fun hdistinct => hdistinct.perm hpairs) ?_
    rintro _ _ ⟨-, rfl⟩
    -- The key is read from where the pair is now.
    exact Turns.read (reads_keyOf (List.mem_append_right _ List.mem_cons_self))
      (Turns.pure ⟨rfl, rfl⟩)

/-- **Several pairs are evicted** from the tail of the entry store, if the policy can choose them. -/
theorem turns_evictBatch (hE : S.policy.supportsBatches = true ∨ ∀ cause, E (.cause cause))
    (count : Nat) :
    Turns E 0 S (evictBatch count)
      (fun moved S' => moved = min count S.contents.entries.length ∧
        S' = { S with contents := S.contents.evicted count })
      fun S' => S' = S := by
  refine Turns.get fun t ht => ?_
  rw [ht.policy]
  by_cases hbatches : S.policy.supportsBatches = true
  · have hlength : (nodes (S.contents.entries.rtake count)).reverse.length =
        min count S.contents.entries.length := by
      simp only [List.length_reverse, List.length_map, List.rtake, List.length_drop]
      omega
    simp only [ht.pool.holds.selectVictims_eq hbatches]
    split
    · rename_i h
      cases h
    · rename_i h
      -- Nothing is evicted, and the contents stay as they are.
      have hnil : S.contents.entries.rtake count = [] := by
        simpa [nodes] using Except.ok.inj h
      have hall : S.contents.entries.rdrop count = S.contents.entries := by
        have happend : S.contents.entries.rdrop count ++ S.contents.entries.rtake count =
            S.contents.entries := List.take_append_drop _ _
        rwa [hnil, List.append_nil] at happend
      rw [hnil] at hlength
      refine Turns.pure ⟨hlength, ?_⟩
      simp only [Contents.evicted, hnil, hall]
      rfl
    · rename_i hs _ h
      obtain rfl := Except.ok.inj h
      have hevicts := S.contents.evicts_evicted count
      rw [← hlength]
      exact Turns.ofYields (VictimPipeline.stepwise_evictAll _) (yields_evictAll hevicts)
        fun hdistinct => hdistinct.perm hevicts.reshuffled.pairs
  · have hcause := hE.resolve_left hbatches
    cases hpolicy : S.policy with
    | lru => exact absurd (by rw [hpolicy]; rfl) hbatches
    | random picks => exact Turns.throw (hcause _) rfl

/-- **One round of the eviction loop** moves a batch or a single pair, and tells how many. If there is a
pair too many, some pair is moved. -/
theorem turns_evictSome (E : Failure → Prop) (S : Snapshot) (excess : Nat) :
    Turns E 0 S (evictSome excess)
      (fun moved S' => S.Rearranges S' ∧
        S'.contents.entries.length + moved = S.contents.entries.length ∧
        (0 < excess → 0 < S.contents.entries.length → moved ≠ 0))
      S.Rearranges := by
  refine Turns.get fun t ht => ?_
  have hbound : S.contents.entries.length < 2 ^ 64 := ht.pool.holds.length_lt.1
  rw [ht.policy, ht.settings]
  by_cases hbatches : S.policy.supportsBatches = true
  · rw [if_pos hbatches]
    refine (turns_evictBatch (.inl hbatches) _).mono ?_ ?_
    · rintro _ _ ⟨rfl, rfl⟩
      have hevicts := S.contents.evicts_evicted (max excess S.settings.evictBatch)
      refine ⟨⟨hevicts.reshuffled, rfl, rfl, rfl⟩, ?_, fun _ _ => by omega⟩
      simp only [Contents.evicted, List.rdrop, List.length_take]
      omega
    · rintro _ rfl
      exact .refl _
  · rw [if_neg hbatches]
    refine Turns.bind ((turns_evictOne E S).mono (fun _ _ h => h) ?_) ?_
    · rintro _ rfl
      exact .repicked S _
    rintro _ _ ⟨rfl, rfl⟩
    -- There is a pair in the position that the policy names, unless there are no pairs.
    have hposition := fun hpos => S.policy.position_lt hpos hbound
    cases hchoice : S.contents.entries[(S.policy.position S.contents.entries.length).1]? with
    | none =>
      rw [Contents.evictedAt_of_none hchoice]
      refine Turns.pure ⟨.repicked S _, rfl, fun _ hpos => ?_⟩
      exact absurd (hposition hpos) (Nat.not_lt.2 (List.getElem?_eq_none_iff.1 hchoice))
    | some x =>
      obtain ⟨l, r, hc, hevicted⟩ := Contents.exists_evictedAt_eq hchoice
      have hreshuffled := (Contents.Evicts.cons hc (.nil _)).reshuffled
      rw [hevicted]
      refine Turns.pure ⟨⟨hreshuffled, rfl, rfl, rfl⟩, ?_, fun _ _ => Nat.one_ne_zero⟩
      simp only [hc, List.length_append, List.length_cons, Option.map_some, Option.isSome_some, if_true]
      omega

/-- Evictions rearrange the pairs, however many rounds there are. -/
theorem turns_evictDownTo (E : Failure → Prop) (S : Snapshot) (limit rounds : Nat) :
    Turns E 0 S (evictDownTo limit rounds) (fun _ => S.Rearranges) S.Rearranges := by
  -- Induction on the rounds, by what one of them does.
  induction rounds generalizing S with
  | zero => exact Turns.pure (.refl S)
  | succ rounds ih =>
    refine Turns.get fun t _ => ?_
    dsimp only
    split
    -- Within the limit nothing is evicted, and a round that moves nothing is the last one.
    · exact Turns.pure (.refl S)
    · refine Turns.bind (turns_evictSome E S _ |>.mono (fun _ _ h => h.1) fun _ h => h) ?_
      intro moved S' h
      split
      · exact Turns.pure h
      · exact (ih S').mono (fun _ _ => h.trans) fun _ => h.trans

/-- **The entry store is shortened** by evictions alone. -/
theorem turns_enforceEntryLimit (E : Failure → Prop) (S : Snapshot) :
    Turns E 0 S enforceEntryLimit (fun _ => S.Rearranges) S.Rearranges := by
  refine Turns.get fun t _ => ?_
  split
  · exact turns_evictDownTo E S _ _
  · exact Turns.pure (.refl S)

/-! ## Flushing -/

/-- **The victims are flushed**: the file is told of them, the last one first, and the index no longer
refers to their nodes. If that fails, the file may have been told of some. -/
theorem turns_flushVictims (hE : (∀ cause, E (.cause cause)) ∨ ∃ live, S.file.Flows live) :
    Turns E 0 S flushVictims
      (fun count S' => count = S.contents.victims.length ∧
        ∃ f, S' = { S with
            contents := { S.contents with victims := [] }
            index := cleared S.index S.contents.victims
            file := f } ∧
          S.file.Files ((S.contents.victims.reverse.map fun x => .set x.key x.value).map
            Command.encode) f)
      fun S' => ∃ f, S' = { S with file := f } := by
  refine Turns.get fun t ht => ?_
  have hfirst : t.pool.root.victimFirst = firstOf (nodes S.contents.victims) none :=
    ht.pool.holds.first_eq .victims
  have hwalk : t.pool.walk .victims .forward = nodes S.contents.victims :=
    ht.pool.holds.walk_forward .victims
  rw [hfirst, hwalk]
  -- Without victims the file is left alone: it is not even synced.
  obtain hvictims | ⟨x, r, hvictims⟩ : S.contents.victims = [] ∨ ∃ x r, S.contents.victims = x :: r := by
    cases S.contents.victims with
    | nil => exact .inl rfl
    | cons x r => exact .inr ⟨x, r, rfl⟩
  · have hsame : { S.contents with victims := [] } = S.contents := by rw [← hvictims]
    rw [hvictims]
    refine Turns.pure ⟨rfl, S.file, ?_, S.file.files_nil⟩
    rw [hsame]
    rfl
  · have hhead : firstOf (nodes S.contents.victims) none = some x.node := by rw [hvictims]; rfl
    rw [hhead]
    -- All victims are read before the file is told of the first of them.
    let pending := S.contents.victims.map fun x => (x.node, x.key, x.value)
    have hpending : Reads S.contents S.index ((nodes S.contents.victims).mapM readVictim) pending :=
      Reads.mapM _ fun y hy => reads_readVictim (List.mem_append_right _ hy)
    refine Turns.read hpending (Turns.bind
      ((Turns.onFile fun cause f hr => ?_).mono (fun _ _ h => h) fun _ h => h) ?_)
    · -- On a file that flows nothing fails.
      rcases hE with hE | ⟨live, filed, hfile⟩
      · exact hE cause
      · obtain ⟨f', hrun, -⟩ := yields_filePairs live filed S.contents.victims S.file hfile
        cases hrun.symm.trans hr
    rintro _ _ ⟨f, hrun, rfl⟩
    have hfiles : S.file.Files ((S.contents.victims.reverse.map fun x => .set x.key x.value).map
        Command.encode) f := by
      rw [AppendFile.Files, if_neg (by simp [hvictims]), ← filePairs_eq]
      exact hrun
    -- If the pipeline cannot be reclaimed, the file has been told all the same.
    refine Turns.bind ((Turns.ofYields (S := { S with file := f })
      (VictimPipeline.stepwise_reclaim x.node) (yields_reclaim (l := []) hvictims)
      (·.reclaimed)).mono (fun _ _ h => h) fun _ h => ⟨f, h⟩) ?_
    rintro _ _ ⟨rfl, rfl⟩
    refine Turns.bind (Turns.updateIndex _) ?_
    rintro _ _ rfl
    have hindex : pending.foldl (fun index x => index.clearNode x.2.1 x.1) S.index =
        cleared S.index S.contents.victims := by
      simp [pending, cleared, List.foldl_map]
    refine Turns.pure ⟨by rw [hvictims, List.length_cons], f, ?_, hfiles⟩
    simp only [hindex]

/-! ## The operations on a key -/

/-- **A key is touched**: under the recency policy its pair becomes the head of the entry store. -/
theorem turns_touch (E : Failure → Prop) (hS : Tallies S.contents S.index) (key : Bytes) :
    Turns E 0 S (touch key) (fun _ S' => S' = S.touched key) fun S' => S' = S := by
  refine Turns.get fun t ht => ?_
  rw [ht.policy]
  by_cases hrecency : S.policy.tracksRecency = true
  · rw [if_pos hrecency]
    have hkeys := hS.keys
    rw [Contents.pairs, List.map_append] at hkeys
    obtain ⟨resident, hkey, hreads⟩ := exists_reads_resident hS key
    refine Turns.read hreads ?_
    cases hkey with
    | absent missing =>
      refine Turns.pure (Snapshot.touched_of_not_mem fun h => missing ?_).symm
      rw [Contents.pairs, List.map_append]
      exact List.mem_append_left _ h
    | @found kind l r x place named =>
      subst named
      cases kind with
      | victims =>
        -- A key in the victim pipeline is not in the entry store.
        have hvictims : S.contents.victims = l ++ x :: r := place
        have hx : x.key ∈ S.contents.victims.map Resident.key := by
          rw [hvictims]
          exact List.mem_map_of_mem (List.mem_append_right _ List.mem_cons_self)
        refine Turns.pure (Snapshot.touched_of_not_mem fun h => ?_).symm
        exact (List.nodup_append.1 hkeys).2.2 _ h _ hx rfl
      | entries =>
        have hentries : S.contents.entries = l ++ x :: r := place
        rw [Snapshot.touched, if_pos hrecency,
          Contents.promoted_eq (List.nodup_append.1 hkeys).1 hentries]
        dsimp only
        split
        · rename_i hfirst
          -- The node at the head is no other than the key's own.
          obtain rfl := ht.pool.holds.eq_nil_of_first hentries hfirst
          rw [List.nil_append] at hentries ⊢
          rw [← hentries]
          exact Turns.pure rfl
        · have hpairs := (Contents.reshuffled_front hentries).pairs
          exact (Turns.ofYields (EntryStore.stepwise_promote x.node) (yields_promote_counters hentries)
            fun hdistinct => hdistinct.perm hpairs).mono (fun _ _ h => h.2) fun _ h => h
  · rw [if_neg hrecency, Snapshot.touched, if_neg hrecency]
    exact Turns.pure rfl

/-- **A value is looked up**, and its key is touched. -/
theorem turns_get? (E : Failure → Prop) (hS : Tallies S.contents S.index) (key : Bytes) :
    Turns E 0 S (get? key)
      (fun value? S' => value? = S.index.value? key ∧ S' = S.touched key) fun S' => S' = S := by
  refine Turns.get fun t ht => ?_
  rw [ht.index, Index.value?]
  cases hindex : S.index.get? key with
  | none =>
    have hmissing : key ∉ S.contents.entries.map Resident.key := by
      intro h
      obtain ⟨x, hx, rfl⟩ := List.mem_map.1 h
      have hvalue := hS.value?_eq (List.mem_append_left _ hx)
      rw [Index.value?, hindex] at hvalue
      cases hvalue
    exact Turns.pure ⟨rfl, (Snapshot.touched_of_not_mem hmissing).symm⟩
  | some entry =>
    refine (turns_touch E hS key).bind ?_
    rintro _ _ rfl
    exact Turns.pure ⟨rfl, rfl⟩

/-- What storing a value under a key is before the limits are enforced. -/
def store (key value : Bytes) : TierM Unit := do
  let resident ← resident? key
  let promote := (← get).policy.tracksRecency
  let node ← inTransaction (write key value resident promote)
  updateIndex (·.insert key { value := value, node := some node })

theorem insert_eq (key value : Bytes) :
    insert key value = store key value >>= fun _ => tolerate enforceLimits := by
  simp only [insert, store, bind_assoc]

/-- **A value is stored under a key.** -/
theorem turns_store (E : Failure → Prop) (hS : Tallies S.contents S.index) (key value : Bytes) :
    Turns E 5 S (store key value) (fun _ S' => S.Puts key value S') fun S' => S' = S := by
  obtain ⟨resident, hkey, hreads⟩ := exists_reads_resident hS key
  refine Turns.read hreads (Turns.get fun t ht => ?_)
  rw [ht.policy]
  refine Turns.bind (Turns.inTransaction (P := fun h c' => ∃ x z, (x.node = h ∧ x.key = key ∧
    x.value = value) ∧ z.command = (Command.set key value).encode ∧
      (S.contents.append z).Stored S.policy.tracksRecency x c') (stepwise_write _ _ _ _) ?_ ?_) ?_
  · refine (triple_write_lists hkey value _).mono ?_
    rintro h s ⟨x, z, c', room', hx, hz, hstored, hs⟩
    exact ⟨c', room', ⟨x, z, hx, hz, hstored⟩, hs⟩
  · rintro - _ _ ⟨x, z, -, -, hstored⟩
    exact (hstored.tallies hS).keys
  rintro _ _ ⟨c', ⟨x, z, ⟨rfl, rfl, rfl⟩, hz, hstored⟩, rfl⟩
  refine (Turns.updateIndex _).mono ?_ fun _ h => h
  rintro _ _ rfl
  exact .intro rfl rfl hz hstored

/-- **A value is stored under a key**, and then the limits are enforced. What is so afterwards if that
succeeds is to be so if it fails. -/
theorem turns_insert (hS : Tallies S.contents S.index) {key value : Bytes} {R : Snapshot → Prop}
    (hlimits : ∀ S₁, S.Puts key value S₁ →
      Turns (Failure.Survivable E) 0 S₁ enforceLimits (fun _ => R) R) :
    Turns E 5 S (insert key value) (fun _ => R) fun S' => S' = S := by
  rw [insert_eq]
  refine (turns_store E hS key value).bind fun _ S₁ hputs => ?_
  -- The write counts even if enforcing the limits fails.
  refine (hlimits S₁ hputs).tolerate.mono ?_ fun _ h => h.elim
  exact fun _ _ h => h.elim id id

/-- **A key is removed**, if it is there. -/
theorem turns_erase (E : Failure → Prop) (hS : Tallies S.contents S.index) (key : Bytes) :
    Turns E 2 S (erase key)
      (fun found S' => found = (S.index.value? key).isSome ∧
        if found then S.Takes key S' else S' = S)
      fun S' => S' = S := by
  refine Turns.get fun t ht => ?_
  rw [ht.index, Index.value?]
  cases S.index.get? key with
  | none => exact Turns.pure ⟨rfl, rfl⟩
  | some entry =>
    obtain ⟨resident, hkey, hreads⟩ := exists_reads_resident hS key
    refine Turns.read hreads ?_
    refine Turns.bind (Turns.inTransaction (P := fun _ c' => ∃ z : Logged,
      z.command = (Command.del key).encode ∧ (S.contents.append z).Removed key c')
      (stepwise_drop _ _) ?_ ?_) ?_
    · refine (triple_drop_lists hkey).mono ?_
      rintro _ s ⟨z, c', room', hz, hremoved, hs⟩
      exact ⟨c', room', ⟨z, hz, hremoved⟩, hs⟩
    · rintro - _ _ ⟨z, -, hremoved⟩
      exact (hremoved.tallies hS).keys
    rintro _ _ ⟨c', ⟨z, hz, hremoved⟩, rfl⟩
    refine Turns.bind (Turns.updateIndex _) ?_
    rintro _ _ rfl
    exact Turns.pure ⟨rfl, .intro hz hremoved⟩

/-! ## The use of the log buffers -/

/-- **A command is logged** that is not carried out. -/
theorem turns_appendCommand (E : Failure → Prop) (S : Snapshot) (cmd : Command) :
    Turns E 2 S (appendCommand cmd)
      (fun h S' => ∃ z : Logged, z.node = h ∧ z.command = cmd.encode ∧
        S' = { S with contents := S.contents.append z })
      fun S' => S' = S := by
  refine (Turns.inTransaction (P := fun h c => ∃ z : Logged, z.node = h ∧
    z.command = cmd.encode ∧ c = S.contents.append z) (LogBuffer.stepwise_append _) ?_ ?_).mono
    ?_ fun _ h => h
  · refine (LogBuffer.triple_append cmd.encode).mono ?_
    rintro _ _ ⟨z, hnode, hz, hs⟩
    exact ⟨_, 0, ⟨z, hnode, hz, rfl⟩, hs⟩
  · rintro hdistinct _ _ ⟨z, -, -, rfl⟩
    exact hdistinct
  · rintro _ _ ⟨_, ⟨z, hnode, hz, rfl⟩, rfl⟩
    exact ⟨z, hnode, hz, rfl⟩

/-- **The buffers exchange their roles.** -/
theorem turns_switchBuffers (E : Failure → Prop) (S : Snapshot) :
    Turns E 0 S switchBuffers
      (fun buffer S' => buffer = S.contents.active.flipped ∧
        S' = { S with contents := S.contents.switched })
      fun S' => S' = S :=
  Turns.ofYields LogBuffer.stepwise_switch LogBuffer.yields_switch fun hdistinct => hdistinct

/-- A log buffer is emptied that is named by its head. -/
theorem turns_clear (E : Failure → Prop) (S : Snapshot) (y : Buffer) :
    Turns E 0 S (inTransaction (LogBuffer.clear (firstOf (logNodes (S.contents.log y)) none)))
      (fun count S' => count = UInt64.ofNat (S.contents.log y).length ∧
        S' = { S with contents := S.contents.setLog y [] })
      fun S' => S' = S :=
  Turns.ofYields (LogBuffer.stepwise_clear _) (LogBuffer.yields_clear y) fun hdistinct => hdistinct

/-- **The current buffer is emptied.** -/
theorem turns_clearCurrentBuffer (E : Failure → Prop) (S : Snapshot) :
    Turns E 0 S clearCurrentBuffer
      (fun count S' => count = UInt64.ofNat (S.contents.log S.contents.active).length ∧
        S' = { S with contents := S.contents.setLog S.contents.active [] })
      fun S' => S' = S := by
  intro t ht
  have hrun : clearCurrentBuffer.run t = (inTransaction (LogBuffer.clear
      (firstOf (logNodes (S.contents.log S.contents.active)) none))).run t := by
    rw [← currentHead_eq ht.pool.holds]
    rfl
  rw [hrun]
  exact turns_clear E S _ t ht

/-! ## Drains -/

/-- **A generation is taken out of service**, unless one is. -/
theorem turns_takeOut (E : Failure → Prop) (S : Snapshot) :
    Turns E 0 S takeOut
      (fun _ S' => S' = { S with contents :=
        if S.contents.outOfService = [] then S.contents.switched else S.contents })
      fun S' => S' = S := by
  refine Turns.get fun t ht => ?_
  rw [otherHead_eq ht.pool.holds]
  by_cases hempty : S.contents.outOfService = []
  · rw [if_pos (firstOf_logNodes_eq_none.2 hempty), if_pos hempty]
    refine Turns.bind (turns_switchBuffers E S) ?_
    rintro _ _ ⟨-, rfl⟩
    exact Turns.pure rfl
  · rw [if_neg (firstOf_logNodes_eq_none.not.2 hempty), if_neg hempty]
    exact Turns.pure rfl

/-- **A drain begins** with the generation that is out of service. -/
theorem turns_beginDrain (E : Failure → Prop) (S : Snapshot) :
    Turns E 0 S beginDrain
      (fun drain S' => drain.head = firstOf (logNodes S'.contents.outOfService) none ∧
        drain.commands = S'.contents.outOfService.reverse.map Logged.command ∧
        S' = { S with contents :=
          if S.contents.outOfService = [] then S.contents.switched else S.contents })
      fun S' => S' = S := by
  refine Turns.bind (turns_takeOut E S) ?_
  rintro _ S' hS'
  refine Turns.get fun t ht => ?_
  simp only [pending_otherHead ht.pool.holds]
  exact Turns.pure ⟨otherHead_eq ht.pool.holds, rfl, hS'⟩

/-- **A drain is completed**: its commands are appended to the file, and then the generation out of
service is freed. -/
theorem turns_fileDrain {drain : LogDrain}
    (hhead : drain.head = firstOf (logNodes S.contents.outOfService) none)
    (hfile : ∀ cause f, (fileEncoded drain.commands).run S.file = .error cause f → E (.cause cause)) :
    Turns E 0 S (completeDrain drain)
      (fun count S' => count = drain.commands.length ∧ ∃ f,
        (fileEncoded drain.commands).run S.file = .ok () f ∧
          S' = { S with contents := S.contents.drained, file := f })
      fun S' => ∃ f, S' = { S with file := f } := by
  refine Turns.get fun t ht => ?_
  rw [otherHead_eq ht.pool.holds, if_pos hhead, hhead]
  refine Turns.bind (Turns.onFile hfile) ?_
  rintro _ _ ⟨f, hrun, rfl⟩
  refine Turns.bind ((turns_clear E { S with file := f } S.contents.active.flipped).mono
    (fun _ _ h => h) fun _ h => ⟨f, h⟩) ?_
  rintro _ _ ⟨-, rfl⟩
  exact Turns.pure ⟨rfl, f, hrun, rfl⟩

/-- **A drain of commands is completed** on a file that flows: nothing fails. -/
theorem turns_completeDrain {drain : LogDrain} {cmds : List Command}
    (hhead : drain.head = firstOf (logNodes S.contents.outOfService) none)
    (hfile : S.file.Flows live) (hcmds : drain.commands = cmds.map Command.encode) :
    Turns E 0 S (completeDrain drain)
      (fun count S' => count = drain.commands.length ∧ ∃ f,
        (fileEncoded drain.commands).run S.file = .ok () f ∧
          S' = { S with contents := S.contents.drained, file := f })
      fun S' => ∃ f, S' = { S with file := f } := by
  refine turns_fileDrain hhead fun cause f hr => ?_
  obtain ⟨filed, hfile⟩ := hfile
  rw [hcmds] at hr
  obtain ⟨f', hrun, -⟩ := FileOp.yields_fileEncoded filed cmds S.file hfile
  cases hrun.symm.trans hr

/-- **One generation is drained**: the one that is out of service, or else the current one. -/
theorem turns_drainOnce (hfile : S.file.Flows live) (hlog : S.contents.Encoded) :
    Turns E 0 S drainOnce
      (fun count S' => count = (S.contents.log S.contents.due).length ∧ S'.contents.outOfService = [] ∧
        ∃ f active, S' = { S with
            contents := { S.contents.setLog S.contents.due [] with active := active }
            file := f } ∧
          S.file.Files (Logged.records (S.contents.log S.contents.due)) f)
      fun _ => True := by
  refine Turns.get fun t ht => ?_
  by_cases hcount : t.pool.root.logCount = 0
  -- The counter is zero, so there is nothing to drain.
  · rw [if_pos hcount]
    have hempty := ht.pool.holds.log_eq_nil hcount
    have hsame : S.contents.setLog S.contents.due [] = S.contents := Contents.setLog_self _ _ _ (hempty _)
    refine Turns.pure ⟨by rw [hempty]; rfl, hempty _, S.file, S.contents.active, ?_, ?_⟩
    · rw [hsame]
    · rw [hempty]
      exact S.file.files_nil
  · rw [if_neg hcount]
    have hsome : S.contents.log S.contents.due ≠ [] := fun hdue => hcount <| UInt64.toNat_inj.1 <| by
      rw [ht.pool.holds.logCount_eq, Contents.log_eq_nil_of_due hdue, Contents.log_eq_nil_of_due hdue]
      rfl
    refine Turns.bind ((turns_beginDrain E S).mono (fun _ _ h => h) fun _ _ => trivial) ?_
    rintro drain S₁ ⟨hhead, hcommands, hS₁⟩
    have hdue := S.contents.outOfService_of_begun (congrArg Snapshot.contents hS₁)
    have hfile₁ : S₁.file = S.file := by rw [hS₁]
    obtain ⟨cmds, hcmds⟩ := hlog.exists_commands S.contents.due
    rw [hdue.1] at hcommands
    refine (turns_completeDrain hhead (hfile₁ ▸ hfile) (hcommands.trans hcmds)).mono ?_
      fun _ _ => trivial
    rintro _ _ ⟨rfl, f, hrun, rfl⟩
    rw [hcommands, hfile₁] at hrun
    refine ⟨by simp [hcommands], Contents.log_setLog .., f, S₁.contents.active, ?_, ?_⟩
    · rw [hdue.2, hS₁]
    · rwa [AppendFile.Files, if_neg (by simpa [Logged.records] using hsome)]

/-- **The log is flushed**: both generations are drained, the older one first. -/
theorem turns_flushLog (hfile : S.file.Flows live) (hlog : S.contents.Encoded) :
    Turns E 0 S flushLog
      (fun count S' => count = S.contents.outOfService.length +
          (S.contents.log S.contents.active).length ∧
        ∃ f₁ f active, S.file.Files (Logged.records S.contents.outOfService) f₁ ∧
          f₁.Files (Logged.records (S.contents.log S.contents.active)) f ∧ f.Flows live ∧
          S' = { S with
            contents := { S.contents with log := fun _ => [], active := active }
            file := f })
      fun _ => True := by
  refine Turns.bind (turns_drainOnce hfile hlog) ?_
  rintro _ S₁ ⟨rfl, hout, f₁, active₁, hS₁, hfiles₁⟩
  have hlog₁ : S₁.contents.Encoded := by
    rw [hS₁]
    exact hlog.setLog_nil _
  have hfile₁ : S₁.file.Flows live := hS₁ ▸ (S.tells_of_files hfiles₁).flows hlog hfile
  refine Turns.bind (turns_drainOnce hfile₁ hlog₁) ?_
  rintro _ _ ⟨rfl, -, f₂, active₂, rfl, hfiles₂⟩
  have hlogs : S₁.contents.log = (S.contents.setLog S.contents.due []).log := by rw [hS₁]
  have hdue : S₁.contents.due = S₁.contents.active := if_pos hout
  have hflows : f₂.Flows live := (S₁.tells_of_files hfiles₂).flows hlog₁ hfile₁
  rw [hdue, Contents.log_active_of_drained hlogs hout] at hfiles₂ ⊢
  rw [show S₁.file = f₁ by rw [hS₁]] at hfiles₂
  obtain ⟨f', hfiles, hfiles'⟩ := AppendFile.files_due hfiles₁ hfiles₂
  refine Turns.pure ⟨Contents.length_due, f', f₂, active₂, hfiles, hfiles', hflows, ?_⟩
  rw [Contents.setLog_active_of_drained hout, hS₁]
  rfl

end Tier

end PersistentTier
