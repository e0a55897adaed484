import PersistentTier.Proofs.Tier.Ledger

/-!
# What a restart recovers

A restart has four sources for the value of a key: the file, the victims, the log and the entry
store. It reads them in this order, so the last source that mentions a key decides. The value that
counts is the one in the index, and steps that keep the order of the log generations see to it that
the source that decides has this value.

## Main definitions

* `Ledger.Recoverable`: the sources have the values of the index
* `Ledger.restarted`: the ledger that a restart makes of the contents of a pool and a file
* `Ledger.Nodeless`: an index that refers to no node, as one that is replayed does

## Main results

* `Ledger.Recoverable.step`: every ordered step keeps the values recoverable
* `Ledger.tallies_indexed`: once the entry store has been indexed, the index tallies with the pool
* `Ledger.value?_restarted`: a restart recovers the values
* `Ledger.agrees_restarted`, `Ledger.recoverable_restarted`: what it leaves is in order again
-/

namespace PersistentTier

open Command

namespace Ledger

/-- **The sources have the values of the index.** What is logged last of a key is its value; and if
nothing is logged of a key that is not resident, the file has its value. -/
structure Recoverable (L : Ledger) : Prop where
  logged : ∀ key outcome, verdict key L.contents.logged = some outcome →
    L.index.value? key = outcome
  filed : ∀ key, verdict key L.contents.logged = none →
    key ∉ L.contents.pairs.map Resident.key → L.index.value? key = (verdict key L.filed).join

variable {d : Discipline} {L L' : Ledger}

section Logging

variable {c c' : Contents} {index index' : Index} {filed : List Command} {cmd : Command}
  {z : Logged} {xs : List Resident}

/-- A command that is logged and carried out leaves the values recoverable. -/
theorem Recoverable.carryOut (hL : Recoverable ⟨c, index, filed⟩) (hcmd : cmd.Fits)
    (hz : z.command = cmd.encode) (hresult : (c.append z).Reshuffled c' xs)
    (hxs : ∀ key, cmd.key ≠ key → (key ∈ xs.map Resident.key ↔ key ∈ c.pairs.map Resident.key))
    (hindex : ∀ key, index'.value? key = if cmd.key = key then cmd.outcome else index.value? key) :
    Recoverable ⟨c', index', filed⟩ := by
  have hlogged : c'.logged = c.logged ++ [cmd] :=
    hresult.logged.trans (c.logged_append hcmd hz)
  have hkeys : ∀ key, key ∈ c'.pairs.map Resident.key ↔ key ∈ xs.map Resident.key :=
    fun key => (hresult.pairs.map Resident.key).mem_iff
  -- Of its own key the command says the last word; of other keys nothing has changed.
  constructor
  · intro key outcome h
    simp only [hlogged, verdict_append, verdict_singleton] at h
    rw [hindex]
    by_cases hk : cmd.key = key
    · simpa [hk] using h
    · rw [if_neg hk] at h ⊢
      exact hL.logged key outcome h
  · intro key h hnot
    simp only [hlogged, verdict_append, verdict_singleton] at h
    rw [hindex]
    by_cases hk : cmd.key = key
    · simp [hk] at h
    · rw [if_neg hk] at h ⊢
      exact hL.filed key h fun hm => hnot ((hkeys key).2 ((hxs key hk).2 hm))

end Logging

/-- Keys of other pairs stay when those of one key are taken out. -/
theorem mem_keys_filter {xs : List Resident} {key key' : Bytes} (hk : key ≠ key') :
    key' ∈ (xs.filter fun y => y.key ≠ key).map Resident.key ↔ key' ∈ xs.map Resident.key := by
  simp only [List.mem_map, List.mem_filter]
  constructor
  · rintro ⟨y, ⟨hy, -⟩, rfl⟩
    exact ⟨y, hy, rfl⟩
  · rintro ⟨y, hy, rfl⟩
    exact ⟨y, ⟨hy, by simpa using Ne.symm hk⟩, rfl⟩

namespace Recoverable

variable {c : Contents} {index : Index} {filed cmds : List Command}

/-- **Commands are added to the file** about keys that are resident or logged. What the file says of
such a key does not count. -/
theorem file (hL : Recoverable ⟨c, index, filed⟩)
    (covered : ∀ cmd ∈ cmds, cmd.key ∈ c.pairs.map Resident.key ∨ verdict cmd.key c.logged ≠ none) :
    Recoverable ⟨c, index, filed ++ cmds⟩ := by
  refine ⟨hL.logged, fun key h hnot => ?_⟩
  have hnone : verdict key cmds = none := verdict_eq_none.2 fun cmd hcmd he => by
    rcases covered cmd hcmd with hc | hc
    · exact hnot (he ▸ hc)
    · exact hc (he ▸ h)
  rw [verdict_append, hnone, Option.none_or]
  exact hL.filed key h hnot

/-- **The victims are reclaimed**, of which the file has told before. -/
theorem reclaim (hL : Recoverable ⟨c, index, filed⟩) (hagrees : Agrees ⟨c, index, filed⟩)
    (told : ∀ x ∈ c.victims, verdict x.key filed = some (some x.value)) :
    Recoverable ⟨{ c with victims := [] }, cleared index c.victims, filed⟩ := by
  constructor
  · intro key outcome h
    rw [value?_cleared]
    exact hL.logged key outcome h
  · intro key h hnot
    rw [value?_cleared]
    -- A victim is no longer resident, so it is the file that has to have its value.
    by_cases hm : key ∈ c.victims.map Resident.key
    · obtain ⟨x, hx, rfl⟩ := List.mem_map.1 hm
      rw [told x hx]
      exact hagrees.tallies.value?_eq (List.mem_append_right _ hx)
    · refine hL.filed key h fun hk => ?_
      obtain ⟨x, hx, rfl⟩ := List.mem_map.1 hk
      rcases List.mem_append.1 hx with hx | hx
      · exact hnot (List.mem_map_of_mem (List.mem_append_left _ hx))
      · exact hm (List.mem_map_of_mem hx)

/-- **The buffers exchange their roles** while the one out of service is empty. The order of the
commands is the same. -/
theorem switch (hL : Recoverable ⟨c, index, filed⟩) (drained : c.outOfService = []) :
    Recoverable ⟨c.switched, index, filed⟩ := by
  have hlogged := c.logged_switched drained
  exact ⟨fun key outcome h => hL.logged key outcome (hlogged ▸ h),
    fun key h => hL.filed key (hlogged ▸ h)⟩

/-- **The generation out of service is freed** as soon as the file ends with its commands. -/
theorem clear (hL : Recoverable ⟨c, index, filed ++ c.generation c.active.flipped⟩) :
    Recoverable ⟨c.drained, index, filed ++ c.generation c.active.flipped⟩ := by
  have hboth : ∀ key, verdict key c.logged = (verdict key (c.generation c.active)).or
      (verdict key (c.generation c.active.flipped)) := fun key => verdict_append key _ _
  constructor
  · intro key outcome h
    simp only [c.logged_drained] at h
    exact hL.logged key outcome (by rw [hboth, h]; rfl)
  · intro key h hnot
    simp only [c.logged_drained] at h
    cases ho : verdict key (c.generation c.active.flipped) with
    | none => exact hL.filed key (by rw [hboth, h, ho]; rfl) hnot
    | some outcome =>
      -- The command that was freed said last what the key is, and now the file says so.
      rw [verdict_append, ho]
      exact hL.logged key outcome (by rw [hboth, h, ho]; rfl)

/-- **The file is replaced by the index** while nothing is logged. -/
theorem compact (index : Index) (drained : ∀ y, c.log y = []) :
    Recoverable ⟨c, index, index.pairs.map fun pair => .set pair.1 pair.2⟩ := by
  have hempty : c.logged = [] := by simp [Contents.logged, Contents.generation, drained]
  refine ⟨fun key outcome h => by simp [hempty] at h, fun key h hnot => ?_⟩
  rw [Index.verdict_pairs]
  cases index.value? key <;> rfl

end Recoverable

/-- Shifts keep the values recoverable. -/
theorem Recoverable.shift (hL : L.Recoverable) (hagrees : L.Agrees) (hshift : Shift L L') :
    L'.Recoverable := by
  cases hshift with
  | rearrange result =>
    refine ⟨fun key outcome h => hL.logged key outcome (result.logged ▸ h), fun key h hnot => ?_⟩
    refine hL.filed key (result.logged ▸ h) fun hm => hnot ?_
    exact (result.pairs.map Resident.key).mem_iff.2 hm
  | tell fits resident => exact hL.file fun cmd hcmd => .inl (resident cmd hcmd)
  | reclaim told => exact hL.reclaim hagrees told

/-- Changes keep the values recoverable. -/
theorem Recoverable.change (hL : L.Recoverable) (hagrees : L.Agrees) {key : Bytes}
    (hchange : Change key L L') : L'.Recoverable := by
  cases hchange with
  | @write c c' index filed x z fits named encoded result =>
    refine hL.carryOut fits encoded result (fun key hk => ?_) fun key => Index.value?_insert ..
    have hne : x.key ≠ key := hk
    rw [List.map_cons, List.mem_cons, mem_keys_filter hne]
    exact or_iff_right hne.symm
  | remove fits encoded result =>
    exact hL.carryOut fits encoded result (fun key hk => mem_keys_filter hk)
      fun key => Index.value?_erase ..
  | shift shifted => exact hL.shift hagrees shifted

/-- **Handovers keep the values recoverable.** -/
theorem Recoverable.handover (hL : L.Recoverable) (hhand : Handover L L') : L'.Recoverable := by
  cases hhand with
  | switch drained => exact hL.switch drained
  | file =>
    -- What is handed over is logged, so the file may be told of it.
    refine hL.file fun cmd hcmd => .inr fun hnone => ?_
    rw [Contents.logged, verdict_append, Option.or_eq_none_iff] at hnone
    exact verdict_eq_none.1 hnone.2 cmd hcmd rfl
  | free => exact hL.clear

/-- **Every ordered step keeps the values recoverable.** -/
theorem Recoverable.step (hL : L.Recoverable) (hagrees : L.Agrees) (hd : d ≠ .free)
    (hstep : Step d L L') : L'.Recoverable := by
  cases hstep with
  | change changed => exact hL.change hagrees changed
  | handOver loud handed => exact hL.handover handed
  | loosely free => exact absurd free hd
  | compact loud drained => exact .compact _ drained

theorem Recoverable.steps (hL : L.Recoverable) (hagrees : L.Agrees) (hd : d ≠ .free)
    (hsteps : Steps d L L') : L'.Recoverable := by
  induction hsteps with
  | refl => exact hL
  | tail hsteps hstep ih => exact ih.step (hagrees.steps hsteps) hd hstep

/-! ## Restarts -/

/-- The commands that a restart hands to the file: the victims, the oldest eviction first, and then
the log. -/
def handedOver (c : Contents) : List Command :=
  c.victims.reverse.map (fun x => .set x.key x.value) ++ c.logged

/-- An index with the pairs of the entry store. -/
def indexed (index : Index) (xs : List Resident) : Index :=
  xs.foldl (fun index x => index.insert x.key { value := x.value, node := some x.node }) index

/-- **The ledger after a restart** from the contents of a pool and the commands of a file. -/
def restarted (c : Contents) (filed : List Command) : Ledger where
  contents := { c with victims := [], log := fun _ => [] }
  index := indexed ((filed ++ handedOver c).foldl Index.apply Index.empty) c.entries
  filed := filed ++ handedOver c

section Indexing

variable {index : Index} {xs : List Resident} {key : Bytes}

theorem get?_indexed_of_not_mem (hkey : key ∉ xs.map Resident.key) :
    (indexed index xs).get? key = index.get? key := by
  induction xs generalizing index with
  | nil => rfl
  | cons x xs ih =>
    obtain ⟨hne, hrest⟩ := not_or.1 (List.mem_cons.not.1 hkey)
    refine (ih hrest).trans ?_
    rw [Index.get?_insert, if_neg (Ne.symm hne)]

theorem get?_indexed_of_mem (hkeys : (xs.map Resident.key).Nodup) {x : Resident} (hx : x ∈ xs) :
    (indexed index xs).get? x.key = some { value := x.value, node := some x.node } := by
  induction xs generalizing index with
  | nil => simp at hx
  | cons y xs ih =>
    obtain ⟨hy, hrest⟩ := List.nodup_cons.1 hkeys
    rcases List.mem_cons.1 hx with rfl | hx
    · refine (get?_indexed_of_not_mem hy).trans ?_
      rw [Index.get?_insert, if_pos rfl]
    · exact ih hrest hx

/-- **An index that refers to no nodes.** -/
def Nodeless (index : Index) : Prop := ∀ key entry, index.get? key = some entry → entry.node = none

theorem nodeless_empty : Nodeless Index.empty := fun _ _ h => by cases h

/-- No command makes a key resident in the pool. -/
theorem Nodeless.foldl_apply (hindex : Nodeless index) (cmds : List Command) :
    Nodeless (cmds.foldl Index.apply index) :=
  fun key _ h => Index.node_foldl_apply _ key h (hindex key)

/-- **An index tallies once the entry store is in it**, if it refers to no nodes before and nothing but
the entry store is left. -/
theorem tallies_indexed {c : Contents} (hkeys : (c.pairs.map Resident.key).Nodup)
    (hvictims : c.victims = []) (hindex : Nodeless index) : Tallies c (indexed index c.entries) := by
  have hpairs : c.pairs = c.entries := by rw [Contents.pairs, hvictims, List.append_nil]
  refine ⟨hkeys, fun key value node => ?_⟩
  rw [hpairs] at hkeys ⊢
  by_cases hkey : key ∈ c.entries.map Resident.key
  · obtain ⟨x, hx, rfl⟩ := List.mem_map.1 hkey
    rw [get?_indexed_of_mem hkeys hx]
    constructor
    · rintro ⟨⟩
      exact ⟨x, hx, rfl, rfl, rfl⟩
    · rintro ⟨y, hy, rfl, he, rfl⟩
      obtain rfl : y = x := List.inj_on_of_nodup_map hkeys hy hx he
      rfl
  · rw [get?_indexed_of_not_mem hkey]
    constructor
    · intro h
      cases hindex key _ h
    · rintro ⟨y, hy, -, rfl, -⟩
      exact absurd (List.mem_map_of_mem hy) hkey

end Indexing

section Restarts

variable {c : Contents} {filed : List Command}

/-- What the victims are handed over with. -/
theorem verdict_victims (hc : c.Regular) (key : Bytes) :
    (∀ x ∈ c.victims, x.key = key → verdict key (c.victims.reverse.map fun x =>
        .set x.key x.value) = some (some x.value)) ∧
      (key ∉ c.victims.map Resident.key →
        verdict key (c.victims.reverse.map fun x => .set x.key x.value) = none) := by
  have hkeys : (c.victims.reverse.map Resident.key).Nodup := by
    rw [List.map_reverse, List.nodup_reverse]
    exact hc.keys.sublist ((List.sublist_append_right _ _).map _)
  refine ⟨fun x hx he => ?_, fun hnot => verdict_eq_none.2 fun cmd hcmd he => hnot ?_⟩
  · subst he
    exact verdict_sets hkeys (List.mem_reverse.2 hx)
  · obtain ⟨x, hx, rfl⟩ := List.mem_map.1 hcmd
    exact he ▸ List.mem_map_of_mem (List.mem_reverse.1 hx)

theorem nodup_entries (hc : c.Regular) : (c.entries.map Resident.key).Nodup :=
  hc.keys.sublist ((List.sublist_append_left _ _).map _)

/-- The value of a key after a restart is what the entry store, or else the file says. -/
theorem value?_restarted_of_not_mem {key : Bytes} (hkey : key ∉ c.entries.map Resident.key) :
    (restarted c filed).index.value? key = (verdict key (filed ++ handedOver c)).join := by
  rw [Index.value?, restarted, get?_indexed_of_not_mem hkey]
  refine (Index.value?_foldl_apply _ _ _).trans ?_
  cases verdict key (filed ++ handedOver c) <;> rfl

theorem fits_handedOver (hc : c.Regular) : ∀ cmd ∈ handedOver c, cmd.Fits := by
  intro cmd hcmd
  rcases List.mem_append.1 hcmd with hcmd | hcmd
  · obtain ⟨x, hx, rfl⟩ := List.mem_map.1 hcmd
    exact hc.pairs x (List.mem_append_right _ (List.mem_reverse.1 hx))
  · exact hc.fits_logged cmd hcmd

/-- **Index and pool agree after a restart.** -/
theorem agrees_restarted (hc : c.Regular) (hfiled : ∀ cmd ∈ filed, cmd.Fits) :
    (restarted c filed).Agrees := by
  have hpairs : (restarted c filed).contents.pairs = c.entries := List.append_nil _
  have hfits : ∀ cmd ∈ filed ++ handedOver c, cmd.Fits := fun cmd hcmd =>
    (List.mem_append.1 hcmd).elim (hfiled cmd) (fits_handedOver hc cmd)
  have htallies : Tallies (restarted c filed).contents (restarted c filed).index :=
    tallies_indexed (hpairs ▸ nodup_entries hc) rfl (nodeless_empty.foldl_apply _)
  refine ⟨⟨htallies.keys, fun x hx => ?_, fun _ _ h => absurd h List.not_mem_nil⟩,
    fun key value node => ?_, fun key value h => ?_, hfits⟩
  · rw [hpairs] at hx
    exact hc.pairs x (List.mem_append_left _ hx)
  · exact htallies.resident key value node
  · by_cases hkey : key ∈ c.entries.map Resident.key
    · obtain ⟨x, hx, rfl⟩ := List.mem_map.1 hkey
      rw [Index.value?, restarted, get?_indexed_of_mem (nodup_entries hc) hx] at h
      obtain rfl : x.value = value := Option.some.inj h
      exact hc.pairs x (List.mem_append_left _ hx)
    · rw [value?_restarted_of_not_mem hkey] at h
      exact hfits _ (mem_of_verdict (Option.join_eq_some_iff.1 h))

/-- **The values are recoverable after a restart.** -/
theorem recoverable_restarted (c : Contents) (filed : List Command) :
    (restarted c filed).Recoverable := by
  refine ⟨fun key outcome h => ?_, fun key _ hnot => value?_restarted_of_not_mem fun hm => hnot ?_⟩
  · have hempty : (restarted c filed).contents.logged = [] := rfl
    simp [hempty] at h
  · have hpairs : (restarted c filed).contents.pairs = c.entries := List.append_nil _
    rwa [hpairs]

/-- **A restart recovers the values.** -/
theorem value?_restarted (hL : L.Recoverable) (hagrees : L.Agrees) (key : Bytes) :
    (restarted L.contents L.filed).index.value? key = L.index.value? key := by
  have hc := hagrees.regular
  -- The sources are gone through from the last one read to the first.
  by_cases hkey : key ∈ L.contents.entries.map Resident.key
  · obtain ⟨x, hx, rfl⟩ := List.mem_map.1 hkey
    rw [hagrees.tallies.value?_eq (List.mem_append_left _ hx), Index.value?, restarted,
      get?_indexed_of_mem (nodup_entries hc) hx]
    rfl
  · rw [value?_restarted_of_not_mem hkey, handedOver, ← List.append_assoc, verdict_append]
    cases hlogged : verdict key L.contents.logged with
    | some outcome => exact (hL.logged key outcome hlogged).symm
    | none =>
      rw [Option.none_or, verdict_append]
      obtain ⟨hvictim, hother⟩ := verdict_victims hc key
      by_cases hm : key ∈ L.contents.victims.map Resident.key
      · obtain ⟨x, hx, rfl⟩ := List.mem_map.1 hm
        rw [hvictim x hx rfl, hagrees.tallies.value?_eq (List.mem_append_right _ hx)]
        rfl
      · rw [hother hm, Option.none_or]
        exact (hL.filed key hlogged fun h => (L.contents.mem_keys_pairs.1 h).elim hkey hm).symm

end Restarts

end Ledger

end PersistentTier
