import PersistentTier.Proofs.Tier.Calls
import PersistentTier.Proofs.Tier.Site

/-!
# The limits

Storing a value may leave too many pairs in the entry store. Round by round some are then evicted. While
there is a pair too many every round moves one, so the loop comes to its end within the limit, whatever
the policy names and however large a batch is. Once there are enough victims they are flushed, and then
the file ends with what the index says of them; the key that has just been written may be one of them.

## Main definitions

* `Tier.Shortens`: the eviction loop, with no bound on its rounds
* `Snapshot.Relieves`: the victims have been flushed if there were enough of them
* `Tier.Confines`: a value has been stored within the limits

## Main results

* `Tier.Displays.shortens`, `Tier.Displays.exists_shortened`: the eviction loop comes to its end
* `Snapshot.Relieves.verdict`: what the file says of the victims that have been flushed
* `Site.exists_confined`: values are stored within the limits
-/

namespace PersistentTier

open Ledger

namespace Tier

variable {S S' : Snapshot} {t t' : Tier} {limit : Nat}

/-! ## The eviction loop -/

/-- **The eviction loop**, with no bound on its rounds: the entry store is within its limit, or a round
moves some pairs and the loop goes on. A round that moves nothing would be the last one as well, but
above the limit there is none. -/
inductive Shortens (limit : Nat) : Tier → Tier → Prop
  | within {t : Tier} (hle : t.pool.root.entryCount.toNat ≤ limit) : Shortens limit t t
  | again {t t₁ t' : Tier} {moved : Nat} (hlt : limit < t.pool.root.entryCount.toNat)
      (round : (evictSome (t.pool.root.entryCount.toNat - limit)).run t = .ok moved t₁)
      (moves : moved ≠ 0) (rest : Shortens limit t₁ t') : Shortens limit t t'

/-- The loop ends within the limit. -/
theorem Shortens.entryCount_le (h : t.Shortens limit t') : t'.pool.root.entryCount.toNat ≤ limit := by
  induction h with
  | within hle => exact hle
  | again _ _ _ _ ih => exact ih

/-- **The eviction loop comes to its end** by itself, so long as there are no fewer rounds than pairs too
many. -/
theorem Displays.shortens {rounds : Nat} (ht : t.Displays (fun _ => False) 0 S)
    (hrounds : S.contents.entries.length ≤ limit + rounds) :
    ∃ t', (evictDownTo limit rounds).run t = .ok () t' ∧ t.Shortens limit t' := by
  -- Induction on the rounds: each one moves some pair, so there is one pair less for the next one.
  induction rounds generalizing t S with
  | zero => exact ⟨t, rfl, .within (ht.entryCount ▸ hrounds)⟩
  | succ rounds ih =>
    rw [evictDownTo, EStateM.run_bind, EStateM.run_get]
    dsimp only
    by_cases hle : t.pool.root.entryCount.toNat ≤ limit
    · rw [if_pos hle]
      exact ⟨t, rfl, .within hle⟩
    · have hcount := ht.entryCount
      obtain ⟨moved, t₁, S₁, hround, ht₁, -, hlength, hsome⟩ :=
        (turns_evictSome _ S (t.pool.root.entryCount.toNat - limit)).exists_ok ht
      have hmoved : moved ≠ 0 := hsome (by omega) (by omega)
      obtain ⟨t', hrest, hshortens⟩ := ih ht₁ (by omega)
      rw [if_neg hle, EStateM.run_bind, hround]
      dsimp only
      rw [if_neg hmoved]
      exact ⟨t', hrest, .again (Nat.lt_of_not_le hle) hround hmoved hshortens⟩

/-- **The entry store is brought within its limit**, if it has one. -/
theorem Displays.exists_shortened (ht : t.Displays (fun _ => False) 0 S) :
    ∃ t' S', enforceEntryLimit.run t = .ok () t' ∧
      (∀ limit ∈ t.settings.maxEntries, t.Shortens limit t') ∧
      t'.Displays (fun _ => False) 0 S' ∧ S.Rearranges S' := by
  obtain ⟨_, t', S', hrun, ht', hrearranges⟩ := (turns_enforceEntryLimit _ S).exists_ok ht
  refine ⟨t', S', hrun, fun limit hlimit => ?_, ht', hrearranges⟩
  have hrounds : S.contents.entries.length ≤ limit + t.pool.root.entryCount.toNat := by
    rw [ht.entryCount]
    exact Nat.le_add_left _ _
  obtain ⟨t'', hloop, hshortens⟩ := ht.shortens hrounds
  rw [enforceEntryLimit, EStateM.run_bind, EStateM.run_get] at hrun
  dsimp only at hrun
  rw [Option.mem_def.1 hlimit] at hrun
  cases hloop.symm.trans hrun
  exact hshortens

end Tier

/-! ## Flushing enough victims -/

/-- **The victims have been flushed** if there were enough of them. -/
inductive Snapshot.Relieves (S : Snapshot) : Snapshot → Prop
  | few (hlt : S.contents.victims.length < S.settings.victimThreshold) : S.Relieves S
  | flushed {f : AppendFile} (hfiles : S.file.Files
      ((S.contents.victims.reverse.map fun x => .set x.key x.value).map Command.encode) f) :
    S.Relieves { S with
      contents := { S.contents with victims := [] }
      index := cleared S.index S.contents.victims
      file := f }

namespace Snapshot.Relieves

variable {S S' : Snapshot}

theorem entries_eq (h : S.Relieves S') : S'.contents.entries = S.contents.entries := by
  cases h <;> rfl

/-- There are not enough victims any more. -/
theorem length_victims_lt (h : S.Relieves S') (hpos : 0 < S.settings.victimThreshold) :
    S'.contents.victims.length < S.settings.victimThreshold := by
  cases h with
  | few hlt => exact hlt
  | flushed => exact hpos

theorem value?_eq (h : S.Relieves S') (key : Bytes) : S'.index.value? key = S.index.value? key := by
  cases h with
  | few => rfl
  | flushed => exact value?_cleared S.index S.contents.victims key

/-- **The file ends with what the index says** of a victim that has been flushed. -/
theorem verdict (h : S.Relieves S') (hS : Tallies S.contents S.index) {filed : List Command}
    (hfile : S.file.Carries true filed) (hfiled : ∀ cmd ∈ filed, cmd.Fits)
    (hindexed : ∀ key value, S.index.value? key = some value → (Command.set key value).Fits)
    {key : Bytes}
    (hbefore : key ∈ S.contents.victims.map Resident.key)
    (hafter : key ∉ S'.contents.victims.map Resident.key) :
    ∃ cmds value, S'.file.readAll = .ok cmds ∧ Command.verdict key cmds = some (some value) ∧
      S'.index.value? key = some value := by
  obtain ⟨x, hx, rfl⟩ := List.mem_map.1 hbefore
  have hvalue : S'.index.value? x.key = some x.value :=
    (h.value?_eq x.key).trans (hS.value?_eq (List.mem_append_right _ hx))
  cases h with
  | few => exact absurd hbefore hafter
  | @flushed f hfiles =>
    let told := S.contents.victims.reverse.map fun x => Command.set x.key x.value
    have hx' := List.mem_reverse.2 hx
    have hfits : ∀ cmd ∈ filed ++ told, cmd.Fits := List.forall_mem_append.2
      ⟨hfiled, List.forall_mem_map.2 fun y hy =>
        hindexed y.key y.value (hS.value?_eq (List.mem_append_right _ (List.mem_reverse.1 hy)))⟩
    have hread := (hfiles.gains hfile).readAll (List.ne_nil_of_mem (List.mem_map_of_mem hx')) hfile hfits
    -- No key comes twice, so what is told of the victim is the last that is told of its key.
    have hkeys : (S.contents.victims.reverse.map Resident.key).Nodup := by
      have hall := hS.keys
      rw [Contents.pairs, List.map_append] at hall
      rw [List.map_reverse]
      exact List.nodup_reverse.2 (List.nodup_append.1 hall).2.1
    refine ⟨filed ++ told, x.value, hread, ?_, hvalue⟩
    rw [Command.verdict_append, Command.verdict_sets hkeys hx']
    rfl

end Snapshot.Relieves

namespace Tier

/-- **The victims are flushed** if there are enough of them. -/
theorem turns_enforceVictimLimit {E : Failure → Prop} {S : Snapshot} {live : Bool}
    (hfile : S.file.Flows live) :
    Turns E 0 S enforceVictimLimit (fun _ S' => S.Relieves S') fun _ => True := by
  refine Turns.get fun t ht => ?_
  rw [ht.settings, ht.victimCount]
  split
  · refine Turns.bind ((turns_flushVictims (.inr ⟨live, hfile⟩)).mono (fun _ _ h => h)
      fun _ _ => trivial) ?_
    rintro _ _ ⟨-, f, rfl, hfiles⟩
    exact Turns.pure (.flushed hfiles)
  · rename_i hfew
    exact Turns.pure (.few (Nat.lt_of_not_le hfew))

/-! ## Values that are stored within the limits -/

/-- Storing a value in three steps. -/
theorem run_insert {key value : Bytes} {t t₁ t₂ t' : Tier} (hstore : (store key value).run t = .ok () t₁)
    (hentries : enforceEntryLimit.run t₁ = .ok () t₂) (hvictims : enforceVictimLimit.run t₂ = .ok () t') :
    (insert key value).run t = .ok () t' := by
  have hlimits : enforceLimits.run t₁ = .ok () t' := by
    rw [enforceLimits, EStateM.run_bind, hentries]
    exact hvictims
  rw [insert_eq, EStateM.run_bind, hstore]
  simp only [EStateM.run, tolerate] at hlimits ⊢
  rw [hlimits]

/-- **A value has been stored within the limits**: `t₁` is the tier when the value is in its place, and
`t₂` the one when the entry store is within its limit. -/
structure Confines (t : Tier) (key value : Bytes) (t₁ t₂ t' : Tier) : Prop where
  stored : (store key value).run t = .ok () t₁
  shortened : enforceEntryLimit.run t₁ = .ok () t₂
  /-- The eviction loop comes to its end within the limit. -/
  shortens : ∀ limit ∈ t.settings.maxEntries, t₁.Shortens limit t₂
  relieved : enforceVictimLimit.run t₂ = .ok () t'
  inserted : (insert key value).run t = .ok () t'
  entryCount_le : ∀ limit ∈ t.settings.maxEntries, t'.pool.root.entryCount.toNat ≤ limit
  victimCount_lt : t'.pool.root.victimCount.toNat < t.settings.victimThreshold
  value?_eq : ∀ k, t'.index.value? k = if key = k then some value else t.index.value? k
  /-- Of every key that has left the victim pipeline the file says last what the index says. -/
  told : ∃ before after, victimKeys.run t₂ = .ok before t₂ ∧ victimKeys.run t' = .ok after t' ∧
    (t.file.isEnabled = true → ∀ k ∈ before, k ∉ after → ∃ cmds v,
      t'.file.readAll = .ok cmds ∧ Command.verdict k cmds = some (some v) ∧
        t'.index.value? k = some v)

end Tier

/-- Settings that are valid permit some victims. -/
theorem Settings.victimThreshold_pos {settings : Settings} (h : settings.validate = .ok ()) :
    0 < settings.victimThreshold := by
  refine Nat.pos_of_ne_zero fun hzero => ?_
  simp only [validate, hzero, if_true] at h
  split at h <;> cases h

open Tier in
/-- **Values are stored within the limits**, whatever has happened at a site: the eviction loop comes to
its end, and no value but that of the key changes. Writes must not be limited. If there is no memory for
the value, nothing is returned. -/
theorem Site.exists_confined {s : Site} {t : Tier} {key value : Bytes}
    (hs : s.Reachable fun _ a => a.Fits) (ht : s.tier = some t)
    (hbudget : t.pool.writeBudget = none) (hsettings : t.settings.validate = .ok ())
    (hfits : (Command.set key value).Fits) :
    (∃ t₁ t₂ t', t.Confines key value t₁ t₂ t') ∨
      (maxSlots < t.pool.slots.size + 5 ∧
        ∃ t', (Tier.insert key value).run t = .error (.crash .outOfMemory) t') := by
  obtain ⟨settings, L, hshows, hL⟩ := (hs.sound fun _ _ h => h).tier t ht
  have hdisplays := hshows.displays hL hbudget
  have htallies : Tallies L.contents t.index := hshows.index ▸ hL.tallies
  obtain ⟨_, t₁, S₁, hstore, ht₁, hputs⟩ | ⟨hshort, t', hstore⟩ :=
    Turns.ok_or_crash (fun size => turns_store _ htallies key value) hdisplays
  -- From here on nothing is allocated, so nothing fails.
  · obtain ⟨t₂, S₂, hentries, hshortens, ht₂, hrearranges⟩ := ht₁.exists_shortened
    have hsettings₁ : t₁.settings = t.settings := ht₁.settings.trans hputs.settings_eq
    have hsettings₂ : S₂.settings = t.settings := hrearranges.settings.trans hputs.settings_eq
    have hfile₂ : S₂.file = t.file := hrearranges.file.trans hputs.file_eq
    have htallies₂ : Tallies S₂.contents S₂.index := hrearranges.tallies (hputs.tallies htallies)
    have hcarries : S₂.file.Carries _ L.filed := hfile₂ ▸ hshows.file
    obtain ⟨_, t', S', hvictims, ht', hrelieves⟩ :=
      (turns_enforceVictimLimit ⟨_, hcarries⟩).exists_ok ht₂
    have hvalues : ∀ k, S₂.index.value? k = if key = k then some value else t.index.value? k := by
      intro k
      rw [hrearranges.index]
      exact hputs.value?_eq k
    -- What is told of the victims is to be read back, the new value among it.
    have hindexed : ∀ k v, S₂.index.value? k = some v → (Command.set k v).Fits := by
      intro k v hvalue
      rw [hvalues] at hvalue
      split at hvalue
      · rename_i hkey
        exact hkey ▸ Option.some.inj hvalue ▸ hfits
      · exact hL.indexed k v (hshows.index ▸ hvalue)
    refine .inl ⟨t₁, t₂, t', ?_⟩
    constructor
    case stored => exact hstore
    case shortened => exact hentries
    case shortens => exact hsettings₁ ▸ hshortens
    case relieved => exact hvictims
    case inserted => exact run_insert hstore hentries hvictims
    case entryCount_le =>
      intro limit hlimit
      rw [ht'.entryCount, hrelieves.entries_eq, ← ht₂.entryCount]
      exact (hshortens limit (hsettings₁ ▸ hlimit)).entryCount_le
    case victimCount_lt =>
      rw [ht'.victimCount, ← hsettings₂]
      exact hrelieves.length_victims_lt (hsettings₂ ▸ Settings.victimThreshold_pos hsettings)
    case value?_eq =>
      intro k
      rw [ht'.index, hrelieves.value?_eq, hvalues]
    case told =>
      refine ⟨_, _, reads_victimKeys _ _ t₂ ht₂.pool.holds ht₂.index,
        reads_victimKeys _ _ t' ht'.pool.holds ht'.index, fun henabled k hbefore hafter => ?_⟩
      rw [ht'.file, ht'.index]
      exact hrelieves.verdict htallies₂ (hcarries.of_isEnabled (hfile₂ ▸ henabled)) hL.filed
        hindexed hbefore hafter
  · refine .inr ⟨hshort, t', ?_⟩
    rw [insert_eq, EStateM.run_bind, hstore]

/-- An eviction under the random policy has failed, and a later write finds two pairs too many. -/
theorem Site.exists_confined_exceeded :
    let settings : Settings :=
      { filePath := some "f", policy := .random, maxEntries := some 1, victimThreshold := 2 }
    let s₁ := (Action.restart settings 1 0).perform {}
    let s₂ := (Action.operate (.insert [1] [10])).perform s₁
    let s₃ := (Action.operate (.limit (some 9))).perform s₂
    let s₄ := (Action.operate (.insert [2] [20])).perform s₃
    let s₅ := (Action.operate (.limit none)).perform s₄
    ∃ t t₁ t₂ t', s₅.tier = some t ∧ t.pool.root.entryCount = 2 ∧ t.Confines [3] [30] t₁ t₂ t' ∧
      t'.pool.root.entryCount.toNat ≤ 1 := by
  intro settings s₁ s₂ s₃ s₄ s₅
  have hfirst : (Command.set [1] [10]).Fits := by decide
  have hsecond : (Command.set [2] [20]).Fits := by decide
  have hthird : (Command.set [3] [30]).Fits := by decide
  have hs₂ : s₂.Reachable fun _ a => a.Fits :=
    .step (.step .blank trivial (by decide +kernel)) hfirst (by decide +kernel)
  have hs₄ : s₄.Reachable fun _ a => a.Fits :=
    .step (.step hs₂ trivial (by decide +kernel)) hsecond (by decide +kernel)
  have hs₅ : s₅.Reachable fun _ a => a.Fits := .step hs₄ trivial (by decide +kernel)
  have hfacts : s₅.tier.map (fun t => (t.settings, t.pool.writeBudget, t.pool.root.entryCount,
      decide (maxSlots < t.pool.slots.size + 5))) = some (settings, none, 2, false) := by decide +kernel
  obtain ⟨t, ht, hfacts⟩ := Option.map_eq_some_iff.1 hfacts
  simp only [Prod.mk.injEq, decide_eq_false_iff_not] at hfacts
  obtain ⟨hsettings, hbudget, hcount, hroom⟩ := hfacts
  have hvalid : t.settings.validate = .ok () := by
    rw [hsettings]
    rfl
  have hconfined := Site.exists_confined hs₅ ht hbudget hvalid hthird
  obtain ⟨t₁, t₂, t', hconfines⟩ := hconfined.resolve_right fun h => hroom h.1
  have hlimit : 1 ∈ t.settings.maxEntries := by
    rw [hsettings]
    rfl
  exact ⟨t, t₁, t₂, t', ht, hcount, hconfines, hconfines.entryCount_le 1 hlimit⟩

end PersistentTier
