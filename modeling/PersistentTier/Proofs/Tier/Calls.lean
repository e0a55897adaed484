import PersistentTier.Proofs.Tier.Cache

/-!
# Calls

What a call of a tier answers, and what it makes of the tier, can be told from the cache that the tier
appears as. So a run of calls is a run on the cache, for as long as there is memory and nothing else is
in the way.

## Main definitions

* `Tier.Appears`: a tier that appears as a given cache
* `Tier.Refines`: what an operation answers and makes of a cache
* `Call`, `Answer`, `Call.run`: the calls of a tier with their answers
* `Call.answer`, `Call.after`: the same for a cache

## Main results

* `refines_evictDownTo_batch`, `refines_evictDownTo_single`: keys are evicted down to the limit
* `refines_enforceLimits`: what the limits of the settings come to
* `Call.refines`: each call does to a tier what it does to the cache
* `Tier.Appears.runAll`: and so does a run of calls
-/

namespace PersistentTier

open Ledger

namespace Tier

/-- **A tier that appears as a cache**, with room for some allocations. -/
def Appears (E : Failure → Prop) (room : Nat) (c : Cache) (t : Tier) : Prop :=
  ∃ S, t.Displays E room S ∧ S.Realizes c

/-- **What an operation makes of a cache.** If it succeeds it returns `a`, and the tier appears as `c'`;
if it fails, the failure is permitted. The arena does not shrink. -/
def Refines {α : Type} (E : Failure → Prop) (room : Nat) (c : Cache) (act : TierM α) (a : α)
    (c' : Cache) : Prop :=
  ∀ t : Tier, t.Appears E room c → match act.run t with
    | .ok b t' => t.pool.Precedes t'.pool ∧ b = a ∧ t'.Appears E 0 c'
    | .error e t' => t.pool.Precedes t'.pool ∧ E e

section Rules

variable {α β : Type} {E : Failure → Prop} {room : Nat} {c c' c'' : Cache} {act : TierM α}
  {f : α → TierM β} {a : α} {b : β} {t : Tier}

namespace Appears

theorem spent (ht : t.Appears E room c) : t.Appears E 0 c :=
  let ⟨S, ht, hS⟩ := ht
  ⟨S, ht.spent, hS⟩

theorem policy (ht : t.Appears E room c) : t.policy = c.policy :=
  let ⟨_, ht, hS⟩ := ht
  ht.policy.trans hS.policy

theorem settings (ht : t.Appears E room c) : t.settings = c.settings :=
  let ⟨_, ht, hS⟩ := ht
  ht.settings.trans hS.settings

theorem entryCount (ht : t.Appears E room c) : t.pool.root.entryCount.toNat = c.entries.length := by
  obtain ⟨S, ht, hS⟩ := ht
  exact ht.entryCount.trans hS.length_entries

theorem victimCount (ht : t.Appears E room c) :
    t.pool.root.victimCount.toNat = c.victims.length := by
  obtain ⟨S, ht, hS⟩ := ht
  rw [← hS.victims, List.length_map]
  exact ht.victimCount

theorem length_lt (ht : t.Appears E room c) : c.entries.length < 2 ^ 64 :=
  ht.entryCount ▸ t.pool.root.entryCount.toNat_lt

theorem pairs_index (ht : t.Appears E room c) : t.index.pairs = c.index.pairs := by
  obtain ⟨S, ht, hS⟩ := ht
  rw [ht.index, ← hS.index, Index.pairs_unplaced]

end Appears

/-- **A tier that shows a ledger has a snapshot that is seen as a cache.** -/
theorem Shows.exists_realizes {m : Mode} {L : Ledger} (ht : t.Shows m 0 L) (hL : L.Agrees) :
    ∃ c, Snapshot.Realizes ⟨L.contents, t.index, t.file, t.policy, t.settings⟩ c := by
  have hencoded : L.contents.Encoded := fun y z hz =>
    let ⟨cmd, _, hcmd⟩ := hL.regular.log y z hz
    ⟨cmd, hcmd⟩
  have htallies : Tallies L.contents t.index := ht.index ▸ hL.tallies
  exact ⟨⟨⟨_, _⟩, _, _, _, m.live⟩, rfl, rfl, rfl, rfl, rfl, htallies, hencoded, _, ht.file⟩

/-- Nothing troubles such a tier so long as its writes are not limited. -/
theorem Shows.displays {m : Mode} {L : Ledger} (ht : t.Shows m 0 L) (hL : L.Agrees)
    (hbudget : t.pool.writeBudget = none) :
    t.Displays (fun _ => False) 0 ⟨L.contents, t.index, t.file, t.policy, t.settings⟩ :=
  ⟨ht.pool.serves hL.regular.keys hbudget, rfl, rfl, rfl, rfl⟩

theorem Shows.exists_appears {m : Mode} {L : Ledger} (ht : t.Shows m 0 L) (hL : L.Agrees)
    (hbudget : t.pool.writeBudget = none) : ∃ c, t.Appears (fun _ => False) 0 c := by
  obtain ⟨c, hc⟩ := ht.exists_realizes hL
  exact ⟨c, _, ht.displays hL hbudget, hc⟩

namespace Refines

/-- What is said of every snapshot of a cache is said of the cache. -/
theorem of_turns (h : ∀ S : Snapshot, S.Realizes c →
      Turns E room S act (fun b S' => b = a ∧ S'.Realizes c') fun _ => True) :
    Refines E room c act a c' := by
  rintro t ⟨S, ht, hS⟩
  have hturns := h S hS t ht
  cases hr : act.run t with
  | ok b t' =>
    rw [hr] at hturns
    obtain ⟨hprecedes, S', ht', rfl, hS'⟩ := hturns
    exact ⟨hprecedes, rfl, S', ht', hS'⟩
  | error e t' =>
    rw [hr] at hturns
    exact ⟨hturns.1, hturns.2.1⟩

/-- Where no failure is permitted, it does not matter what would be left. -/
theorem turns (h : Refines E room c act a c') (hE : ∀ e, ¬E e) {S : Snapshot} (hS : S.Realizes c)
    {X : Snapshot → Prop} : Turns E room S act (fun b S' => b = a ∧ S'.Realizes c') X := by
  intro t ht
  have hrefines := h t ⟨S, ht, hS⟩
  cases hr : act.run t with
  | ok b t' =>
    rw [hr] at hrefines
    obtain ⟨hprecedes, rfl, S', ht', hS'⟩ := hrefines
    exact ⟨hprecedes, S', ht', rfl, hS'⟩
  | error e t' =>
    rw [hr] at hrefines
    exact absurd hrefines.2 (hE e)

theorem bind (hact : Refines E room c act a c') (hf : Refines E 0 c' (f a) b c'') :
    Refines E room c (act >>= f) b c'' := by
  intro t ht
  have h := hact t ht
  rw [EStateM.run_bind]
  cases hr : act.run t with
  | error e t' =>
    rw [hr] at h
    exact h
  | ok a' t' =>
    rw [hr] at h
    obtain ⟨hprecedes, rfl, ht'⟩ := h
    have hnext := hf t' ht'
    dsimp only
    cases hr' : (f a').run t' with
    | ok | error =>
      rw [hr'] at hnext
      exact ⟨hprecedes.trans hnext.1, hnext.2⟩

theorem pure (a : α) : Refines E room c (Pure.pure a) a c := fun _ ht =>
  ⟨.refl _, rfl, ht.spent⟩

theorem get {f : Tier → TierM β} (hf : ∀ t : Tier, t.Appears E room c → Refines E room c (f t) b c') :
    Refines E room c (MonadState.get >>= f) b c' := fun t ht => hf t ht t ht

/-- An operation that only looks. -/
theorem read (h : ∀ S : Snapshot, S.Realizes c → Reads S.contents S.index act a) : Refines E room c act a c := by
  intro t ht
  obtain ⟨S, hdisplays, hS⟩ := ht
  rw [h S hS t hdisplays.pool.holds hdisplays.index]
  exact ⟨.refl _, rfl, S, hdisplays.spent, hS⟩

/-- An operation may have more room than it needs. -/
theorem withRoom (h : Refines E room c act a c') {room' : Nat} (hle : room ≤ room') :
    Refines E room' c act a c' := by
  rintro t ⟨S, ht, hS⟩
  have hable : t.pool.Able E room :=
    ⟨ht.pool.able.unlimited, ht.pool.able.roomy.imp_right fun hroom => by omega⟩
  exact h t ⟨S, { ht with pool := { ht.pool with able := hable } }, hS⟩

/-- **A tier that nothing troubles goes through** with an operation, unless it is short of memory. -/
theorem ok_or_crash (hact : ∀ size, Refines (Failure.Shortage size) room c act a c')
    (ht : t.Appears (fun _ => False) 0 c) :
    (∃ t', act.run t = .ok a t' ∧ t'.Appears (fun _ => False) 0 c') ∨
      ∃ t', act.run t = .error (.crash .outOfMemory) t' ∧ maxSlots < t'.pool.slots.size + room := by
  obtain ⟨S, ht, hS⟩ := ht
  have h := hact _ t ⟨S, ht.withRoom room, hS⟩
  cases hr : act.run t with
  | ok b t' =>
    rw [hr] at h
    obtain ⟨-, rfl, S', ht', hS'⟩ := h
    have hback : t'.Displays (fun _ => False) 0 S' := ht'.of_aborted fun _ h => nomatch h.1
    exact .inl ⟨t', rfl, S', hback, hS'⟩
  | error e t' =>
    rw [hr] at h
    obtain ⟨hprecedes, rfl, hshort⟩ := h
    have hsize := hprecedes.size
    exact .inr ⟨t', rfl, by omega⟩

end Refines

end Rules

/-! ## Limits -/

section Limits

variable {E : Failure → Prop} {c : Cache}

theorem refines_evictOne (E : Failure → Prop) (c : Cache) :
    Refines E 0 c evictOne c.choice c.evictOne := by
  refine Refines.of_turns fun S hS => (turns_evictOne E S).mono ?_ fun _ _ => trivial
  rintro _ _ ⟨rfl, rfl⟩
  refine ⟨?_, hS.evictOne⟩
  rw [Cache.choice, ← hS.policy, ← hS.length_entries, ← hS.entries, List.getElem?_map]

theorem refines_evictBatch (E : Failure → Prop) (hbatches : c.policy.supportsBatches = true)
    (count : Nat) :
    Refines E 0 c (evictBatch count) (min count c.entries.length) (c.evictBatch count) := by
  refine Refines.of_turns fun S hS =>
    (turns_evictBatch (.inl (hS.policy ▸ hbatches)) count).mono ?_ fun _ _ => trivial
  rintro _ _ ⟨rfl, rfl⟩
  exact ⟨by rw [hS.length_entries], hS.evictBatch count⟩

theorem refines_flushVictims (E : Failure → Prop) (c : Cache) :
    Refines E 0 c flushVictims c.victims.length c.flushed := by
  refine Refines.of_turns fun S hS =>
    (turns_flushVictims (.inr ⟨c.filed, hS.flows⟩)).mono ?_ fun _ _ => trivial
  rintro _ _ ⟨rfl, f, rfl, hfiles⟩
  obtain ⟨filed, hcarries⟩ := hS.flows
  exact ⟨by rw [← hS.victims, List.length_map], hS.flushed ⟨_, hfiles.carries hcarries⟩⟩

/-- Within the limit there is nothing to evict. -/
theorem refines_evictDownTo_of_le (E : Failure → Prop) {limit : Nat}
    (hle : c.entries.length ≤ limit) (rounds : Nat) :
    Refines E 0 c (evictDownTo limit rounds) () c := by
  cases rounds with
  | zero => exact Refines.pure ()
  | succ rounds =>
    refine Refines.get fun t ht => ?_
    rw [ht.entryCount, if_pos hle]
    exact Refines.pure ()

/-- A policy that can choose several keys at once evicts all that are too many in one round. -/
theorem refines_evictDownTo_batch (E : Failure → Prop) (hbatches : c.policy.supportsBatches = true)
    {limit rounds : Nat} (hrounds : c.entries.length ≤ limit + rounds) :
    Refines E 0 c (evictDownTo limit rounds) ()
      (c.withKeys (c.shorten (some limit) c.settings.evictBatch)) := by
  rw [KeyLists.shorten]
  by_cases hle : c.entries.length ≤ limit
  · rw [if_pos hle]
    exact refines_evictDownTo_of_le E hle rounds
  · rw [if_neg hle]
    obtain ⟨rounds, rfl⟩ : ∃ r, rounds = r + 1 := ⟨rounds - 1, by omega⟩
    refine Refines.get fun t ht => ?_
    rw [ht.entryCount, if_neg hle]
    let count := max (c.entries.length - limit) c.settings.evictBatch
    have hsome : Refines E 0 c (evictSome (c.entries.length - limit)) (min count c.entries.length)
        (c.evictBatch count) := by
      refine Refines.get fun t ht => ?_
      rw [ht.policy, ht.settings, if_pos hbatches]
      exact refines_evictBatch E hbatches count
    refine hsome.bind ?_
    -- Something has moved, so there is a further round, and it finds the entry store short enough.
    have hmoved : min count c.entries.length ≠ 0 := by omega
    have hshort : (c.evictBatch count).entries.length ≤ limit := by
      simp only [Cache.evictBatch, Cache.toKeyLists_withKeys, KeyLists.evict, List.rdrop,
        List.length_take]
      omega
    rw [if_neg hmoved]
    exact refines_evictDownTo_of_le E hshort rounds

/-- A policy that chooses one key at a time evicts as many as there are too many. -/
theorem refines_evictDownTo_single (E : Failure → Prop) (hsingle : c.policy.supportsBatches = false)
    {limit rounds : Nat} (hrounds : c.entries.length ≤ limit + rounds) :
    Refines E 0 c (evictDownTo limit rounds) () (Cache.evictOne^[c.entries.length - limit] c) := by
  -- Induction on the rounds, each of which evicts one key.
  induction rounds generalizing c with
  | zero =>
    have hle : c.entries.length ≤ limit := hrounds
    rw [Nat.sub_eq_zero_of_le hle]
    exact Refines.pure ()
  | succ rounds ih =>
    by_cases hle : c.entries.length ≤ limit
    · rw [Nat.sub_eq_zero_of_le hle]
      exact refines_evictDownTo_of_le E hle _
    · refine Refines.get fun t ht => ?_
      rw [ht.entryCount, if_neg hle]
      have hposition := c.policy.position_lt (by omega) ht.length_lt
      have hsome : Refines E 0 c (evictSome (c.entries.length - limit)) 1 c.evictOne := by
        refine Refines.get fun t ht => ?_
        rw [ht.policy, if_neg (by simp [hsingle])]
        refine (refines_evictOne E c).bind ?_
        rw [Cache.choice, List.getElem?_eq_getElem hposition]
        exact Refines.pure 1
      have hlength : c.evictOne.entries.length + 1 = c.entries.length := c.length_evictAt hposition
      have hsteps : c.entries.length - limit = (c.evictOne.entries.length - limit) + 1 := by omega
      have hiterate : Cache.evictOne^[c.entries.length - limit] c =
          Cache.evictOne^[c.evictOne.entries.length - limit] c.evictOne := by
        rw [hsteps, Function.iterate_succ_apply]
      have hsingle' : c.evictOne.policy.supportsBatches = false :=
        (c.policy.supportsBatches_position _).trans hsingle
      rw [hiterate]
      refine hsome.bind ?_
      rw [if_neg Nat.one_ne_zero]
      exact ih hsingle' (by omega)

/-- **The limits are enforced** as on the cache. -/
theorem refines_enforceLimits (E : Failure → Prop) (c : Cache) :
    Refines E 0 c enforceLimits () c.limited := by
  have hentries : Refines E 0 c enforceEntryLimit () c.shortened := by
    refine Refines.get fun t ht => ?_
    rw [ht.settings, ht.entryCount, Cache.shortened]
    cases hlimit : c.settings.maxEntries with
    | none => cases c.policy.supportsBatches <;> exact Refines.pure ()
    | some limit =>
      cases hbatches : c.policy.supportsBatches with
      | true => exact refines_evictDownTo_batch E hbatches (Nat.le_add_left _ _)
      | false => exact refines_evictDownTo_single E hbatches (Nat.le_add_left _ _)
  refine hentries.bind (Refines.get fun t ht => ?_)
  rw [ht.settings, ht.victimCount, Cache.limited, KeyLists.flushFrom]
  split
  · exact (refines_flushVictims E c.shortened).bind (Refines.pure ())
  · exact Refines.pure ()

end Limits

section Commands

variable {E : Failure → Prop} {c : Cache}

/-- **A value is stored under a key**, and then the limits are enforced. -/
theorem refines_insert (hE : ∀ e, E e → ∃ crash, e = .crash crash) (c : Cache) (key value : Bytes) :
    Refines E 5 c (insert key value) () (c.put key value).limited := by
  have hnever : ∀ e, ¬Failure.Survivable E e := by
    rintro e ⟨he, hsurvives⟩
    obtain ⟨crash, rfl⟩ := hE e he
    exact hsurvives crash rfl
  refine Refines.of_turns fun S hS => ?_
  let R := fun S' : Snapshot => S'.Realizes (c.put key value).limited
  refine (turns_insert (R := R) hS.tallies fun S₁ hputs => ?_).mono (fun _ _ h => ⟨rfl, h⟩)
    fun _ _ => trivial
  exact ((refines_enforceLimits _ _).turns hnever (hputs.realizes hS)).mono (fun _ _ h => h.2) fun _ h => h

/-- **A value is looked up.** -/
theorem refines_get? (E : Failure → Prop) (c : Cache) (key : Bytes) :
    Refines E 0 c (get? key) (c.index.value? key) (c.touched key) := by
  refine Refines.of_turns fun S hS => (turns_get? E hS.tallies key).mono ?_ fun _ _ => trivial
  rintro _ _ ⟨rfl, rfl⟩
  exact ⟨hS.value?_eq key, hS.touched key⟩

/-- **A key is removed.** -/
theorem refines_erase (E : Failure → Prop) (c : Cache) (key : Bytes) :
    Refines E 2 c (erase key) (c.index.value? key).isSome (c.erased key) := by
  refine Refines.of_turns fun S hS => (turns_erase E hS.tallies key).mono ?_ fun _ _ => trivial
  rintro found S' ⟨hfound, htakes⟩
  rw [hS.value?_eq] at hfound
  cases found with
  | true => exact ⟨hfound, Snapshot.Takes.realizes htakes hS⟩
  | false =>
    obtain rfl : S' = S := htakes
    exact ⟨hfound, hS.erased (Option.isNone_iff_eq_none.1 (by simpa using hfound.symm))⟩

/-! ## The log -/

/-- The log is flushed. -/
theorem turns_flushLog_of_realizes {S : Snapshot} (hS : S.Realizes c) :
    Turns E 0 S flushLog (fun _ S' => S'.Realizes c) fun _ => True := by
  refine (turns_flushLog hS.flows hS.encoded).mono ?_ fun _ h => h
  rintro _ _ ⟨-, -, f, active, -, -, hfile, rfl⟩
  exact hS.withLog (fun _ _ h => absurd h List.not_mem_nil) hfile

/-- A command is logged that is not carried out. -/
theorem turns_appendCommand_of_realizes {S : Snapshot} (hS : S.Realizes c) (cmd : Command) :
    Turns E 2 S (appendCommand cmd) (fun _ S' => S'.Realizes c) fun _ => True := by
  refine (turns_appendCommand E S cmd).mono ?_ fun _ _ => trivial
  rintro _ _ ⟨z, -, hz, rfl⟩
  exact hS.withLog (hS.encoded.append cmd hz) hS.flows

/-- The buffers exchange their roles. -/
theorem turns_switchBuffers_of_realizes {S : Snapshot} (hS : S.Realizes c) :
    Turns E 0 S switchBuffers (fun _ S' => S'.Realizes c) fun _ => True := by
  refine (turns_switchBuffers E S).mono ?_ fun _ _ => trivial
  rintro _ _ ⟨-, rfl⟩
  exact hS.withLog (hS.encoded.congr rfl) hS.flows

/-- **The file is replaced by the index.** -/
theorem refines_compact (E : Failure → Prop) (c : Cache) :
    Refines E 0 c compact (if c.filed then c.index.pairs.length else 0) c := by
  refine Refines.of_turns fun S hS => ?_
  refine (turns_flushLog_of_realizes hS).bind ?_
  intro _ S₁ hS₁
  refine Turns.get fun t ht => ?_
  obtain ⟨filed, hcarries⟩ := hS₁.flows
  have hyields : FileOp.Yields c.filed filed _ _ _ :=
    AppendFile.yields_compactTo (t.index.pairs.map fun pair => .set pair.1 pair.2)
  obtain ⟨f, hrun, hf, -⟩ := hyields S₁.file hcarries
  refine (Turns.onFile fun cause f' hr => ?_).mono ?_ fun _ _ => trivial
  · cases hrun.symm.trans hr
  · rintro _ _ ⟨f', hr, rfl⟩
    cases hrun.symm.trans hr
    refine ⟨?_, { hS₁ with flows := ⟨_, hf⟩ }⟩
    rw [List.length_map, ht.index, ← hS₁.index, Index.pairs_unplaced]

/-! ## Inspection -/

/-- **The entry store is read** in either direction. -/
theorem reads_entries {S : Snapshot} (hS : S.Realizes c) (direction : Direction) :
    Reads S.contents S.index (entries direction) (match direction with
      | .forward => c.pairs
      | .backward => c.pairs.reverse) := by
  have hpairs : S.contents.entries.map (fun x => (x.key, x.value)) = c.pairs := by
    rw [Cache.pairs, ← hS.entries, List.map_map]
    refine List.map_congr_left fun x hx => ?_
    have hvalue := hS.tallies.value?_eq (List.mem_append_left S.contents.victims hx)
    rw [hS.value?_eq] at hvalue
    simp only [Function.comp_apply, hvalue, Option.getD_some]
  have hreads : ∀ xs : List Resident, (∀ x ∈ xs, x ∈ S.contents.entries) →
      Reads S.contents S.index ((nodes xs).mapM fun node => readPool (·.pair node))
        (xs.map fun x => (x.key, x.value)) := fun xs hxs =>
    Reads.mapM _ fun x hx => Reads.readPool fun p hp => hp.pair_eq (List.mem_append_left _ (hxs x hx))
  refine Reads.get fun t hp _ => ?_
  cases direction with
  | forward =>
    rw [hp.walk_forward .entries, ← hpairs]
    exact hreads _ fun x hx => hx
  | backward =>
    rw [hp.walk_backward, nodes, ← List.map_reverse, ← hpairs]
    dsimp only
    rw [← List.map_reverse]
    exact hreads _ fun x hx => List.mem_reverse.1 hx

/-- **The victims are read.** -/
theorem reads_victimKeys (contents : Contents) (index : Index) :
    Reads contents index victimKeys (contents.victims.map Resident.key) := by
  refine Reads.get fun t hp _ => ?_
  rw [hp.walk_forward .victims]
  exact Reads.mapM _ fun x hx => reads_keyOf (List.mem_append_right _ hx)

end Commands

end Tier

/-! ## Calls -/

/-- **What is asked of a tier.** -/
inductive Call
  | set (key value : Bytes)
  | get (key : Bytes)
  | del (key : Bytes)
  | evictOne
  | evictBatch (count : Nat)
  | flushVictims
  | compact
  | entries (direction : Direction)
  | victimKeys
  /-- The keys with their values. -/
  | dump
  | flushLog
  | append (cmd : Command)
  | switch
  deriving DecidableEq

/-- **What a tier answers.** -/
inductive Answer
  | done
  | value (value : Option Bytes)
  | found (found : Bool)
  | key (key : Option Bytes)
  | count (count : Nat)
  | pairs (pairs : List (Bytes × Bytes))
  | keys (keys : List Bytes)
  | failed (failure : Failure)
  deriving DecidableEq

/-- A failure is an answer, unless it is a crash. -/
def Tier.answering (act : TierM (Option Answer)) : TierM (Option Answer) := fun t =>
  match act.run t with
  | .error (.crash crash) t => .error (.crash crash) t
  | .error failure t => .ok (some (.failed failure)) t
  | .ok answer t => .ok answer t

namespace Call

/-- The operation that a call is. A use of the log alone has no answer. -/
def act : Call → TierM (Option Answer)
  | .set key value => do
    Tier.insert key value
    return some .done
  | .get key => return some (.value (← Tier.get? key))
  | .del key => return some (.found (← Tier.erase key))
  | .evictOne => return some (.key (← Tier.evictOne))
  | .evictBatch count => return some (.count (← Tier.evictBatch count))
  | .flushVictims => return some (.count (← Tier.flushVictims))
  | .compact => return some (.count (← Tier.compact))
  | .entries direction => return some (.pairs (← Tier.entries direction))
  | .victimKeys => return some (.keys (← Tier.victimKeys))
  | .dump => return some (.pairs (← MonadState.get).index.pairs)
  | .flushLog => do
    let _ ← Tier.flushLog
    return none
  | .append cmd => do
    let _ ← Tier.appendCommand cmd
    return none
  | .switch => do
    let _ ← Tier.switchBuffers
    return none

/-- **A call with its answer.** -/
def run (call : Call) : TierM (Option Answer) := Tier.answering call.act

/-- **Calls one after another**, with their answers. -/
def runAll : List Call → TierM (List Answer)
  | [] => return []
  | call :: calls => do
    let answer ← call.run
    let answers ← runAll calls
    return answer.toList ++ answers

/-- **What a cache answers.** -/
def answer : Call → Cache → Option Answer
  | .set _ _, _ => some .done
  | .get key, c => some (.value (c.index.value? key))
  | .del key, c => some (.found (c.index.value? key).isSome)
  | .evictOne, c => some (.key c.choice)
  | .evictBatch count, c =>
    if c.policy.supportsBatches then some (.count (min count c.entries.length))
    else some (.failed (.cause (.policyUnsupported (.randomBatch count))))
  | .flushVictims, c => some (.count c.victims.length)
  | .compact, c => some (.count (if c.filed then c.index.pairs.length else 0))
  | .entries .forward, c => some (.pairs c.pairs)
  | .entries .backward, c => some (.pairs c.pairs.reverse)
  | .victimKeys, c => some (.keys c.victims)
  | .dump, c => some (.pairs c.index.pairs)
  | .flushLog, _ | .append _, _ | .switch, _ => none

/-- **What a call makes of a cache.** -/
def after : Call → Cache → Cache
  | .set key value, c => (c.put key value).limited
  | .get key, c => c.touched key
  | .del key, c => c.erased key
  | .evictOne, c => c.evictOne
  | .evictBatch count, c => if c.policy.supportsBatches then c.evictBatch count else c
  | .flushVictims, c => c.flushed
  | .compact, c | .entries _, c | .victimKeys, c | .dump, c => c
  | .flushLog, c | .append _, c | .switch, c => c

/-- The answers of a cache to calls one after another. -/
def answers : List Call → Cache → List Answer
  | [], _ => []
  | call :: calls, c => (call.answer c).toList ++ answers calls (call.after c)

/-- What calls make of a cache one after another. -/
def afterAll (calls : List Call) (c : Cache) : Cache := calls.foldl (fun c call => call.after c) c

end Call

section Refinement

open Tier

variable {E : Failure → Prop} {c : Cache}

/-- An operation that fails in no other way than by a crash answers what it returns. -/
theorem Tier.Refines.answering {room : Nat} {c' : Cache} {act : TierM (Option Answer)}
    {a : Option Answer} (h : Refines E room c act a c') (hroom : room ≤ 5)
    (hE : ∀ e, E e → ∃ crash, e = .crash crash) : Refines E 5 c (Tier.answering act) a c' := by
  intro t ht
  have hact := h.withRoom hroom t ht
  simp only [EStateM.run, Tier.answering] at hact ⊢
  cases hr : act t with
  | ok b t' =>
    rw [hr] at hact
    exact hact
  | error e t' =>
    rw [hr] at hact
    obtain ⟨crash, rfl⟩ := hE e hact.2
    exact hact

/-- An operation of which the result is the answer. -/
theorem Tier.Refines.answers {α : Type} {room : Nat} {c' : Cache} {act : TierM α} {a : α}
    (h : Refines E room c act a c') (hroom : room ≤ 5) (hE : ∀ e, E e → ∃ crash, e = .crash crash)
    (answer : α → Answer) :
    Refines E 5 c (Tier.answering do return some (answer (← act))) (some (answer a)) c' :=
  (h.bind (.pure (some (answer a)))).answering hroom hE

/-- A use of the log has no answer, and leaves the cache as it is. -/
theorem Tier.Refines.unanswered {α : Type} {room : Nat} {act : TierM α}
    (h : ∀ S : Snapshot, S.Realizes c → Turns E room S act (fun _ S' => S'.Realizes c) fun _ => True)
    (hroom : room ≤ 5) (hE : ∀ e, E e → ∃ crash, e = .crash crash) :
    Refines E 5 c (Tier.answering do let _ ← act; return none) none c := by
  refine Refines.answering (.of_turns fun S hS => ?_) hroom hE
  exact (h S hS).bind fun _ _ hS' => Turns.pure ⟨rfl, hS'⟩

/-- **A policy that cannot choose several keys at once** refuses to. -/
theorem Call.refines_evictBatch_refused (hsingle : c.policy.supportsBatches = false) (count : Nat) :
    Refines E 0 c (Call.evictBatch count).run
      (some (.failed (.cause (.policyUnsupported (.randomBatch count))))) c := by
  intro t ht
  have hrun : (Call.evictBatch count).run.run t =
      .ok (some (.failed (.cause (.policyUnsupported (.randomBatch count))))) t := by
    have hpolicy : t.policy.supportsBatches = false := ht.policy ▸ hsingle
    obtain ⟨settings, pool, index, file, policy, report⟩ := t
    cases policy with
    | lru => cases hpolicy
    | random picks => rfl
  rw [hrun]
  exact ⟨.refl _, rfl, ht.spent⟩

/-- **Each call does to a tier what it does to the cache** that the tier appears as. -/
theorem Call.refines (hE : ∀ e, E e → ∃ crash, e = .crash crash) (call : Call) (c : Cache) :
    Refines E 5 c call.run (call.answer c) (call.after c) := by
  cases call with
  | set key value => exact (refines_insert hE c key value).answers (Nat.le_refl 5) hE fun _ => .done
  | get key => exact (refines_get? E c key).answers (Nat.zero_le 5) hE .value
  | del key => exact (refines_erase E c key).answers (by decide) hE .found
  | evictOne => exact (refines_evictOne E c).answers (Nat.zero_le 5) hE .key
  | evictBatch count =>
    simp only [Call.answer, Call.after]
    cases hbatches : c.policy.supportsBatches with
    | true => exact (Tier.refines_evictBatch E hbatches count).answers (Nat.zero_le 5) hE .count
    | false => exact (Call.refines_evictBatch_refused hbatches count).withRoom (Nat.zero_le 5)
  | flushVictims => exact (refines_flushVictims E c).answers (Nat.zero_le 5) hE .count
  | compact => exact (refines_compact E c).answers (Nat.zero_le 5) hE .count
  | entries direction =>
    cases direction with
    | forward | backward =>
      exact (Refines.read fun S hS => reads_entries hS _).answers (Nat.zero_le 5) hE .pairs
  | victimKeys =>
    refine (Refines.read fun S hS => ?_).answers (Nat.zero_le 5) hE .keys
    exact hS.victims ▸ reads_victimKeys S.contents S.index
  | dump =>
    refine Refines.answering (Refines.get fun t ht => ?_) (Nat.zero_le 5) hE
    rw [ht.pairs_index]
    exact Refines.pure _
  | flushLog =>
    exact Refines.unanswered (fun S hS => turns_flushLog_of_realizes hS) (Nat.zero_le 5) hE
  | append cmd =>
    exact Refines.unanswered (fun S hS => turns_appendCommand_of_realizes hS cmd) (by decide) hE
  | switch =>
    exact Refines.unanswered (fun S hS => turns_switchBuffers_of_realizes hS) (Nat.zero_le 5) hE

/-- **Calls one after another answer as the cache does**, unless the tier runs out of memory. -/
theorem Tier.Appears.runAll {t : Tier} (ht : t.Appears (fun _ => False) 0 c) (calls : List Call) :
    (∃ t', (Call.runAll calls).run t = .ok (Call.answers calls c) t' ∧
        t'.Appears (fun _ => False) 0 (Call.afterAll calls c)) ∨
      ∃ t', (Call.runAll calls).run t = .error (.crash .outOfMemory) t' ∧
        maxSlots < t'.pool.slots.size + 5 := by
  induction calls generalizing t c with
  | nil => exact .inl ⟨t, rfl, ht⟩
  | cons call calls ih =>
    have hcall := Refines.ok_or_crash (fun size => call.refines (E := Failure.Shortage size)
      (fun e he => ⟨_, he.1⟩) c) ht
    rw [Call.runAll, EStateM.run_bind]
    obtain ⟨t₁, hrun, ht₁⟩ | ⟨t₁, hrun, hshort⟩ := hcall
    · rw [hrun]
      dsimp only
      rw [EStateM.run_bind]
      obtain ⟨t₂, hrun₂, ht₂⟩ | ⟨t₂, hrun₂, hshort⟩ := ih ht₁
      · rw [hrun₂]
        exact .inl ⟨t₂, rfl, ht₂⟩
      · rw [hrun₂]
        exact .inr ⟨t₂, rfl, hshort⟩
    · rw [hrun]
      exact .inr ⟨t₁, rfl, hshort⟩

end Refinement

end PersistentTier
