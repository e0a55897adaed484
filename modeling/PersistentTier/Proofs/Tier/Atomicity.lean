import PersistentTier.Proofs.Tier.Adversity

/-!
# Operations that are done as a whole or not at all

What goes wrong in an operation goes wrong before its scope is committed or in committing it, so nothing
is left of it. Only storing a value has something to do afterwards, which is to enforce the limits; and
however far that gets, the value counts.

## Main definitions

* `Operation.isWhole`: the operations that are done as a whole or not at all
* `Tier.SameAs`: a tier that is as another one was
* `Tier.Gains`: a tier that has gained a value

## Main results

* `Tier.Whole.sameAs`: an operation that fails leaves everything as it was
* `Tier.gains_of_insert`: a value that has been stored counts
* `Site.Beset.sameAs_and_gains`: both hold at every site that users and mishaps lead to
-/

namespace PersistentTier

open Ledger

/-- Pools that hold the same contents resolve every handle alike. -/
theorem Pool.Holds.resolve_eq {p q : Pool} {c : Contents} (hp : p.Holds c) (hq : q.Holds c)
    (h : Handle) : q.resolve h = p.resolve h := by
  have hobject : q.object? h = p.object? h := Option.ext fun a => by
    rw [← mem_heap, ← mem_heap, hp.heap, hq.heap]
  rw [resolve, resolve, hobject]

namespace Tier

/-- **A tier that is as another one was**, to all that look at its index, its file, its root or at what a
handle resolves to. -/
structure SameAs (t t' : Tier) : Prop where
  index : t'.index = t.index
  file : t'.file = t.file
  root : t'.pool.root = t.pool.root
  resolve : ∀ h, t'.pool.resolve h = t.pool.resolve h

/-- **A tier that has gained a value** for a key. It is logged, it is indexed, and every node of the pool
has the value of its key. -/
structure Gains (key value : Bytes) (t t' : Tier) : Prop where
  active : t'.pool.root.activeBuffer = t.pool.root.activeBuffer
  logged : LogBuffer.payloads t'.pool (LogBuffer.head t'.pool .current) =
    (Command.set key value).encode :: LogBuffer.payloads t.pool (LogBuffer.head t.pool .current)
  other : LogBuffer.payloads t'.pool (LogBuffer.head t'.pool .other) =
    LogBuffer.payloads t.pool (LogBuffer.head t.pool .other)
  value? : ∀ key', t'.index.value? key' = if key = key' then some value else t.index.value? key'
  nodes : ∀ node e, t'.pool.entry node = .ok e → ∃ key' value',
    t'.pool.pair node = .ok (key', value') ∧ t'.index.value? key' = some value'

/-! ## Operations that fail -/

/-- **An operation of which nothing is left if it fails.** -/
def Whole {α : Type} (act : TierM α) : Prop :=
  ∀ S : Snapshot, S.Tallied → Turns (fun _ => True) 0 S act (fun _ _ => True) fun S' =>
    S'.contents = S.contents ∧ S'.index = S.index ∧ S'.file = S.file

namespace Whole

variable {α : Type} {act : TierM α} {t t' : Tier}

/-- An operation that leaves the snapshot alone if it fails. -/
theorem of_turns {room : Nat} {Q : Snapshot → α → Snapshot → Prop}
    (h : ∀ S : Snapshot, S.Tallied → Turns (fun _ => True) room S act (Q S) fun S' => S' = S) :
    Whole act := by
  refine fun S hS => (h S hS).withoutRoom.mono (fun _ _ _ => trivial) ?_
  rintro _ rfl
  exact ⟨rfl, rfl, rfl⟩

/-- **An operation that fails leaves everything as it was.** -/
theorem sameAs (hact : Whole act) (ht : t.Coherent) {e : Failure} (hrun : act.run t = .error e t') :
    t.SameAs t' := by
  obtain ⟨S, ht, hS⟩ := ht
  have h := hact S hS t ht
  rw [hrun] at h
  obtain ⟨-, -, S', ht', hcontents, hindex, hfile⟩ := h
  have hheld : t'.pool.Holds S.contents := hcontents ▸ ht'.pool.holds
  exact {
    index := by rw [ht'.index, hindex, ht.index]
    file := by rw [ht'.file, hfile, ht.file]
    root := by rw [hheld.root, ht.pool.holds.root]
    resolve := ht.pool.holds.resolve_eq hheld }

/-- A call that begins no drain. -/
theorem plain (hact : Whole act) : Whole (do let _ ← act; return ([] : List LogDrain)) :=
  fun S hS => (hact S hS).bind fun _ _ _ => Turns.pure trivial

end Whole

/-- A value is not stored at all if storing it fails. What happens later is no failure. -/
theorem whole_insert (key value : Bytes) : Whole (insert key value) := by
  refine .of_turns fun S hS => turns_insert (R := fun _ => True) hS fun S₁ hputs => ?_
  exact (settles_enforceLimits (fun _ => ⟨trivial, nofun⟩) (hputs.tallies hS)).mono
    (fun _ _ _ => trivial) fun _ _ => trivial

/-- A pick may be used up, and that is all. -/
theorem whole_evictOne : Whole evictOne := by
  refine fun S _ => (turns_evictOne _ S).mono (fun _ _ _ => trivial) ?_
  rintro _ rfl
  exact ⟨rfl, rfl, rfl⟩

/-! ## Values that are stored -/

/-- **Every node of a coherent tier** has the value of its key. -/
theorem Coherent.exists_pair {t : Tier} (ht : t.Coherent) {node : Handle} {e : EntryNode}
    (hnode : t.pool.entry node = .ok e) :
    ∃ key value, t.pool.pair node = .ok (key, value) ∧ t.index.value? key = some value := by
  obtain ⟨S, ht, hS⟩ := ht
  have hheld := ht.pool.holds
  have hmem : (node, .entry e) ∈ S.contents.heap := hheld.heap ▸ Pool.entry_eq_ok_iff.1 hnode
  obtain ⟨l, x, r, hplace, rfl⟩ := S.contents.mem_heap_entry hmem
  have hresident : x ∈ S.contents.residents e.chain := by
    rw [hplace]
    exact List.mem_append_right _ List.mem_cons_self
  have hx : x ∈ S.contents.pairs := by
    cases hkind : e.chain with
    | entries =>
      rw [hkind] at hresident
      exact List.mem_append_left _ hresident
    | victims =>
      rw [hkind] at hresident
      exact List.mem_append_right _ hresident
  exact ⟨x.key, x.value, hheld.pair_eq hx, ht.index ▸ hS.value?_eq hx⟩

/-- **A value that has been stored counts**, whatever becomes of enforcing the limits. -/
theorem gains_of_insert {key value : Bytes} {t t' : Tier} (ht : t.Coherent)
    (hrun : (insert key value).run t = .ok () t') : t.Gains key value t' := by
  obtain ⟨S, ht, hS⟩ := ht
  have hinsert : Turns (fun _ => True) 0 S (insert key value)
      (fun _ S' => ∃ S₁, S.Puts key value S₁ ∧ S₁.Settles S') fun S' => S' = S := by
    refine (turns_insert (R := fun S' => ∃ S₁, S.Puts key value S₁ ∧ S₁.Settles S') hS
      fun S₁ hputs => ?_).withoutRoom
    exact (settles_enforceLimits (fun _ => ⟨trivial, nofun⟩) (hputs.tallies hS)).mono
      (fun _ _ h => ⟨S₁, hputs, h⟩) fun _ h => ⟨S₁, hputs, h⟩
  have h := hinsert t ht
  rw [hrun] at h
  -- `S₁` is the snapshot after the commit, and `S'` the one after enforcing the limits.
  obtain ⟨-, S', ht', S₁, hputs, hsettles⟩ := h
  obtain ⟨z, hz, hlog, hactive⟩ := hputs.exists_logged hS
  have hactive' : S'.contents.active = S.contents.active := hsettles.active.trans hactive
  have hlog' : S'.contents.log = (S.contents.append z).log := hsettles.log.trans hlog
  have hheld := ht.pool.holds
  have hheld' := ht'.pool.holds
  exact {
    active := by rw [hheld'.root, hheld.root]; exact hactive'
    logged := by
      rw [hheld.payloads_eq, hheld'.payloads_eq, hlog']
      simp only [LogBuffer.roleIn, hactive', Contents.append, Contents.log_setLog, List.map_cons, hz]
    other := by
      rw [hheld.payloads_eq, hheld'.payloads_eq, hlog']
      simp only [LogBuffer.roleIn, hactive', Contents.append, Contents.log_flipped_setLog]
    value? := fun key' => by
      rw [ht'.index, hsettles.value?, hputs.value?_eq, ht.index]
    nodes := fun node e => Coherent.exists_pair ⟨S', ht', hsettles.tallied⟩ }

end Tier

/-! ## At every site -/

namespace Operation

/-- **The operations that are done as a whole or not at all.** The others tell the file of something
before they change the pool. -/
def isWhole : Operation → Bool
  | .insert .. | .get _ | .erase _ | .append _ | .switch | .clear | .evictOne | .evictBatch _ => true
  | _ => false

open Tier

/-- If such an operation fails, nothing is left of it. -/
theorem whole {op : Operation} (hop : op.isWhole = true) (drains : List LogDrain) :
    Whole (op.call drains) := by
  cases op with
  | insert key value => exact (whole_insert key value).plain
  | get key => exact Whole.plain (.of_turns fun S hS => turns_get? _ hS key)
  | erase key => exact Whole.plain (.of_turns fun S hS => turns_erase _ hS key)
  | append cmd => exact Whole.plain (.of_turns fun S _ => turns_appendCommand _ S cmd)
  | switch => exact Whole.plain (.of_turns fun S _ => turns_switchBuffers _ S)
  | clear => exact Whole.plain (.of_turns fun S _ => turns_clearCurrentBuffer _ S)
  | evictOne => exact whole_evictOne.plain
  | evictBatch count =>
    exact Whole.plain (.of_turns fun S _ => turns_evictBatch (.inr fun _ => trivial) count)
  | _ => cases hop

end Operation

/-- **Operations are done as a whole or not at all.** Whatever has gone wrong at a site, and whatever goes
wrong now: an operation on a key, on the log buffers or an eviction that fails leaves index, file, root
and every handle as they were; and a value that has been stored counts, however far enforcing the limits
has got. -/
theorem Site.Beset.sameAs_and_gains {s : Site} {t : Tier} (hs : s.Beset) (ht : s.tier = some t) :
    (∀ op : Operation, op.isWhole = true → ∀ e t', (op.call s.drains).run t = .error e t' →
      t.SameAs t') ∧
    ∀ key value t', (Tier.insert key value).run t = .ok () t' → t.Gains key value t' := by
  have hcoherent := (hs.steady.tier t ht).1
  exact ⟨fun op hop _ _ hrun => (op.whole hop s.drains).sameAs hcoherent hrun,
    fun _ _ _ hrun => Tier.gains_of_insert hcoherent hrun⟩

/-- The same write is done while its eviction is refused, and not done when the image cannot be
written. -/
theorem Site.Beset.sameAs_and_gains_obstructed :
    let s₁ := Site.restart {} { poolPath := some "p", filePath := some "f", maxEntries := some 1 } 1 0
    let s₂ := s₁.operate (.insert [1] [10])
    let s₃ := s₂.operate (.limit (some 9))
    let s₄ := s₃.befall (.obstruct [.writeImage])
    (∃ t t', s₃.tier = some t ∧ (Tier.insert [2] [20]).run t = .ok () t' ∧
      t'.pool.root.entryCount = 2 ∧ t.Gains [2] [20] t') ∧
    ∃ t e t', s₄.tier = some t ∧ ((Operation.insert [2] [20]).call s₄.drains).run t = .error e t' ∧
      t.SameAs t' := by
  intro s₁ s₂ s₃ s₄
  have hs₁ : s₁.Beset := .restart .blank (fun _ h => by cases h) _ 1 0
  have hs₃ : s₃.Beset := (hs₁.operate _).operate _
  have hs₄ : s₄.Beset := hs₃.befall _
  have hvalid : ({ poolPath := some "p", filePath := some "f", maxEntries := some 1 } :
      Settings).validate = .ok () := Settings.validate_of_differ PathName.same_p_f rfl
  have hdone : s₃.tier.bind (Tier.insert [2] [20]).run' = some () := by
    unfold s₃ s₂ s₁
    simp only [Site.restart, Tier.open, hvalid]
    decide +kernel
  have hcount : (s₃.operate (.insert [2] [20])).tier.map (·.pool.root.entryCount) = some 2 := by
    unfold s₃ s₂ s₁
    simp only [Site.restart, Tier.open, hvalid]
    decide +kernel
  have hundone : (s₄.tier.map fun t =>
      (((Operation.insert [2] [20]).call s₄.drains).run' t).isNone) = some true := by
    unfold s₄ s₃ s₂ s₁
    simp only [Site.restart, Tier.open, hvalid]
    decide +kernel
  constructor
  · obtain ⟨t, t', ht, hrun⟩ := Site.exists_run hdone
    rw [Site.operate_of_run (.insert [2] [20]) ht rfl rfl hrun] at hcount
    exact ⟨t, t', ht, hrun, Option.some.inj hcount, (hs₃.sameAs_and_gains ht).2 _ _ _ hrun⟩
  · obtain ⟨t, ht, hfailed⟩ := Option.map_eq_some_iff.1 hundone
    unfold EStateM.run' at hfailed
    cases hrun : ((Operation.insert [2] [20]).call s₄.drains).run t with
    | ok _ t' => simp [hrun] at hfailed
    | error e t' =>
      exact ⟨t, e, t', ht, hrun, (hs₄.sameAs_and_gains ht).1 _ rfl _ _ hrun⟩

end PersistentTier
