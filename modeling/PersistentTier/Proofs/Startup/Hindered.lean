import PersistentTier.Proofs.Pool.Serving
import PersistentTier.Proofs.Tier.Startup

/-!
# Startups that may fail anywhere

The file may hold anything, and any step of a startup may fail. However a startup ends, the pool is ready
for another one. If it succeeds, nothing is left of the victims, and the index tallies with the pool:
whatever the file and the log have said of the keys of the entry store, the entry store is read last.

## Main definitions

* `Startup.Attains`: what a step of a startup makes of contents and index, if it succeeds

## Main results

* `Startup.attains_flushVictims`, `attains_log`, `attains_entries`: the three parts of a startup
* `Startup.attains_everything`: the whole startup
-/

namespace PersistentTier.Startup

open Ledger

variable {α β : Type}

/-- **What a step of a startup makes of contents and index**, if it succeeds. However it ends, the pool is
ready for another startup. -/
def Attains (P : Contents → Index → Prop) (act : StartupM AppendFile α)
    (Q : α → Contents → Index → Prop) : Prop :=
  ∀ (s : Startup AppendFile) (c : Contents), s.pool.Serves (fun _ => True) 0 c → P c s.index →
    match act.run s with
    | .ok a s' => s.pool.Precedes s'.pool ∧ ∃ c', s'.pool.Serves (fun _ => True) 0 c' ∧ Q a c' s'.index
    | .error _ s' => s.pool.Precedes s'.pool ∧ ∃ c', s'.pool.Serves (fun _ => True) 0 c'

namespace Attains

variable {P P' : Contents → Index → Prop} {act : StartupM AppendFile α}
  {f : α → StartupM AppendFile β} {Q Q' : α → Contents → Index → Prop}
  {R : β → Contents → Index → Prop} {a : α}

theorem bind (hact : Attains P act Q) (hf : ∀ a, Attains (Q a) (f a) R) :
    Attains P (act >>= f) R := by
  intro s c hs hP
  have h := hact s c hs hP
  rw [EStateM.run_bind]
  cases hr : act.run s with
  | error e s' =>
    rw [hr] at h
    exact h
  | ok a s' =>
    rw [hr] at h
    obtain ⟨hprecedes, c', hs', hQ⟩ := h
    have hnext := hf a s' c' hs' hQ
    dsimp only
    cases hr' : (f a).run s' with
    | ok | error =>
      rw [hr'] at hnext
      exact ⟨hprecedes.trans hnext.1, hnext.2⟩

theorem pure (h : ∀ c index, P c index → Q a c index) : Attains P (Pure.pure a) Q :=
  fun s c hs hP => ⟨.refl _, c, hs, h c s.index hP⟩

theorem mono (hact : Attains P act Q) (hP : ∀ c index, P' c index → P c index)
    (hQ : ∀ a c index, Q a c index → Q' a c index) : Attains P' act Q' := by
  intro s c hs hP'
  have h := hact s c hs (hP c s.index hP')
  cases hr : act.run s with
  | error e s' =>
    rw [hr] at h
    exact h
  | ok a s' =>
    rw [hr] at h
    obtain ⟨hprecedes, c', hs', hq⟩ := h
    exact ⟨hprecedes, c', hs', hQ a c' s'.index hq⟩

/-- Contents and index before a step may be fixed. -/
theorem of_forall (h : ∀ c index, c.Distinct → P c index →
    Attains (fun c' index' => c' = c ∧ index' = index) act Q) : Attains P act Q :=
  fun s c hs hP => h c s.index hs.distinct hP s c hs ⟨rfl, rfl⟩

theorem get {f : Startup AppendFile → StartupM AppendFile β} {c : Contents} {index : Index}
    (hf : ∀ s : Startup AppendFile, s.pool.Holds c →
      Attains (fun c' index' => c' = c ∧ index' = index) (f s) R) :
    Attains (fun c' index' => c' = c ∧ index' = index) (MonadState.get >>= f) R := by
  rintro s c' hs ⟨rfl, hindex⟩
  exact hf s hs.holds s c' hs ⟨rfl, hindex⟩

/-- One step after another keeps what is known. -/
theorem forM {γ : Type} {g : γ → StartupM AppendFile Unit} (hg : ∀ x, Attains P (g x) fun _ => P)
    (items : List γ) : Attains P (items.forM g) fun _ => P := by
  induction items with
  | nil => exact .pure fun _ _ h => h
  | cons x items ih => exact (hg x).bind fun _ => ih

theorem mapM {γ : Type} {g : γ → StartupM AppendFile α} (hg : ∀ x, Attains P (g x) fun _ => P)
    (items : List γ) : Attains P (items.mapM g) fun _ => P := by
  induction items with
  | nil => exact .pure fun _ _ h => h
  | cons x items ih =>
    rw [List.mapM_cons]
    exact (hg x).bind fun _ => ih.bind fun _ => .pure fun _ _ h => h

end Attains

/-! ## The steps of a startup -/

section Steps

variable {P : Contents → Index → Prop}

theorem attains_reserve (count size : Nat) : Attains P (reserve count size) fun _ => P := by
  unfold reserve
  split
  · exact .pure fun _ _ h => h
  · exact fun s c hs _ => ⟨.refl _, c, hs⟩

theorem attains_makeRoom (root : Root) : Attains P (makeRoom root) fun _ => P := by
  unfold makeRoom
  cases checkedAdd root.entryCount root.victimCount with
  | ok sum => exact attains_reserve sum.toNat 72
  | error crash => exact fun s c hs _ => ⟨.refl _, c, hs⟩

/-- What is read is read from a pool with the contents. -/
theorem attains_ofPool (look : Pool → Except Corruption α) :
    Attains P (ofPool look) fun a c index => P c index ∧ ∃ p : Pool, p.Holds c ∧ look p = .ok a := by
  intro s c hs hP
  change match ofPool look s with | .ok .. => _ | .error .. => _
  unfold ofPool
  cases hlook : look s.pool with
  | error corruption => exact ⟨.refl _, c, hs⟩
  | ok a => exact ⟨.refl _, c, hs, hP, s.pool, hs.holds, hlook⟩

theorem attains_updateIndex {change : Index → Index}
    (hchange : ∀ c index, P c index → P c (change index)) :
    Attains P (updateIndex change) fun _ => P :=
  fun s c hs hP => ⟨.refl _, c, hs, hchange c s.index hP⟩

/-- A call of the replayer that does not concern the index may do anything. -/
theorem attains_call (act : EStateM Failure AppendFile α) : Attains P (call act) fun _ => P := by
  intro s c hs hP
  change match call act s with | .ok .. => _ | .error .. => _
  unfold call
  cases hrun : act.run s.replayer with
  | error e r => exact ⟨.refl _, c, hs⟩
  | ok a r => exact ⟨.refl _, c, hs, hP⟩

/-- **An operation in a scope of its own** of which every end is known. -/
theorem attains_inTransaction {c d : Contents} {index : Index} {tx : Tx α} {a : α}
    (htx : tx.Stepwise) (hdistinct : c.Distinct → d.Distinct)
    (ht : Tx.Yields (Tx.Surfaces fun _ => True) (c.view 0 c.counters 0) tx a (d.view 0 d.counters 0)) :
    Attains (fun c' index' => c' = c ∧ index' = index) (inTransaction tx)
      fun b c' index' => b = a ∧ c' = d ∧ index' = index := by
  rintro s _ hs ⟨rfl, rfl⟩
  have hend := hs.transaction (P := fun b c' => b = a ∧ c' = d) htx
    (ht.mono fun _ _ h => ⟨d, 0, ⟨h.1, rfl⟩, h.2⟩) fun h _ _ hP => hP.2 ▸ hdistinct h
  change match inTransaction tx s with | .ok .. => _ | .error .. => _
  unfold inTransaction
  generalize s.pool.transaction tx = out at hend ⊢
  obtain ⟨e | b, q⟩ := out
  · exact ⟨hend.1, _, hend.2.2⟩
  · obtain ⟨hprecedes, _, ⟨rfl, rfl⟩, hq⟩ := hend
    exact ⟨hprecedes, _, hq, rfl, rfl, rfl⟩

end Steps

/-! ## The parts of a startup -/

/-- Nothing that is replayed makes the index refer to a node. -/
theorem attains_replay {P : Contents → Prop} (command : Bytes) :
    Attains (fun c index => P c ∧ Nodeless index) (replay fileReplayer command)
      fun _ c index => P c ∧ Nodeless index := by
  rintro s c hs ⟨hP, hindex⟩
  simp only [EStateM.run, replay, fileReplayer]
  cases Command.decode command with
  | error cause => exact ⟨.refl _, c, hs⟩
  | ok cmd =>
    dsimp only
    cases liftFailure (AppendFile.appendEncoded command) s.replayer with
    | error e r => exact ⟨.refl _, c, hs⟩
    | ok a r => exact ⟨.refl _, c, hs, hP, hindex.foldl_apply [cmd]⟩

theorem attains_indexVictim (node : Handle) :
    Attains (fun _ index => Nodeless index) (indexVictim node) fun _ _ => Nodeless := by
  refine (attains_ofPool _).bind fun pair => ?_
  refine Attains.mono ?_ (fun _ _ h => h.1) fun _ _ _ h => h
  exact (attains_updateIndex fun _ index hindex => hindex.foldl_apply [.set pair.1 pair.2]).bind
    fun _ => .pure fun _ _ h => h

/-- **The victims are handed over**, whatever they are said to be, and reclaimed. -/
theorem attains_flushVictims (pairs : List (Bytes × Bytes)) :
    Attains (fun _ index => Nodeless index) (flushVictims fileReplayer pairs)
      fun _ c index => c.victims = [] ∧ Nodeless index := by
  refine .of_forall fun c index _ hindex => .get fun s hs => ?_
  have hfirst : s.pool.root.victimFirst = firstOf (nodes c.victims) none := hs.first_eq .victims
  rw [hfirst]
  cases hvictims : c.victims with
  | nil =>
    refine .pure ?_
    rintro _ _ ⟨rfl, rfl⟩
    exact ⟨hvictims, hindex⟩
  | cons x r =>
    -- What is handed over, and whether it is synced, concerns neither the contents nor the index.
    refine (Attains.forM (fun _ => attains_call _) pairs).bind fun _ => (attains_call _).bind fun _ => ?_
    refine (attains_inTransaction (d := { c with victims := [] })
      (VictimPipeline.stepwise_reclaim x.node) (·.reclaimed)
      (yields_reclaim (l := []) hvictims)).bind fun _ => .pure ?_
    rintro _ _ ⟨-, rfl, rfl⟩
    exact ⟨rfl, hindex⟩

/-- **The log is carried out**, and both buffers are emptied. -/
theorem attains_log :
    Attains (fun c index => c.victims = [] ∧ Nodeless index) (log fileReplayer)
      fun _ c index => c.victims = [] ∧ Nodeless index := by
  refine (attains_ofPool _).bind fun older => ?_
  refine Attains.mono ?_ (fun _ _ h => h.1) fun _ _ _ h => h
  refine (attains_ofPool _).bind fun newer => ?_
  refine Attains.mono ?_ (fun _ _ h => h.1) fun _ _ _ h => h
  refine (Attains.forM attains_replay _).bind fun _ => (attains_call _).bind fun _ => ?_
  -- The buffers are emptied in one transaction, at whatever contents there are by now.
  refine .of_forall fun c index _ h => ?_
  have hclear : Attains (fun c' index' => c' = c ∧ index' = index) (inTransaction LogBuffer.clearBoth)
      fun b c' index' => b = () ∧ c' = { c with log := fun _ => [] } ∧ index' = index :=
    attains_inTransaction LogBuffer.stepwise_clearBoth (fun hc => hc) (yields_clearBoth _ c)
  refine hclear.bind fun _ => .pure ?_
  rintro _ _ ⟨-, rfl, rfl⟩
  exact h

/-- **A strict walk** finds the nodes of a chain, if it finds anything. -/
theorem attains_strictWalk (kind : ChainKind) (c : Contents) (index : Index) :
    Attains (fun c' index' => c' = c ∧ index' = index) (strictWalk kind)
      fun hs c' index' => hs = nodes (c.residents kind) ∧ c' = c ∧ index' = index := by
  refine .get fun s _ => (attains_reserve _ _).bind fun _ => ?_
  refine (attains_ofPool _).mono (fun _ _ h => h) ?_
  rintro hs _ _ ⟨⟨rfl, rfl⟩, p, hp, hwalk⟩
  exact ⟨Except.ok.inj (hwalk.symm.trans (hp.strictWalk_eq kind)), rfl, rfl⟩

/-- Pairs are indexed one after another. -/
theorem attains_indexEntries {c : Contents} {xs : List Resident} (hxs : ∀ x ∈ xs, x ∈ c.pairs)
    (index : Index) :
    Attains (fun c' index' => c' = c ∧ index' = index) ((nodes xs).forM indexEntry)
      fun _ c' index' => c' = c ∧ index' = indexed index xs := by
  -- Induction on the pairs, over whatever the index is when it comes to them.
  induction xs generalizing index with
  | nil => exact .pure fun _ _ h => h
  | cons x xs ih =>
    have hfirst : Attains (fun c' index' => c' = c ∧ index' = index) (indexEntry x.node)
        fun _ c' index' => c' = c ∧
          index' = index.insert x.key { value := x.value, node := some x.node } := by
      refine (attains_ofPool _).bind fun pair => .of_forall ?_
      rintro c' index' - ⟨⟨rfl, rfl⟩, p, hp, hpair⟩
      rw [hp.pair_eq (hxs x List.mem_cons_self)] at hpair
      obtain rfl := Except.ok.inj hpair
      rintro s _ hs ⟨rfl, rfl⟩
      exact ⟨.refl _, _, hs, rfl, rfl⟩
    exact hfirst.bind fun _ => ih (fun y hy => hxs y (List.mem_cons_of_mem _ hy)) _

/-- **The entry store is indexed**, over whatever is known of its keys. -/
theorem attains_entries :
    Attains (fun c index => c.victims = [] ∧ Nodeless index) entries fun _ => Tallies := by
  refine .of_forall fun c index hdistinct ⟨hvictims, hindex⟩ => ?_
  refine (attains_strictWalk .entries c index).bind fun hs => .of_forall ?_
  rintro c' index' - ⟨rfl, rfl, rfl⟩
  refine (attains_reserve _ _).bind fun _ => ?_
  refine (attains_indexEntries (fun x hx => List.mem_append_left _ hx) index').bind fun _ => .pure ?_
  rintro _ _ ⟨rfl, rfl⟩
  exact tallies_indexed hdistinct hvictims hindex

/-! ## The whole startup -/

/-- **A startup that succeeds** leaves an index that tallies with the pool. -/
theorem attains_everything :
    Attains (fun _ index => Nodeless index) (everything fileReplayer) fun _ => Tallies := by
  refine .of_forall fun c index _ hindex => .get fun s _ => (attains_makeRoom _).bind fun _ => ?_
  refine (attains_strictWalk .victims c index).bind fun victims => (attains_reserve _ _).bind fun _ => ?_
  refine Attains.mono (P := fun _ index => Nodeless index) ?_ ?_ fun _ _ _ h => h
  · exact (Attains.mapM attains_indexVictim _).bind fun pairs =>
      (attains_flushVictims pairs).bind fun _ => attains_log.bind fun _ =>
        attains_entries.bind fun _ => .pure fun _ _ h => h
  · rintro _ _ ⟨-, -, rfl⟩
    exact hindex

end PersistentTier.Startup
