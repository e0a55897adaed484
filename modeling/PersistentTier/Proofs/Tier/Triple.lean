import PersistentTier.Proofs.AppendFile.Frames
import PersistentTier.Proofs.Tier.Ledger
import PersistentTier.Tier.Commands

/-!
# Operations on a tier

A triple says what an operation makes of the ledger of a tier if it succeeds, and what of the ledger
is certain if it fails. An operation leads through steps of some kind if both ends are reached by such
steps. How a tier is used says with which failures its operations may end. They come from the
write budget or from a shortage of memory, unless an operation is called at the wrong time.

## Main definitions

* `Tier.Mode`, `Tier.Shows`: how a tier is used, and the ledger that it shows
* `Tier.Triple`: what an operation makes of the ledger
* `Tier.Reads`: an operation that only looks
* `Tier.Leads`: an operation made of steps

## Main results

* `Triple.inTransaction`, `Triple.onFile`, `Triple.updateIndex`: operations on the parts of a tier
* `Leads.bind`: operations one after another
-/

namespace PersistentTier.Tier

open Ledger

/-- **How a tier is used**: which parts it has, and with which failures its operations may end. -/
structure Mode where
  /-- The failures that are permitted. -/
  fails : Failure → Prop
  /-- The file is written. -/
  live : Bool
  /-- Where the file is, if it is not written. -/
  place : Option Location
  /-- The pool has an image, which is written at every commit. -/
  imaged : Prop
  /-- Several victims can be chosen at once. -/
  batches : Bool

/-- Operations may end with any failure. -/
def Mode.Faulty (m : Mode) : Prop := ∀ e, m.fails e

/-- **The parts of a tier** that belong to a ledger: its pool, its index and its file. -/
structure Parts (m : Mode) (L : Ledger) (p : Pool) (index : Index) (f : AppendFile) : Prop where
  pool : p.Keeps L.contents
  index : index = L.index
  file : f.Carries m.live L.filed
  place : m.live = false → f.place = m.place
  imaged : m.imaged → p.image.isSome ∧ p.options.durability = .sync

/-- Parts with another pool. -/
theorem Parts.withPool {m : Mode} {L : Ledger} {p q : Pool} {index : Index} {f : AppendFile}
    {c : Contents} (hparts : Parts m L p index f) (hfollows : p.Follows q) (hq : q.Keeps c) :
    Parts m { L with contents := c } q index f :=
  { hparts with
    pool := hq
    imaged := fun h => by rw [hfollows.image, hfollows.options]; exact hparts.imaged h }

/-- Parts with another file. -/
theorem Parts.withFile {m : Mode} {L : Ledger} {p : Pool} {index : Index} {f f' : AppendFile}
    {filed : List Command} (hparts : Parts m L p index f) (hf' : f'.Carries m.live filed)
    (hplace : m.live = false → f'.place = f.place) :
    Parts m { L with filed := filed } p index f' :=
  { hparts with
    file := hf'
    place := fun h => (hplace h).trans (hparts.place h) }

/-- **A tier that shows a ledger**, with room for some allocations. -/
structure Shows (m : Mode) (room : Nat) (L : Ledger) (t : Tier) : Prop
    extends Parts m L t.pool t.index t.file where
  batches : t.policy.supportsBatches = m.batches
  able : t.pool.Able m.fails room

section Triples

variable {α β : Type} {m : Mode} {X X' : Ledger → Prop} {room : Nat} {L L' : Ledger} {t : Tier}
  {act : TierM α} {f : α → TierM β} {Q Q' : α → Ledger → Prop} {R : β → Ledger → Prop}
  {S S' : Ledger → Ledger → Prop} {a : α}

theorem Shows.spent (ht : t.Shows m room L) : t.Shows m 0 L :=
  { ht with able := ⟨ht.able.unlimited, .inr t.pool.size_le⟩ }

/-- A tier whose operations may fail needs no room. -/
theorem Shows.of_faulty (ht : t.Shows m room L) (hm : m.Faulty) (room' : Nat) : t.Shows m room' L :=
  { ht with able := ⟨.inl (hm _), .inl (hm _)⟩ }

/-- A tier with another pool. -/
theorem Shows.withPool (ht : t.Shows m room L) {q : Pool} {c : Contents}
    (hfollows : t.pool.Follows q) (hq : q.Keeps c) :
    Shows m 0 { L with contents := c } { t with pool := q } where
  toParts := ht.toParts.withPool hfollows hq
  batches := ht.batches
  able := ⟨ht.able.unlimited.imp_right hfollows.budget, .inr q.size_le⟩

/-- **A triple** for an operation on a tier that shows the ledger `L`. If the operation fails, the
failure is permitted and the tier shows a ledger with `X`. -/
def Triple (m : Mode) (X : Ledger → Prop) (room : Nat) (L : Ledger) (act : TierM α)
    (Q : α → Ledger → Prop) : Prop :=
  ∀ t : Tier, t.Shows m room L → match act.run t with
    | .ok a t' => ∃ L', t'.Shows m 0 L' ∧ Q a L'
    | .error e t' => m.fails e ∧ ∃ L', t'.Shows m 0 L' ∧ X L'

/-- **An operation that only looks** at a tier whose pool has given contents and whose index is given. -/
def Reads (c : Contents) (index : Index) (act : TierM α) (a : α) : Prop :=
  ∀ t : Tier, t.pool.Holds c → t.index = index → act.run t = .ok a t

/-! ## Rules -/

namespace Triple

/-- Operations one after another. -/
theorem bind (hact : Triple m X room L act Q) (hf : ∀ a L', Q a L' → Triple m X 0 L' (f a) R) :
    Triple m X room L (act >>= f) R := by
  intro t ht
  have h := hact t ht
  rw [EStateM.run_bind]
  cases hr : act.run t with
  | ok a t' =>
    rw [hr] at h
    obtain ⟨L', ht', hQ⟩ := h
    exact hf a L' hQ t' ht'
  | error e t' =>
    rw [hr] at h
    exact h

theorem mono (hact : Triple m X room L act Q) (hX : ∀ L, X L → X' L) (hQ : ∀ a L, Q a L → Q' a L) :
    Triple m X' room L act Q' := by
  intro t ht
  have h := hact t ht
  split at h
  · obtain ⟨L', ht', hq⟩ := h
    exact ⟨L', ht', hQ _ _ hq⟩
  · obtain ⟨hfails, L', ht', hx⟩ := h
    exact ⟨hfails, L', ht', hX _ hx⟩

theorem pure (h : Q a L) : Triple m X room L (Pure.pure a) Q := fun _ ht => ⟨L, ht.spent, h⟩

theorem get {f : Tier → TierM β} (hf : ∀ t : Tier, t.Shows m room L → Triple m X room L (f t) R) :
    Triple m X room L (MonadState.get >>= f) R := fun t ht => hf t ht t ht

/-- An operation that only looks, and then another. -/
theorem read (hact : Reads L.contents L.index act a) (hf : Triple m X room L (f a) R) :
    Triple m X room L (act >>= f) R := by
  intro t ht
  rw [EStateM.run_bind, hact t ht.pool.holds ht.index]
  exact hf t ht

/-- A failure that is permitted. -/
theorem throw {e : Failure} (he : m.fails e) (hX : X L) :
    Triple m X room L (MonadExcept.throw e : TierM α) Q := fun _ ht => ⟨he, L, ht.spent, hX⟩

/-- **An operation in a scope of its own.** If it fails, the ledger is as before. -/
theorem inTransaction {tx : Tx α} {P : α → Contents → Prop} (htx : tx.Stepwise)
    (ht : Tx.Triple (Tx.Surfaces m.fails)
      (Scope.Shows (Tx.Surfaces m.fails) (L.contents.view room L.contents.counters 0)) tx
      fun a s => ∃ c' room', P a c' ∧ s.Shows (Tx.Surfaces m.fails) (c'.view room' c'.counters 0))
    (hX : X L) :
    Triple m X room L (Tier.inTransaction tx) fun a L' =>
      ∃ c', P a c' ∧ L' = { L with contents := c' } := by
  intro t hshows
  have hend := hshows.pool.transaction htx ht hshows.able
  simp only [Tier.inTransaction, EStateM.run]
  -- What the pool keeps afterwards decides which ledger the tier shows.
  generalize t.pool.transaction tx = out at hend ⊢
  obtain ⟨a | a, q⟩ := out
  · obtain ⟨hfollows, hfails, hq⟩ := hend
    exact ⟨hfails, L, hshows.withPool hfollows hq, hX⟩
  · obtain ⟨hfollows, c', hP, hq⟩ := hend
    exact ⟨_, hshows.withPool hfollows hq, c', hP, rfl⟩

/-- **The index is changed.** -/
theorem updateIndex (change : Index → Index) :
    Triple m X room L (Tier.updateIndex change) fun _ L' =>
      L' = { L with index := change L.index } :=
  fun _ ht => ⟨{ L with index := change L.index },
    { ht.spent with index := congrArg change ht.index }, rfl⟩

/-- **An operation on the file.** It succeeds. -/
theorem onFile {act : FileOp α} {filed' : List Command}
    (hact : FileOp.Yields m.live L.filed act a filed') :
    Triple m X room L (Tier.onFile act) fun b L' => b = a ∧ L' = { L with filed := filed' } := by
  intro t ht
  obtain ⟨f', hrun, hf', -, hplace⟩ := hact t.file ht.file
  have hact' : (Tier.onFile act).run t = .ok a { t with file := f' } := by
    change Tier.onFile act t = _
    simp only [Tier.onFile, hrun]
  rw [hact']
  exact ⟨{ L with filed := filed' }, ⟨ht.toParts.withFile hf' hplace, ht.batches, ht.spent.able⟩,
    rfl, rfl⟩

/-- The policy uses up a pick. -/
theorem setPolicy {policy : Policy} (hpolicy : policy.supportsBatches = m.batches) :
    Triple m X room L (modify fun t : Tier => { t with policy := policy } : TierM Unit)
      fun _ L' => L = L' :=
  fun _ ht => ⟨L, { ht.spent with batches := hpolicy }, rfl⟩

end Triple

namespace Reads

variable {c : Contents} {index : Index}

theorem pure (a : α) : Reads c index (Pure.pure a) a := fun _ _ _ => rfl

theorem bind {b : β} (hact : Reads c index act a) (hf : Reads c index (f a) b) :
    Reads c index (act >>= f) b := by
  intro t hp hindex
  rw [EStateM.run_bind, hact t hp hindex]
  exact hf t hp hindex

theorem get {f : Tier → TierM β} {b : β}
    (hf : ∀ t : Tier, t.pool.Holds c → t.index = index → Reads c index (f t) b) :
    Reads c index (MonadState.get >>= f) b := fun t hp hindex => hf t hp hindex t hp hindex

/-- What can be read from every pool that holds the contents. -/
theorem readPool {look : Pool → Except Unreadable α} (h : ∀ p : Pool, p.Holds c → look p = .ok a) :
    Reads c index (Tier.readPool look) a := by
  intro t hp _
  change Tier.readPool look t = _
  simp only [Tier.readPool, h t.pool hp]

/-- Reading one thing after another. -/
theorem mapM {σ τ : Type} {look : τ → TierM α} {name : σ → τ} {result : σ → α} (items : List σ)
    (h : ∀ x ∈ items, Reads c index (look (name x)) (result x)) :
    Reads c index ((items.map name).mapM look) (items.map result) := by
  induction items with
  | nil => exact .pure []
  | cons x items ih =>
    rw [List.map_cons, List.mapM_cons]
    refine (h x List.mem_cons_self).bind ?_
    exact (ih fun y hy => h y (List.mem_cons_of_mem _ hy)).bind (.pure _)

end Reads

/-! ## Operations made of steps -/

/-- **An operation made of steps.** Whether it succeeds or not, such steps lead from the ledger that
the tier showed to the one that it shows. -/
def Leads (m : Mode) (S : Ledger → Ledger → Prop) (room : Nat) (L : Ledger) (act : TierM α)
    (Q : α → Ledger → Prop) : Prop :=
  Triple m (Relation.ReflTransGen S L) room L act fun a L' => Relation.ReflTransGen S L L' ∧ Q a L'

namespace Leads

theorem bind (hact : Leads m S room L act Q)
    (hf : ∀ a L', Relation.ReflTransGen S L L' → Q a L' → Leads m S 0 L' (f a) R) :
    Leads m S room L (act >>= f) R := by
  refine Triple.bind hact fun a L' hQ => ?_
  exact (hf a L' hQ.1 hQ.2).mono (fun _ h => hQ.1.trans h) fun _ _ h => ⟨hQ.1.trans h.1, h.2⟩

theorem mono (hact : Leads m S room L act Q) (hQ : ∀ a L', Relation.ReflTransGen S L L' → Q a L' → Q' a L') :
    Leads m S room L act Q' := Triple.mono hact (fun _ h => h) fun _ _ h => ⟨h.1, hQ _ _ h.1 h.2⟩

/-- Steps of one kind may be steps of another one. -/
theorem embed (hact : Leads m S room L act Q) (hS : ∀ L L', S L L' → S' L L') :
    Leads m S' room L act Q :=
  Triple.mono hact (fun _ h => h.lift id hS) fun _ _ h => ⟨h.1.lift id hS, h.2⟩

/-- Steps that can be taken together are one step. -/
theorem triple (hact : Leads m S room L act Q) (hrefl : ∀ L, S L L)
    (htrans : ∀ L L' L'', S L L' → S L' L'' → S L L'') :
    Triple m (S L) room L act fun a L' => S L L' ∧ Q a L' := by
  have hone : ∀ {L'}, Relation.ReflTransGen S L L' → S L L' := fun h => by
    induction h with
    | refl => exact hrefl L
    | tail _ hstep ih => exact htrans _ _ _ ih hstep
  exact Triple.mono hact (fun _ h => hone h) fun _ _ h => ⟨hone h.1, h.2⟩

/-- Ways to change the contents that can be taken together. -/
theorem moves {way : Contents → Contents → Prop} (hact : Leads m (Moves way) room L act Q)
    (hrefl : ∀ c, way c c) (htrans : ∀ c c' c'', way c c' → way c' c'' → way c c'') :
    Triple m (Moves way L) room L act fun a L' => Moves way L L' ∧ Q a L' :=
  hact.triple (fun _ => ⟨id, hrefl _⟩) fun _ _ _ h h' =>
    ⟨h'.agrees ∘ h.agrees, htrans _ _ _ h.contents h'.contents⟩

/-- If it may fail, an operation needs no room. -/
theorem of_faulty {room' : Nat} (hm : m.Faulty) (hact : Leads m S room' L act Q) :
    Leads m S room L act Q := fun t ht => hact t (ht.of_faulty hm room')

/-- An operation succeeds or ends with a failure that is permitted. -/
theorem ok_or_error (hact : Leads m S room L act Q) (ht : t.Shows m room L) :
    (∃ a t' L', act.run t = .ok a t' ∧ Q a L') ∨ ∃ e t', act.run t = .error e t' ∧ m.fails e := by
  have h := hact t ht
  split at h
  · rename_i a t' hrun
    obtain ⟨L', -, -, hQ⟩ := h
    exact .inl ⟨a, t', L', hrun, hQ⟩
  · rename_i e t' hrun
    exact .inr ⟨e, t', hrun, h.1⟩

theorem pure (h : Q a L) : Leads m S room L (Pure.pure a) Q := Triple.pure ⟨.refl, h⟩

theorem get {f : Tier → TierM β} (hf : ∀ t : Tier, t.Shows m room L → Leads m S room L (f t) R) :
    Leads m S room L (MonadState.get >>= f) R := Triple.get hf

theorem read (hact : Reads L.contents L.index act a) (hf : Leads m S room L (f a) R) :
    Leads m S room L (act >>= f) R := Triple.read hact hf

/-- An operation in a scope of its own that takes steps in the pool only. -/
theorem inTransaction {tx : Tx α} {P : α → Contents → Prop} (htx : tx.Stepwise)
    (ht : Tx.Triple (Tx.Surfaces m.fails)
      (Scope.Shows (Tx.Surfaces m.fails) (L.contents.view room L.contents.counters 0)) tx
      fun a s => ∃ c' room', P a c' ∧ s.Shows (Tx.Surfaces m.fails) (c'.view room' c'.counters 0))
    (hsteps : ∀ a c', P a c' → Relation.ReflTransGen S L { L with contents := c' }) :
    Leads m S room L (Tier.inTransaction tx) fun a L' =>
      ∃ c', P a c' ∧ L' = { L with contents := c' } := by
  refine Triple.mono (Triple.inTransaction htx ht .refl) (fun _ h => h) ?_
  rintro a _ ⟨c', hP, rfl⟩
  exact ⟨hsteps a c' hP, c', hP, rfl⟩

/-- An operation on the file that adds commands to it. -/
theorem onFile {act : FileOp α} {cmds : List Command}
    (hact : FileOp.Yields m.live L.filed act a (L.filed ++ cmds))
    (hstep : S L { L with filed := L.filed ++ cmds }) :
    Leads m S room L (Tier.onFile act) fun _ L' => L' = { L with filed := L.filed ++ cmds } := by
  refine Triple.mono (Triple.onFile hact) (fun _ h => h) ?_
  rintro _ _ ⟨rfl, rfl⟩
  exact ⟨.single hstep, rfl⟩

/-- A failure is made up for. -/
theorem tolerate {act : TierM Unit} {Q : Unit → Ledger → Prop} (hact : Leads m S room L act Q) :
    Leads m S room L (Tier.tolerate act) fun _ _ => True := by
  intro t ht
  have h := hact t ht
  simp only [EStateM.run, Tier.tolerate] at h ⊢
  split at h
  · rename_i hr
    obtain ⟨L', ht', hsteps, -⟩ := h
    simp only [hr]
    exact ⟨L', ht', hsteps, trivial⟩
  · rename_i e t' hr
    obtain ⟨hfails, L', ht', hsteps⟩ := h
    rw [hr]
    -- Shortage of memory is not made up for.
    cases e with
    | crash => exact ⟨hfails, L', ht', hsteps⟩
    | cause | aborted => exact ⟨L', ht', hsteps, trivial⟩

end Leads

end Triples

end PersistentTier.Tier
