import PersistentTier.Proofs.Chain.Reading
import PersistentTier.Proofs.Scope.Transaction
import PersistentTier.Proofs.Tier.Writes

/-!
# Structural integrity

Whatever transactions are run on an empty pool, with whatever handles and with writes refused at
whatever point, the pool afterwards is a root with four intact lists and nothing else. The
statement is about the pool alone: which nodes are read under which handles, what their links and
tags are, and what the root counts.

## Main definitions

* `Edit`, `Edit.tx`: the operations on the chains and the log, with arbitrary arguments
* `Pool.edit`, `Pool.edits`: one transaction, and a run of them
* `Pool.LogLinked`: handles that lead from command to command
* `Pool.Intact`: a pool with four intact lists and no other object

## Main results

* `Pool.Holds.intact`: a pool with given contents is intact
* `Edit.triple`: every edit turns contents into contents, or fails for some other reason than a
  counter below zero
* `intact_edits`: a run of edits leaves an intact pool
-/

namespace PersistentTier

open Tx Pool

/-! ## Edits -/

/-- **An edit** of the chains or the log. Handles may be of any object, or of none. -/
inductive Edit
  /-- A new pair at the head of the entry store. -/
  | insert (key value : Bytes)
  /-- Another value for a pair. -/
  | update (node : Handle) (value : Bytes)
  | remove (node : Handle)
  | promote (node : Handle)
  | evict (node : Handle)
  | evictAll (nodes : List Handle)
  /-- The victim pipeline is reclaimed from a node on. -/
  | reclaim (head : Handle)
  | removeVictim (node : Handle)
  | append (command : Bytes)
  | switch
  | clear (head : Option Handle)
  deriving DecidableEq

namespace Edit

/-- The operation of an edit, for what it does to the scope. -/
def tx : Edit → Tx Unit
  | insert key value => do let _ ← Tier.insertNew key value
  | update node value => do let _ ← Tier.updateEntry node value false
  | remove node => EntryStore.remove node
  | promote node => EntryStore.promote node
  | evict node => VictimPipeline.evict node
  | evictAll nodes => do let _ ← VictimPipeline.evictAll nodes
  | reclaim head => do let _ ← VictimPipeline.reclaim head
  | removeVictim node => VictimPipeline.remove node
  | append command => do let _ ← LogBuffer.append command
  | switch => do let _ ← LogBuffer.switch
  | clear head => do let _ ← LogBuffer.clear head

theorem stepwise (e : Edit) : e.tx.Stepwise := by
  cases e with
  | insert key value => exact (Tier.stepwise_insertNew key value).bind fun _ => .pure ()
  | update node value => exact (Tier.stepwise_updateEntry node value false).bind fun _ => .pure ()
  | remove node => exact EntryStore.stepwise_remove node
  | promote node => exact EntryStore.stepwise_promote node
  | evict node => exact VictimPipeline.stepwise_evict node
  | evictAll nodes => exact (VictimPipeline.stepwise_evictAll nodes).bind fun _ => .pure ()
  | reclaim head => exact (VictimPipeline.stepwise_reclaim head).bind fun _ => .pure ()
  | removeVictim node => exact VictimPipeline.stepwise_remove node
  | append command => exact (LogBuffer.stepwise_append command).bind fun _ => .pure ()
  | switch => exact LogBuffer.stepwise_switch.bind fun _ => .pure ()
  | clear head => exact (LogBuffer.stepwise_clear head).bind fun _ => .pure ()

end Edit

/-- Runs an edit as a transaction, with a budget for its writes. The outcome is dropped. -/
def Pool.edit (p : Pool) (budget : Option Nat) (e : Edit) : Pool :=
  ({ p with writeBudget := budget }.transaction e.tx).2

/-- Runs edits one after another, each with its own budget. -/
def Pool.edits (p : Pool) (run : List (Option Nat × Edit)) : Pool :=
  run.foldl (fun p (budget, e) => p.edit budget e) p

/-! ## Intact pools -/

/-- **Handles that lead from command to command** of a log buffer, to its oldest one. -/
def Pool.LogLinked (p : Pool) : (before : Option Handle) → List Handle → Prop
  | _, [] => True
  | before, h :: hs =>
    (∃ n, p.logNode h = .ok n ∧ n.prev = before ∧ n.next = hs.head?) ∧ p.LogLinked (some h) hs

/-- The handles of the objects that a node stands for: itself, and its payloads. -/
def Pool.owned (p : Pool) (h : Handle) : List Handle :=
  match p.object? h with
  | some (.entry e) => [h, e.key, e.value]
  | some (.log n) => [h, n.command]
  | _ => [h]

/-- **An intact pool**, whose entry store, victim pipeline and log buffers have the given nodes. -/
structure Pool.Intact (p : Pool) (entries victims a b : List Handle) : Prop where
  entriesLinked : p.Linked .entries none entries
  entryFirst : p.root.entryFirst = entries.head?
  entryLast : p.root.entryLast = entries.getLast?
  entryCount : p.root.entryCount.toNat = entries.length
  victimsLinked : p.Linked .victims none victims
  victimFirst : p.root.victimFirst = victims.head?
  victimCount : p.root.victimCount.toNat = victims.length
  bufferA : p.LogLinked none a
  firstA : p.root.logBufferA = a.head?
  bufferB : p.LogLinked none b
  firstB : p.root.logBufferB = b.head?
  logCount : p.root.logCount.toNat = a.length + b.length
  /-- No object is reached twice. -/
  once : ((entries ++ victims ++ a ++ b).flatMap p.owned).Nodup
  /-- Every object is reached, and nothing else. -/
  reached : ∀ h, (p.object? h).isSome ↔ h ∈ (entries ++ victims ++ a ++ b).flatMap p.owned
  live : p.stats.liveObjects = 3 * (p.root.entryCount.toNat + p.root.victimCount.toNat) +
    2 * p.root.logCount.toNat

section Reading

variable {p : Pool} {m : Heap} {kind : ChainKind} {before : Option Handle} {xs : List Resident}
  {ys : List Logged}

/-- A log buffer of the heap is read off node by node. -/
theorem Pool.logLinked_of_heap (hp : logChain before ys ≤ p.heap) :
    p.LogLinked before (logNodes ys) := by
  induction ys generalizing before with
  | nil => trivial
  | cons y ys ih =>
    refine ⟨⟨y.entry before (firstOf (logNodes ys) none), logNode_eq_ok_iff.2 ?_, rfl,
      firstOf_none _⟩, ih ((Multiset.le_add_left _ _).trans hp)⟩
    exact Multiset.mem_of_le hp (by simp [logChain, Logged.heap])

theorem Pool.owned_of_chain (hp : chain kind before xs none ≤ p.heap) :
    (nodes xs).flatMap p.owned = xs.flatMap Resident.handles := by
  induction xs generalizing before with
  | nil => rfl
  | cons x xs ih =>
    have ho : p.object? x.node = some (.entry (x.entry kind before (firstOf (nodes xs) none))) :=
      mem_heap.1 (Multiset.mem_of_le hp (by simp [chain, Resident.heap]))
    have hrest := ih ((Multiset.le_add_left _ _).trans hp)
    simp only [nodes, List.map_cons, List.flatMap_cons] at hrest ⊢
    simp [hrest, owned, ho, Resident.handles, Resident.entry]

theorem Pool.owned_of_logChain (hp : logChain before ys ≤ p.heap) :
    (logNodes ys).flatMap p.owned = ys.flatMap Logged.handles := by
  induction ys generalizing before with
  | nil => rfl
  | cons y ys ih =>
    have ho : p.object? y.node = some (.log (y.entry before (firstOf (logNodes ys) none))) :=
      mem_heap.1 (Multiset.mem_of_le hp (by simp [logChain, Logged.heap]))
    have hrest := ih ((Multiset.le_add_left _ _).trans hp)
    simp only [logNodes, List.map_cons, List.flatMap_cons] at hrest ⊢
    simp [hrest, owned, ho, Logged.handles, Logged.entry]

end Reading

namespace Pool.Holds

variable {p : Pool} {c : Contents}

/-- **A pool with given contents is intact.** -/
theorem intact (hp : p.Holds c) :
    p.Intact (nodes c.entries) (nodes c.victims) (logNodes (c.log .a)) (logNodes (c.log .b)) := by
  have he : chain .entries none c.entries none ≤ p.heap := hp.chain_le .entries
  have hv : chain .victims none c.victims none ≤ p.heap := hp.chain_le .victims
  have ha := hp.logChain_le .a
  have hb := hp.logChain_le .b
  -- What the nodes own is what the contents are made of, so no object is reached twice.
  have howned : (nodes c.entries ++ nodes c.victims ++ logNodes (c.log .a) ++
      logNodes (c.log .b)).flatMap p.owned = c.handles := by
    simp only [List.flatMap_append, owned_of_chain he, owned_of_chain hv, owned_of_logChain ha,
      owned_of_logChain hb]
    rfl
  have hentryCount : p.root.entryCount.toNat = c.entries.length := hp.recordedLength_eq .entries
  have hvictimCount : p.root.victimCount.toNat = c.victims.length := hp.recordedLength_eq .victims
  have hlogCount := hp.logCount_eq
  exact {
    entriesLinked := linked_of_heap he
    entryFirst := by rw [hp.root, ← firstOf_none]; rfl
    entryLast := by rw [hp.root, ← lastOf_none]; rfl
    entryCount := by simpa using hentryCount
    victimsLinked := linked_of_heap hv
    victimFirst := by rw [hp.root, ← firstOf_none]; rfl
    victimCount := by simpa using hvictimCount
    bufferA := logLinked_of_heap ha
    firstA := by rw [hp.root, ← firstOf_none]; rfl
    bufferB := logLinked_of_heap hb
    firstB := by rw [hp.root, ← firstOf_none]; rfl
    logCount := by simpa using hlogCount
    once := howned ▸ hp.nodup_handles
    reached := by
      intro h
      rw [howned, ← Multiset.mem_coe, ← c.map_heap, ← hp.heap, Option.isSome_iff_exists,
        Multiset.mem_map]
      exact ⟨fun ⟨a, ha⟩ => ⟨(h, a), mem_heap.2 ha, rfl⟩,
        fun ⟨⟨_, a⟩, ha, he⟩ => ⟨a, mem_heap.1 (by cases he; exact ha)⟩⟩
    live := by
      rw [hentryCount, hvictimCount, hlogCount, ← c.card_heap, ← hp.heap, card_heap]
      rfl }

end Pool.Holds

/-! ## Runs of edits -/

/-- A failure that does not surface as a counter below zero. -/
def Failure.Harmless (e : Failure) : Prop :=
  ∀ counter current amount,
    e.toAborted ≠ .aborted (.failed (.corrupt (.counterBelowZero counter current amount)))

theorem lenient_harmless : Lenient Failure.Harmless := by
  intro cause h counter a b he
  exact h counter a b (by simpa [Failure.toAborted] using he)

/-- A pair of either chain is updated. -/
theorem Edit.triple_update {c : Contents} {kind : ChainKind} {l r : List Resident} {x : Resident}
    (hc : c.residents kind = l ++ x :: r) (value : Bytes) :
    Triple Failure.Harmless (Scope.Shows Failure.Harmless (c.view 3 c.counters 0))
      (Edit.update x.node value).tx fun _ s =>
        ∃ c' : Contents, ∃ room, s.Shows Failure.Harmless (c'.view room c'.counters 0) := by
  refine (Tier.triple_updateEntry hc value (by simp)).bind fun h => Triple.pure ?_
  rintro s ⟨-, v, hs⟩
  exact ⟨_, _, hs⟩

/-- **Every edit turns contents into contents**, or fails harmlessly. -/
theorem Edit.triple (e : Edit) (c : Contents) :
    Triple Failure.Harmless (Scope.Shows Failure.Harmless (c.view 3 c.counters 0)) e.tx fun _ s =>
      ∃ c' : Contents, ∃ room, s.Shows Failure.Harmless (c'.view room c'.counters 0) := by
  have hE := lenient_harmless
  have hm : ∀ h e, (h, Object.entry e) ∉ (0 : Heap) := fun _ _ => Multiset.notMem_zero _
  -- A handle is that of a pair or it is not; the cases are told apart by the lists.
  cases e with
  | insert key value =>
    refine (Tier.triple_insertNew key value).bind fun h => Triple.pure ?_
    rintro s ⟨x, -, -, -, hs⟩
    exact ⟨_, _, hs⟩
  | update node value =>
    by_cases hentries : node ∈ nodes c.entries
    · obtain ⟨l, x, r, hc, rfl⟩ := exists_append_of_mem_nodes hentries
      exact triple_update (show c.residents .entries = _ from hc) value
    · by_cases hvictims : node ∈ nodes c.victims
      · obtain ⟨l, x, r, hc, rfl⟩ := exists_append_of_mem_nodes hvictims
        exact triple_update (show c.residents .victims = _ from hc) value
      · exact (Tier.fails_updateEntry hE hentries hvictims (hm node) value false).bind.triple
  | remove node =>
    by_cases hentries : node ∈ nodes c.entries
    · obtain ⟨l, x, r, hc, rfl⟩ := exists_append_of_mem_nodes hentries
      exact (yields_remove hc).mono fun _ _ hs => ⟨_, _, hs.2⟩
    · exact (fails_remove hE hentries (hm node)).triple
  | promote node =>
    by_cases hentries : node ∈ nodes c.entries
    · obtain ⟨l, x, r, hc, rfl⟩ := exists_append_of_mem_nodes hentries
      exact (yields_promote_counters hc).mono fun _ _ hs => ⟨_, _, hs.2⟩
    · exact (fails_promote hE hentries (hm node)).triple
  | evict node =>
    by_cases hentries : node ∈ nodes c.entries
    · obtain ⟨l, x, r, hc, rfl⟩ := exists_append_of_mem_nodes hentries
      exact (yields_evict hc).mono fun _ _ hs => ⟨_, _, hs.2⟩
    · exact (fails_evict hE hentries (hm node)).triple
  | evictAll nodes =>
    by_cases hnodes : ∃ c', c.Evicts nodes c'
    · obtain ⟨c', hc'⟩ := hnodes
      exact (yields_evictAll hc').bind (Triple.pure fun _ hs => ⟨_, _, hs⟩)
    · exact (fails_evictAll hE (not_exists.1 hnodes) hm).bind.triple
  | reclaim head =>
    by_cases hvictims : head ∈ nodes c.victims
    · obtain ⟨l, x, r, hc, rfl⟩ := exists_append_of_mem_nodes hvictims
      exact (yields_reclaim hc).bind (Triple.pure fun _ hs => ⟨_, _, hs⟩)
    · exact (fails_reclaim hE hvictims (hm head)).bind.triple
  | removeVictim node =>
    by_cases hvictims : node ∈ nodes c.victims
    · obtain ⟨l, x, r, hc, rfl⟩ := exists_append_of_mem_nodes hvictims
      exact (yields_removeVictim hc).mono fun _ _ hs => ⟨_, _, hs.2⟩
    · exact (fails_removeVictim hE hvictims (hm node)).triple
  | append command =>
    refine (LogBuffer.triple_append command).bind fun h => Triple.pure ?_
    rintro s ⟨x, -, -, hs⟩
    exact ⟨_, _, hs⟩
  | switch =>
    exact LogBuffer.yields_switch.bind
      (Triple.pure fun _ hs => ⟨{ c with active := c.active.flipped }, _, hs⟩)
  | clear head =>
    by_cases hhead : ∃ y, head = firstOf (logNodes (c.log y)) none
    · obtain ⟨y, rfl⟩ := hhead
      exact (LogBuffer.yields_clear y).bind (Triple.pure fun _ hs => ⟨_, _, hs⟩)
    · exact (LogBuffer.fails_clear hE (not_exists.1 hhead)).bind.triple

/-- Other contents, if any, after an edit; and no counter has gone below zero. -/
theorem Pool.Holds.edit {p : Pool} {c : Contents} (hp : p.Holds c) (budget : Option Nat)
    (e : Edit) : (∃ c', (p.edit budget e).Holds c') ∧ ∀ counter current amount,
      ({ p with writeBudget := budget }.transaction e.tx).1 ≠
        .error (.aborted (.failed (.corrupt (.counterBelowZero counter current amount)))) := by
  have hp' : ({ p with writeBudget := budget } : Pool).Holds c :=
    hp.padded ⟨0, paddedBy_writeBudget p budget⟩
  have hshows : Scope.Shows Failure.Harmless (c.view 3 c.counters 0)
      { pool := { p with writeBudget := budget } } := by
    rw [c.view_zero]
    exact hp'.shows ⟨.inl (by simp [Failure.Harmless, Failure.toAborted]),
      .inl (by simp [Failure.Harmless, Failure.toAborted])⟩
  have hends := ends_transaction hp'.vacant e.stepwise (e.triple c) hshows
  unfold Pool.edit
  generalize ({ p with writeBudget := budget } : Pool).transaction e.tx = outcome at hends
  -- A commit leaves other contents; a failure, before or in it, leaves the old ones.
  cases hends with
  | committed post sound host durable =>
    obtain ⟨c', room, hs⟩ := post
    exact ⟨⟨c', holds_of_commit (c'.view_zero room ▸ hs) durable⟩, by simp⟩
  | failed permitted padded host =>
    refine ⟨⟨c, hp'.padded padded⟩, fun counter current amount he => ?_⟩
    exact permitted counter current amount (Except.error.inj he)
  | undurable post host refused padded => exact ⟨⟨c, hp'.padded padded⟩, by simp⟩

theorem Pool.exists_holds_edits {p : Pool} {c : Contents} (hp : p.Holds c)
    (run : List (Option Nat × Edit)) : ∃ c', (p.edits run).Holds c' := by
  induction run generalizing p c with
  | nil => exact ⟨c, hp⟩
  | cons step run ih =>
    obtain ⟨⟨c', hc'⟩, -⟩ := hp.edit step.1 step.2
    exact ih hc'

/-- **Structural integrity.** After any run of edits on an empty pool, each with any arguments, any
budget for its writes and whether or not the image can be written, the pool is intact; and no edit
ever finds a counter that would drop below zero. -/
theorem intact_edits (id : UInt64) (options : PoolOptions) (image : Option Location)
    (run : List (Option Nat × Edit)) :
    (∃ entries victims a b,
      ({ Pool.empty id options with image := image }.edits run).Intact entries victims a b) ∧
    ∀ (budget : Option Nat) (e : Edit) counter current amount,
      ({ ({ Pool.empty id options with image := image } : Pool).edits run with
          writeBudget := budget }.transaction e.tx).1 ≠
        .error (.aborted (.failed (.corrupt (.counterBelowZero counter current amount)))) := by
  have hempty : ({ Pool.empty id options with image := image } : Pool).Holds {} :=
    ⟨rfl, rfl, (holds_empty id options).vacant.of_slots fun _ _ => rfl⟩
  obtain ⟨c, hc⟩ := exists_holds_edits hempty run
  exact ⟨⟨_, _, _, _, hc.intact⟩, fun budget e => (hc.edit budget e).2⟩

end PersistentTier
