import PersistentTier.Proofs.Chain.Validity
import PersistentTier.Proofs.Tier.Drains

/-!
# What a startup does

A startup works on a pool with known contents and on a file with known commands. Nothing limits its
writes, so it goes through to its end, and what it leaves is the ledger of a restart.

## Main definitions

* `Startup.Shows`: a startup that shows a ledger
* `Startup.Yields`: what a step of a startup makes of the ledger

## Main results

* `Startup.yields_flushVictims`, `yields_log`, `yields_entries`: the three parts of a startup
* `Startup.yields_everything`: the whole startup
-/

namespace PersistentTier.Startup

open Ledger

/-- **A startup that shows a ledger.** Nothing limits its writes. -/
structure Shows (m : Tier.Mode) (L : Ledger) (s : Startup AppendFile) : Prop
    extends Tier.Parts m L s.pool s.index s.replayer where
  budget : s.pool.writeBudget = none

section Steps

variable {α β : Type} {m : Tier.Mode} {L L' L'' : Ledger} {act : StartupM AppendFile α}
  {f : α → StartupM AppendFile β} {a : α} {b : β}

/-- **What a step of a startup makes of the ledger.** It succeeds. -/
def Yields (m : Tier.Mode) (L : Ledger) (act : StartupM AppendFile α) (a : α) (L' : Ledger) : Prop :=
  ∀ s : Startup AppendFile, s.Shows m L → ∃ s', act.run s = .ok a s' ∧ s'.Shows m L'

namespace Yields

theorem pure (a : α) : Yields m L (Pure.pure a) a L := fun s hs => ⟨s, rfl, hs⟩

theorem bind (hact : Yields m L act a L') (hf : Yields m L' (f a) b L'') :
    Yields m L (act >>= f) b L'' := by
  intro s hs
  obtain ⟨s', hrun, hs'⟩ := hact s hs
  rw [EStateM.run_bind, hrun]
  exact hf s' hs'

theorem get {f : Startup AppendFile → StartupM AppendFile β}
    (hf : ∀ s : Startup AppendFile, s.Shows m L → Yields m L (f s) b L') :
    Yields m L (MonadState.get >>= f) b L' := fun s hs => hf s hs s hs

/-- **Commands are handed over** one after another. Each step adds one to the file, and may change
the index. -/
theorem forM {σ τ : Type} (step : τ → StartupM AppendFile Unit) (name : σ → τ)
    (command : σ → Command) (change : Index → σ → Index) (items : List σ)
    (hstep : ∀ L : Ledger, ∀ x ∈ items, Yields m L (step (name x)) ()
      { L with index := change L.index x, filed := L.filed ++ [command x] }) :
    Yields m L ((items.map name).forM step) ()
      { L with index := items.foldl change L.index, filed := L.filed ++ items.map command } := by
  induction items generalizing L with
  | nil =>
    rw [List.map_nil, List.map_nil, List.append_nil]
    exact .pure ()
  | cons x items ih =>
    let L₁ : Ledger := { L with index := change L.index x, filed := L.filed ++ [command x] }
    have hfirst : Yields m L (step (name x)) () L₁ := hstep L x List.mem_cons_self
    have hrest := ih (L := L₁) fun L y hy => hstep L y (List.mem_cons_of_mem _ hy)
    have hfiled : L₁.filed ++ items.map command = L.filed ++ (x :: items).map command :=
      List.append_assoc ..
    rw [hfiled] at hrest
    exact hfirst.bind hrest

end Yields

/-! ## The parts of a startup -/

/-- The nodes of a chain fit into memory. -/
theorem yields_reserve_nodes (m : Tier.Mode) (L : Ledger) (kind : ChainKind) {size : Nat}
    (hsize : size ≤ 72) :
    Yields m L (reserve (nodes (L.contents.residents kind)).length size) () L := by
  intro s hs
  have hbound : maxSlots * 72 < 3 * memoryBound := by decide
  have hlength := hs.pool.holds.valid.recordedLength_le kind
  rw [hs.pool.holds.valid.recordedLength_eq kind] at hlength
  have hle := Nat.mul_le_mul_left (L.contents.residents kind).length hsize
  rw [nodes, List.length_map, reserve_of_lt (by omega)]
  exact Yields.pure () s hs

/-- The pairs that are counted fit into memory. -/
theorem yields_makeRoom {p : Pool} (hp : p.Holds L.contents) :
    Yields m L (makeRoom p.root) () L := by
  have hbound : maxSlots * 72 < 3 * memoryBound := by decide
  have hcount := hp.valid.count_le
  rw [makeRoom_of_lt (by omega)]
  exact .pure ()

/-- What can be read from every pool that holds the contents. -/
theorem yields_ofPool {look : Pool → Except Corruption α}
    (h : ∀ p : Pool, p.Holds L.contents → look p = .ok a) : Yields m L (ofPool look) a L := by
  intro s hs
  refine ⟨s, ?_, hs⟩
  change ofPool look s = _
  simp only [ofPool, h s.pool hs.pool.holds]

theorem yields_updateIndex (change : Index → Index) :
    Yields m L (updateIndex change) () { L with index := change L.index } :=
  fun s hs => ⟨{ s with index := change s.index }, rfl,
    { hs with index := congrArg change hs.index }⟩

/-- An operation on the file. -/
theorem yields_call {act : FileOp α} {filed' : List Command}
    (hact : FileOp.Yields m.live L.filed act a filed') :
    Yields m L (call (liftFailure act)) a { L with filed := filed' } := by
  intro s hs
  obtain ⟨f', hrun, hf', -, hplace⟩ := hact s.replayer hs.file
  refine ⟨{ s with replayer := f' }, ?_, hs.toParts.withFile hf' hplace, hs.budget⟩
  change call (liftFailure act) s = _
  simp only [call, EStateM.run, liftFailure] at hrun ⊢
  simp only [hrun]

/-- An operation in a scope of its own. -/
theorem yields_inTransaction {tx : Tx α} {c' : Contents} (htx : tx.Stepwise)
    (ht : Tx.Yields (fun _ => False) (L.contents.view 0 L.contents.counters 0) tx a
      (c'.view 0 c'.counters 0)) :
    Yields m L (inTransaction tx) a { L with contents := c' } := by
  intro s hs
  have hable : s.pool.Able (fun _ => False) 0 := ⟨.inr hs.budget, .inr s.pool.size_le⟩
  have hpost : Tx.Triple (Tx.Surfaces fun _ => False)
      (Scope.Shows (Tx.Surfaces fun _ => False) (L.contents.view 0 L.contents.counters 0)) tx
      fun b s => ∃ c room, (b = a ∧ c = c') ∧
        s.Shows (Tx.Surfaces fun _ => False) (c.view room c.counters 0) :=
    ht.mono fun _ _ h => ⟨c', 0, ⟨h.1, rfl⟩, h.2⟩
  have hend := hs.pool.transaction htx hpost hable
  change ∃ s', inTransaction tx s = .ok a s' ∧ _
  rw [inTransaction]
  generalize s.pool.transaction tx = out at hend ⊢
  obtain ⟨b | b, q⟩ := out
  · exact hend.2.1.elim
  · obtain ⟨hfollows, c, ⟨rfl, rfl⟩, hq⟩ := hend
    exact ⟨_, rfl, hs.toParts.withPool hfollows hq, hfollows.budget hs.budget⟩

/-! ## Victims -/

/-- **A strict walk** finds the nodes of a chain. -/
theorem yields_strictWalk (m : Tier.Mode) (L : Ledger) (kind : ChainKind) :
    Yields m L (strictWalk kind) (nodes (L.contents.residents kind)) L := by
  refine Yields.get fun s hs => ?_
  have hreserve := yields_reserve_nodes m L kind (show 16 ≤ 72 by decide)
  rw [nodes, List.length_map, ← hs.pool.holds.valid.recordedLength_eq kind] at hreserve
  exact hreserve.bind (yields_ofPool fun p hp => hp.strictWalk_eq kind)

theorem yields_pair {x : Resident} (hx : x ∈ L.contents.pairs) :
    Yields m L (pair x.node) (x.key, x.value) L :=
  yields_ofPool fun p hp => by rw [hp.pair_eq hx]; rfl

/-- **Victims are indexed** one after another. -/
theorem yields_indexVictims {xs : List Resident} (hxs : ∀ x ∈ xs, x ∈ L.contents.pairs) :
    Yields m L ((nodes xs).mapM indexVictim) (xs.map fun x => (x.key, x.value))
      { L with index :=
          (xs.map fun x => Command.set x.key x.value).foldl Index.apply L.index } := by
  induction xs generalizing L with
  | nil => exact .pure []
  | cons x xs ih =>
    let L₁ : Ledger := { L with index := L.index.apply (.set x.key x.value) }
    have hfirst : Yields m L (indexVictim x.node) (x.key, x.value) L₁ :=
      (yields_pair (hxs x List.mem_cons_self)).bind ((yields_updateIndex _).bind (.pure _))
    have hrest := ih (L := L₁) fun y hy => hxs y (List.mem_cons_of_mem _ hy)
    rw [nodes, List.map_cons, List.mapM_cons]
    exact hfirst.bind (hrest.bind (.pure _))

/-- **The victims are handed to the file** and reclaimed. -/
theorem yields_flushVictims (m : Tier.Mode) (L : Ledger) :
    Yields m L (flushVictims fileReplayer (L.contents.victims.reverse.map fun x => (x.key, x.value)))
      () { L with
        contents := { L.contents with victims := [] }
        filed := L.filed ++ L.contents.victims.reverse.map fun x => .set x.key x.value } := by
  refine Yields.get fun s hs => ?_
  have hfirst : s.pool.root.victimFirst = firstOf (nodes L.contents.victims) none :=
    hs.pool.holds.first_eq .victims
  rw [hfirst]
  cases hvictims : L.contents.victims with
  | nil =>
    have hsame : { L.contents with victims := [] } = L.contents := by rw [← hvictims]
    simp only [List.reverse_nil, List.map_nil, List.append_nil, hsame]
    exact .pure ()
  | cons x r =>
    let L₁ : Ledger := { L with filed := L.filed ++ (x :: r).reverse.map fun x => .set x.key x.value }
    have hpersist : Yields m L (((x :: r).reverse.map fun x => (x.key, x.value)).forM
        fun pair : Bytes × Bytes => call (fileReplayer.persist pair.1 pair.2)) () L₁ := by
      have hfile := Yields.forM (L := L)
        (fun pair : Bytes × Bytes => call (fileReplayer.persist pair.1 pair.2))
        (fun x : Resident => (x.key, x.value)) (fun x => .set x.key x.value) (fun index _ => index)
        (x :: r).reverse
        fun L' y _ => yields_call (m := m) (AppendFile.yields_append (.set y.key y.value))
      rwa [List.foldl_fixed] at hfile
    have hreclaim : Tx.Yields (fun _ => False) (L₁.contents.view 0 L₁.contents.counters 0)
        (VictimPipeline.reclaim x.node) (r.length + 1)
        (({ L.contents with victims := [] } : Contents).view 0
          ({ L.contents with victims := [] } : Contents).counters 0) :=
      yields_reclaim (l := []) hvictims
    have hreclaimed : Yields m L₁ (inTransaction (VictimPipeline.reclaim x.node)) (r.length + 1)
        { L₁ with contents := { L.contents with victims := [] } } :=
      yields_inTransaction (VictimPipeline.stepwise_reclaim x.node) hreclaim
    exact hpersist.bind ((yields_call AppendFile.yields_sync).bind (hreclaimed.bind (.pure ())))

/-! ## The log -/

/-- **A logged command is carried out** and handed to the file. -/
theorem yields_replay {cmd : Command} (hcmd : cmd.Fits) :
    Yields m L (replay fileReplayer cmd.encode) () { L with
      index := L.index.apply cmd
      filed := L.filed ++ [cmd] } := by
  intro s hs
  obtain ⟨f', hrun, hf', -, hplace⟩ := AppendFile.yields_append cmd s.replayer hs.file
  refine ⟨{ s with index := s.index.apply cmd, replayer := f' }, ?_,
    { hs.toParts.withFile hf' hplace with
      index := congrArg (fun index : Index => index.apply cmd) hs.index }, hs.budget⟩
  change replay fileReplayer cmd.encode s = _
  simp only [AppendFile.append, EStateM.run] at hrun
  simp only [replay, fileReplayer, EStateM.run, Command.decode_encode hcmd, liftFailure, hrun]

/-- Both log buffers are emptied. -/
theorem yields_clearBoth (E : Failure → Prop) (c : Contents) :
    Tx.Yields E (c.view 0 c.counters 0) LogBuffer.clearBoth ()
      (({ c with log := fun _ => [] } : Contents).view 0
        ({ c with log := fun _ => [] } : Contents).counters 0) := by
  refine Tx.Triple.of_length fun _ hlen => ?_
  have hsum : (c.log .a).length + (c.log .b).length =
      (c.log c.active.flipped).length + (c.log c.active).length := by
    rw [c.length_log c.active, Nat.add_comm]
  let m := chain .entries none c.entries none + chain .victims none c.victims none
  have hheap : (c.view 0 c.counters 0).heap =
      logChain none (c.log c.active) + (logChain none (c.log c.active.flipped) + m) := by
    simp only [Contents.view, Contents.heap, c.logHeap_eq c.active, m]
    abel
  have hleft : ({ c with log := fun _ => [] } : Contents).heap + 0 = m := by
    simp [Contents.heap, Contents.logHeap, logChain, m]
  exact (LogBuffer.yields_clearBoth (threaded_logChain _ _) (threaded_logChain _ _) (hsum ▸ hlen)
    (congrArg UInt64.ofNat hsum) (c.bufferHead_links _ _) (c.bufferHead_links _ _)).congr
      (View.ext rfl rfl hheap) (View.ext rfl rfl hleft)

/-- **The log is carried out**, handed to the file and cleared. -/
theorem yields_log (m : Tier.Mode) (hL : L.contents.Regular) :
    Yields m L (log fileReplayer) L.contents.logged.length {
      contents := { L.contents with log := fun _ => [] }
      index := L.contents.logged.foldl Index.apply L.index
      filed := L.filed ++ L.contents.logged } := by
  let L₁ : Ledger := { L with
    index := L.contents.logged.foldl Index.apply L.index
    filed := L.filed ++ L.contents.logged }
  let older := L.contents.generation L.contents.active.flipped
  let newer := L.contents.generation L.contents.active
  have holder : Yields m L (ofPool fun p => LogBuffer.pending p (LogBuffer.otherHead p))
      (older.map Command.encode) L := yields_ofPool fun p hp =>
    (Tier.pending_otherHead hp).trans (congrArg Except.ok (hL.encoded _))
  have hnewer : Yields m L (ofPool fun p => LogBuffer.pending p (LogBuffer.currentHead p))
      (newer.map Command.encode) L := yields_ofPool fun p hp =>
    (Tier.pending_currentHead hp).trans (congrArg Except.ok (hL.encoded _))
  have hreplay : Yields m L
      ((older.map Command.encode ++ newer.map Command.encode).forM (replay fileReplayer)) () L₁ := by
    have hfile := Yields.forM (L := L) (replay fileReplayer) Command.encode id Index.apply
      L.contents.logged fun L' cmd hcmd => yields_replay (m := m) (L := L') (hL.fits_logged cmd hcmd)
    rwa [List.map_id, Contents.logged, List.map_append] at hfile
  have hclear : Yields m L₁ (inTransaction LogBuffer.clearBoth) () { L₁ with
      contents := { L.contents with log := fun _ => [] } } :=
    yields_inTransaction LogBuffer.stepwise_clearBoth (yields_clearBoth _ L.contents)
  have hlength : L.contents.logged.length =
      (older.map Command.encode).length + (newer.map Command.encode).length := by
    simp [Contents.logged, older, newer]
  rw [hlength]
  exact holder.bind (hnewer.bind (hreplay.bind ((yields_call AppendFile.yields_sync).bind
    (hclear.bind (.pure _)))))

/-! ## The entry store -/

/-- **The entry store is indexed.** -/
theorem yields_entries (m : Tier.Mode) (L : Ledger) :
    Yields m L entries L.contents.entries.length
      { L with index := indexed L.index L.contents.entries } := by
  have hindex : ∀ (xs : List Resident) (L : Ledger), (∀ x ∈ xs, x ∈ L.contents.pairs) →
      Yields m L ((nodes xs).forM indexEntry) () { L with index := indexed L.index xs } := by
    intro xs
    induction xs with
    | nil => exact fun L _ => .pure ()
    | cons x xs ih =>
      intro L hxs
      have hfirst : Yields m L (indexEntry x.node) () { L with
          index := L.index.insert x.key { value := x.value, node := some x.node } } :=
        (yields_pair (hxs x List.mem_cons_self)).bind (yields_updateIndex _)
      exact hfirst.bind (ih _ fun y hy => hxs y (List.mem_cons_of_mem _ hy))
  have hlength : (nodes L.contents.entries).length = L.contents.entries.length := List.length_map _
  refine (yields_strictWalk m L .entries).bind ?_
  refine (yields_reserve_nodes m L .entries le_rfl).bind ?_
  refine (hindex L.contents.entries L fun x hx => List.mem_append_left _ hx).bind ?_
  rw [← hlength]
  exact .pure _

/-! ## The whole startup -/

/-- **A startup leaves the ledger of a restart.** It begins with the index of the file. -/
theorem yields_everything (m : Tier.Mode) {c : Contents} (hc : c.Regular) (filed : List Command) :
    ∃ report, Yields m ⟨c, filed.foldl Index.apply Index.empty, filed⟩ (everything fileReplayer)
      report (restarted c filed) := by
  let L : Ledger := ⟨c, filed.foldl Index.apply Index.empty, filed⟩
  let sets : List Command := c.victims.reverse.map fun x => .set x.key x.value
  have hvictims : Yields m L ((nodes c.victims).reverse.mapM indexVictim)
      (c.victims.reverse.map fun x => (x.key, x.value))
      { L with index := sets.foldl Index.apply L.index } := by
    have hnodes : (nodes c.victims).reverse = nodes c.victims.reverse := List.map_reverse.symm
    rw [hnodes]
    exact yields_indexVictims fun x hx => List.mem_append_right _ (List.mem_reverse.1 hx)
  have hregular : ({ c with victims := [] } : Contents).Regular := by
    refine ⟨?_, fun x hx => hc.pairs x (List.mem_append_left _ ?_), hc.log⟩
    · have hpairs : ({ c with victims := [] } : Contents).pairs = c.entries := List.append_nil _
      rw [hpairs]
      exact nodup_entries hc
    · have hpairs : ({ c with victims := [] } : Contents).pairs = c.entries := List.append_nil _
      rwa [hpairs] at hx
  have hlog := yields_log m
    (L := ⟨{ c with victims := [] }, sets.foldl Index.apply L.index, filed ++ sets⟩) hregular
  have hend : restarted c filed = {
      contents := { c with victims := [], log := fun _ => [] }
      index := indexed (c.logged.foldl Index.apply (sets.foldl Index.apply L.index)) c.entries
      filed := filed ++ sets ++ c.logged } := by
    simp only [restarted, handedOver, List.foldl_append, List.append_assoc, sets, L]
  rw [hend]
  exact ⟨_, Yields.get fun s hs => (yields_makeRoom hs.pool.holds).bind
    ((yields_strictWalk m L .victims).bind ((yields_reserve_nodes m L .victims (by decide)).bind
      (hvictims.bind ((yields_flushVictims m _).bind (hlog.bind ((yields_entries m _).bind
        (.pure _)))))))⟩

end Steps

end PersistentTier.Startup
