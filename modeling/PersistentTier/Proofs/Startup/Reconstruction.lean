import PersistentTier.Proofs.Chain.Suffix
import PersistentTier.Proofs.Startup.Recorder

/-!
# Reconstruction of a pool that is in order

A startup of a pool that is in order reads all of it, hands over the victims and the log, and drains
both. What it hands over is a list of calls that can be told from the pool beforehand, so whether it
succeeds, and with which index, is a matter of these calls alone.

The free list plays no part. Draining only frees, and it frees what the lists have and no more.

## Main definitions

* `overlaid`: an index with pairs laid over it
* `Contents.handOver`: the calls that a startup makes
* `Startup.onReplayer`: calls of the replayer as a step of a startup

## Main results

* `Startup.exists_flushVictims`, `exists_log`, `run_entries`: the three parts of a startup
* `Startup.exists_everything`: the whole startup
-/

namespace PersistentTier

open Replayer

/-- An index with pairs laid over it, a later one over an earlier one. -/
def overlaid (node : Resident → Option Handle) (index : Index) (xs : List Resident) : Index :=
  xs.foldl (fun index y => index.insert y.key { value := y.value, node := node y }) index

namespace Contents

variable (c : Contents)

/-- The calls that hand over the victims, the oldest eviction first. Without victims there are
none. -/
def victimCalls : List Call :=
  match c.victims with
  | [] => []
  | _ :: _ => (c.victims.reverse.map fun y => .persist y.key y.value) ++ [.sync]

/-- The calls that hand over the log, the buffer out of service first and the oldest command first in
each. -/
def logCalls : List Call :=
  ((c.log c.active.flipped).reverse ++ (c.log c.active).reverse).map (fun y => .replay y.command) ++
    [.sync]

/-- **The calls that a startup makes.** -/
def handOver : List Call := c.victimCalls ++ c.logCalls

end Contents

namespace Replayer

variable {ρ : Type} {r : Replayer ρ}

theorem carryOut_append (l m : List Call) :
    r.carryOut (l ++ m) = r.carryOut l >>= fun _ => r.carryOut m := List.forM_append

theorem carryOut_singleton (call : Call) : r.carryOut [call] = r.perform call := bind_pure_unit

/-- Calls that succeed do so up to each of them. -/
theorem exists_carryOut_append {l m : List Call} {s t : Index × ρ}
    (h : (r.carryOut (l ++ m)).run s = .ok () t) :
    ∃ u, (r.carryOut l).run s = .ok () u ∧ (r.carryOut m).run u = .ok () t := by
  rw [carryOut_append, EStateM.run_bind] at h
  cases hl : (r.carryOut l).run s with
  | error e u => simp [hl] at h
  | ok _ u => exact ⟨u, rfl, by simpa [hl] using h⟩

end Replayer

namespace Startup

variable {ρ α β γ : Type} {r : Replayer ρ} {p : Pool} {c : Contents} {index : Index} {x : ρ}
  {s s' : Startup ρ} {t : Index × ρ}

theorem run_get_bind (f : Startup ρ → StartupM ρ α) : (get >>= f).run s = (f s).run s := rfl

/-- What comes after a step that has succeeded. -/
theorem run_bind_of_ok {act : StartupM ρ α} {f : α → StartupM ρ β} {a : α}
    (h : act.run s = .ok a s') : (act >>= f).run s = (f a).run s' := by
  rw [EStateM.run_bind, h]

/-! ## Calls of the replayer -/

/-- Calls of the replayer as a step of a startup. -/
def onReplayer (act : EStateM Failure (Index × ρ) α) : StartupM ρ α := fun s =>
  match act.run (s.index, s.replayer) with
  | .ok a t => .ok a { s with index := t.1, replayer := t.2 }
  | .error e t => .error e { s with index := t.1, replayer := t.2 }

theorem run_onReplayer {act : EStateM Failure (Index × ρ) α} {a : α}
    (h : act.run (s.index, s.replayer) = .ok a t) :
    (onReplayer act).run s = .ok a { s with index := t.1, replayer := t.2 } := by
  change onReplayer act s = _
  rw [onReplayer, h]

theorem onReplayer_bind (act : EStateM Failure (Index × ρ) α)
    (f : α → EStateM Failure (Index × ρ) β) :
    onReplayer (act >>= f) = onReplayer act >>= fun a => onReplayer (f a) := by
  funext s
  have hfirst : (onReplayer act).run s = match act.run (s.index, s.replayer) with
    | .ok a t => .ok a { s with index := t.1, replayer := t.2 }
    | .error e t => .error e { s with index := t.1, replayer := t.2 } := rfl
  change onReplayer (act >>= f) s = (onReplayer act >>= fun a => onReplayer (f a)).run s
  rw [EStateM.run_bind, hfirst, onReplayer, EStateM.run_bind]
  cases act.run (s.index, s.replayer) <;> rfl

theorem replay_eq (command : Bytes) :
    replay r command = onReplayer (r.perform (.replay command)) := by
  funext s
  simp only [replay, onReplayer, perform]
  cases (r.replay command).run (s.index, s.replayer) <;> rfl

theorem call_persist_eq (key value : Bytes) :
    call (r.persist key value) = onReplayer (r.perform (.persist key value)) := by
  funext s
  simp only [call, onReplayer, perform, aside, EStateM.run]
  cases r.persist key value s.replayer <;> rfl

theorem call_sync_eq : call r.sync = onReplayer (r.carryOut [.sync]) := by
  rw [carryOut_singleton]
  funext s
  simp only [call, onReplayer, perform, aside, EStateM.run]
  cases r.sync s.replayer <;> rfl

/-- Calls that are made one after another. -/
theorem forM_eq_carryOut {f : γ → StartupM ρ Unit} {g : γ → Call}
    (hf : ∀ i, f i = onReplayer (r.perform (g i))) (items : List γ) :
    items.forM f = onReplayer (r.carryOut (items.map g)) := by
  induction items with
  | nil => rfl
  | cons i items ih =>
    have hcons : r.carryOut ((i :: items).map g) =
        r.perform (g i) >>= fun _ => r.carryOut (items.map g) := rfl
    rw [hcons, onReplayer_bind, ← hf, ← ih]
    rfl

/-! ## Looking at the pool -/

theorem run_ofPool {look : Pool → Except Corruption α} {a : α} (h : look s.pool = .ok a) :
    (ofPool look).run s = .ok a s := by
  change ofPool look s = _
  rw [ofPool, h]

theorem run_reserve {count size : Nat} (h : count * size < memoryBound) :
    (reserve count size).run s = .ok () s := by
  rw [reserve_of_lt h]
  rfl

/-- A pool that is in order does not have too many pairs. -/
theorem run_makeRoom (hp : s.pool.Valid c) : (makeRoom s.pool.root).run s = .ok () s := by
  have hbound : maxSlots * 72 < 3 * memoryBound := by decide
  have hcount := hp.count_le
  rw [makeRoom_of_lt (by omega)]
  rfl

/-- The nodes of a chain of a pool that is in order fit into memory. -/
theorem run_reserve_nodes (hp : s.pool.Valid c) (kind : ChainKind) {size : Nat} (hsize : size ≤ 72) :
    (reserve (nodes (c.residents kind)).length size).run s = .ok () s := by
  have hbound : maxSlots * 72 < 3 * memoryBound := by decide
  have hlength := hp.recordedLength_le kind
  rw [hp.recordedLength_eq kind] at hlength
  have hle := Nat.mul_le_mul_left (c.residents kind).length hsize
  rw [nodes, List.length_map]
  exact run_reserve (by omega)

theorem run_strictWalk (hp : s.pool.Valid c) (kind : ChainKind) :
    (strictWalk kind).run s = .ok (nodes (c.residents kind)) s := by
  have hreserve := run_reserve_nodes hp kind (show 16 ≤ 72 by decide)
  rw [nodes, List.length_map, ← hp.recordedLength_eq kind] at hreserve
  exact (run_get_bind _).trans ((run_bind_of_ok hreserve).trans (run_ofPool (hp.strictWalk_eq kind)))

theorem run_pair (hp : s.pool.Valid c) (kind : ChainKind) {y : Resident}
    (hy : y ∈ c.residents kind) : (pair y.node).run s = .ok (y.key, y.value) s :=
  run_ofPool (by rw [hp.pair_eq kind hy]; rfl)

/-- **Victims are indexed** one after another. -/
theorem run_indexVictims (hp : s.pool.Valid c) {ys : List Resident} (hys : ∀ y ∈ ys, y ∈ c.victims) :
    ((nodes ys).mapM indexVictim).run s = .ok (ys.map fun y => (y.key, y.value))
      { s with index := overlaid (fun _ => none) s.index ys } := by
  induction ys generalizing s with
  | nil => rfl
  | cons y ys ih =>
    have hfirst : (indexVictim y.node).run s = .ok (y.key, y.value)
        { s with index := s.index.insert y.key { value := y.value } } :=
      run_bind_of_ok (run_pair hp .victims (hys y List.mem_cons_self))
    have hrest := ih (s := { s with index := s.index.insert y.key { value := y.value } }) hp
      fun z hz => hys z (List.mem_cons_of_mem _ hz)
    rw [nodes, List.map_cons, List.mapM_cons]
    exact (run_bind_of_ok hfirst).trans (run_bind_of_ok hrest)

/-- **The entry store is indexed.** -/
theorem run_entries (hp : s.pool.Valid c) : entries.run s = .ok c.entries.length
    { s with index := overlaid (fun y => some y.node) s.index c.entries } := by
  have hindex : ∀ (ys : List Resident) (s : Startup ρ), s.pool.Valid c → (∀ y ∈ ys, y ∈ c.entries) →
      ((nodes ys).forM indexEntry).run s =
        .ok () { s with index := overlaid (fun y => some y.node) s.index ys } := by
    intro ys
    induction ys with
    | nil => exact fun s _ _ => rfl
    | cons y ys ih =>
      intro s hp hys
      have hfirst : (indexEntry y.node).run s = .ok ()
          { s with index := s.index.insert y.key { value := y.value, node := some y.node } } :=
        run_bind_of_ok (run_pair hp .entries (hys y List.mem_cons_self))
      exact (run_bind_of_ok hfirst).trans (ih _ hp fun z hz => hys z (List.mem_cons_of_mem _ hz))
  rw [← List.length_map Resident.node]
  exact (run_bind_of_ok (run_strictWalk hp .entries)).trans
    ((run_bind_of_ok (run_reserve_nodes hp .entries le_rfl)).trans
      (run_bind_of_ok (hindex c.entries s hp fun _ h => h)))

/-! ## Draining the pool -/

theorem run_inTransaction_of_ok {tx : Tx α} {a : α} {q : Pool}
    (h : s.pool.transaction tx = (.ok a, q)) :
    (inTransaction tx).run s = .ok a { s with pool := q } := by
  change inTransaction tx s = _
  rw [inTransaction, h]

/-- An operation that only frees, in a scope of its own. -/
theorem exists_inTransaction (c' : Contents) {tx : Tx α} {a : α} {t : Buffer → Heap}
    (hu : s.pool.Unhindered) (htx : tx.Stepwise) (hfrugal : tx.Frugal)
    (ht : ∀ y, Threaded (c'.log y) (t y))
    (hyields : Tx.Yields (fun _ => False)
      ⟨maxSlots - s.pool.slots.size, s.pool.root, s.pool.heap⟩ tx a
      ⟨maxSlots - s.pool.slots.size, c'.root, c'.threadedHeap t⟩) :
    ∃ q, (inTransaction tx).run s = .ok a { s with pool := q } ∧ q.Valid c' ∧ s.pool.Drained q ∧
      (s.pool.options.durability = .sync → q.image = q.written) := by
  obtain ⟨q, hq, hroot, hheap, hdrained, hwritten⟩ := hu.transaction htx hfrugal hyields
  exact ⟨q, run_inTransaction_of_ok hq, Pool.valid_of_heap_eq hroot ht hheap, hdrained, hwritten⟩

/-- The log is cleared. -/
theorem yields_clearAll {E : Failure → Prop} {room : Nat} {t : Buffer → Heap}
    (ht : ∀ y, Threaded (c.log y) (t y))
    (hlength : (c.log .a).length + (c.log .b).length < 2 ^ 64) :
    Tx.Yields E ⟨room, c.root, c.threadedHeap t⟩ LogBuffer.clearBoth ()
      ⟨room, ({ c with log := fun _ => [] } : Contents).root,
        ({ c with log := fun _ => [] } : Contents).threadedHeap fun _ => 0⟩ := by
  have hsum : (c.log .a).length + (c.log .b).length =
      (c.log c.active.flipped).length + (c.log c.active).length := by
    rw [c.length_log c.active, Nat.add_comm]
  have hheap : c.threadedHeap t = t c.active + (t c.active.flipped +
      (chain .entries none c.entries none + chain .victims none c.victims none)) := by
    rw [c.threadedHeap_eq c.active]
    abel
  have hleft : ({ c with log := fun _ => [] } : Contents).threadedHeap (fun _ => 0) =
      chain .entries none c.entries none + chain .victims none c.victims none := by
    simp [Contents.threadedHeap]
  exact (LogBuffer.yields_clearBoth (ht _) (ht _) (hsum ▸ hlength) (congrArg UInt64.ofNat hsum)
    (c.bufferHead_links _ _) (c.bufferHead_links _ _)).congr (View.ext rfl rfl hheap)
      (View.ext rfl rfl hleft)

/-- **The victims are handed over** and reclaimed. -/
theorem exists_flushVictims (hp : s.pool.Valid c) (hu : s.pool.Unhindered)
    (hcalls : (r.carryOut c.victimCalls).run (s.index, s.replayer) = .ok () t) :
    ∃ q, (flushVictims r (c.victims.reverse.map fun y => (y.key, y.value))).run s =
        .ok () ⟨q, t.1, t.2⟩ ∧
      q.Valid { c with victims := [] } ∧ s.pool.Drained q := by
  have hfirst : s.pool.root.victimFirst = firstOf (nodes c.victims) none := by
    rw [hp.root]
    rfl
  have hflush : (flushVictims r (c.victims.reverse.map fun y => (y.key, y.value))).run s = _ :=
    run_bind_of_ok rfl
  rw [hflush, hfirst]
  -- Without victims there is no call at all, not even a sync.
  cases hvictims : c.victims with
  | nil =>
    rw [Contents.victimCalls, hvictims] at hcalls
    obtain ⟨-, rfl⟩ := EStateM.Result.ok.inj hcalls
    exact ⟨s.pool, rfl, hvictims ▸ hp, hu.drained⟩
  | cons y ys =>
    rw [Contents.victimCalls, hvictims] at hcalls
    obtain ⟨u, hpersist, hsync⟩ := exists_carryOut_append hcalls
    -- The nodes are reclaimed when every pair has been handed over and synced.
    obtain ⟨v, hv, hheap⟩ := hp.exists_heap_eq
    have hreclaim : Tx.Yields (fun _ => False)
        ⟨maxSlots - s.pool.slots.size, c.root, c.threadedHeap v⟩ (VictimPipeline.reclaim y.node)
        _ _ :=
      VictimPipeline.yields_reclaim_threaded (l := []) hvictims hp.length_lt.2.1 (by simp)
    rw [← hp.root, ← hheap] at hreclaim
    obtain ⟨q, hq, hvalid, hdrained, -⟩ := exists_inTransaction (s := ⟨s.pool, t.1, t.2⟩)
      { c with victims := [] } hu (VictimPipeline.stepwise_reclaim y.node)
      (VictimPipeline.frugal_reclaim y.node) hv hreclaim
    refine ⟨q, ?_, hvalid, hdrained⟩
    have hforM := forM_eq_carryOut (r := r) (g := fun pair : Bytes × Bytes => .persist pair.1 pair.2)
      (fun pair => call_persist_eq pair.1 pair.2)
      ((y :: ys).reverse.map fun y => (y.key, y.value))
    rw [List.map_map] at hforM
    have hpersisted : (((y :: ys).reverse.map fun y => (y.key, y.value)).forM
        fun pair : Bytes × Bytes => call (r.persist pair.1 pair.2)).run s =
          .ok () ⟨s.pool, u.1, u.2⟩ := by
      rw [hforM]
      exact run_onReplayer hpersist
    have hsynced : (call r.sync).run ⟨s.pool, u.1, u.2⟩ = .ok () ⟨s.pool, t.1, t.2⟩ := by
      rw [call_sync_eq]
      exact run_onReplayer hsync
    exact (run_bind_of_ok hpersisted).trans ((run_bind_of_ok hsynced).trans (run_bind_of_ok hq))

/-- **Pending commands are handed over**, and then the log is cleared. -/
theorem run_log_of_pending {older newer : List Bytes}
    (holder : LogBuffer.pending s.pool (LogBuffer.otherHead s.pool) = .ok older)
    (hnewer : LogBuffer.pending s.pool (LogBuffer.currentHead s.pool) = .ok newer)
    (hcalls : (r.carryOut ((older ++ newer).map .replay ++ [.sync])).run (s.index, s.replayer) =
      .ok () t) :
    (log r).run s = (do
      inTransaction LogBuffer.clearBoth
      return older.length + newer.length : StartupM ρ Nat).run ⟨s.pool, t.1, t.2⟩ := by
  obtain ⟨u, hreplay, hsync⟩ := exists_carryOut_append hcalls
  have hreplayed : ((older ++ newer).forM (replay r)).run s = .ok () ⟨s.pool, u.1, u.2⟩ := by
    rw [forM_eq_carryOut replay_eq]
    exact run_onReplayer hreplay
  have hsynced : (call r.sync).run ⟨s.pool, u.1, u.2⟩ = .ok () ⟨s.pool, t.1, t.2⟩ := by
    rw [call_sync_eq]
    exact run_onReplayer hsync
  exact (run_bind_of_ok (run_ofPool holder)).trans ((run_bind_of_ok (run_ofPool hnewer)).trans
    ((run_bind_of_ok hreplayed).trans (run_bind_of_ok hsynced)))

/-- **The log is handed over** and cleared. -/
theorem exists_log (hp : s.pool.Valid c) (hu : s.pool.Unhindered)
    (hcalls : (r.carryOut c.logCalls).run (s.index, s.replayer) = .ok () t) :
    ∃ q, (log r).run s = .ok s.pool.root.logCount.toNat ⟨q, t.1, t.2⟩ ∧
      q.Valid { c with log := fun _ => [] } ∧ s.pool.Drained q ∧
      (s.pool.options.durability = .sync → q.image = q.written) := by
  obtain ⟨v, hv, hheap⟩ := hp.exists_heap_eq
  have hclear : Tx.Yields (fun _ => False)
      ⟨maxSlots - s.pool.slots.size, c.root, c.threadedHeap v⟩ LogBuffer.clearBoth _ _ :=
    yields_clearAll hv hp.length_lt.2.2
  rw [← hp.root, ← hheap] at hclear
  obtain ⟨q, hq, hvalid, hrest⟩ := exists_inTransaction (s := ⟨s.pool, t.1, t.2⟩)
    { c with log := fun _ => [] } hu LogBuffer.stepwise_clearBoth LogBuffer.frugal_clearBoth
    (fun _ => .nil) hclear
  -- Before it is cleared, the log is read: the generation out of service comes first.
  refine ⟨q, ?_, hvalid, hrest⟩
  have hactive : s.pool.root.activeBuffer = c.active := by
    rw [hp.root]
    rfl
  let older := (c.log c.active.flipped).reverse.map Logged.command
  let newer := (c.log c.active).reverse.map Logged.command
  have holder : LogBuffer.pending s.pool (LogBuffer.otherHead s.pool) = .ok older := by
    rw [LogBuffer.otherHead, LogBuffer.head, LogBuffer.inRole, hp.pending_eq, hactive]
  have hnewer : LogBuffer.pending s.pool (LogBuffer.currentHead s.pool) = .ok newer := by
    rw [LogBuffer.currentHead, LogBuffer.head, LogBuffer.inRole, hp.pending_eq, hactive]
  have hhanded : c.logCalls = (older ++ newer).map .replay ++ [.sync] := by
    rw [← List.map_append, List.map_map]
    rfl
  have hlength : s.pool.root.logCount.toNat = older.length + newer.length := by
    rw [hp.logCount_eq, c.length_log c.active]
    simp only [older, newer, List.length_map, List.length_reverse]
    exact Nat.add_comm _ _
  rw [hlength]
  exact (run_log_of_pending holder hnewer (hhanded ▸ hcalls)).trans (run_bind_of_ok hq)

/-! ## The whole startup -/

/-- The contents that a startup leaves. -/
def drained (c : Contents) : Contents := { c with victims := [], log := fun _ => [] }

/-- **A startup of a pool that is in order.** Once the calls succeed, it does. -/
theorem exists_everything (hp : s.pool.Valid c) (hu : s.pool.Unhindered)
    (hcalls : (r.carryOut c.handOver).run
      (overlaid (fun _ => none) s.index c.victims.reverse, s.replayer) = .ok () t) :
    ∃ q, (everything r).run s = .ok
        ⟨s.pool.root.entryCount.toNat, s.pool.root.victimCount.toNat, s.pool.root.logCount.toNat⟩
        ⟨q, overlaid (fun y => some y.node) t.1 c.entries, t.2⟩ ∧
      q.Valid (drained c) ∧ s.pool.Drained q ∧
      (s.pool.options.durability = .sync → q.image = q.written) := by
  obtain ⟨u, hvictimCalls, hlogCalls⟩ := exists_carryOut_append hcalls
  have hmem : ∀ y ∈ c.victims.reverse, y ∈ c.victims := fun y hy => List.mem_reverse.1 hy
  have hindexed := run_indexVictims hp hmem
  rw [nodes, List.map_reverse] at hindexed
  -- The steps in their order, each from what the one before it has left.
  obtain ⟨q₁, hflush, hvalid₁, hdrained₁⟩ := exists_flushVictims
    (s := { s with index := overlaid (fun _ => none) s.index c.victims.reverse }) hp hu hvictimCalls
  have hlogCalls₁ : (r.carryOut ({ c with victims := [] } : Contents).logCalls).run u = .ok () t :=
    hlogCalls
  obtain ⟨q, hlog, hvalid, hdrained, hwritten⟩ :=
    exists_log (s := ⟨q₁, u.1, u.2⟩) hvalid₁ hdrained₁.unhindered hlogCalls₁
  have hentries := run_entries (s := ⟨q, t.1, t.2⟩) hvalid
  refine ⟨q, ?_, hvalid, hdrained₁.trans hdrained, fun hd => hwritten (hdrained₁.options ▸ hd)⟩
  have hlogCount : q₁.root.logCount = s.pool.root.logCount := by
    rw [hvalid₁.root, hp.root]
    rfl
  have hvictimCount : s.pool.root.victimCount.toNat =
      (c.victims.reverse.map fun y => (y.key, y.value)).length := by
    rw [List.length_map, List.length_reverse]
    exact hp.recordedLength_eq .victims
  have hentryCount : s.pool.root.entryCount.toNat = c.entries.length := hp.recordedLength_eq .entries
  rw [hvictimCount, hentryCount, ← hlogCount]
  exact (run_get_bind _).trans ((run_bind_of_ok (run_makeRoom hp)).trans
    ((run_bind_of_ok (run_strictWalk hp .victims)).trans
      ((run_bind_of_ok (run_reserve_nodes hp .victims (by decide))).trans
        ((run_bind_of_ok hindexed).trans ((run_bind_of_ok hflush).trans
          ((run_bind_of_ok hlog).trans (run_bind_of_ok hentries)))))))

/-- **Reconstruction is complete and drains everything.** All that is pending is handed over in order,
each call is made once, and what is left in the pool is the entry store, unchanged. -/
theorem exists_reconstructed (r : Replayer ρ) (index : Index) (x : ρ) (hp : p.Valid c)
    (hu : p.Unhindered)
    (hcalls : (r.carryOut c.handOver).run
      (overlaid (fun _ => none) index c.victims.reverse, x) = .ok () t) :
    ∃ q,
      let report : StartupReport :=
        ⟨p.root.entryCount.toNat, p.root.victimCount.toNat, p.root.logCount.toNat⟩
      let found := overlaid (fun y => some y.node) t.1 c.entries
      (everything r).run ⟨p, index, x⟩ = .ok report ⟨q, found, t.2⟩ ∧
        (everything r.recorded).run ⟨p, index, x, []⟩ =
          .ok report ⟨q, found, t.2, c.handOver.map fun call => ⟨call, true⟩⟩ ∧
        q.Valid (drained c) ∧
        (∀ y ∈ c.entries, q.entry y.node = p.entry y.node ∧ q.pair y.node = p.pair y.node) ∧
        q.root = { p.root with
          victimFirst := none
          logBufferA := none
          logBufferB := none
          victimCount := 0
          logCount := 0 } ∧
        q.stats.liveObjects = 3 * p.root.entryCount.toNat := by
  let s : Startup (ρ × List Event) := ⟨p, index, x, []⟩
  obtain ⟨q, hrecorded, hvalid, -⟩ := exists_everything (s := s) hp hu (carryOut_recorded [] hcalls)
  have hrun := mirrors_everything r s
  rw [hrecorded] at hrun
  have hentries : p.root.entryCount.toNat = c.entries.length := hp.recordedLength_eq .entries
  refine ⟨q, hrun, hrecorded, hvalid, fun y hy => ⟨?_, ?_⟩, ?_, ?_⟩
  · obtain ⟨l, r, hl⟩ := List.append_of_mem hy
    exact (hvalid.node .entries l y r hl).trans (hp.node .entries l y r hl).symm
  · exact (hvalid.pair_eq .entries hy).trans (hp.pair_eq .entries hy).symm
  · rw [hvalid.root, hp.root]
    rfl
  · obtain ⟨v, hv, hheap⟩ := hvalid.exists_heap_eq
    have hcard : q.heap.card = 3 * c.entries.length := by
      rw [hheap, Contents.card_threadedHeap _ hv]
      rfl
    rw [hentries, ← hcard]
    exact q.card_heap.symm

/-! ### A pool with something of everything -/

/-- One pair in each chain and one command in each log buffer. The older one has a link back that
leads nowhere. -/
def mixed : Pool where
  id := 9
  root := {
    entryFirst := some ⟨9, 1⟩
    entryLast := some ⟨9, 1⟩
    victimFirst := some ⟨9, 4⟩
    logBufferA := some ⟨9, 7⟩
    logBufferB := some ⟨9, 9⟩
    entryCount := 1
    victimCount := 1
    logCount := 2 }
  slots := #[
    some (.entry { key := ⟨9, 2⟩, value := ⟨9, 3⟩ }), some (.payload [1]), some (.payload [10]),
    some (.entry { key := ⟨9, 5⟩, value := ⟨9, 6⟩, chain := .victims }), some (.payload [2]),
      some (.payload [20]),
    some (.log { command := ⟨9, 8⟩ }), some (.payload [3]),
    some (.log { command := ⟨9, 10⟩, prev := some ⟨9, 99⟩ }), some (.payload [4])]

/-- The lists of the pool. -/
def mixedContents : Contents where
  entries := [⟨⟨9, 1⟩, ⟨9, 2⟩, ⟨9, 3⟩, [1], [10]⟩]
  victims := [⟨⟨9, 4⟩, ⟨9, 5⟩, ⟨9, 6⟩, [2], [20]⟩]
  log
    | .a => [⟨⟨9, 7⟩, ⟨9, 8⟩, [3]⟩]
    | .b => [⟨⟨9, 9⟩, ⟨9, 10⟩, [4]⟩]

/-- A replayer that enters every command into the index and counts its calls. -/
def counting : Replayer Nat where
  replay command := fun (index, n) => .ok () (index.insert command { value := [] }, n + 1)
  persist _ _ := fun n => .ok () (n + 1)
  sync := fun n => .ok () (n + 1)

theorem valid_mixed : mixed.Valid mixedContents := by
  let t : Buffer → Heap
    | .a => Logged.heap ⟨⟨9, 7⟩, ⟨9, 8⟩, [3]⟩ none none + 0
    | .b => Logged.heap ⟨⟨9, 9⟩, ⟨9, 10⟩, [4]⟩ (some ⟨9, 99⟩) none + 0
  refine Pool.valid_of_heap_eq (t := t) rfl (fun y => ?_) rfl
  cases y with
  | a => exact .cons none .nil
  | b => exact .cons (some ⟨9, 99⟩) .nil

theorem unhindered_mixed : mixed.Unhindered := ⟨rfl, by simp [mixed], by simp [mixed]⟩

/-- The victim comes first, then the buffer out of service, and then the current one. -/
theorem exists_reconstructed_mixed :
    mixed.Valid mixedContents ∧ mixed.Unhindered ∧ ∃ q,
      (everything counting.recorded).run ⟨mixed, Index.empty, 0, []⟩ = .ok ⟨1, 1, 2⟩
        ⟨q, ((((Index.empty.insert [2] { value := [20] }).insert [4] { value := [] }).insert [3]
          { value := [] }).insert [1] { value := [10], node := some ⟨9, 1⟩ }), 5,
          [⟨.persist [2] [20], true⟩, ⟨.sync, true⟩, ⟨.replay [4], true⟩, ⟨.replay [3], true⟩,
            ⟨.sync, true⟩]⟩ ∧
        q.stats.liveObjects = 3 := by
  obtain ⟨q, -, hrun, -, -, -, hlive⟩ := exists_reconstructed counting Index.empty 0
    (t := (((Index.empty.insert [2] { value := [20] }).insert [4] { value := [] }).insert [3]
      { value := [] }, 5)) valid_mixed unhindered_mixed rfl
  exact ⟨valid_mixed, unhindered_mixed, q, hrun, hlive⟩

end Startup

end PersistentTier
