import PersistentTier.Proofs.Scope.Draining
import PersistentTier.Proofs.Startup.Reconstruction

/-!
# What the log counter tells at startup

The root counts the commands of both log buffers together, but each buffer is read with the whole
counter as its bound. So a startup finds out before it does anything that a buffer alone is longer
than the counter says, and also that it does not end or cannot be read. That the two together are
longer, or that they share an object, it finds out only when it clears them, after the commands have
been handed over. A counter that is too large it does not find out at all: clearing lowers the
counter by what there was, and leaves the rest.

## Main definitions

* `Pool.Logs`: the commands that are read from both buffers
* `Pool.Clearable`: commands that the counter covers and that share nothing
* `Startup.LogEnds`: the three ends of a startup's work on the log

## Main results

* `LogBuffer.triple_clearBoth`: clearing succeeds only on logs that are clearable
* `Startup.logEnds_log`: how the work on the log ends, for every pool
* `Startup.log_overcounted`: a counter that is too large goes unnoticed
-/

namespace PersistentTier

open Tx Replayer Pool

/-! ## The commands of both buffers -/

/-- **The commands of both buffers**, newest first in each, if every one of them can be read. -/
structure Pool.Logs (p : Pool) (older newer : List Logged) : Prop where
  older : p.Recites (LogBuffer.otherHead p) older
  newer : p.Recites (LogBuffer.currentHead p) newer

/-- **Commands that can be cleared**: the counter covers them all, and no object belongs to two of
them. -/
structure Pool.Clearable (p : Pool) (older newer : List Logged) : Prop where
  counted : older.length + newer.length ≤ p.root.logCount.toNat
  apart : ((older ++ newer).flatMap Logged.handles).Nodup

namespace Pool.Recites

variable {p : Pool} {cursor : Option Handle} {xs : List Logged}

/-- The objects of the command before those that are read. -/
theorem heap_eq {n : LogNode} (h : p.Recites n.next xs) (node : Handle) (command : Bytes) :
    Logged.heap ⟨node, n.command, command⟩ n.prev (firstOf (logNodes xs) none) =
      cell node (.log n) + cell n.command (.payload command) := by
  rw [← h.cursor_eq]
  rfl

/-- What is read one after another makes up a log buffer of the heap, in which payloads may be
shared. -/
theorem exists_threaded (h : p.Recites cursor xs) : ∃ m, Threaded xs m ∧ m ⊆ p.heap := by
  induction h with
  | nil => exact ⟨0, .nil, Multiset.zero_subset _⟩
  | @cons h n command xs node payload rest ih =>
    obtain ⟨m, hm, hsub⟩ := ih
    refine ⟨_, .cons n.prev hm, fun z hz => ?_⟩
    simp only [rest.heap_eq, Multiset.mem_add, mem_cell] at hz
    rcases hz with (rfl | rfl) | hz
    · exact logNode_eq_ok_iff.1 node
    · exact bytes_eq_ok_iff.1 payload
    · exact hsub hz

end Pool.Recites

/-! ## Clearing -/

section Clearing

variable {E : Failure → Prop} {p : Pool} {room : Nat} {R : Root} {m : Heap} {h : Handle} {a : Object}
  {xs ys : List Logged} {cursor : Option Handle}

/-- What is freed was there. It is the object of the pool if nothing but objects of the pool is
left. -/
theorem triple_free_of_le (hE : ∀ cause, E (.cause cause)) (hm : m ≤ p.heap)
    (ha : p.object? h = some a) :
    Triple E (Scope.Shows E ⟨room, R, m⟩) (free h) fun _ s =>
      ∃ m', m = cell h a + m' ∧ s.Shows E ⟨room, R, m'⟩ := by
  by_cases hmem : (h, a) ∈ m
  · obtain ⟨m', rfl⟩ := Multiset.exists_cons_of_mem hmem
    rw [← Multiset.singleton_add]
    exact (yields_free a).mono fun _ _ hs => ⟨m', rfl, hs.2⟩
  · -- Nothing is left under the handle, so there is nothing to be freed.
    intro s hs
    rw [run_free]
    obtain ⟨e, s', hc, he⟩ | ⟨s', hc, hs'⟩ := hs.exists_charge
    · rw [hc]
      exact he
    · rw [hc]
      cases ho : s'.pool.object? h with
      | none => simpa [ho] using hE _
      | some b =>
        have hb : (h, b) ∈ m := by
          rw [← show s'.pool.heap = m from hs'.heap]
          exact mem_heap.2 ho
        have hsame := ha.symm.trans (mem_heap.1 (Multiset.mem_of_le hm hb))
        exact absurd (Option.some.inj hsame ▸ hb) hmem

namespace LogBuffer

/-- A command is freed with its node. -/
theorem triple_freeNode (hE : ∀ cause, E (.cause cause)) (hm : m ≤ p.heap) {n : LogNode}
    {command : Bytes} (hn : p.logNode h = .ok n) (hcommand : p.bytes n.command = .ok command) :
    Triple E (Scope.Shows E ⟨room, R, m⟩) (freeNode h) fun next s =>
      next = n.next ∧ ∃ m', m = cell h (.log n) + cell n.command (.payload command) + m' ∧
        s.Shows E ⟨room, R, m'⟩ := by
  refine Triple.ofRead (fun n' s₀ hs₀ hn' => ?_) fun reason _ _ _ => hE _
  have hmem := logNode_eq_ok_iff.1 hn'
  rw [hs₀.heap] at hmem
  obtain rfl := Except.ok.inj (hn.symm.trans (logNode_eq_ok_iff.2 (Multiset.mem_of_le hm hmem)))
  have hobject := mem_heap.1 (logNode_eq_ok_iff.1 hn)
  have hpayload := mem_heap.1 (bytes_eq_ok_iff.1 hcommand)
  refine (triple_free_of_le hE hm hpayload).bind fun _ s hs => ?_
  obtain ⟨m', rfl, hs⟩ := hs
  have hm' := (Multiset.le_add_left _ _).trans hm
  refine (triple_free_of_le hE hm' hobject).bind (fun _ s' hs' => ?_) s hs
  obtain ⟨m'', hheap, hs'⟩ := hs'
  exact ⟨rfl, m'', by rw [hheap]; abel, hs'⟩

/-- **The commands from one on are freed**, each of them once, if this succeeds. -/
theorem triple_freeFrom (hE : ∀ cause, E (.cause cause)) (hxs : p.Recites cursor xs) (hm : m ≤ p.heap)
    {recorded count : UInt64} {budget : Nat} :
    Triple E (Scope.Shows E ⟨room, R, m⟩) (freeFrom recorded budget cursor count) fun n s =>
      n = count + UInt64.ofNat xs.length ∧ xs.length ≤ budget ∧
        ∃ t m', Threaded xs t ∧ m = t + m' ∧ s.Shows E ⟨room, R, m'⟩ := by
  -- Induction on the commands, as they are read from the pool before anything is freed.
  induction hxs generalizing m budget count with
  | nil =>
    rw [freeFrom_none]
    exact .pure fun s hs => ⟨by simp, Nat.zero_le _, 0, m, .nil, (zero_add m).symm, hs⟩
  | @cons h n command xs node payload rest ih =>
    cases budget with
    | zero => exact .fail (hE _)
    | succ budget =>
      refine (triple_freeNode hE hm node payload).bind fun next s hs => ?_
      obtain ⟨rfl, m', rfl, hs⟩ := hs
      refine (ih ((Multiset.le_add_left _ _).trans hm)).mono (fun c s' hs' => ?_) s hs
      obtain ⟨rfl, hlength, t, m'', ht, hm'', hs'⟩ := hs'
      refine ⟨?_, Nat.succ_le_succ hlength, _, m'', .cons n.prev ht, ?_, hs'⟩
      · rw [List.length_cons, Nat.add_comm xs.length, UInt64.ofNat_add, ← UInt64.add_assoc]
        rfl
      · rw [hm'', rest.heap_eq]
        abel

/-- **A buffer is cleared** that the counter covers. -/
theorem triple_clear (hE : ∀ cause, E (.cause cause)) {head : Option Handle} (hxs : p.Recites head xs)
    (hm : m ≤ p.heap) :
    Triple E (Scope.Shows E ⟨room, R, m⟩) (clear head) fun _ s =>
      ∃ k t m', R.logCount.toNat = k + xs.length ∧ Threaded xs t ∧ m = t + m' ∧
        s.Shows E ⟨room, { R.setBufferHead (inRole R (if head = R.bufferHead R.activeBuffer then
          .current else .other)) none with logCount := UInt64.ofNat k }, m'⟩ := by
  refine Triple.get fun s₀ hs₀ => Triple.require (fun _ => hE _) fun _ => ?_
  have hroot : s₀.pool.root = R := hs₀.root
  have hroleOf : roleOf s₀.pool head =
      if head = R.bufferHead R.activeBuffer then .current else .other := by
    rw [roleOf, currentHead, LogBuffer.head, hroot]
    rfl
  rw [hroot, hroleOf]
  refine (triple_freeFrom hE hxs hm).bind fun n s hs => ?_
  obtain ⟨rfl, hlength, t, m', ht, rfl, hs⟩ := hs
  -- The budget was the counter, so the counter can be lowered by what has been freed.
  obtain ⟨k, hk⟩ : ∃ k, R.logCount.toNat = k + xs.length := ⟨_, (Nat.sub_add_cancel hlength).symm⟩
  have hlt : k + xs.length < 2 ^ 64 := hk ▸ R.logCount.toNat_lt
  let role : BufferRole := if head = R.bufferHead R.activeBuffer then .current else .other
  have hcount : (R.setBufferHead (inRole R role) none).counter .logCount =
      UInt64.ofNat (k + xs.length) := by
    rw [← hk, UInt64.ofNat_toNat]
    cases inRole R role <;> rfl
  have hrest : Yields E ⟨room, R, m'⟩ (do
      setHead role none
      decrement .logCount (UInt64.ofNat xs.length)
      return UInt64.ofNat xs.length) (UInt64.ofNat xs.length) _ :=
    Yields.bind (yields_editRoot _)
      ((yields_decrement_of_eq .logCount hlt hcount).bind (Yields.pure _ _))
  rw [UInt64.zero_add]
  exact hrest.mono (fun _ s hs => ⟨k, t, m', hk, ht, rfl, hs.2⟩) s hs

/-- **Clearing both buffers succeeds only on commands that can be cleared.** What is left is
everything else, and the counter is lowered by what there was. -/
theorem triple_clearBoth (hE : ∀ cause, E (.cause cause)) {older newer : List Logged}
    (hlogs : p.Logs older newer) :
    Triple E (Scope.Shows E ⟨room, p.root, p.heap⟩) clearBoth fun _ s =>
      ∃ k a b m, p.root.logCount.toNat = k + older.length + newer.length ∧ Threaded newer a ∧
        Threaded older b ∧ p.heap = a + (b + m) ∧
        s.Shows E ⟨room, { p.root with
          logBufferA := none, logBufferB := none, logCount := UInt64.ofNat k }, m⟩ := by
  let R := p.root
  have hnewer : p.Recites (R.bufferHead R.activeBuffer) newer := hlogs.newer
  have holder : p.Recites (R.bufferHead R.activeBuffer.flipped) older := hlogs.older
  refine Triple.get fun s hs => ?_
  have hhead : currentHead s.pool = R.bufferHead R.activeBuffer := by
    rw [currentHead, LogBuffer.head, show s.pool.root = R from hs.root]
    rfl
  rw [hhead]
  refine (triple_clear hE hnewer (le_refl _)).bind fun _ s₁ hs₁ => ?_
  obtain ⟨k, a, m, hk, ha, hheap, hs₁⟩ := hs₁
  rw [if_pos rfl] at hs₁
  let R₁ : Root := { R.setBufferHead R.activeBuffer none with logCount := UInt64.ofNat k }
  have hactive : R₁.activeBuffer = R.activeBuffer := R.activeBuffer_setBufferHead _ _
  have hempty : R₁.bufferHead R₁.activeBuffer = none :=
    (congrArg R₁.bufferHead hactive).trans (R.bufferHead_setBufferHead _ _)
  have hleft : R₁.bufferHead R.activeBuffer.flipped = R.bufferHead R.activeBuffer.flipped :=
    R.bufferHead_flipped_setBufferHead _ _
  refine (Triple.get fun s hs => ?_ : Triple E (Scope.Shows E ⟨room, R₁, m⟩) _ _) s₁ hs₁
  have hhead : otherHead s.pool = R.bufferHead R.activeBuffer.flipped := by
    rw [otherHead, LogBuffer.head, show s.pool.root = R₁ from hs.root, ← hleft, ← hactive]
    rfl
  rw [hhead]
  have hm : m ≤ p.heap := hheap ▸ Multiset.le_add_left _ _
  refine (triple_clear hE holder hm).bind fun _ => .pure fun s₂ hs₂ => ?_
  obtain ⟨k', b, m', hk', hb, hm', hs₂⟩ := hs₂
  have hlt : k < 2 ^ 64 := by
    have := p.root.logCount.toNat_lt
    omega
  have hcount : k = k' + older.length := (UInt64.toNat_ofNat_of_lt' hlt).symm.trans hk'
  have hroot : { R₁.setBufferHead (inRole R₁ (if R.bufferHead R.activeBuffer.flipped =
      R₁.bufferHead R₁.activeBuffer then .current else .other)) none with logCount := UInt64.ofNat k' } =
        { R with logBufferA := none, logBufferB := none, logCount := UInt64.ofNat k' } := by
    rw [hempty]
    -- Without commands in the other buffer it is the current one that is cleared again.
    split
    · rename_i hnone
      rw [inRole, hactive]
      exact R.clear_twice _ _ hnone
    · rw [inRole, hactive]
      exact R.clear_flipped _ _ _
  rw [hroot] at hs₂
  exact ⟨k', a, b, m', by omega, ha, hb, by rw [hheap, hm'], hs₂⟩

end LogBuffer

end Clearing

/-! ## The transaction that clears -/

/-- The handles of two log buffers. -/
theorem Threaded.map_add {older newer : List Logged} {a b : Heap} (ha : Threaded newer a)
    (hb : Threaded older b) :
    (a + b).map Prod.fst = ((older ++ newer).flatMap Logged.handles : List Handle) := by
  rw [Multiset.map_add, ha.map_eq, hb.map_eq, add_comm, Multiset.coe_add, List.flatMap_append]

namespace Pool

variable {p q : Pool} {older newer : List Logged}

/-- The heap of commands that can be cleared is a part of that of the pool. -/
theorem Logs.exists_heap_eq (hp : p.Logs older newer) (hc : p.Clearable older newer) :
    ∃ a b m, Threaded newer a ∧ Threaded older b ∧ p.heap = a + (b + m) := by
  obtain ⟨a, ha, hasub⟩ := hp.newer.exists_threaded
  obtain ⟨b, hb, hbsub⟩ := hp.older.exists_threaded
  have hnodup : (a + b).Nodup :=
    Multiset.Nodup.of_map Prod.fst (ha.map_add hb ▸ Multiset.coe_nodup.2 hc.apart)
  have hsub : a + b ⊆ p.heap := fun z hz => (Multiset.mem_add.1 hz).elim (@hasub z) (@hbsub z)
  obtain ⟨m, hm⟩ := Multiset.le_iff_exists_add.1 ((Multiset.le_iff_subset hnodup).2 hsub)
  exact ⟨a, b, m, ha, hb, by rw [hm, add_assoc]⟩

/-- **What a pool is after its log has been cleared**: both buffers are empty, the counter is
lowered by the number of commands, and their objects are gone. Everything else is there. -/
structure Cleared (p : Pool) (older newer : List Logged) (q : Pool) : Prop where
  root : q.root = { p.root with
    logBufferA := none
    logBufferB := none
    logCount := UInt64.ofNat (p.root.logCount.toNat - (older.length + newer.length)) }
  objects : ∀ h, q.object? h =
    if h ∈ (older ++ newer).flatMap Logged.handles then none else p.object? h

/-- Commands that can be cleared are cleared, if nothing is in the way of writes. -/
theorem Logs.exists_transaction_clearBoth (hp : p.Logs older newer) (hc : p.Clearable older newer)
    (hu : p.Unhindered) : ∃ q, p.transaction LogBuffer.clearBoth = (.ok (), q) := by
  obtain ⟨a, b, m, ha, hb, hheap⟩ := hp.exists_heap_eq hc
  obtain ⟨k, hk⟩ : ∃ k, p.root.logCount.toNat = k + older.length + newer.length :=
    ⟨_, by rw [Nat.add_assoc, Nat.sub_add_cancel hc.counted]⟩
  have hclear : Tx.Yields (fun _ => False) ⟨maxSlots - p.slots.size, p.root, a + (b + m)⟩
      LogBuffer.clearBoth () _ :=
    LogBuffer.yields_clearBoth_surplus ha hb (hk ▸ p.root.logCount.toNat_lt)
      (by rw [← hk, UInt64.ofNat_toNat]) hp.newer.cursor_eq hp.older.cursor_eq
  rw [← hheap] at hclear
  obtain ⟨q, hq, -⟩ := hu.transaction LogBuffer.stepwise_clearBoth LogBuffer.frugal_clearBoth hclear
  exact ⟨q, hq⟩

/-- **Clearing the log in a transaction of its own.** If it fails, nothing has changed, and there is
a reason: the commands cannot be cleared, or something is in the way of writes. -/
theorem Logs.transaction_clearBoth (hp : p.Logs older newer) :
    match p.transaction LogBuffer.clearBoth with
    | (.ok (), q) => p.Clearable older newer ∧ p.Cleared older newer q
    | (.error e, q) => (∃ abort, e = .aborted abort) ∧
        (q.root = p.root ∧ ∀ h, q.object? h = p.object? h) ∧
          ¬ (p.Unhindered ∧ p.Clearable older newer) := by
  obtain ⟨p₀, hp₀, -, hvacant⟩ := p.exists_lengthen
  -- Clearing allocates nothing, so a free list that cannot be trusted does not matter.
  have hends := frugalEnds_transaction LogBuffer.frugal_clearBoth p₀ p.free
  have hpost := LogBuffer.triple_clearBoth (E := fun e => ∀ crash, e ≠ .crash crash) (by simp) hp _
    (shows_of_lengthen hp₀ hvacant (.inl (by simp)))
  rw [← hp₀] at hends
  cases hout : p.transaction LogBuffer.clearBoth with
  | mk outcome q =>
    rw [hout] at hends
    cases outcome with
    | error e =>
      refine ⟨?_, kept_of_transaction_error LogBuffer.stepwise_clearBoth LogBuffer.frugal_clearBoth hout,
        fun ⟨hu, hc⟩ => ?_⟩
      · cases hends with
        | @failed e' s run =>
          rw [run] at hpost
          cases e' with
          | cause cause => exact ⟨_, rfl⟩
          | aborted abort => exact ⟨_, rfl⟩
          | crash crash => exact absurd rfl (hpost crash)
        | undurable => exact ⟨_, rfl⟩
      · obtain ⟨q', hq'⟩ := hp.exists_transaction_clearBoth hc hu
        rw [hout] at hq'
        cases hq'
    | ok u =>
      cases hends with
      | @committed _ s _ run durable =>
        rw [run] at hpost
        obtain ⟨k, a, b, m, hk, ha, hb, hheap, hs⟩ := hpost
        obtain ⟨image, rfl⟩ := makeDurable_eq durable
        -- What has been freed was in the heap, so no handle occurs in it twice.
        have hleft : p.heap = a + b + s.pool.heap := by
          rw [hheap, add_assoc, show s.pool.heap = m from hs.heap]
        have hsurplus : p.root.logCount.toNat - (older.length + newer.length) = k := by omega
        refine ⟨⟨by omega, ?_⟩, ?_, fun h => object?_of_heap_add hleft (ha.map_add hb) h⟩
        · have hnodup := p.nodup_heap
          rw [hleft, Multiset.map_add, ha.map_add hb] at hnodup
          exact Multiset.coe_nodup.1 (Multiset.nodup_add.1 hnodup).1
        · rw [hsurplus]
          exact hs.root

end Pool

/-! ## The work on the log -/

namespace Startup

variable {ρ : Type} {r : Replayer ρ}

/-- The calls that hand over the commands of both buffers, the oldest first in each. -/
def logCalls (older newer : List Logged) : List Call :=
  (older.reverse ++ newer.reverse).map (fun x => .replay x.command) ++ [.sync]

/-- **How a startup's work on the log ends** whose calls of the replayer succeed. -/
inductive LogEnds (r : Replayer ρ) (s : Startup ρ) : EStateM.Result Failure (Startup ρ) Nat → Prop
  /-- One of the buffers alone does not end within as many commands as the counter says, or cannot
  be read. Nothing has been handed over, and nothing has changed. -/
  | refused {corruption : Corruption}
      (unread : ∀ older newer, s.pool.Logs older newer →
        s.pool.root.logCount.toNat < older.length ∨ s.pool.root.logCount.toNat < newer.length) :
      LogEnds r s (.error (.cause (.corrupt corruption)) s)
  /-- Everything has been handed over and cleared. What the counter was too large by stays on it. -/
  | cleared {older newer : List Logged} {q : Pool} {t : Index × ρ} (logs : s.pool.Logs older newer)
      (handed : (r.carryOut (logCalls older newer)).run (s.index, s.replayer) = .ok () t)
      (clearable : s.pool.Clearable older newer) (cleared : s.pool.Cleared older newer q) :
      LogEnds r s (.ok (older.length + newer.length) ⟨q, t.1, t.2⟩)
  /-- Everything has been handed over, and clearing has failed. The pool is as before. -/
  | aborted {older newer : List Logged} {q : Pool} {t : Index × ρ} {abort : Abort}
      (logs : s.pool.Logs older newer)
      (within : older.length ≤ s.pool.root.logCount.toNat ∧
        newer.length ≤ s.pool.root.logCount.toNat)
      (handed : (r.carryOut (logCalls older newer)).run (s.index, s.replayer) = .ok () t)
      (kept : q.root = s.pool.root ∧ ∀ h, q.object? h = s.pool.object? h)
      (hindered : ¬ (s.pool.Unhindered ∧ s.pool.Clearable older newer)) :
      LogEnds r s (.error (.aborted abort) ⟨q, t.1, t.2⟩)

/-- Calls of which each succeeds do so one after another. -/
theorem exists_carryOut (hr : ∀ call u, ∃ t, (r.perform call).run u = .ok () t) (calls : List Call)
    (u : Index × ρ) : ∃ t, (r.carryOut calls).run u = .ok () t := by
  induction calls generalizing u with
  | nil => exact ⟨u, rfl⟩
  | cons call calls ih =>
    obtain ⟨v, hv⟩ := hr call u
    obtain ⟨t, ht⟩ := ih v
    change ∃ t, (r.perform call >>= fun _ => r.carryOut calls).run u = .ok () t
    rw [EStateM.run_bind, hv]
    exact ⟨t, ht⟩

section Runs

variable {α β : Type} {s s' : Startup ρ} {e : Failure}

theorem run_bind_of_error {act : StartupM ρ α} {f : α → StartupM ρ β} (h : act.run s = .error e s') :
    (act >>= f).run s = .error e s' := by
  rw [EStateM.run_bind, h]

theorem run_ofPool_of_error {look : Pool → Except Corruption α} {corruption : Corruption}
    (h : look s.pool = .error corruption) :
    (ofPool look).run s = .error (.cause (.corrupt corruption)) s := by
  change ofPool look s = _
  rw [ofPool, h]

theorem run_inTransaction_of_error {tx : Tx α} {q : Pool} (h : s.pool.transaction tx = (.error e, q)) :
    (inTransaction tx).run s = .error e { s with pool := q } := by
  change inTransaction tx s = _
  rw [inTransaction, h]

end Runs

variable {s : Startup ρ} {older newer : List Logged}

/-- **Logs that the counter covers one by one** are handed over, and then clearing is tried. -/
theorem logEnds_of_logs (hr : ∀ call u, ∃ t, (r.perform call).run u = .ok () t)
    (hlogs : s.pool.Logs older newer) (holder : older.length ≤ s.pool.root.logCount.toNat)
    (hnewer : newer.length ≤ s.pool.root.logCount.toNat) : LogEnds r s ((log r).run s) := by
  obtain ⟨t, ht⟩ := exists_carryOut hr (logCalls older newer) (s.index, s.replayer)
  have hcalls : logCalls older newer =
      (older.reverse.map Logged.command ++ newer.reverse.map Logged.command).map .replay ++
        [.sync] := by
    rw [← List.map_append, List.map_map]
    rfl
  have hrun := run_log_of_pending (LogBuffer.pending_eq_ok_iff.2 ⟨older, hlogs.older, holder, rfl⟩)
    (LogBuffer.pending_eq_ok_iff.2 ⟨newer, hlogs.newer, hnewer, rfl⟩) (hcalls ▸ ht)
  -- All commands have been handed over by now; what is left is to clear them.
  have hends := hlogs.transaction_clearBoth
  rw [hrun]
  cases hout : s.pool.transaction LogBuffer.clearBoth with
  | mk outcome q =>
    rw [hout] at hends
    cases outcome with
    | ok =>
      obtain ⟨hclearable, hcleared⟩ := hends
      rw [run_bind_of_ok (run_inTransaction_of_ok (s := ⟨s.pool, t.1, t.2⟩) hout)]
      simp only [List.length_map, List.length_reverse]
      exact .cleared hlogs ht hclearable hcleared
    | error e =>
      obtain ⟨⟨abort, rfl⟩, hkept, hhindered⟩ := hends
      rw [run_bind_of_error (run_inTransaction_of_error (s := ⟨s.pool, t.1, t.2⟩) hout)]
      exact .aborted hlogs ⟨holder, hnewer⟩ ht hkept hhindered

/-- A buffer that is not read is longer than the counter says, if it ends at all. -/
theorem lt_length_of_pending {cursor : Option Handle} {corruption : Corruption} {xs : List Logged}
    (hpending : LogBuffer.pending s.pool cursor = .error corruption) (hxs : s.pool.Recites cursor xs) :
    s.pool.root.logCount.toNat < xs.length := by
  by_contra hle
  have hread := LogBuffer.pending_eq_ok_iff.2 ⟨xs, hxs, Nat.le_of_not_lt hle, rfl⟩
  rw [hpending] at hread
  cases hread

/-- **How the work on the log ends**, for every pool and every replayer whose calls succeed. That a
buffer alone is longer than the counter, does not end or cannot be read, is found out before
anything is done. That both together are longer, or share an object, is found out when they are
cleared; that the counter is too large is not. -/
theorem logEnds_log (r : Replayer ρ) (hr : ∀ call u, ∃ t, (r.perform call).run u = .ok () t)
    (s : Startup ρ) : LogEnds r s ((log r).run s) := by
  -- The buffer out of service is read first, then the current one.
  cases holder : LogBuffer.pending s.pool (LogBuffer.otherHead s.pool) with
  | error corruption =>
    have hrun : (log r).run s = .error (.cause (.corrupt corruption)) s :=
      run_bind_of_error (run_ofPool_of_error holder)
    rw [hrun]
    apply LogEnds.refused
    intro older newer hlogs
    exact .inl (lt_length_of_pending holder hlogs.older)
  | ok olderCommands =>
    cases hnewer : LogBuffer.pending s.pool (LogBuffer.currentHead s.pool) with
    | error corruption =>
      have hrun : (log r).run s = .error (.cause (.corrupt corruption)) s :=
        (run_bind_of_ok (run_ofPool holder)).trans (run_bind_of_error (run_ofPool_of_error hnewer))
      rw [hrun]
      apply LogEnds.refused
      intro older newer hlogs
      exact .inr (lt_length_of_pending hnewer hlogs.newer)
    | ok newerCommands =>
      obtain ⟨older, hrecites, hlength, -⟩ := LogBuffer.pending_eq_ok_iff.1 holder
      obtain ⟨newer, hrecites', hlength', -⟩ := LogBuffer.pending_eq_ok_iff.1 hnewer
      exact logEnds_of_logs hr ⟨hrecites, hrecites'⟩ hlength hlength'

/-- The calls of the counting replayer succeed. -/
theorem exists_perform_counting (call : Call) (u : Index × Nat) :
    ∃ t, (counting.perform call).run u = .ok () t := by
  cases call <;> exact ⟨_, rfl⟩

/-- A pool with one command, at which both heads are. -/
def doubled : Pool where
  id := 9
  root := { logBufferA := some ⟨9, 2⟩, logBufferB := some ⟨9, 2⟩, logCount := 2 }
  slots := #[some (.payload [97]), some (.log { command := ⟨9, 1⟩ })]

/-- A command that is in both buffers is handed over twice before that comes to light. -/
theorem logEnds_log_doubled : (∀ call u, ∃ t, (counting.perform call).run u = .ok () t) ∧
    LogEnds counting ⟨doubled, Index.empty, 0⟩
      (.error (.aborted (.failed (.unreadable (.invalidHandle ⟨9, 2⟩))))
        ⟨doubled, Index.empty.insert [97] { value := [] }, 3⟩) := by
  refine ⟨exists_perform_counting, ?_⟩
  have hends := logEnds_log counting exists_perform_counting ⟨doubled, Index.empty, 0⟩
  have hrun : (log counting).run ⟨doubled, Index.empty, 0⟩ =
      .error (.aborted (.failed (.unreadable (.invalidHandle ⟨9, 2⟩))))
        ⟨doubled, Index.empty.insert [97] { value := [] }, 3⟩ := by
    rfl
  rwa [hrun] at hends

/-- A pool with one command and a counter of two. -/
def overcounted : Pool where
  id := 9
  root := { logBufferA := some ⟨9, 2⟩, logCount := 2 }
  slots := #[some (.payload [97]), some (.log { command := ⟨9, 1⟩ })]

/-- **A counter that is too large goes unnoticed**: the one command is handed over and cleared, and
the counter says one from then on. -/
theorem log_overcounted : (∀ call u, ∃ t, (counting.perform call).run u = .ok () t) ∧
    overcounted.Logs [] [⟨⟨9, 2⟩, ⟨9, 1⟩, [97]⟩] ∧ overcounted.root.logCount = 2 ∧
      ∃ q, (log counting).run ⟨overcounted, Index.empty, 0⟩ =
        .ok 1 ⟨q, Index.empty.insert [97] { value := [] }, 2⟩ ∧ q.root.logCount = 1 := by
  refine ⟨exists_perform_counting, ⟨.nil, ?_⟩, rfl, ?_⟩
  · exact .cons (n := { command := ⟨9, 1⟩ }) rfl rfl .nil
  · exact ⟨_, rfl, rfl⟩

end Startup

end PersistentTier
