import PersistentTier.Proofs.Scope.Draining
import PersistentTier.Proofs.Startup.Reconstruction

/-!
# Nothing is reclaimed before it is durable

A startup may run on a pool that is corrupt in any way, its replayer may fail at any call and its
writes at any point. However it ends, a node that is no longer in the pool has been handed over: the
call with its bytes has succeeded, and a sync after it.

The result is about what a startup leaves, so every step is said by what it leaves, also where it
fails. All along, an object is what it was, or it is gone and is excused by the record.

## Main definitions

* `Replayer.Synced`: a call that has been made durable
* `Startup.Excused`, `Startup.Accounted`: why an object may be gone
* `Startup.Accounts`: what a step leaves, whether it succeeds or fails

## Main results

* `Startup.accounts_flushVictims`, `accounts_log`: the two parts that reclaim
* `Startup.synced_of_reclaimed`: the whole startup
-/

namespace PersistentTier

open Replayer

variable {ρ α β γ : Type}

namespace Replayer

/-- **A call has succeeded, and a sync after it.** -/
def Synced (record : List Event) (call : Call) : Prop :=
  ∃ before between after,
    record = before ++ ⟨call, true⟩ :: between ++ ⟨.sync, true⟩ :: after

variable {record : List Event} {call : Call}

theorem Synced.append (h : Synced record call) (more : List Event) :
    Synced (record ++ more) call := by
  obtain ⟨before, between, after, rfl⟩ := h
  exact ⟨before, between, after ++ more, by simp⟩

/-- Calls are durable once a sync has succeeded after all of them. -/
theorem synced_of_mem {made : List Call} (h : call ∈ made) (record : List Event) :
    Synced (record ++ made.map (fun call => ⟨call, true⟩) ++ [⟨.sync, true⟩]) call := by
  obtain ⟨l, r, rfl⟩ := List.append_of_mem h
  exact ⟨record ++ l.map fun call => ⟨call, true⟩, r.map fun call => ⟨call, true⟩, [], by simp⟩

end Replayer

namespace Startup

/-- **Why an object of a pool may be gone**: it is a payload, or a node of which the record tells that
it has been handed over. -/
inductive Excused (p : Pool) (record : List Event) (h : Handle) : Prop
  | payload {b : Bytes} (read : p.bytes h = .ok b)
  | pair {key value : Bytes} (read : p.pair h = .ok (key, value))
      (synced : Synced record (.persist key value))
  | command {n : LogNode} {command : Bytes} (node : p.logNode h = .ok n)
      (read : p.bytes n.command = .ok command) (synced : Synced record (.replay command))

theorem Excused.append {p : Pool} {record : List Event} {h : Handle} (hh : Excused p record h)
    (more : List Event) : Excused p (record ++ more) h := by
  cases hh with
  | payload read => exact .payload read
  | pair read synced => exact .pair read (synced.append more)
  | command node read synced => exact .command node read (synced.append more)

/-- A startup with a given pool and a given record. -/
def At (q : Pool) (record : List Event) (s : Startup (ρ × List Event)) : Prop :=
  s.pool = q ∧ s.replayer.2 = record

/-- **A startup whose pool is that of another one**, but for objects that may be gone. -/
def Accounted (p : Pool) (s : Startup (ρ × List Event)) : Prop :=
  p.Thinned (Excused p s.replayer.2) s.pool

/-- **What a step leaves.** From a startup with `P` it succeeds with `Q`, or it fails and every object
is accounted for. -/
def Accounts (p : Pool) (P : Startup (ρ × List Event) → Prop) (act : StartupM (ρ × List Event) α)
    (Q : α → Startup (ρ × List Event) → Prop) : Prop :=
  ∀ s, P s → match act.run s with
    | .ok a t => Q a t
    | .error _ t => Accounted p t

section Rules

variable {p q : Pool} {record : List Event} {r : Replayer ρ}
  {P : Startup (ρ × List Event) → Prop} {Q : α → Startup (ρ × List Event) → Prop}
  {Q' : β → Startup (ρ × List Event) → Prop}

theorem Accounts.bind {act : StartupM (ρ × List Event) α} {f : α → StartupM (ρ × List Event) β}
    (hact : Accounts p P act Q) (hf : ∀ a, Accounts p (Q a) (f a) Q') :
    Accounts p P (act >>= f) Q' := by
  intro s hs
  have h := hact s hs
  rw [EStateM.run_bind]
  cases hr : act.run s with
  | ok a t =>
    rw [hr] at h
    exact hf a t h
  | error e t =>
    rw [hr] at h
    exact h

theorem Accounts.mono {act : StartupM (ρ × List Event) α} {R : α → Startup (ρ × List Event) → Prop}
    (hact : Accounts p P act Q) (hQ : ∀ a s, Q a s → R a s) : Accounts p P act R := by
  intro s hs
  have h := hact s hs
  split at h
  · exact hQ _ _ h
  · exact h

theorem Accounts.pure {a : α} (h : ∀ s, P s → Q a s) :
    Accounts p P (Pure.pure a : StartupM (ρ × List Event) α) Q := fun s hs => h s hs

theorem Accounts.get {f : Startup (ρ × List Event) → StartupM (ρ × List Event) α}
    (hf : ∀ s, P s → Accounts p P (f s) Q) : Accounts p P (MonadState.get >>= f) Q :=
  fun s hs => hf s hs s hs

/-- What is known of the result of a step may be used. -/
theorem Accounts.of_fact {fact : Prop} {act : StartupM (ρ × List Event) α}
    (h : fact → Accounts p P act Q) : Accounts p (fun s => fact ∧ P s) act Q :=
  fun s hs => h hs.1 s hs.2

theorem At.accounted {s : Startup (ρ × List Event)} (hs : At q record s)
    (hq : p.Thinned (Excused p record) q) : Accounted p s := by
  obtain ⟨rfl, rfl⟩ := hs
  exact hq

/-! ## Steps that leave the pool alone -/

theorem accounts_reserve (hq : p.Thinned (Excused p record) q) (count size : Nat) :
    @Accounts ρ _ p (At q record) (reserve count size) fun _ => At q record := by
  unfold reserve
  split
  · exact .pure fun _ hs => hs
  · exact fun s hs => hs.accounted hq

theorem accounts_makeRoom (hq : p.Thinned (Excused p record) q) (root : Root) :
    @Accounts ρ _ p (At q record) (makeRoom root) fun _ => At q record := by
  unfold makeRoom
  cases checkedAdd root.entryCount root.victimCount with
  | ok sum => exact accounts_reserve hq sum.toNat 72
  | error crash => exact fun s hs => hs.accounted hq

theorem accounts_ofPool (hq : p.Thinned (Excused p record) q) (look : Pool → Except Corruption α) :
    @Accounts ρ _ p (At q record) (ofPool look) fun a s => look q = .ok a ∧ At q record s := by
  intro s hs
  have hrun : (ofPool look).run s = ofPool look s := rfl
  rw [hrun, ofPool, hs.1]
  cases look q with
  | ok a => exact ⟨rfl, hs⟩
  | error corruption => exact hs.accounted hq

theorem accounts_updateIndex (change : Index → Index) :
    @Accounts ρ _ p (At q record) (updateIndex change) fun _ => At q record := fun _ hs => hs

theorem accounts_strictWalk (hq : p.Thinned (Excused p record) q) (kind : ChainKind) :
    @Accounts ρ _ p (At q record) (strictWalk kind) fun nodes s =>
      q.strictWalk kind = .ok nodes ∧ At q record s :=
  .get fun _ _ => (accounts_reserve hq _ _).bind fun _ => accounts_ofPool hq _

theorem accounts_pair (hq : p.Thinned (Excused p record) q) (node : Handle) :
    @Accounts ρ _ p (At q record) (pair node) fun pair s =>
      q.pair node = .ok pair ∧ At q record s := by
  refine (accounts_ofPool hq _).mono fun found s hs => ⟨?_, hs.2⟩
  cases hpair : q.pair node with
  | error reason => simp [hpair, Except.mapError] at hs
  | ok pair => simpa [hpair, Except.mapError] using hs.1

/-- Victims that have been indexed have been read. -/
theorem accounts_indexVictims (hq : p.Thinned (Excused p record) q) (nodes : List Handle) :
    @Accounts ρ _ p (At q record) (nodes.mapM indexVictim) fun pairs s =>
      (∀ h ∈ nodes, ∃ pair ∈ pairs, q.pair h = .ok pair) ∧ At q record s := by
  induction nodes with
  | nil => exact .pure fun _ hs => ⟨by simp, hs⟩
  | cons h nodes ih =>
    rw [List.mapM_cons]
    have hfirst : @Accounts ρ _ p (At q record) (indexVictim h) fun pair s =>
        q.pair h = .ok pair ∧ At q record s :=
      (accounts_pair hq h).bind fun pair => .of_fact fun hpair =>
        (accounts_updateIndex _).bind fun _ => .pure fun _ hs => ⟨hpair, hs⟩
    refine hfirst.bind fun pair => .of_fact fun hpair => ?_
    refine ih.bind fun pairs => .of_fact fun hpairs => ?_
    refine .pure fun s hs => ⟨List.forall_mem_cons.2 ⟨?_, fun h' hh' => ?_⟩, hs⟩
    · exact ⟨pair, List.mem_cons_self, hpair⟩
    · obtain ⟨pair', hmem, hpair'⟩ := hpairs h' hh'
      exact ⟨pair', List.mem_cons_of_mem _ hmem, hpair'⟩

theorem accounts_entries (hq : p.Thinned (Excused p record) q) :
    @Accounts ρ _ p (At q record) entries fun _ => At q record := by
  have hindex : ∀ nodes : List Handle,
      @Accounts ρ _ p (At q record) (nodes.forM indexEntry) fun _ => At q record := by
    intro nodes
    induction nodes with
    | nil => exact .pure fun _ hs => hs
    | cons h nodes ih =>
      have hfirst : @Accounts ρ _ p (At q record) (indexEntry h) fun _ => At q record :=
        (accounts_pair hq h).bind fun _ => .of_fact fun _ => accounts_updateIndex _
      exact hfirst.bind fun _ => ih
  exact (accounts_strictWalk hq _).bind fun nodes => .of_fact fun _ =>
    (accounts_reserve hq _ _).bind fun _ => (hindex nodes).bind fun _ => .pure fun _ hs => hs

/-! ## Calls of the replayer -/

/-- A call is put on record, and fails or succeeds. -/
def Puts (p : Pool) (act : StartupM (ρ × List Event) Unit) (call : Call) : Prop :=
  ∀ q record, p.Thinned (Excused p record) q →
    Accounts p (At q record) act fun _ => At q (record ++ [⟨call, true⟩])

theorem accounted_of_note {t : Startup (ρ × List Event)} {call : Call}
    (hq : p.Thinned (Excused p record) q) (hpool : t.pool = q)
    (hrecord : t.replayer.2 = record ++ [⟨call, false⟩]) : Accounted p t := by
  unfold Accounted
  rw [hpool, hrecord]
  exact hq.mono fun _ hh => hh.append _

theorem puts_call {call : Call} {act : EStateM Failure (ρ × List Event) Unit}
    {mirror : EStateM Failure ρ Unit}
    (hact : ∀ x record, act.run (x, record) = note call record Prod.mk (mirror.run x)) :
    Puts p (Startup.call act) call := by
  intro q record hq s hs
  obtain ⟨rfl, rfl⟩ := hs
  have hrun : (Startup.call act).run s = Startup.call act s := rfl
  rw [hrun, Startup.call, hact s.replayer.1 s.replayer.2]
  cases mirror.run s.replayer.1 with
  | ok _ x => exact ⟨rfl, rfl⟩
  | error e x => exact accounted_of_note hq rfl rfl

theorem puts_replay (command : Bytes) :
    Puts p (replay r.recorded command) (.replay command) := by
  intro q record hq s hs
  obtain ⟨rfl, rfl⟩ := hs
  have hrun : (replay r.recorded command).run s = replay r.recorded command s := rfl
  have hcall : (r.recorded.replay command).run (s.index, s.replayer) =
      note (.replay command) s.replayer.2 (fun t record => (t.1, t.2, record))
        ((r.replay command).run (s.index, s.replayer.1)) := rfl
  rw [hrun, replay, hcall]
  cases (r.replay command).run (s.index, s.replayer.1) with
  | ok _ x => exact ⟨rfl, rfl⟩
  | error e x => exact accounted_of_note hq rfl rfl

/-- Calls one after another. -/
theorem accounts_forM {f : γ → StartupM (ρ × List Event) Unit} {g : γ → Call}
    (hf : ∀ i, Puts p (f i) (g i)) (hq : p.Thinned (Excused p record) q) (items : List γ) :
    Accounts p (At q record) (items.forM f) fun _ =>
      At q (record ++ (items.map g).map fun call => ⟨call, true⟩) := by
  induction items generalizing record with
  | nil => exact .pure fun _ hs => by simpa using hs
  | cons i items ih =>
    have hrest := ih (hq.mono fun h (hh : Excused p record h) => hh.append [⟨g i, true⟩])
    refine (hf i q record hq).bind fun _ => ?_
    simpa using hrest

/-! ## Steps that reclaim -/

theorem accounts_inTransaction {tx : Tx α} {R R' : Root → Prop} (htx : tx.Stepwise)
    (hfrugal : tx.Frugal) (hq : p.Thinned (Excused p record) q) (hR : R q.root)
    (ht : Tx.Triple.Partial (Scope.Thins p (Excused p record) R) tx fun _ =>
      Scope.Thins p (Excused p record) R') :
    @Accounts ρ _ p (At q record) (inTransaction tx) fun _ s =>
      s.replayer.2 = record ∧ Accounted p s := by
  intro s hs
  obtain ⟨rfl, rfl⟩ := hs
  have hthinned := Pool.thinned_of_transaction htx hfrugal hq hR ht
  have hrun : (inTransaction tx).run s = inTransaction tx s := rfl
  rw [hrun, inTransaction]
  generalize s.pool.transaction tx = out at hthinned ⊢
  obtain ⟨_ | a, q⟩ := out
  · exact hthinned
  · exact ⟨rfl, hthinned⟩

/-- What has been handed over may be gone from a pool of which all was accounted for. -/
theorem accounts_of_accounted {act : StartupM (ρ × List Event) α}
    (h : ∀ q record, p.Thinned (Excused p record) q → Accounts p (At q record) act Q) :
    Accounts p (Accounted p) act Q := fun s hs => h s.pool s.replayer.2 hs s ⟨rfl, rfl⟩

/-- **The victims are handed over** before they are reclaimed. -/
theorem accounts_flushVictims {nodes : List Handle} {pairs : List (Bytes × Bytes)}
    (hnodes : p.strictWalk .victims = .ok nodes)
    (hpairs : ∀ h ∈ nodes, ∃ pair ∈ pairs, p.pair h = .ok pair) :
    Accounts p (At p record) (flushVictims r.recorded pairs) fun _ => Accounted p := by
  refine .get fun s hs => ?_
  have hroot : s.pool.root.victimFirst = p.root.victimFirst := by rw [hs.1]
  rw [hroot]
  cases hfirst : p.root.victimFirst with
  | none => exact .pure fun s hs => hs.accounted (.refl p _)
  | some head =>
    have hstrung : p.Strung (some head) nodes := hfirst ▸ Pool.strung_of_strictWalk hnodes
    let persist : Bytes × Bytes → Call := fun pair => .persist pair.1 pair.2
    let persisted := record ++ (pairs.map persist).map fun call => ⟨call, true⟩
    have hpersisted : Accounts p (At p record)
        (pairs.forM fun pair => call (r.recorded.persist pair.1 pair.2)) fun _ => At p persisted :=
      accounts_forM (fun pair => puts_call fun _ _ => rfl) (.refl p _) pairs
    refine hpersisted.bind fun _ => (puts_call (fun _ _ => rfl) p _ (.refl p _)).bind fun _ => ?_
    have hexcused : ∀ h ∈ nodes, Excused p (persisted ++ [⟨.sync, true⟩]) h ∧
        ∃ pair, p.pair h = .ok pair := fun h hh => by
      obtain ⟨pair, hmem, hpair⟩ := hpairs h hh
      exact ⟨.pair hpair (synced_of_mem (List.mem_map_of_mem hmem) record), pair, hpair⟩
    -- The walk that reclaims finds the nodes of the strict walk.
    have hreclaim := VictimPipeline.thins_reclaim hstrung hexcused fun h b hb => .payload hb
    exact (accounts_inTransaction (VictimPipeline.stepwise_reclaim head)
      (VictimPipeline.frugal_reclaim head) (.refl p _) hfirst hreclaim).bind fun _ =>
        .pure fun _ hs => hs.2

/-- **The log is handed over** before it is cleared. -/
theorem accounts_log : Accounts p (Accounted p) (log r.recorded) fun _ => Accounted p := by
  refine accounts_of_accounted fun q record hq => ?_
  refine (accounts_ofPool hq _).bind fun older => .of_fact fun holder => ?_
  refine (accounts_ofPool hq _).bind fun newer => .of_fact fun hnewer => ?_
  refine (accounts_forM puts_replay hq (older ++ newer)).bind fun _ => ?_
  have hreplayed := hq.mono fun h (hh : Excused p record h) =>
    hh.append (((older ++ newer).map Call.replay).map fun call => ⟨call, true⟩)
  refine (puts_call (fun _ _ => rfl) q _ hreplayed).bind fun _ => ?_
  have hsynced := hreplayed.mono fun h hh => hh.append [⟨.sync, true⟩]
  let replayed := record ++ ((older ++ newer).map Call.replay).map fun call => ⟨call, true⟩
  have hexcused : ∀ h, LogBuffer.Handed p (older ++ newer) h →
      Excused p (replayed ++ [⟨.sync, true⟩]) h := fun h hh => by
    obtain ⟨n, command, hn, hcommand, hmem⟩ := hh
    exact .command hn hcommand (synced_of_mem (List.mem_map_of_mem hmem) record)
  have hclear := LogBuffer.thins_clearBoth hq holder hnewer hexcused fun h b hb => .payload hb
  exact (accounts_inTransaction LogBuffer.stepwise_clearBoth LogBuffer.frugal_clearBoth hsynced
    ⟨rfl, fun _ => .inl rfl⟩ hclear).bind fun _ => .pure fun _ hs => hs.2

/-- Every object is accounted for. -/
theorem accounts_everything (p : Pool) (r : Replayer ρ) :
    Accounts p (At p []) (everything r.recorded) fun _ => Accounted p := by
  have hp : p.Thinned (Excused p []) p := .refl p _
  refine .get fun s _ => (accounts_makeRoom hp _).bind fun _ => ?_
  refine (accounts_strictWalk hp _).bind fun nodes => .of_fact fun hnodes => ?_
  refine (accounts_reserve hp _ _).bind fun _ => ?_
  refine (accounts_indexVictims hp nodes.reverse).bind fun pairs => .of_fact fun hpairs => ?_
  refine (accounts_flushVictims hnodes fun h hh => hpairs h (List.mem_reverse.2 hh)).bind fun _ => ?_
  refine accounts_log.bind fun _ => ?_
  have hentries : @Accounts ρ _ p (Accounted p) entries fun _ => Accounted p :=
    accounts_of_accounted fun q record hq =>
      (accounts_entries hq).mono fun _ s hs => hs.accounted hq
  exact hentries.bind fun _ => .pure fun _ hs => hs

end Rules

/-- The startup that a step leaves, whatever its outcome. -/
def left (act : StartupM ρ α) (s : Startup ρ) : Startup ρ :=
  match act.run s with
  | .ok _ t | .error _ t => t

/-- **Nothing is reclaimed before it is durable.** However a startup ends, a node that has gone has
been handed over with its bytes, and synced. -/
theorem synced_of_reclaimed (r : Replayer ρ) (s : Startup ρ) :
    let begun : Startup (ρ × List Event) := ⟨s.pool, s.index, s.replayer, []⟩
    let ended := left (everything r.recorded) begun
    (everything r).run s = Seen forget ((everything r.recorded).run begun) ∧
      (∀ h e, s.pool.entry h = .ok e → ended.pool.entry h ≠ .ok e →
        ∃ key value, s.pool.pair h = .ok (key, value) ∧
          Synced ended.replayer.2 (.persist key value)) ∧
      ∀ h n, s.pool.logNode h = .ok n → ended.pool.logNode h ≠ .ok n →
        ∃ command, s.pool.bytes n.command = .ok command ∧
          Synced ended.replayer.2 (.replay command) := by
  intro begun ended
  have hended : Accounted s.pool ended := by
    have h := accounts_everything s.pool r begun ⟨rfl, rfl⟩
    simp only [ended, left]
    cases hr : (everything r.recorded).run begun <;> simpa only [hr] using h
  refine ⟨mirrors_everything r begun, fun h e he hgone => ?_, fun h n hn hgone => ?_⟩
  · have hobject := Pool.mem_heap.1 (Pool.entry_eq_ok_iff.1 he)
    rcases hended h with hsame | ⟨-, hexcused⟩
    · exact absurd (Pool.entry_eq_ok_iff.2 (Pool.mem_heap.2 (hsame.trans hobject))) hgone
    · cases hexcused with
      | payload read =>
        have hpayload := Pool.mem_heap.1 (Pool.bytes_eq_ok_iff.1 read)
        simp [hobject] at hpayload
      | pair read synced => exact ⟨_, _, read, synced⟩
      | command node =>
        have hlog := Pool.mem_heap.1 (Pool.logNode_eq_ok_iff.1 node)
        simp [hobject] at hlog
  · have hobject := Pool.mem_heap.1 (Pool.logNode_eq_ok_iff.1 hn)
    rcases hended h with hsame | ⟨-, hexcused⟩
    · exact absurd (Pool.logNode_eq_ok_iff.2 (Pool.mem_heap.2 (hsame.trans hobject))) hgone
    · cases hexcused with
      | payload read =>
        have hpayload := Pool.mem_heap.1 (Pool.bytes_eq_ok_iff.1 read)
        simp [hobject] at hpayload
      | pair read =>
        obtain ⟨e, he, -⟩ := Pool.exists_entry_of_pair read
        have hentry := Pool.mem_heap.1 (Pool.entry_eq_ok_iff.1 he)
        simp [hobject] at hentry
      | command node read synced =>
        obtain rfl := Except.ok.inj (hn.symm.trans node)
        exact ⟨_, read, synced⟩

/-- A pool whose entry store is miscounted is drained before that comes to light. -/
theorem synced_of_reclaimed_miscounted :
    let p : Pool := { mixed with root := { mixed.root with entryCount := 5 } }
    let ended := left (everything counting.recorded) ⟨p, Index.empty, 0, []⟩
    (everything counting).run' ⟨p, Index.empty, 0⟩ = none ∧
      (∃ e, p.entry ⟨9, 4⟩ = .ok e ∧ ended.pool.entry ⟨9, 4⟩ ≠ .ok e) ∧
      Synced ended.replayer.2 (.persist [2] [20]) ∧
      (∃ n, p.logNode ⟨9, 9⟩ = .ok n ∧ ended.pool.logNode ⟨9, 9⟩ ≠ .ok n) ∧
      Synced ended.replayer.2 (.replay [4]) := by
  intro p
  have hfails : (everything counting).run' ⟨p, Index.empty, 0⟩ = none := by
    unfold p
    decide +kernel
  have hread : (p.entry ⟨9, 4⟩, p.pair ⟨9, 4⟩, p.logNode ⟨9, 9⟩, p.bytes ⟨9, 10⟩) =
      (.ok { key := ⟨9, 5⟩, value := ⟨9, 6⟩, chain := .victims }, .ok ([2], [20]),
        .ok { command := ⟨9, 10⟩, prev := some ⟨9, 99⟩ }, .ok [4]) := by
    unfold p
    decide +kernel
  have hgone : ((left (everything counting.recorded) ⟨p, Index.empty, 0, []⟩).pool.entry ⟨9, 4⟩,
      (left (everything counting.recorded) ⟨p, Index.empty, 0, []⟩).pool.logNode ⟨9, 9⟩) =
        (.error (.invalidHandle ⟨9, 4⟩), .error (.invalidHandle ⟨9, 9⟩)) := by
    unfold p
    decide +kernel
  obtain ⟨-, hvictim, hlog⟩ := synced_of_reclaimed counting ⟨p, Index.empty, 0⟩
  -- From here on it does not matter what the startup has been.
  generalize left (everything counting.recorded) ⟨p, Index.empty, 0, []⟩ = ended at *
  simp only [Prod.mk.injEq] at hread hgone
  obtain ⟨hentry, hpair, hnode, hbytes⟩ := hread
  have hentryGone : ∀ e, ended.pool.entry ⟨9, 4⟩ ≠ .ok e := fun e => by simp [hgone]
  have hnodeGone : ∀ n, ended.pool.logNode ⟨9, 9⟩ ≠ .ok n := fun n => by simp [hgone]
  obtain ⟨key, value, hpair', hpersisted⟩ := hvictim _ _ hentry (hentryGone _)
  obtain ⟨command, hbytes', hreplayed⟩ := hlog _ _ hnode (hnodeGone _)
  obtain ⟨rfl, rfl⟩ := Prod.mk.inj (Except.ok.inj (hpair.symm.trans hpair'))
  obtain rfl := Except.ok.inj (hbytes.symm.trans hbytes')
  exact ⟨hfails, ⟨_, hentry, hentryGone _⟩, hpersisted, ⟨_, hnode, hnodeGone _⟩, hreplayed⟩

end Startup

end PersistentTier
