import PersistentTier.Chain.Walk
import PersistentTier.Proofs.Log.Recital
import PersistentTier.Proofs.Scope.Frugal

/-!
# What draining may take away

Before victims are reclaimed or a log buffer is cleared, its nodes have been read. This is about pools
that may be corrupt in any way, so what was read and what is then freed are found on two different
walks. They follow the same links, and an object that is read while others are being freed is still
what it was. So nothing is freed but the nodes of the first walk and payloads.

An operation that fails on the way is rolled back, and is not spoken of.

## Main definitions

* `Pool.Thinned`: a pool of which some objects are gone
* `Pool.Strung`: handles of nodes that are linked one after another
* `Scope.Thins`: a scope whose pool is thinned

## Main results

* `VictimPipeline.thins_reclaim`: reclaiming takes away the nodes of a strict walk
* `LogBuffer.thins_clearBoth`: clearing takes away the nodes of pending commands
* `Pool.thinned_of_transaction`: a transaction, whether it succeeds or fails
-/

namespace PersistentTier

open Tx

/-- **A pool of which some objects are gone.** -/
def Pool.Thinned (p : Pool) (gone : Handle → Prop) (q : Pool) : Prop :=
  ∀ h, q.object? h = p.object? h ∨ q.object? h = none ∧ gone h

namespace Pool.Thinned

variable {p q : Pool} {gone gone' : Handle → Prop} {h : Handle}

theorem refl (p : Pool) (gone : Handle → Prop) : p.Thinned gone p := fun _ => .inl rfl

theorem mono (hq : p.Thinned gone q) (hgone : ∀ h, gone h → gone' h) : p.Thinned gone' q :=
  fun h => (hq h).imp_right fun hnone => ⟨hnone.1, hgone h hnone.2⟩

/-- What is left is what there was. -/
theorem object? (hq : p.Thinned gone q) {a : Object} (ha : q.object? h = some a) :
    p.object? h = some a := by
  rcases hq h with hsame | ⟨hnone, -⟩
  · exact hsame.symm.trans ha
  · exact absurd (hnone.symm.trans ha) (by simp)

theorem entry (hq : p.Thinned gone q) {e : EntryNode} (he : q.entry h = .ok e) : p.entry h = .ok e :=
  entry_eq_ok_iff.2 (mem_heap.2 (hq.object? (mem_heap.1 (entry_eq_ok_iff.1 he))))

theorem logNode (hq : p.Thinned gone q) {n : LogNode} (hn : q.logNode h = .ok n) :
    p.logNode h = .ok n :=
  logNode_eq_ok_iff.2 (mem_heap.2 (hq.object? (mem_heap.1 (logNode_eq_ok_iff.1 hn))))

theorem bytes (hq : p.Thinned gone q) {b : Bytes} (hb : q.bytes h = .ok b) : p.bytes h = .ok b :=
  bytes_eq_ok_iff.2 (mem_heap.2 (hq.object? (mem_heap.1 (bytes_eq_ok_iff.1 hb))))

/-- One more object goes. -/
theorem clearSlot (hq : p.Thinned gone q) (hh : gone h) : p.Thinned gone (q.clearSlot h) := by
  intro h'
  rw [object?_clearSlot]
  split
  · rename_i he
    exact .inr ⟨rfl, he ▸ hh⟩
  · exact hq h'

end Pool.Thinned

/-- A pair that is read has a node and payloads. -/
theorem Pool.exists_entry_of_pair {p : Pool} {h : Handle} {key value : Bytes}
    (hpair : p.pair h = .ok (key, value)) :
    ∃ e, p.entry h = .ok e ∧ p.bytes e.key = .ok key ∧ p.bytes e.value = .ok value := by
  unfold Pool.pair at hpair
  cases he : p.entry h with
  | error reason => simp [he, bind, Except.bind] at hpair
  | ok e =>
    simp only [he, bind, Except.bind] at hpair
    cases hkey : p.bytes e.key with
    | error reason => simp [hkey] at hpair
    | ok key' =>
      cases hvalue : p.bytes e.value with
      | error reason => simp [hkey, hvalue] at hpair
      | ok value' =>
        simp only [hkey, hvalue, pure, Except.pure, Except.ok.injEq, Prod.mk.injEq] at hpair
        exact ⟨e, rfl, hkey.trans (congrArg _ hpair.1), hvalue.trans (congrArg _ hpair.2)⟩

/-- **Handles of key/value nodes** of which each is linked to the next one, up to the last. -/
inductive Pool.Strung (p : Pool) : (cursor : Option Handle) → List Handle → Prop
  | nil : Strung p none []
  | cons {h : Handle} {hs : List Handle} {e : EntryNode} (read : p.entry h = .ok e)
      (rest : Strung p e.next hs) : Strung p (some h) (h :: hs)

/-- What a check has gone through is linked. -/
theorem Pool.strung_of_checkFrom {p : Pool} {kind : ChainKind} {budget : Nat}
    {prev cursor tail : Option Handle} {hs : List Handle}
    (h : p.checkFrom kind budget prev cursor = .ok (hs, tail)) : p.Strung cursor hs := by
  induction budget generalizing prev cursor tail hs with
  | zero =>
    cases cursor with
    | none =>
      obtain ⟨rfl, -⟩ := by simpa [checkFrom] using h
      exact .nil
    | some c => simp [checkFrom] at h
  | succ budget ih =>
    cases cursor with
    | none =>
      obtain ⟨rfl, -⟩ := by simpa [checkFrom] using h
      exact .nil
    | some c =>
      obtain ⟨e, rest, he, -, -, hrest, rfl⟩ := checkFrom_cons_eq_ok_iff.1 h
      exact .cons he (ih hrest)

/-- What a strict walk has found is linked. -/
theorem Pool.strung_of_strictWalk {p : Pool} {kind : ChainKind} {hs : List Handle}
    (h : p.strictWalk kind = .ok hs) : p.Strung (p.root.first kind) hs := by
  obtain ⟨tail, hcheck, -, -⟩ := strictWalk_eq_ok_iff_checkFrom.1 h
  exact strung_of_checkFrom hcheck

/-! ## Scopes -/

/-- **A scope whose pool is thinned**, and of whose root something is known. -/
structure Scope.Thins (p : Pool) (gone : Handle → Prop) (R : Root → Prop) (s : Scope) : Prop where
  pool : p.Thinned gone s.pool
  root : R s.pool.root

namespace Tx.Triple

variable {α β : Type} {p : Pool} {gone : Handle → Prop} {R R' : Root → Prop} {h : Handle}
  {Q : β → Scope → Prop}

theorem thins_charge : Partial (Scope.Thins p gone R) charge fun _ => Scope.Thins p gone R :=
  keep_charge fun _ _ _ hs => ⟨hs.pool, hs.root⟩

theorem thins_root {f : Root → Tx β}
    (hf : ∀ r, R r → Partial (Scope.Thins p gone R) (f r) Q) :
    Partial (Scope.Thins p gone R) (Tx.root >>= f) Q := fun s hs => hf _ hs.root s hs

/-- An object goes that may be gone. -/
theorem thins_free (hh : gone h) :
    Partial (Scope.Thins p gone R) (free h) fun _ => Scope.Thins p gone R := by
  intro s hs
  have hcharge := thins_charge s hs
  rw [run_free]
  cases hr : charge.run s with
  | error e s' => trivial
  | ok _ s' =>
    rw [hr] at hcharge
    simp only
    cases s'.pool.object? h with
    | none => trivial
    | some before =>
      exact ⟨hcharge.pool.clearSlot hh, (Pool.root_clearSlot ..).symm ▸ hcharge.root⟩

theorem thins_recordRoot :
    Partial (Scope.Thins p gone R) recordRoot fun _ => Scope.Thins p gone R :=
  keep_recordRoot fun _ _ _ hs => ⟨hs.pool, hs.root⟩

theorem thins_editRoot {edit : Root → Root} (hedit : ∀ r, R r → R' (edit r)) :
    Partial (Scope.Thins p gone R) (editRoot edit) fun _ => Scope.Thins p gone R' :=
  thins_recordRoot.bind fun _ _ hs => ⟨hs.pool, hedit _ hs.root⟩

theorem thins_decrement {counter : Counter} {amount : UInt64}
    (hR : ∀ r n, R r → R (r.setCounter counter n)) :
    Partial (Scope.Thins p gone R) (decrement counter amount) fun _ => Scope.Thins p gone R := by
  refine thins_recordRoot.bind fun _ => thins_root fun r _ => ?_
  exact .require (fun _ => trivial) fun _ => thins_editRoot fun r => hR r _

/-- A node that is read is a node of the pool. -/
theorem thins_entry {f : EntryNode → Tx β}
    (hf : ∀ e, p.entry h = .ok e → Partial (Scope.Thins p gone R) (f e) Q) :
    Partial (Scope.Thins p gone R) (Tx.entry h >>= f) Q :=
  Triple.ofRead (fun e _ hs he => hf e (hs.pool.entry he)) fun _ _ _ _ => trivial

theorem thins_logNode {f : LogNode → Tx β}
    (hf : ∀ n, p.logNode h = .ok n → Partial (Scope.Thins p gone R) (f n) Q) :
    Partial (Scope.Thins p gone R) (Tx.logNode h >>= f) Q :=
  Triple.ofRead (fun n _ hs hn => hf n (hs.pool.logNode hn)) fun _ _ _ _ => trivial

end Tx.Triple

open Tx.Triple

variable {p q : Pool} {gone : Handle → Prop} {R : Root → Prop}

/-! ## Reclaiming -/

namespace VictimPipeline

/-- The nodes from one on are freed. -/
theorem thins_reclaimFrom {cursor : Option Handle} {hs : List Handle} {budget count : Nat}
    (hR : ∀ r n, R r → R (r.setCounter .victimCount n)) (hhs : p.Strung cursor hs)
    (hgone : ∀ h ∈ hs, gone h ∧ ∃ pair, p.pair h = .ok pair)
    (hpayload : ∀ h b, p.bytes h = .ok b → gone h) :
    Partial (Scope.Thins p gone R) (reclaimFrom budget cursor count) fun _ =>
      Scope.Thins p gone R := by
  -- Induction on the nodes that the strict walk has found.
  induction hhs generalizing budget count with
  | nil =>
    rw [reclaimFrom_none]
    exact .pure fun _ hs => hs
  | @cons h hs e read rest ih =>
    obtain ⟨⟨hh, ⟨key, value⟩, hpair⟩, hrest⟩ := List.forall_mem_cons.1 hgone
    obtain ⟨e', he', hbytes⟩ := Pool.exists_entry_of_pair hpair
    obtain rfl := Except.ok.inj (read.symm.trans he')
    cases budget with
    | zero => exact .fail trivial
    | succ budget =>
      have hnode : Partial (Scope.Thins p gone R) (reclaimNode h) fun next s =>
          next = e.next ∧ s.Thins p gone R := by
        refine thins_entry fun e' he' => .require (fun _ => trivial) fun _ => ?_
        obtain rfl := Except.ok.inj (read.symm.trans he')
        refine (thins_free (hpayload _ _ hbytes.1)).bind fun _ => ?_
        refine (thins_free (hpayload _ _ hbytes.2)).bind fun _ => ?_
        refine (thins_free hh).bind fun _ => (thins_decrement hR).bind fun _ => ?_
        exact .pure fun _ hs => ⟨rfl, hs⟩
      refine hnode.bind fun next s hs => ?_
      obtain ⟨rfl, hs⟩ := hs
      exact ih hrest s hs

/-- **Reclaiming takes away the nodes of a strict walk** and payloads. -/
theorem thins_reclaim {head : Handle} {hs : List Handle} (hhs : p.Strung (some head) hs)
    (hgone : ∀ h ∈ hs, gone h ∧ ∃ pair, p.pair h = .ok pair)
    (hpayload : ∀ h b, p.bytes h = .ok b → gone h) :
    Partial (Scope.Thins p gone fun r => r.victimFirst = some head) (reclaim head) fun _ =>
      Scope.Thins p gone fun _ => True := by
  refine thins_entry fun e _ => .get fun s _ => ?_
  refine (thins_reclaimFrom (fun r n hr => hr) hhs hgone hpayload).bind fun count => ?_
  -- The pipeline is cut at the root, so no node is edited.
  have hcut : Partial (Scope.Thins p gone fun r => r.victimFirst = some head)
      (cutBefore head e.prev) fun _ => Scope.Thins p gone fun _ => True := by
    refine thins_root fun r hr => ?_
    rw [if_pos hr]
    exact thins_editRoot fun _ _ => trivial
  exact hcut.bind fun _ => .pure fun _ hs => hs

end VictimPipeline

/-! ## Clearing the log -/

namespace LogBuffer

/-- A root whose heads are those of another one, or are gone. -/
def HeadsOf (R₀ r : Root) : Prop :=
  r.activeBuffer = R₀.activeBuffer ∧ ∀ y, r.bufferHead y = R₀.bufferHead y ∨ r.bufferHead y = none

theorem HeadsOf.setBufferHead {R₀ r : Root} (hr : HeadsOf R₀ r) (y : Buffer) :
    HeadsOf R₀ (r.setBufferHead y none) := by
  refine ⟨(r.activeBuffer_setBufferHead y none).trans hr.1, fun z => ?_⟩
  by_cases hz : z = y
  · exact .inr (hz ▸ r.bufferHead_setBufferHead y none)
  · obtain rfl := Buffer.eq_flipped_of_ne hz
    rw [r.bufferHead_flipped_setBufferHead]
    exact hr.2 _

theorem HeadsOf.head {R₀ : Root} {p : Pool} (hp : HeadsOf R₀ p.root) (role : BufferRole) :
    head p role = R₀.bufferHead (inRole R₀ role) ∨ head p role = none := by
  have hrole : inRole p.root role = inRole R₀ role := by cases role <;> simp [inRole, hp.1]
  rw [LogBuffer.head, hrole]
  exact hp.2 _

/-- A log node that may be gone: its command is one of those given. -/
def Handed (p : Pool) (commands : List Bytes) (h : Handle) : Prop :=
  ∃ n command, p.logNode h = .ok n ∧ p.bytes n.command = .ok command ∧ command ∈ commands

theorem Handed.mono {h : Handle} {commands commands' : List Bytes} (hh : Handed p commands h)
    (hsub : ∀ command ∈ commands, command ∈ commands') : Handed p commands' h := by
  obtain ⟨n, command, hn, hbytes, hmem⟩ := hh
  exact ⟨n, command, hn, hbytes, hsub command hmem⟩

/-- The nodes of commands that are read in a thinned pool are freed. -/
theorem thins_freeFrom {recorded count : UInt64} {budget : Nat} {cursor : Option Handle}
    {xs : List Logged} {lost : Handle → Prop} (hq : p.Thinned lost q) (hxs : q.Recites cursor xs)
    (hgone : ∀ h, Handed p (xs.map Logged.command) h → gone h)
    (hpayload : ∀ h b, p.bytes h = .ok b → gone h) :
    Partial (Scope.Thins p gone R) (freeFrom recorded budget cursor count) fun _ =>
      Scope.Thins p gone R := by
  -- Induction on the commands, as they were read before anything was freed.
  induction hxs generalizing budget count with
  | nil =>
    rw [freeFrom_none]
    exact .pure fun _ hs => hs
  | @cons h n command xs node payload _ ih =>
    cases budget with
    | zero => exact .fail trivial
    | succ budget =>
      have hfree : Partial (Scope.Thins p gone R) (freeNode h) fun next s =>
          next = n.next ∧ s.Thins p gone R := by
        refine thins_logNode fun n' hn' => ?_
        obtain rfl := Except.ok.inj ((hq.logNode node).symm.trans hn')
        have hbytes := hq.bytes payload
        have hh : gone h := hgone h ⟨n, command, hn', hbytes, List.mem_cons_self⟩
        refine (thins_free (hpayload _ _ hbytes)).bind fun _ => ?_
        exact (thins_free hh).bind fun _ => .pure fun _ hs => ⟨rfl, hs⟩
      refine hfree.bind fun next s hs => ?_
      obtain ⟨rfl, hs⟩ := hs
      exact ih (fun h' hh' => hgone h' (hh'.mono fun _ => List.mem_cons_of_mem _)) s hs

/-- A buffer is emptied that is read to its end in a thinned pool. -/
theorem thins_clear {head : Option Handle} {xs : List Logged} {lost : Handle → Prop}
    (hq : p.Thinned lost q) (hxs : q.Recites head xs)
    (hgone : ∀ h, Handed p (xs.map Logged.command) h → gone h)
    (hpayload : ∀ h b, p.bytes h = .ok b → gone h) :
    Partial (Scope.Thins p gone (HeadsOf q.root)) (clear head) fun _ =>
      Scope.Thins p gone (HeadsOf q.root) := by
  refine .get fun s _ => .require (fun _ => trivial) fun _ => ?_
  refine (thins_freeFrom hq hxs hgone hpayload).bind fun count => ?_
  have hhead : Partial (Scope.Thins p gone (HeadsOf q.root)) (setHead (roleOf s.pool head) none)
      fun _ => Scope.Thins p gone (HeadsOf q.root) :=
    thins_editRoot fun r hr => hr.setBufferHead _
  exact hhead.bind fun _ => (thins_decrement fun r n hr => hr).bind fun _ => .pure fun _ hs => hs

/-- **Clearing takes away the nodes of pending commands** and payloads. -/
theorem thins_clearBoth {older newer : List Bytes} {lost : Handle → Prop} (hq : p.Thinned lost q)
    (holder : pending q (otherHead q) = .ok older) (hnewer : pending q (currentHead q) = .ok newer)
    (hgone : ∀ h, Handed p (older ++ newer) h → gone h)
    (hpayload : ∀ h b, p.bytes h = .ok b → gone h) :
    Partial (Scope.Thins p gone (HeadsOf q.root)) clearBoth fun _ =>
      Scope.Thins p gone (HeadsOf q.root) := by
  have hread : ∀ role, ∃ xs, q.Recites (head q role) xs ∧
      ∀ h, Handed p (xs.map Logged.command) h → gone h := by
    intro role
    cases role with
    | current =>
      obtain ⟨xs, hxs, -, rfl⟩ := pending_eq_ok_iff.1 hnewer
      refine ⟨xs, hxs, fun h hh => hgone h (hh.mono fun command hc => ?_)⟩
      rw [List.map_reverse]
      exact List.mem_append_right _ (List.mem_reverse.2 hc)
    | other =>
      obtain ⟨xs, hxs, -, rfl⟩ := pending_eq_ok_iff.1 holder
      refine ⟨xs, hxs, fun h hh => hgone h (hh.mono fun command hc => ?_)⟩
      rw [List.map_reverse]
      exact List.mem_append_left _ (List.mem_reverse.2 hc)
  -- A head is what it was when the commands were read, or nothing hangs off it any more.
  have hclear : ∀ (role : BufferRole) (s : Scope), s.Thins p gone (HeadsOf q.root) →
      Partial (Scope.Thins p gone (HeadsOf q.root)) (clear (head s.pool role)) fun _ =>
        Scope.Thins p gone (HeadsOf q.root) := by
    intro role s hs
    rcases hs.root.head role with hsame | hnone
    · obtain ⟨xs, hxs, hhanded⟩ := hread role
      rw [hsame]
      exact thins_clear hq hxs hhanded hpayload
    · rw [hnone]
      exact thins_clear hq .nil (by simp [Handed]) hpayload
  refine .get fun s hs => (hclear .current s hs).bind fun _ => ?_
  exact .get fun s hs => (hclear .other s hs).bind fun _ => .pure fun _ hs => hs

end LogBuffer

/-! ## Transactions -/

/-- **A transaction that thins a pool** does so if it succeeds. If it fails, all is there. -/
theorem Pool.thinned_of_transaction {α : Type} {tx : Tx α} {R' : Root → Prop} (htx : tx.Stepwise)
    (hfrugal : tx.Frugal) (hq : p.Thinned gone q) (hR : R q.root)
    (ht : Partial (Scope.Thins p gone R) tx fun _ => Scope.Thins p gone R') :
    p.Thinned gone (q.transaction tx).2 := by
  cases hout : q.transaction tx with
  | mk out q' =>
    cases out with
    | error e =>
      obtain ⟨-, hkept⟩ := kept_of_transaction_error htx hfrugal hout
      exact fun h => (hkept h).symm ▸ hq h
    | ok a =>
      obtain ⟨s, image, hs, rfl⟩ := post_of_transaction_ok ht ⟨hq, hR⟩ hout
      exact hs.pool

end PersistentTier
