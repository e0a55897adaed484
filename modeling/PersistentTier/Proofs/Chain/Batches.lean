import PersistentTier.Proofs.Scope.Frugal

/-!
# Evicting a batch

A batch of evictions changes the counters once, when every node has been moved, where evictions one
by one change them after each node. It makes no difference: moving a node neither looks at the two
counters nor changes them, so a change of the counters may as well come later, and several changes
come to one. This is about any pool and any handles.

What keeps the two from differing by an overflow is that no node is moved twice. A node that has been
moved is tagged as a victim, and so it would not be moved again. There are thus no more nodes in a
batch that succeeds than there are slots.

## Main definitions

* `Tx.reach`: the scope that an operation reaches
* `Tx.Uncounting`: an operation that is heedless of the counters
* `Scope.transfer`: some nodes fewer in the entry store, and as many more in the pipeline
* `Pool.Refuses`: a transaction that fails and leaves the root and the slots

## Main results

* `Tx.Uncounting.transfer_comm`: the counters may change before or afterwards
* `nodup_of_relinked`: no node is moved twice
* `evictAll_eq_forM_evict`: a batch is evicted as its nodes are one by one
-/

namespace PersistentTier

open Scope Tx

/-! ## What an operation reaches -/

namespace Tx

variable {α β : Type}

/-- The scope that an operation reaches, if it succeeds. -/
def reach (tx : Tx α) (s : Scope) : Option Scope :=
  match tx.run s with
  | .ok _ s' => some s'
  | .error _ _ => none

/-- Operations one after another. -/
theorem reach_bind (tx : Tx Unit) (f : Unit → Tx β) (s : Scope) :
    (tx >>= f).reach s = (tx.reach s).bind (f ()).reach := by
  unfold reach
  rw [EStateM.run_bind]
  cases tx.run s <;> rfl

/-- What is returned in the end makes no difference. -/
theorem reach_bind_pure (tx : Tx Unit) (b : β) (s : Scope) :
    (tx >>= fun _ => pure b).reach s = tx.reach s := by
  rw [reach_bind]
  exact Option.bind_fun_some _

theorem reach_forM_cons (f : α → Tx Unit) (a : α) (as : List α) (s : Scope) :
    Tx.reach ((a :: as).forM f) s = ((f a).reach s).bind (Tx.reach (as.forM f)) :=
  reach_bind (f a) (fun _ => as.forM f) s

theorem reach_eq_some_iff {tx : Tx α} {s s' : Scope} :
    tx.reach s = some s' ↔ ∃ a, tx.run s = .ok a s' := by
  unfold reach
  cases tx.run s <;> simp

theorem reach_eq_none_iff {tx : Tx α} {s : Scope} :
    tx.reach s = none ↔ ∃ e s', tx.run s = .error e s' := by
  unfold reach
  cases tx.run s <;> simp

/-- What is so after an operation that succeeds is so where it gets to. -/
theorem Triple.of_reach {P : Scope → Prop} {tx : Tx α} {Q : α → Scope → Prop} {s s' : Scope}
    (htx : Partial P tx Q) (hs : P s) (h : tx.reach s = some s') : ∃ a, Q a s' := by
  obtain ⟨a, hr⟩ := reach_eq_some_iff.1 h
  have hpost := htx s hs
  rw [hr] at hpost
  exact ⟨a, hpost⟩

theorem Stepwise.of_reach {tx : Tx α} {s s' : Scope} (htx : tx.Stepwise)
    (h : tx.reach s = some s') : Steps s s' := by
  obtain ⟨a, hr⟩ := reach_eq_some_iff.1 h
  exact left_eq_of_ok hr ▸ htx s

end Tx

/-! ## The root stays recorded -/

/-- What is recorded stays recorded. -/
theorem Scope.rootRecorded_of_steps {s s' : Scope} (hsteps : Steps s s')
    (hs : s.rootRecorded = true) : s'.rootRecorded = true := by
  have hcons : ∀ (r : UndoRecord) (undo : List UndoRecord), undo.any UndoRecord.isRoot = true →
      (r :: undo).any UndoRecord.isRoot = true := fun r undo h => by simp [List.any_cons, h]
  induction hsteps with
  | refl => exact hs
  | tail _ hstep ih =>
    cases hstep with
    | charge | editRoot | overwrite => exact ih
    | recordRoot | record | alloc | free => exact hcons _ _ ih

namespace Tx.Triple

variable {α : Type} {P : Scope → Prop}

theorem recorded_editRoot (edit : Root → Root) :
    Partial P (editRoot edit) fun _ s => s.rootRecorded = true := by
  have hrecord : Partial P recordRoot fun _ s => s.rootRecorded = true := by
    intro s _
    cases hr : recordRoot.run s with
    | ok _ s' => exact rootRecorded_of_recordRoot hr
    | error e s' => trivial
  exact hrecord.bind fun _ _ hs => hs

/-- A node that is moved becomes the head of the pipeline, so the root is recorded. -/
theorem recorded_relink (node : Handle) :
    Partial P (VictimPipeline.relink node) fun _ s => s.rootRecorded = true :=
  (unknown _).bind fun _ => (unknown _).bind fun _ => (unknown _).bind fun _ =>
    (unknown _).bind fun _ => recorded_editRoot fun r => r.setFirst .victims (some node)

end Tx.Triple

/-! ## Other counters -/

/-- The root with other counts of pairs and victims. -/
def Root.recount (entries victims : UInt64) (r : Root) : Root :=
  { r with entryCount := entries, victimCount := victims }

/-- A scope with other counts of pairs and victims. -/
def Scope.recount (entries victims : UInt64) (s : Scope) : Scope :=
  { s with pool := s.pool.withRoot (s.pool.root.recount entries victims) }

/-- **An operation that is heedless of the counters** once the root is recorded: with other counters
it does the same, and these stay. -/
def Tx.Uncounting {α : Type} (tx : Tx α) : Prop :=
  ∀ entries victims s, s.rootRecorded = true →
    tx.run (s.recount entries victims) = Seen (Scope.recount entries victims) (tx.run s)

namespace Tx.Uncounting

variable {α β : Type}

theorem pure (a : α) : Uncounting (Pure.pure a : Tx α) := fun _ _ _ _ => rfl

theorem fail (cause : Cause) : Uncounting (Tx.fail cause : Tx α) := fun _ _ _ _ => rfl

theorem bind {tx : Tx α} {f : α → Tx β} (hsteps : tx.Stepwise) (htx : Uncounting tx)
    (hf : ∀ a, Uncounting (f a)) : Uncounting (tx >>= f) := by
  intro e v s hs
  rw [EStateM.run_bind, EStateM.run_bind, htx e v s hs]
  cases hr : tx.run s with
  | ok a s' => exact hf a e v s' (rootRecorded_of_steps (left_eq_of_ok hr ▸ hsteps s) hs)
  | error failure s' => rfl

theorem require (c : Prop) [Decidable c] (cause : Cause) : Uncounting (Tx.require c cause) := by
  unfold Tx.require
  split
  · exact pure ()
  · exact fail cause

/-- What is done next may depend on all of the root but its counters. -/
theorem root {f : Root → Tx β} (hf : ∀ r, Uncounting (f r))
    (hsame : ∀ e v r, f (r.recount e v) = f r) : Uncounting (Tx.root >>= f) := by
  intro e v s hs
  have hrun : (Tx.root >>= f).run (s.recount e v) = (f s.pool.root).run (s.recount e v) :=
    congrArg (fun tx => tx.run (s.recount e v)) (hsame e v s.pool.root)
  exact hrun.trans (hf s.pool.root e v s hs)

theorem entry (h : Handle) : Uncounting (Tx.entry h) := by
  intro e v s _
  have hsame : (s.recount e v).pool.entry h = s.pool.entry h := rfl
  rw [Tx.entry, run_ofRead, run_ofRead, hsame]
  cases s.pool.entry h <;> rfl

theorem charge : Uncounting Tx.charge := by
  intro e v s _
  have hbudget : (s.recount e v).pool.writeBudget = s.pool.writeBudget := rfl
  simp only [Tx.charge, EStateM.run, hbudget]
  cases s.pool.writeBudget with
  | none => rfl
  | some n => cases n <;> rfl

theorem record (h : Handle) : Uncounting (Tx.record h) := by
  intro e v s hs
  have hrecorded : (s.recount e v).isRecorded h = s.isRecorded h := rfl
  rw [run_record, run_record, hrecorded, charge e v s hs]
  split
  · rfl
  · cases Tx.charge.run s with
    | error failure s' => rfl
    | ok _ s' =>
      have hobject : (s'.recount e v).pool.object? h = s'.pool.object? h := rfl
      simp only [Seen, hobject]
      cases s'.pool.object? h <;> rfl

theorem overwrite (h : Handle) (change : Object → Except Cause Object) :
    Uncounting (Tx.overwrite h change) := by
  intro e v s _
  have hrecorded : (s.recount e v).isRecorded h = s.isRecorded h := rfl
  have hobject : (s.recount e v).pool.object? h = s.pool.object? h := rfl
  rw [run_overwrite, run_overwrite, hrecorded, hobject]
  split
  · cases s.pool.object? h with
    | none => rfl
    | some before =>
      simp only
      cases change before with
      | error cause => rfl
      | ok after =>
        simp only [Seen, Scope.recount, Pool.root_setObject, Pool.setObject_withRoot]
  · rfl

theorem editEntry (h : Handle) (edit : EntryNode → EntryNode) :
    Uncounting (Tx.editEntry h edit) :=
  (record h).bind (.record h) fun _ => (overwrite h _).bind (.overwrite h _) fun _ => pure ()

/-- The root may change, so long as its counters do not matter. -/
theorem editRoot (edit : Root → Root) (hedit : ∀ e v r, edit (r.recount e v) = (edit r).recount e v) :
    Uncounting (Tx.editRoot edit) := by
  intro e v s hs
  have hrun : ∀ s : Scope, s.rootRecorded = true → (Tx.editRoot edit).run s =
      .ok () { s with pool := { s.pool with root := edit s.pool.root } } := fun s hs => by
    simp only [Tx.editRoot, EStateM.run_bind, run_recordRoot, if_pos hs]
    rfl
  rw [hrun s hs, hrun (s.recount e v) hs]
  simp only [Seen, Scope.recount, Pool.withRoot, hedit]

theorem setNext (chain : ChainKind) (prev next : Option Handle) :
    Uncounting (Tx.setNext chain prev next) := by
  cases prev with
  | some h => exact editEntry h _
  | none =>
    refine editRoot (fun r => r.setFirst chain next) fun e v r => ?_
    cases chain <;> rfl

theorem setPrev (chain : ChainKind) (prev next : Option Handle) :
    Uncounting (Tx.setPrev chain prev next) := by
  cases next with
  | some h => exact editEntry h _
  | none =>
    cases chain with
    | entries => exact editRoot (fun r => { r with entryLast := prev }) fun _ _ _ => rfl
    | victims => exact pure ()

theorem linkFront (chain : ChainKind) (node : Handle) : Uncounting (Tx.linkFront chain node) := by
  refine root (fun r => ?_) fun e v r => by cases chain <;> rfl
  refine (editEntry node _).bind (.editEntry node _) fun _ => ?_
  exact (setPrev _ _ _).bind (.setPrev _ _ _) fun _ => setNext _ _ _

theorem spliceOut (chain : ChainKind) (node : Handle) : Uncounting (Tx.spliceOut chain node) := by
  refine (entry node).bind (.entry node) fun found => ?_
  refine (require _ _).bind (.require _ _) fun _ => ?_
  refine root (fun _ => ?_) fun e v r => by cases chain <;> rfl
  refine (require _ _).bind (.require _ _) fun _ => (setNext _ _ _).bind (.setNext _ _ _) fun _ => ?_
  refine root (fun _ => ?_) fun _ _ _ => rfl
  refine (require _ _).bind (.require _ _) fun _ => (setPrev _ _ _).bind (.setPrev _ _ _) fun _ => ?_
  exact editEntry node _

theorem relink (node : Handle) : Uncounting (VictimPipeline.relink node) :=
  (spliceOut _ _).bind (.spliceOut _ _) fun _ => linkFront _ _

theorem forM_relink (nodes : List Handle) : Uncounting (nodes.forM VictimPipeline.relink) := by
  induction nodes with
  | nil => exact pure ()
  | cons h hs ih => exact (relink h).bind (VictimPipeline.stepwise_relink h) fun _ => ih

end Tx.Uncounting

/-! ## Transfers -/

namespace Scope

/-- A scope in which there are `n` nodes fewer in the entry store and `n` more in the pipeline, if
there are so many and so many more can be counted. -/
def transfer (n : Nat) (s : Scope) : Option Scope :=
  if n ≤ s.pool.root.entryCount.toNat ∧ s.pool.root.victimCount.toNat + n < 2 ^ 64 then
    some (s.recount (s.pool.root.entryCount - UInt64.ofNat n)
      (s.pool.root.victimCount + UInt64.ofNat n))
  else none

theorem rootRecorded_of_transfer {n : Nat} {s s' : Scope} (h : s.transfer n = some s')
    (hs : s.rootRecorded = true) : s'.rootRecorded = true := by
  unfold transfer at h
  split at h
  · cases h
    exact hs
  · cases h

/-- **Two transfers come to one.** -/
theorem transfer_bind_transfer (m n : Nat) (s : Scope) :
    (s.transfer m).bind (transfer n) = s.transfer (m + n) := by
  unfold transfer
  by_cases hm : m ≤ s.pool.root.entryCount.toNat ∧ s.pool.root.victimCount.toNat + m < 2 ^ 64
  · have hlt := s.pool.root.entryCount.toNat_lt
    have hword : (UInt64.ofNat m).toNat = m := UInt64.toNat_ofNat_of_lt' (hm.1.trans_lt hlt)
    have hle : UInt64.ofNat m ≤ s.pool.root.entryCount :=
      UInt64.le_iff_toNat_le.2 (hword.symm ▸ hm.1)
    have hleft : (s.pool.root.entryCount - UInt64.ofNat m).toNat =
        s.pool.root.entryCount.toNat - m := by rw [UInt64.toNat_sub_of_le _ _ hle, hword]
    have hraised : (s.pool.root.victimCount + UInt64.ofNat m).toNat =
        s.pool.root.victimCount.toNat + m := by
      rw [UInt64.toNat_add, hword, Nat.mod_eq_of_lt hm.2]
    simp only [if_pos hm, Option.bind_some, recount, Root.recount, Pool.withRoot, hleft, hraised,
      Nat.le_sub_iff_add_le' hm.1, Nat.add_assoc]
    simp only [UInt64.ofNat_add, UInt64.sub_eq_add_neg, UInt64.neg_add, UInt64.add_assoc]
  · have hmn : ¬ (m + n ≤ s.pool.root.entryCount.toNat ∧
        s.pool.root.victimCount.toNat + (m + n) < 2 ^ 64) := by omega
    rw [if_neg hm, if_neg hmn, Option.bind_none]

end Scope

/-- **The counters may change before or afterwards.** -/
theorem Tx.Uncounting.transfer_comm {α : Type} {tx : Tx α} (htx : tx.Uncounting) (n : Nat) {s : Scope}
    (hs : s.rootRecorded = true) :
    (s.transfer n).bind tx.reach = (tx.reach s).bind (Scope.transfer n) := by
  have hreach : ∀ e v, tx.reach (s.recount e v) = (tx.reach s).map (Scope.recount e v) := by
    intro e v
    unfold reach
    rw [htx e v s hs]
    cases tx.run s <;> rfl
  cases hr : tx.reach s with
  | none =>
    unfold Scope.transfer
    split
    · simp [hreach, hr]
    · rfl
  | some s' =>
    -- The operation keeps the counters, since with those that there are it does the same.
    have hkept := hreach s.pool.root.entryCount s.pool.root.victimCount
    have hself : s.recount s.pool.root.entryCount s.pool.root.victimCount = s := rfl
    rw [hself, hr, Option.map_some, Option.some.injEq] at hkept
    have hentries : s'.pool.root.entryCount = s.pool.root.entryCount := by rw [hkept]; rfl
    have hvictims : s'.pool.root.victimCount = s.pool.root.victimCount := by rw [hkept]; rfl
    simp only [Option.bind_some, Scope.transfer, hentries, hvictims]
    split
    · simp [hreach, hr]
    · rfl

/-! ## Tags -/

/-- The chain that a node is tagged with. -/
def Pool.tag? (p : Pool) (h : Handle) : Option ChainKind :=
  match p.object? h with
  | some (.entry e) => some e.chain
  | _ => none

/-- A scope with certain tags. -/
def Scope.Tagged (tags : Handle → Option ChainKind) (s : Scope) : Prop :=
  ∀ h, s.pool.tag? h = tags h

theorem Pool.tag?_of_entry {p : Pool} {h : Handle} {e : EntryNode} (he : p.entry h = .ok e) :
    p.tag? h = some e.chain := by
  have ho := mem_heap.1 (entry_eq_ok_iff.1 he)
  simp only [tag?, ho]

namespace Tx.Triple

variable {tags : Handle → Option ChainKind} {h node : Handle}

theorem tagged_record : Partial (Scope.Tagged tags) (record h) fun _ => Scope.Tagged tags :=
  keep_record (fun _ _ _ hs => hs) h

theorem tagged_editRoot (edit : Root → Root) :
    Partial (Scope.Tagged tags) (editRoot edit) fun _ => Scope.Tagged tags :=
  keep_editRoot (fun _ _ _ hs => hs) fun _ hs => hs

/-- The tag of a node changes with it, and no other. -/
theorem tagged_editEntry (edit : EntryNode → EntryNode) (retag : ChainKind → ChainKind)
    (hedit : ∀ e, (edit e).chain = retag e.chain) :
    Partial (Scope.Tagged tags) (editEntry h edit) fun _ =>
      Scope.Tagged fun h' => if h' = h then (tags h').map retag else tags h' := by
  refine tagged_record.bind fun _ => Triple.bind (Q := fun _ => Scope.Tagged fun h' =>
    if h' = h then (tags h').map retag else tags h') (fun s hs => ?_) fun _ => .pure fun _ hs => hs
  rw [run_overwrite]
  by_cases hr : s.isRecorded h
  · rw [if_pos hr]
    cases ho : s.pool.object? h with
    | none => trivial
    | some before =>
      cases before with
      | payload | log => trivial
      | entry e =>
        obtain ⟨i, hi, -⟩ := Pool.exists_slotIndex?_of_object? _ ho
        intro h'
        have htag := hs h'
        simp only [Pool.tag?, Pool.object?_setObject, hi, Option.isSome_some, and_true] at htag ⊢
        -- Other nodes are read as before.
        by_cases heq : h' = h
        · subst heq
          simp only [ho] at htag
          simp only [if_pos, hedit, ← htag, Option.map_some]
        · simp only [if_neg heq]
          exact htag
  · rw [if_neg hr]
    trivial

/-- An edit that keeps the tag of its node keeps all of them. -/
theorem tagged_editEntry_self (edit : EntryNode → EntryNode)
    (hedit : ∀ e, (edit e).chain = e.chain) :
    Partial (Scope.Tagged tags) (editEntry h edit) fun _ => Scope.Tagged tags :=
  (tagged_editEntry edit id hedit).mono fun _ s hs => by simpa using hs

theorem tagged_setNext (kind : ChainKind) (prev next : Option Handle) :
    Partial (Scope.Tagged tags) (setNext kind prev next) fun _ => Scope.Tagged tags := by
  cases prev with
  | some h => exact tagged_editEntry_self (fun e => { e with next := next }) fun _ => rfl
  | none => exact tagged_editRoot fun r => r.setFirst kind next

theorem tagged_setPrev (kind : ChainKind) (prev next : Option Handle) :
    Partial (Scope.Tagged tags) (setPrev kind prev next) fun _ => Scope.Tagged tags := by
  cases next with
  | some h => exact tagged_editEntry_self (fun e => { e with prev := prev }) fun _ => rfl
  | none =>
    cases kind with
    | entries => exact tagged_editRoot fun r => { r with entryLast := prev }
    | victims => exact .pure fun _ hs => hs

/-- Only a node with the tag of the chain is taken out of it. -/
theorem tagged_spliceOut (kind : ChainKind) :
    Partial (Scope.Tagged tags) (spliceOut kind node) fun _ s =>
      tags node = some kind ∧ s.Tagged tags := by
  refine Triple.ofRead (fun e s hs he => ?_) fun _ _ _ _ => trivial
  refine .require (fun _ => trivial) fun hkind => ?_
  have htag : tags node = some kind := by rw [← hs node, Pool.tag?_of_entry he, hkind]
  have hroot : Partial (Scope.Tagged tags) Tx.root fun _ => Scope.Tagged tags := fun _ hs => hs
  refine hroot.bind fun _ => .require (fun _ => trivial) fun _ => ?_
  refine (tagged_setNext _ _ _).bind fun _ => hroot.bind fun _ => ?_
  refine .require (fun _ => trivial) fun _ => (tagged_setPrev _ _ _).bind fun _ => ?_
  exact (tagged_editEntry_self (fun e => { e with next := none, prev := none }) fun _ => rfl).mono
    fun _ _ hs => ⟨htag, hs⟩

/-- A node that is linked gets the tag of the chain. -/
theorem tagged_linkFront (kind : ChainKind) (hnode : (tags node).isSome) :
    Partial (Scope.Tagged tags) (linkFront kind node) fun _ =>
      Scope.Tagged (Function.update tags node (some kind)) := by
  have hroot : Partial (Scope.Tagged tags) Tx.root fun _ => Scope.Tagged tags := fun _ hs => hs
  refine hroot.bind fun r => ?_
  refine (tagged_editEntry _ (fun _ => kind) fun _ => rfl).bind fun _ => ?_
  refine (tagged_setPrev _ _ _).bind fun _ => (tagged_setNext _ _ _).mono fun _ s hs h => ?_
  obtain ⟨tag, htag⟩ := Option.isSome_iff_exists.1 hnode
  have htag' := hs h
  simp only at htag'
  rw [htag', Function.update_apply]
  split
  · rename_i heq
    rw [heq, htag, Option.map_some]
  · rfl

/-- **What is moved was an entry and is a victim.** -/
theorem tagged_relink : Partial (Scope.Tagged tags) (VictimPipeline.relink node) fun _ s =>
    tags node = some .entries ∧ s.Tagged (Function.update tags node (some .victims)) := by
  refine (tagged_spliceOut .entries).bind fun _ s hs => ?_
  obtain ⟨htag, hs⟩ := hs
  exact (tagged_linkFront .victims (by simp [htag])).mono (fun _ _ hs => ⟨htag, hs⟩) s hs

end Tx.Triple

namespace VictimPipeline

/-- **No node is moved twice**, and none that is not an entry. -/
theorem nodup_of_relinked {nodes : List Handle} {s s' : Scope}
    (h : Tx.reach (nodes.forM relink) s = some s') :
    nodes.Nodup ∧ ∀ node ∈ nodes, s.pool.tag? node = some .entries := by
  induction nodes generalizing s with
  | nil => simp
  | cons node nodes ih =>
    rw [reach_forM_cons] at h
    obtain ⟨s₁, h₁, hrest⟩ := Option.bind_eq_some_iff.1 h
    obtain ⟨-, htag, htags⟩ := Triple.tagged_relink.of_reach (fun _ => rfl) h₁
    obtain ⟨hnodup, hentries⟩ := ih hrest
    -- The first node is a victim from now on, and those that follow are entries.
    have hother : ∀ x ∈ nodes, x ≠ node ∧ s.pool.tag? x = some .entries := by
      intro x hx
      have hx' := (htags x).symm.trans (hentries x hx)
      rw [Function.update_apply] at hx'
      split at hx'
      · cases hx'
      · rename_i hne
        exact ⟨hne, hx'⟩
    refine ⟨List.nodup_cons.2 ⟨fun hmem => (hother node hmem).1 rfl, hnodup⟩, ?_⟩
    exact List.forall_mem_cons.2 ⟨htag, fun x hx => (hother x hx).2⟩

/-- There are no more nodes in a batch that succeeds than a word can count. -/
theorem length_lt_of_relinked {nodes : List Handle} {s s' : Scope}
    (h : Tx.reach (nodes.forM relink) s = some s') : nodes.length < 2 ^ 64 := by
  obtain ⟨hnodup, htags⟩ := nodup_of_relinked h
  have hsub : (nodes : Multiset Handle) ⊆ s.pool.heap.map Prod.fst := by
    intro node hnode
    have htag := htags node hnode
    unfold Pool.tag? at htag
    split at htag
    · rename_i e ho
      exact Multiset.mem_map.2 ⟨(node, .entry e), Pool.mem_heap.2 ho, rfl⟩
    · cases htag
  have hcard := Multiset.card_le_card
    ((Multiset.le_iff_subset (Multiset.coe_nodup.2 hnodup)).2 hsub)
  have hheap := s.pool.card_heap_le
  have hsize := s.pool.size_le
  have hmax : maxSlots < 2 ^ 64 := by decide
  simp only [Multiset.coe_card, Multiset.card_map] at hcard
  omega

/-! ## One by one, and all at once -/

/-- The change of the counters when `n` nodes have been moved. -/
def settle (n : Nat) : Tx Unit := do
  decrement .entryCount (UInt64.ofNat n)
  increment .victimCount (UInt64.ofNat n)

theorem evict_eq (node : Handle) : evict node = relink node >>= fun _ => settle 1 := rfl

theorem evictAll_eq (nodes : List Handle) : evictAll nodes =
    (nodes.forM relink >>= fun _ => settle nodes.length) >>= fun _ => pure nodes.length := by
  simp [evictAll, settle]

/-- Once the root is recorded, a change of it costs nothing more. -/
theorem reach_editRoot (edit : Root → Root) {s : Scope} (hs : s.rootRecorded = true) :
    (editRoot edit).reach s = some { s with pool := s.pool.withRoot (edit s.pool.root) } := by
  have hrun : recordRoot.run s = .ok () s := by rw [run_recordRoot, if_pos hs]
  rw [editRoot, reach_bind, reach_eq_some_iff.2 ⟨(), hrun⟩]
  rfl

theorem reach_decrement (counter : Counter) (amount : UInt64) {s : Scope}
    (hs : s.rootRecorded = true) : (decrement counter amount).reach s =
      if amount ≤ s.pool.root.counter counter then
        let lowered := s.pool.root.setCounter counter (s.pool.root.counter counter - amount)
        some { s with pool := s.pool.withRoot lowered }
      else none := by
  have hrun : recordRoot.run s = .ok () s := by rw [run_recordRoot, if_pos hs]
  rw [decrement, reach_bind, reach_eq_some_iff.2 ⟨(), hrun⟩, Option.bind_some]
  -- The root is read where it is recorded.
  have hroot : ∀ f : Root → Tx Unit, (Tx.root >>= f).reach s = (f s.pool.root).reach s :=
    fun _ => rfl
  rw [hroot, reach_bind, Tx.require]
  split
  · exact reach_editRoot _ hs
  · rfl

theorem reach_increment (counter : Counter) (amount : UInt64) {s : Scope}
    (hs : s.rootRecorded = true) : (increment counter amount).reach s =
      if (s.pool.root.counter counter).toNat + amount.toNat < UInt64.size then
        let raised := s.pool.root.setCounter counter (s.pool.root.counter counter + amount)
        some { s with pool := s.pool.withRoot raised }
      else none := by
  have hrun : recordRoot.run s = .ok () s := by rw [run_recordRoot, if_pos hs]
  rw [increment, reach_bind, reach_eq_some_iff.2 ⟨(), hrun⟩, Option.bind_some]
  have hroot : ∀ f : Root → Tx Unit, (Tx.root >>= f).reach s = (f s.pool.root).reach s :=
    fun _ => rfl
  by_cases hlt : (s.pool.root.counter counter).toNat + amount.toNat < UInt64.size
  · rw [hroot, add_of_lt hlt, pure_bind, if_pos hlt]
    exact reach_editRoot _ hs
  · rw [hroot, add_of_le (Nat.not_lt.1 hlt), if_neg hlt]
    rfl

theorem reach_settle {n : Nat} {s : Scope} (hn : n < 2 ^ 64) (hs : s.rootRecorded = true) :
    (settle n).reach s = s.transfer n := by
  have hword : (UInt64.ofNat n).toNat = n := UInt64.toNat_ofNat_of_lt' hn
  have hle : UInt64.ofNat n ≤ s.pool.root.counter .entryCount ↔
      n ≤ s.pool.root.entryCount.toNat := by
    rw [UInt64.le_iff_toNat_le, hword]
    rfl
  rw [settle, reach_bind, reach_decrement _ _ hs, Scope.transfer]
  by_cases hmany : n ≤ s.pool.root.entryCount.toNat
  · -- Lowering the one counter leaves the other, which is raised next.
    let lowered : Scope := { s with pool := s.pool.withRoot (s.pool.root.setCounter .entryCount
      (s.pool.root.counter .entryCount - UInt64.ofNat n)) }
    rw [if_pos (hle.2 hmany), Option.bind_some]
    refine (reach_increment .victimCount (UInt64.ofNat n) (s := lowered) hs).trans ?_
    simp only [lowered, Pool.withRoot, Root.setCounter, Root.counter, hword, hmany, true_and]
    rfl
  · rw [if_neg (mt hle.1 hmany), if_neg fun h => hmany h.1]
    rfl

/-- Evicting a node is moving it and then changing the counters. -/
theorem reach_evict (node : Handle) (s : Scope) :
    (evict node).reach s = ((relink node).reach s).bind (Scope.transfer 1) := by
  rw [evict_eq, reach_bind]
  refine Option.bind_congr fun s₁ h₁ => ?_
  obtain ⟨_, hs₁⟩ := (Triple.recorded_relink (P := fun _ => True) node).of_reach trivial h₁
  exact reach_settle (by decide) hs₁

/-- **Evictions one by one**, after a change of the counters: the nodes may as well be moved first,
and the counters be changed once. -/
theorem transfer_forM_evict (nodes : List Handle) {s : Scope} (hs : s.rootRecorded = true) :
    (s.transfer 1).bind (Tx.reach (nodes.forM evict)) =
      (Tx.reach (nodes.forM relink) s).bind (Scope.transfer (nodes.length + 1)) := by
  induction nodes generalizing s with
  | nil => exact Option.bind_fun_some _
  | cons node nodes ih =>
    have hmoves := Tx.Uncounting.forM_relink nodes
    -- The change so far is put off until the first node has been moved.
    have hfirst : (s.transfer 1).bind (Tx.reach ((node :: nodes).forM evict)) =
        ((relink node).reach s).bind fun s₁ => (s₁.transfer 1).bind fun s₂ =>
          (s₂.transfer 1).bind (Tx.reach (nodes.forM evict)) := by
      simp only [reach_forM_cons, reach_evict, ← Option.bind_assoc]
      rw [(Tx.Uncounting.relink node).transfer_comm 1 hs]
    rw [hfirst, reach_forM_cons, Option.bind_assoc]
    refine Option.bind_congr fun s₁ h₁ => ?_
    have hs₁ := rootRecorded_of_steps ((stepwise_relink node).of_reach h₁) hs
    calc (s₁.transfer 1).bind (fun s₂ => (s₂.transfer 1).bind (Tx.reach (nodes.forM evict)))
        = (s₁.transfer 1).bind fun s₂ =>
            (Tx.reach (nodes.forM relink) s₂).bind (Scope.transfer (nodes.length + 1)) :=
          Option.bind_congr fun s₂ h₂ => ih (rootRecorded_of_transfer h₂ hs₁)
      _ = ((Tx.reach (nodes.forM relink) s₁).bind (Scope.transfer 1)).bind
            (Scope.transfer (nodes.length + 1)) := by
          rw [← Option.bind_assoc, hmoves.transfer_comm 1 hs₁]
      _ = (Tx.reach (nodes.forM relink) s₁).bind (Scope.transfer ((node :: nodes).length + 1)) := by
          rw [Option.bind_assoc]
          refine Option.bind_congr fun s₃ _ => ?_
          rw [Scope.transfer_bind_transfer, List.length_cons, Nat.add_comm 1]

/-- **A batch reaches what its nodes reach one by one**, unless there are none: the counters of an
empty batch are changed as well, by nothing. -/
theorem reach_evictAll (node : Handle) (nodes : List Handle) (s : Scope) :
    (evictAll (node :: nodes)).reach s = Tx.reach ((node :: nodes).forM evict) s := by
  have hbatch : (evictAll (node :: nodes)).reach s =
      (Tx.reach ((node :: nodes).forM relink) s).bind (settle (node :: nodes).length).reach := by
    rw [evictAll_eq, reach_bind_pure, reach_bind]
  have hsettle : (Tx.reach ((node :: nodes).forM relink) s).bind (settle (node :: nodes).length).reach =
      (Tx.reach ((node :: nodes).forM relink) s).bind (Scope.transfer (node :: nodes).length) := by
    refine Option.bind_congr fun s' h' => reach_settle (length_lt_of_relinked h') ?_
    rw [reach_forM_cons] at h'
    obtain ⟨s₁, h₁, hrest⟩ := Option.bind_eq_some_iff.1 h'
    obtain ⟨_, hs₁⟩ := (Triple.recorded_relink (P := fun _ => True) node).of_reach trivial h₁
    exact rootRecorded_of_steps ((stepwise_forM stepwise_relink nodes).of_reach hrest) hs₁
  rw [hbatch, hsettle, reach_forM_cons, reach_forM_cons, reach_evict, Option.bind_assoc,
    Option.bind_assoc]
  refine Option.bind_congr fun s₁ h₁ => ?_
  obtain ⟨_, hs₁⟩ := (Triple.recorded_relink (P := fun _ => True) node).of_reach trivial h₁
  exact (transfer_forM_evict nodes hs₁).symm

end VictimPipeline

/-! ## Transactions -/

/-- **A transaction that fails** and leaves the root and the slots as they were. -/
def Pool.Refuses {α : Type} (p : Pool) (tx : Tx α) : Prop :=
  ∃ e q, p.transaction tx = (.error e, q) ∧ q.root = p.root ∧ q.slots = p.slots

section Transactions

variable {α : Type} {tx : Tx α} {p : Pool} {s : Scope}

theorem Pool.transaction_of_run {a : α} (hr : tx.run { pool := p } = .ok a s) :
    p.transaction tx = s.finish (.ok a) := by simp only [Pool.transaction, hr]

/-- A failure of an operation that allocates nothing leaves the root and the slots. -/
theorem Pool.refuses_of_error {e : Failure} {q : Pool} (htx : tx.Stepwise) (hfrugal : tx.Frugal)
    (h : p.transaction tx = (.error e, q)) : p.Refuses tx :=
  ⟨e, q, h, slots_of_transaction_error htx hfrugal h⟩

theorem Pool.refuses_of_reach (htx : tx.Stepwise) (hfrugal : tx.Frugal)
    (h : tx.reach { pool := p } = none) : p.Refuses tx := by
  obtain ⟨e, s, hr⟩ := reach_eq_none_iff.1 h
  exact refuses_of_error htx hfrugal (by simp only [Pool.transaction, hr, finish]; rfl)

end Transactions

namespace VictimPipeline

/-- A batch that succeeds tells how many nodes it has. -/
theorem eq_length_of_run {nodes : List Handle} {n : Nat} {s s' : Scope}
    (hr : (evictAll nodes).run s = .ok n s') : n = nodes.length := by
  rw [evictAll_eq, EStateM.run_bind] at hr
  split at hr
  · exact (EStateM.Result.ok.inj hr).1.symm
  · cases hr

/-- **A batch is evicted as its nodes are one by one** in one transaction. Either both succeed, and leave
the same pool with the same write budget, or both fail, and leave the root and the slots. The pool may be
corrupt in any way, the budget may run out anywhere, and the handles may be of anything. -/
theorem evictAll_eq_forM_evict (p : Pool) (node : Handle) (nodes : List Handle) :
    (∃ q, p.transaction (evictAll (node :: nodes)) = (.ok (nodes.length + 1), q) ∧
      p.transaction ((node :: nodes).forM evict) = (.ok (), q)) ∨
    (p.Refuses (evictAll (node :: nodes)) ∧ p.Refuses ((node :: nodes).forM evict)) := by
  have hbatch := stepwise_evictAll (node :: nodes)
  have hsingle := stepwise_forM stepwise_evict (node :: nodes)
  have hfrugalBatch := frugal_evictAll (node :: nodes)
  have hfrugalSingle := frugal_forM frugal_evict (node :: nodes)
  have hreach := reach_evictAll node nodes { pool := p }
  cases hr : (evictAll (node :: nodes)).reach { pool := p } with
  | none =>
    exact .inr ⟨Pool.refuses_of_reach hbatch hfrugalBatch hr,
      Pool.refuses_of_reach hsingle hfrugalSingle (hreach.symm.trans hr)⟩
  | some s =>
    obtain ⟨n, hrun⟩ := reach_eq_some_iff.1 hr
    obtain ⟨_, hrun'⟩ := reach_eq_some_iff.1 (hreach.symm.trans hr)
    obtain rfl := eq_length_of_run hrun
    have hends := Pool.transaction_of_run hrun
    have hends' := Pool.transaction_of_run hrun'
    -- Both have reached the same scope, so it is committed for both or for neither.
    unfold Scope.finish at hends hends'
    rcases hc : s.commit with ⟨e | _, q⟩
    · rw [hc] at hends hends'
      exact .inr ⟨Pool.refuses_of_error hbatch hfrugalBatch hends,
        Pool.refuses_of_error hsingle hfrugalSingle hends'⟩
    · rw [hc] at hends hends'
      exact .inl ⟨q, hends, hends'⟩

/-- Where no write succeeds, an empty batch fails, since it pays for a record of the root. -/
example (p : Pool) (hp : p = { Pool.empty 1 {} with writeBudget := some 0 }) :
    p.Refuses (evictAll []) ∧ p.transaction ([].forM evict) = (.ok (), p) := by
  subst hp
  exact ⟨⟨_, _, rfl, rfl, rfl⟩, rfl⟩

end VictimPipeline

end PersistentTier
