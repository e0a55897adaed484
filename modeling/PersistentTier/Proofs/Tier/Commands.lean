import PersistentTier.Proofs.Tier.Drains
import PersistentTier.Proofs.Tier.Writes

/-!
# Commands

A command is logged and carried out in one scope, and the index follows as soon as the scope has been
committed. What a write finds of its key decides how it is carried out; the pairs afterwards are the
same in any case.

## Main definitions

* `Contents.Locates`: where a key is resident
* `Contents.Stored`, `Contents.Removed`: what a write and a removal make of the lists
* `Tier.CarriedOut`: what is known of a command that has been carried out

## Main results

* `triple_write_lists`, `triple_drop_lists`: a write and a removal in a scope
* `leads_insert`, `leads_get?`, `leads_erase`: the three commands
* `leads_compact`, `leads_checkpoint`
-/

namespace PersistentTier

open Tx Ledger

/-! ## Where a key is -/

namespace Contents

variable {c : Contents} {kind : ChainKind} {l r : List Resident} {x : Resident} {key : Bytes}

/-- **Where a key is resident**: nowhere, or at a node of a chain. -/
inductive Locates (c : Contents) (key : Bytes) : Option (Handle × ChainKind) → Prop
  | absent (missing : key ∉ c.pairs.map Resident.key) : Locates c key none
  | found {kind : ChainKind} {l r : List Resident} {x : Resident}
      (place : c.residents kind = l ++ x :: r) (named : x.key = key) :
      Locates c key (some (x.node, kind))

/-- The pairs of other keys are those that are left when the pair of a key is taken out. -/
theorem filter_pairs (hkeys : (c.pairs.map Resident.key).Nodup)
    (hc : c.residents kind = l ++ x :: r) :
    (c.pairs.filter fun y => y.key ≠ x.key).Perm (c.setResidents kind (l ++ r)).pairs := by
  have hperm : c.pairs.Perm (x :: (c.setResidents kind (l ++ r)).pairs) := by
    cases kind with
    | entries =>
      have hentries : c.entries = l ++ x :: r := hc
      simp only [pairs, setResidents, hentries, List.append_assoc, List.cons_append]
      exact List.perm_middle
    | victims =>
      have hvictims : c.victims = l ++ x :: r := hc
      simp only [pairs, setResidents, hvictims, ← List.append_assoc]
      exact List.perm_middle
  obtain ⟨hx, -⟩ := List.nodup_cons.1 ((hperm.map Resident.key).nodup_iff.1 hkeys)
  -- Keys are distinct, so the filter leaves out the pair itself and no other.
  refine (hperm.filter _).trans ?_
  rw [List.filter_cons_of_neg (by simp), List.filter_eq_self.2 fun y hy => ?_]
  exact decide_eq_true fun he => hx (he ▸ List.mem_map_of_mem hy)

theorem filter_pairs_of_missing (hkey : key ∉ c.pairs.map Resident.key) :
    (c.pairs.filter fun y => y.key ≠ key) = c.pairs :=
  List.filter_eq_self.2 fun _ hy => decide_eq_true fun he => hkey (he ▸ List.mem_map_of_mem hy)

/-- **Where a pair goes that is stored** under its key, in contents in which it may have been before. -/
inductive Stored (c : Contents) (promote : Bool) (x : Resident) : Contents → Prop
  /-- The key is new, and goes to the head of the entry store. -/
  | fresh (missing : x.key ∉ c.pairs.map Resident.key) :
      Stored c promote x { c with entries := x :: c.entries }
  /-- The key returns from the victim pipeline to the head of the entry store. -/
  | returned {l r : List Resident} {y : Resident} (place : c.victims = l ++ y :: r)
      (named : y.key = x.key) :
      Stored c promote x { c with entries := x :: c.entries, victims := l ++ r }
  /-- The key stays in its place, or is promoted to the head. -/
  | updated {l r : List Resident} {y : Resident} (place : c.entries = l ++ y :: r)
      (named : y.key = x.key) :
      Stored c promote x { c with entries := if promote then x :: (l ++ r) else l ++ x :: r }

/-- **What is left when a key is removed.** -/
inductive Removed (c : Contents) (key : Bytes) : Contents → Prop
  | missing (missing : key ∉ c.pairs.map Resident.key) : Removed c key c
  | found {kind : ChainKind} {l r : List Resident} {x : Resident}
      (place : c.residents kind = l ++ x :: r) (named : x.key = key) :
      Removed c key (c.setResidents kind (l ++ r))

/-- A pair that is stored takes the place of the one with its key. -/
theorem Stored.reshuffled {c c' : Contents} {promote : Bool} {x : Resident}
    (hkeys : (c.pairs.map Resident.key).Nodup) (h : c.Stored promote x c') :
    c.Reshuffled c' (x :: c.pairs.filter fun y => y.key ≠ x.key) := by
  cases h with
  | fresh missing =>
    refine ⟨?_, rfl, rfl⟩
    rw [filter_pairs_of_missing missing]
    exact .refl _
  | @returned l r y place named =>
    have hplace : c.residents .victims = l ++ y :: r := place
    have hothers := filter_pairs hkeys hplace
    rw [named] at hothers
    exact ⟨hothers.symm.cons _, rfl, rfl⟩
  | @updated l r y place named =>
    have hplace : c.residents .entries = l ++ y :: r := place
    have hothers := filter_pairs hkeys hplace
    rw [named] at hothers
    refine ⟨.trans ?_ (hothers.symm.cons _), rfl, rfl⟩
    cases promote with
    | true => exact .refl _
    | false => exact List.perm_middle.append_right c.victims

/-- The other pairs are left. -/
theorem Removed.reshuffled {c c' : Contents} (hkeys : (c.pairs.map Resident.key).Nodup)
    (h : c.Removed key c') : c.Reshuffled c' (c.pairs.filter fun y => y.key ≠ key) := by
  cases h with
  | missing missing =>
    refine ⟨?_, rfl, rfl⟩
    rw [filter_pairs_of_missing missing]
  | @found kind l r x place named =>
    have hothers := filter_pairs hkeys place
    rw [named] at hothers
    cases kind <;> exact ⟨hothers.symm, rfl, rfl⟩

end Contents

namespace Tier

section Writes

variable {E : Failure → Prop} {room : Nat} {c : Contents} {key : Bytes}
  {resident : Option (Handle × ChainKind)}

/-- **A value is stored** wherever the key was found. -/
theorem triple_write_lists (hkey : c.Locates key resident) (value : Bytes) (promote : Bool) :
    Tx.Triple E (Scope.Shows E (c.view 5 c.counters 0)) (write key value resident promote)
      fun h s => ∃ x z c' room', (x.node = h ∧ x.key = key ∧ x.value = value) ∧
        z.command = (Command.set key value).encode ∧ (c.append z).Stored promote x c' ∧
          s.Shows E (c'.view room' c'.counters 0) := by
  refine (LogBuffer.triple_append _).bind fun _ => ?_
  rintro s ⟨z, -, hz, hs⟩
  revert s
  change Tx.Triple E (Scope.Shows E ((c.append z).view 3 (c.append z).counters 0)) _ _
  -- The command has been logged; now the key is new, in the entry store, or evicted.
  cases hkey with
  | absent missing =>
    refine (triple_insertNew key value).mono ?_
    rintro h s ⟨x, hx, hk, hv, hs⟩
    exact ⟨x, z, _, _, ⟨hx, hk, hv⟩, hz, .fresh (hk ▸ missing), hs⟩
  | @found kind l r x place named =>
    cases kind with
    | entries =>
      have hplace : (c.append z).residents .entries = l ++ x :: r := place
      refine Tx.Triple.mono (triple_updateEntry hplace value (by simp)) ?_
      rintro h s ⟨rfl, v, hs⟩
      exact ⟨{ x with valueHandle := v, value := value }, z, _, _, ⟨rfl, named, rfl⟩, hz,
        .updated place rfl, hs⟩
    | victims =>
      have hplace : (c.append z).victims = l ++ x :: r := place
      -- The victim makes way for a new pair.
      refine (yields_removeVictim hplace).bind ((triple_insertNew key value).mono ?_)
      rintro h s ⟨y, hy, hk, hv, hs⟩
      exact ⟨y, z, _, _, ⟨hy, hk, hv⟩, hz, .returned place (named.trans hk.symm), hs⟩

/-- What is known after a value has been stored under a key. -/
def Written (c : Contents) (key value : Bytes) (h : Handle) (c' : Contents) : Prop :=
  ∃ x : Resident, ∃ z : Logged, x.node = h ∧ x.key = key ∧ x.value = value ∧
    z.command = (Command.set key value).encode ∧
    (c.append z).Reshuffled c' (x :: c.pairs.filter fun y => y.key ≠ key)

/-- A value that is stored is in one pair, beside those of other keys. -/
theorem triple_write (hkeys : (c.pairs.map Resident.key).Nodup) (hkey : c.Locates key resident)
    (value : Bytes) (promote : Bool) :
    Tx.Triple E (Scope.Shows E (c.view 5 c.counters 0)) (write key value resident promote)
      fun h s => ∃ c' room', Written c key value h c' ∧
        s.Shows E (c'.view room' c'.counters 0) := by
  refine (triple_write_lists hkey value promote).mono ?_
  rintro h s ⟨x, z, c', room', ⟨rfl, rfl, rfl⟩, hz, hstored, hs⟩
  exact ⟨c', room', ⟨x, z, rfl, rfl, rfl, hz, hstored.reshuffled hkeys⟩, hs⟩

/-- **A key is removed** from wherever it was found. -/
theorem triple_drop_lists (hkey : c.Locates key resident) :
    Tx.Triple E (Scope.Shows E (c.view 2 c.counters 0)) (drop key resident)
      fun _ s => ∃ z c' room', z.command = (Command.del key).encode ∧
        (c.append z).Removed key c' ∧ s.Shows E (c'.view room' c'.counters 0) := by
  refine (LogBuffer.triple_append _).bind fun _ => ?_
  rintro s ⟨z, -, hz, hs⟩
  revert s
  change Tx.Triple E (Scope.Shows E ((c.append z).view 0 (c.append z).counters 0)) _ _
  cases hkey with
  | absent missing =>
    exact Tx.Triple.pure fun s hs => ⟨z, _, _, hz, .missing missing, hs⟩
  | @found kind l r x place named =>
    cases kind with
    | entries =>
      have hplace : (c.append z).entries = l ++ x :: r := place
      refine (yields_remove hplace).mono fun _ _ hs => ?_
      have hremoved : (c.append z).Removed key ((c.append z).setResidents .entries (l ++ r)) :=
        .found place named
      exact ⟨z, _, _, hz, hremoved, hs.2⟩
    | victims =>
      have hplace : (c.append z).victims = l ++ x :: r := place
      refine (yields_removeVictim hplace).mono fun _ _ hs => ?_
      have hremoved : (c.append z).Removed key ((c.append z).setResidents .victims (l ++ r)) :=
        .found place named
      exact ⟨z, _, _, hz, hremoved, hs.2⟩

/-- What is known after a key has been removed. -/
def Dropped (c : Contents) (key : Bytes) (c' : Contents) : Prop :=
  ∃ z : Logged, z.command = (Command.del key).encode ∧
    (c.append z).Reshuffled c' (c.pairs.filter fun y => y.key ≠ key)

/-- The pairs of other keys are left when a key is removed. -/
theorem triple_drop (hkeys : (c.pairs.map Resident.key).Nodup) (hkey : c.Locates key resident) :
    Tx.Triple E (Scope.Shows E (c.view 2 c.counters 0)) (drop key resident)
      fun _ s => ∃ c' room', Dropped c key c' ∧ s.Shows E (c'.view room' c'.counters 0) := by
  refine (triple_drop_lists hkey).mono ?_
  rintro _ s ⟨z, c', room', hz, hremoved, hs⟩
  exact ⟨c', room', ⟨z, hz, hremoved.reshuffled hkeys⟩, hs⟩

theorem stepwise_write (key value : Bytes) (resident : Option (Handle × ChainKind))
    (promote : Bool) : (write key value resident promote).Stepwise := by
  refine (LogBuffer.stepwise_append _).bind fun _ => ?_
  rcases resident with _ | ⟨node, _ | _⟩
  · exact stepwise_insertNew key value
  · exact stepwise_updateEntry node value promote
  · exact (VictimPipeline.stepwise_remove node).bind fun _ => stepwise_insertNew key value

theorem stepwise_drop (key : Bytes) (resident : Option (Handle × ChainKind)) :
    (drop key resident).Stepwise := by
  refine (LogBuffer.stepwise_append _).bind fun _ => ?_
  rcases resident with _ | ⟨node, _ | _⟩
  · exact .pure ()
  · exact EntryStore.stepwise_remove node
  · exact VictimPipeline.stepwise_remove node

end Writes

variable {L : Ledger}

/-- **The index leads to the node of a key** if there is one. -/
theorem exists_reads_resident {c : Contents} {index : Index} (h : Tallies c index) (key : Bytes) :
    ∃ resident, c.Locates key resident ∧ Reads c index (resident? key) resident := by
  by_cases hkey : key ∈ c.pairs.map Resident.key
  · obtain ⟨x, hx, rfl⟩ := List.mem_map.1 hkey
    have hnode := (h.resident x.key x.value x.node).2 ⟨x, hx, rfl, rfl, rfl⟩
    obtain ⟨kind, hkind⟩ : ∃ kind, x ∈ c.residents kind := by
      rcases List.mem_append.1 hx with hx | hx
      · exact ⟨.entries, hx⟩
      · exact ⟨.victims, hx⟩
    obtain ⟨l, r, hc⟩ := List.append_of_mem hkind
    refine ⟨some (x.node, kind), .found hc rfl, Reads.get fun t _ hindex => ?_⟩
    rw [hindex, hnode]
    exact Reads.bind (Reads.readPool fun p hp => hp.entry_eq hc) (.pure _)
  · refine ⟨none, .absent hkey, Reads.get fun t _ hindex => ?_⟩
    rw [hindex, h.node_eq_none hkey]
    exact .pure none

/-! ## The commands -/

/-- A command is carried out: the log and the index say the same of its key. -/
def CarriedOut (cmd : Command) (L : Ledger) : Prop :=
  Command.verdict cmd.key L.contents.logged = some cmd.outcome ∧
    L.index.value? cmd.key = cmd.outcome

/-- **A value is stored under a key**, and then the limits are enforced. -/
theorem leads_insert (m : Mode) (hL : L.Agrees) {key value : Bytes}
    (hfits : (Command.set key value).Fits) :
    Leads m (Change key) 5 L (insert key value) fun _ L' => CarriedOut (.set key value) L' := by
  obtain ⟨resident, hkey, hreads⟩ := exists_reads_resident hL.tallies key
  refine Leads.read hreads (Leads.get fun t _ => ?_)
  refine Triple.bind (Triple.inTransaction (P := Written L.contents key value)
    (stepwise_write _ _ _ _) (triple_write hL.regular.keys hkey value _) .refl) ?_
  rintro _ _ ⟨c', ⟨x, z, rfl, rfl, rfl, hz, hresult⟩, rfl⟩
  refine Triple.bind (Triple.updateIndex _) ?_
  rintro _ _ rfl
  -- The write counts even if enforcing the limits fails.
  have hchange : Change x.key L ⟨c', L.index.insert x.key { value := x.value, node := some x.node },
      L.filed⟩ := .write hfits rfl hz hresult
  have hL' := hL.steps (Change.steps .quiet (.single hchange))
  have hsteps : ∀ {L'}, Relation.ReflTransGen Shift _ L' → Relation.ReflTransGen (Change x.key) L L' :=
    fun h => .head hchange (h.lift id fun _ _ => .shift)
  refine Triple.mono (leads_enforceLimits m hL').tolerate (fun _ => hsteps) fun _ L' h =>
    ⟨hsteps h.1, ?_⟩
  obtain ⟨hlogged, hvalue⟩ := Shift.kept h.1
  refine ⟨?_, (hvalue _).trans (by simp [Command.key, Command.outcome])⟩
  rw [hlogged, hresult.logged, L.contents.logged_append hfits hz]
  simp [Command.key]

theorem leads_touch (m : Mode) (hL : L.Agrees) (key : Bytes) :
    Leads m Shift 0 L (touch key) fun _ _ => True := by
  refine Leads.get fun t ht => ?_
  split
  · obtain ⟨resident, hkey, hreads⟩ := exists_reads_resident hL.tallies key
    refine Leads.read hreads ?_
    cases hkey with
    | absent => exact Leads.pure trivial
    | @found kind l r x place named =>
      cases kind with
      | victims => exact Leads.pure trivial
      | entries =>
        dsimp only
        split
        · exact Leads.pure trivial
        · have hentries : L.contents.entries = l ++ x :: r := place
          refine (Leads.inTransaction (P := fun _ c => c = { L.contents with entries := x :: (l ++ r) })
            (EntryStore.stepwise_promote x.node) ?_ ?_).mono fun _ _ _ _ => trivial
          · exact (yields_promote_counters hentries).mono fun _ _ hs => ⟨_, 0, rfl, hs.2⟩
          · rintro _ _ rfl
            exact .single (.rearrange (Contents.reshuffled_front hentries))
  · exact Leads.pure trivial

/-- **A value is looked up.** -/
theorem leads_get? (m : Mode) (hL : L.Agrees) (key : Bytes) :
    Leads m Shift 0 L (get? key) fun value? _ => value? = L.index.value? key := by
  refine Leads.get fun t ht => ?_
  rw [ht.index, Index.value?]
  cases L.index.get? key with
  | none => exact Leads.pure rfl
  | some entry => exact (leads_touch m hL key).bind fun _ _ _ _ => Leads.pure rfl

/-- **A key is removed**, if it is there. -/
theorem leads_erase (m : Mode) (hL : L.Agrees) {key : Bytes}
    (hfits : (Command.del key).Fits) :
    Leads m (Change key) 2 L (erase key) fun found L' => found → CarriedOut (.del key) L' := by
  refine Leads.get fun t ht => ?_
  rw [ht.index]
  cases L.index.get? key with
  | none => exact Leads.pure fun h => absurd h (by simp)
  | some entry =>
    obtain ⟨resident, hkey, hreads⟩ := exists_reads_resident hL.tallies key
    refine Leads.read hreads ?_
    refine Triple.bind (Triple.inTransaction (P := fun _ => Dropped L.contents key)
      (stepwise_drop _ _) (triple_drop hL.regular.keys hkey) .refl) ?_
    rintro _ _ ⟨c', ⟨z, hz, hresult⟩, rfl⟩
    refine Triple.bind (Triple.updateIndex _) ?_
    rintro _ _ rfl
    refine Triple.pure ⟨.single (.remove hfits hz hresult), fun _ => ⟨?_, ?_⟩⟩
    · rw [hresult.logged, L.contents.logged_append hfits hz]
      simp [Command.key]
    · simp [Command.key, Command.outcome]

/-! ## Compaction and checkpoints -/

/-- **The file is replaced by the index**, once the log has been flushed. -/
theorem leads_compact (m : Mode) {S : Ledger → Ledger → Prop} (hL : L.Agrees)
    (hhand : ∀ L L', Handover L L' → S L L')
    (hcompact : ∀ L : Ledger, (∀ y, L.contents.log y = []) →
      S L { L with filed := L.index.pairs.map fun pair => .set pair.1 pair.2 }) :
    Leads m S 0 L compact fun _ L' => ∃ L₁, L.Passes L₁ ∧ (∀ y, L₁.contents.log y = []) ∧
      L' = { L₁ with filed := L₁.index.pairs.map fun pair => .set pair.1 pair.2 } := by
  refine ((leads_flushLog m hL).embed hhand).bind fun _ L₁ _ hflushed => Leads.get fun t ht => ?_
  rw [ht.index]
  refine Triple.mono (Triple.onFile (AppendFile.yields_compactTo _)) (fun _ h => h) ?_
  rintro _ _ ⟨-, rfl⟩
  exact ⟨.single (hcompact L₁ hflushed.2), L₁, hflushed.1, hflushed.2, rfl⟩

/-- **A checkpoint** changes nothing that counts. -/
theorem leads_checkpoint (m : Mode) {S : Ledger → Ledger → Prop} (hL : L.Agrees) :
    Leads m S 0 L checkpoint fun _ _ => True := by
  refine Triple.bind (Triple.onFile AppendFile.yields_sync) ?_
  rintro _ _ ⟨-, rfl⟩
  refine Triple.get fun t ht => ?_
  obtain ⟨q, hq, hkeeps, hfollows⟩ := ht.pool.exists_checkpoint hL.regular
  simp only [hq]
  exact fun t' ht' => ⟨L, ht.withPool hfollows hkeeps, .refl, trivial⟩

end Tier

end PersistentTier
