import PersistentTier.Proofs.Pool.Mirrored
import PersistentTier.Proofs.Scope.Frugal

/-!
# Pools and what may be in their way

A transaction may fail because a write is refused, because there is no memory or because the image
cannot be written. With which failures it may end is a matter of what is in order: the pool has no write
budget unless injected faults are permitted, there is room for allocations unless a shortage of memory
is, and nothing is in the way of the image unless commits may fail. However it ends, the pool holds
contents in which every key comes once, and so does the pool of which an image has been written.

## Main definitions

* `Contents.Distinct`: contents in which every key comes once
* `Standing.Stores`, `Location.Stores`: what may stand at the place of an image
* `Standing.Short`: what can be read back from there
* `Pool.Serves`: a pool with known contents that is ready for a transaction
* `Pool.Precedes`: what no use of a pool changes

## Main results

* `Pool.Serves.transaction`: a transaction leaves other contents, or fails and leaves the same
* `Pool.Serves.checkpoint`, `Pool.Serves.stores_close`: writing out and closing
* `Location.Stores.exists_serves`: opening
-/

namespace PersistentTier

open Pool Scope Tx

/-- **Contents in which every key comes once.** -/
def Contents.Distinct (c : Contents) : Prop := (c.pairs.map Resident.key).Nodup

/-- The order of the pairs does not matter. -/
theorem Contents.Distinct.perm {c c' : Contents} (hc : c.Distinct) (hpairs : c'.pairs.Perm c.pairs) :
    c'.Distinct := (hpairs.map Resident.key).nodup_iff.2 hc

theorem Contents.Distinct.reclaimed {c : Contents} (hc : c.Distinct) :
    ({ c with victims := [] } : Contents).Distinct :=
  hc.sublist (((List.nil_sublist _).append_left _).map _)

/-- **What may stand at the place of an image**: if it is a file, then the image of a pool in which every
key comes once. -/
def Standing.Stores (standing : Standing) : Prop :=
  ∀ bytes, standing = .file bytes →
    ∃ p c, Pool.Holds p c ∧ c.Distinct ∧ bytes = p.toImage.encode

/-- **A place of an image**: what may stand there stands there, and has been moved away from there. -/
structure Location.Stores (place : Location) : Prop where
  standing : place.standing.Stores
  aside : place.aside.Stores

namespace Location.Stores

variable {place : Location}

theorem blank : Location.Stores {} := ⟨nofun, nofun⟩

theorem obstruct (h : place.Stores) (steps : List FileStep) :
    Location.Stores { place with obstacles := steps } := ⟨h.standing, h.aside⟩

theorem moveAside (h : place.Stores) : place.moveAside.Stores := by
  unfold Location.moveAside
  split
  · exact h
  · exact ⟨nofun, h.standing⟩

theorem moveBack (h : place.Stores) : place.moveBack.Stores := by
  unfold Location.moveBack
  split
  · exact ⟨h.aside, nofun⟩
  · exact h

end Location.Stores

namespace Pool

/-- **What no use of a pool changes**: the arena does not shrink, and what has been moved away from the
place of the image stays there. -/
structure Precedes (p q : Pool) : Prop where
  size : p.slots.size ≤ q.slots.size
  aside : q.image.map Location.aside = p.image.map Location.aside

/-- **A pool that is ready for a transaction**, with given contents and with room for some allocations.
Its writes and its commits succeed, unless `E` permits that they fail. -/
structure Serves (E : Failure → Prop) (room : Nat) (c : Contents) (p : Pool) : Prop where
  holds : p.Holds c
  distinct : c.Distinct
  stored : ∀ place, p.image = some place → place.standing.Stores
  able : p.Able E room
  durable : (∀ cause, E (.aborted (.notDurable cause))) ∨ p.Unhindered

variable {α : Type} {E E' : Failure → Prop} {room : Nat} {c c' : Contents} {p q r : Pool} {place : Location}

namespace Precedes

theorem refl (p : Pool) : p.Precedes p := ⟨Nat.le_refl _, rfl⟩

theorem trans (hpq : p.Precedes q) (hqr : q.Precedes r) : p.Precedes r :=
  ⟨hpq.size.trans hqr.size, hqr.aside.trans hpq.aside⟩

/-- What has been moved away may still stand there. -/
theorem stores_aside (hpq : p.Precedes q) (hp : ∀ place, p.image = some place → place.aside.Stores)
    (himage : q.image = some place) : place.aside.Stores := by
  have haside := hpq.aside
  rw [himage, Option.map_some] at haside
  obtain ⟨place', himage', he⟩ := Option.map_eq_some_iff.1 haside.symm
  exact he ▸ hp place' himage'

end Precedes

theorem SameHost.precedes (hpq : SameHost p q) : p.Precedes q := ⟨hpq.size, hpq.image ▸ rfl⟩

/-- What writing an image does, if it succeeds. -/
theorem written_of_save (h : p.save = .ok q) : q = { p with image := p.written } := by
  unfold save at h
  split at h
  · rename_i himage
    cases h
    simp only [written, himage, Option.map_none]
    rw [← himage]
  · rename_i place himage
    obtain ⟨place', hinstall, hq⟩ := exists_of_bind_eq_ok h
    obtain rfl := Except.ok.inj hq
    simp only [written, himage, Option.map_some, install_eq hinstall]

theorem precedes_written (p : Pool) : p.Precedes { p with image := p.written } :=
  ⟨Nat.le_refl _, by simp only [written, Option.map_map]; rfl⟩

namespace Serves

theorem spent (hp : p.Serves E room c) : p.Serves E 0 c :=
  { hp with able := ⟨hp.able.unlimited, .inr p.size_le⟩ }

/-- Of the failures that are permitted only aborted scopes matter, so long as there is no need for more
room. -/
theorem of_aborted (hp : p.Serves E room c)
    (hE : ∀ abort, E (.aborted abort) → E' (.aborted abort)) : p.Serves E' 0 c :=
  { hp with
    able := ⟨hp.able.unlimited.imp_left (hE _), .inr p.size_le⟩
    durable := hp.durable.imp_left fun h cause => hE _ (h cause) }

/-- A pool with other contents at the same host. -/
theorem of_sameHost (hp : p.Serves E room c) (hpq : SameHost p q) (hq : q.Holds c')
    (hc : c'.Distinct) : q.Serves E 0 c' where
  holds := hq
  distinct := hc
  stored place himage := hp.stored place (hpq.image ▸ himage)
  able := ⟨hp.able.unlimited.imp_right hpq.budget, .inr q.size_le⟩
  durable := hp.durable.imp_right fun h => h.of_sameHost hpq

/-- A pool of which the image has been written. -/
theorem written (hp : p.Serves E room c) : Serves E 0 c { p with image := p.written } where
  holds := ⟨hp.holds.root, hp.holds.heap, hp.holds.vacant.of_slots fun _ _ => rfl⟩
  distinct := hp.distinct
  stored place himage := by
    obtain ⟨place', -, rfl⟩ := Option.map_eq_some_iff.1 himage
    rintro _ ⟨⟩
    exact ⟨p, c, hp.holds, hp.distinct, rfl⟩
  able := ⟨hp.able.unlimited, .inr p.size_le⟩
  durable := hp.durable.imp_right fun h => h.written

/-- **A checkpoint**, if it succeeds, leaves the pool ready. -/
theorem checkpoint (hp : p.Serves E room c) (h : p.checkpoint = .ok q) :
    p.Precedes q ∧ q.Serves E 0 c := by
  obtain rfl := written_of_save h
  exact ⟨p.precedes_written, hp.written⟩

/-- A commit, if it succeeds, leaves the pool ready. -/
theorem makeDurable (hp : p.Serves E room c) (h : p.makeDurable = .ok q) :
    p.Precedes q ∧ q.Serves E 0 c := by
  unfold Pool.makeDurable at h
  split at h
  · exact hp.checkpoint h
  · cases h
    exact ⟨.refl p, hp.spent⟩

/-- **A transaction of which the operation satisfies a triple** leaves the contents that the triple says;
or it fails in a way that is permitted, and leaves the same contents. -/
theorem transaction (hp : p.Serves E room c) {tx : Tx α} {P : α → Contents → Prop}
    (htx : tx.Stepwise)
    (ht : Tx.Triple (Tx.Surfaces E)
      (Scope.Shows (Tx.Surfaces E) (c.view room c.counters 0)) tx
      fun a s => ∃ c' room', P a c' ∧ s.Shows (Tx.Surfaces E) (c'.view room' c'.counters 0))
    (hdistinct : c.Distinct → ∀ a c', P a c' → c'.Distinct) :
    match p.transaction tx with
    | (.ok a, q) => p.Precedes q ∧ ∃ c', P a c' ∧ q.Serves E 0 c'
    | (.error e, q) => p.Precedes q ∧ E e ∧ q.Serves E 0 c := by
  have hshows : Scope.Shows (Tx.Surfaces E) (c.view room c.counters 0) { pool := p } := by
    rw [c.view_zero]
    exact hp.holds.shows ⟨hp.able.unlimited, hp.able.roomy⟩
  have hends := ends_transaction hp.holds.vacant htx ht hshows
  have hback : ∀ {e q}, p.transaction tx = (.error e, q) → SameHost p q := fun h =>
    sameHost_of_transaction_error htx h
  generalize p.transaction tx = out at hends hback ⊢
  cases hends with
  | @committed a s q post sound host durable =>
    obtain ⟨c', room', hP, hs⟩ := post
    rw [c'.view_zero] at hs
    have hreleased : SameHost p (s.pool.release s.freedOffsets) :=
      ⟨host.id, host.options, host.image, host.size, host.budget⟩
    obtain ⟨hprecedes, hq⟩ := (hp.of_sameHost hreleased hs.holds_release
      (hdistinct hp.distinct a c' hP)).makeDurable durable
    exact ⟨hreleased.precedes.trans hprecedes, c', hP, hq⟩
  | failed permitted padded host =>
    exact ⟨host.precedes, permitted, hp.of_sameHost host (hp.holds.padded padded) hp.distinct⟩
  | @undurable a s cause q post host refused padded =>
    -- A commit fails only if something is in the way of the image.
    have hE := hp.durable.resolve_right fun hunhindered => by
      have hreleased : (s.pool.release s.freedOffsets).Unhindered := hunhindered.of_sameHost
        ⟨host.id, host.options, host.image, host.size, host.budget⟩
      obtain ⟨image', hdurable', -⟩ := hreleased.exists_makeDurable
      cases hdurable'.symm.trans refused
    -- What has been released before the commit is taken back, so the contents are as before.
    have hhost := hback rfl
    exact ⟨hhost.precedes, hE cause, hp.of_sameHost hhost (hp.holds.padded padded) hp.distinct⟩

/-- **The place of a pool that is closed** is again one of an image. -/
theorem stores_close (hp : p.Serves E room c)
    (haside : ∀ place, p.image = some place → place.aside.Stores) (hclose : p.close = some place) :
    place.Stores := by
  have hplace : ∀ {q : Pool} {c'}, q.Serves E 0 c' → p.Precedes q → q.image = some place →
      place.Stores := fun hq hpq himage => ⟨hq.stored place himage, hpq.stores_aside haside himage⟩
  unfold Pool.close at hclose
  split at hclose
  · cases hcheckpoint : p.checkpoint with
    | ok q =>
      rw [hcheckpoint] at hclose
      exact hplace (hp.checkpoint hcheckpoint).2 (hp.checkpoint hcheckpoint).1 hclose
    | error cause =>
      rw [hcheckpoint] at hclose
      -- The place is left as it was before the last checkpoint was attempted.
      exact hplace hp.spent (.refl p) hclose
  · exact hplace hp.spent (.refl p) hclose

end Serves

end Pool

/-- **A pool that keeps its contents** is ready for transactions of which none fails, so long as its
writes are not limited. -/
theorem Pool.Keeps.serves {p : Pool} {c : Contents} (hp : p.Keeps c) (hc : c.Distinct)
    (hbudget : p.writeBudget = none) : p.Serves (fun _ => False) 0 c where
  holds := hp.holds
  distinct := hc
  stored place himage bytes hbytes := by
    rcases (hp.stored place himage).kept with ⟨habsent, -⟩ | ⟨q, c', hq, hc', -, hfile⟩
    · rw [habsent] at hbytes
      cases hbytes
    · refine ⟨q, c', hq, ?_, Standing.file.inj (hbytes.symm.trans hfile)⟩
      unfold Pool.Images at hc'
      split at hc'
      · exact hc' ▸ hc
      · exact hc'.keys
  able := ⟨.inr hbudget, .inr p.size_le⟩
  durable := .inr ⟨hbudget, fun place h => (hp.stored place h).clear,
    fun place h => (hp.stored place h).standing_ne⟩

/-! ## Opening -/

/-- An image at the place is not too long to be read back. -/
def Standing.Short (standing : Standing) : Prop :=
  ∀ p : Pool, standing = .file p.toImage.encode → p.toImage.Storable

/-- A pool of which everything may fail, and what is in the way does not matter. -/
theorem Pool.Holds.serves {p : Pool} {c : Contents} (hp : p.Holds c) (hc : c.Distinct)
    (hstored : ∀ place, p.image = some place → place.standing.Stores) :
    p.Serves (fun _ => True) 0 c :=
  ⟨hp, hc, hstored, ⟨.inl trivial, .inl trivial⟩, .inl fun _ => trivial⟩

/-- **A pool that is opened** at the place of an image holds contents in which every key comes once. -/
theorem Location.Stores.exists_serves {place : Location} {options : PoolOptions} {fresh : UInt64}
    {p : Pool} (hstores : place.Stores) (hshort : place.standing.Short)
    (hopen : Pool.open place options fresh = .ok p) :
    (∃ c, p.Serves (fun _ => True) 0 c) ∧ ∀ place', p.image = some place' → place'.aside.Stores := by
  by_cases hd : options.durability = .none
  -- Without durability the place is left alone.
  · simp only [Pool.open, hd, Except.ok.injEq] at hopen
    subst hopen
    exact ⟨⟨{}, (Pool.holds_empty fresh options).serves List.nodup_nil nofun⟩, nofun⟩
  rw [Pool.open_eq hd] at hopen
  split at hopen
  · cases hopen
  · rename_i image hload
    -- There is a file already, and it is read back.
    obtain ⟨bytes, hbytes, hdecode⟩ := exists_files_of_load hload
    obtain ⟨q, c, hq, hc, rfl⟩ := hstores.standing bytes hbytes
    -- The bytes are those of an image, and a short image is decoded to what it is the image of.
    obtain rfl := Except.ok.inj ((Image.decode_encode rfl (hshort q hbytes)).symm.trans hdecode)
    rw [q.ofImage_toImage place options] at hopen
    obtain rfl := Except.ok.inj hopen
    refine ⟨⟨c, Pool.Holds.serves ⟨hq.root, hq.heap, hq.vacant.of_slots fun _ _ => rfl⟩ hc ?_⟩, ?_⟩
    · rintro _ ⟨⟩
      exact hstores.standing
    · rintro _ ⟨⟩
      exact hstores.aside
  · -- Nothing stands there yet: the pool is empty, and is written out.
    let q : Pool := { Pool.empty fresh options with image := some place }
    have hheld : q.Holds {} :=
      ⟨rfl, rfl, (Pool.holds_empty fresh options).vacant.of_slots fun _ _ => rfl⟩
    have hserves : q.Serves (fun _ => True) 0 {} := hheld.serves List.nodup_nil <| by
      rintro _ ⟨⟩
      exact hstores.standing
    cases hsave : q.save with
    | error cause => simp [q, hsave, Except.mapError] at hopen
    | ok r =>
      simp only [q, hsave, Except.mapError, Except.ok.injEq] at hopen
      subst hopen
      obtain ⟨hprecedes, hr⟩ := hserves.checkpoint hsave
      refine ⟨⟨{}, hr⟩, fun place' himage => hprecedes.stores_aside ?_ himage⟩
      rintro _ ⟨⟩
      exact hstores.aside

end PersistentTier
