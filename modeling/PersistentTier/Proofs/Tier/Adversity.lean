import PersistentTier.Proofs.Startup.Hindered
import PersistentTier.Proofs.Tier.Enduring

/-!
# Sites in adversity

At a site where anything may go wrong, writes are refused, file access is obstructed, the image is moved
away for a while, the append-only file is changed by others, and the process is killed. All the same every
key comes once in the pool of the tier that is open, and in the image that is opened next; and the index
tallies with the pool.

## Main definitions

* `Mishap`, `Site.befall`: what befalls a site from outside
* `Site.Beset`: the sites that users and mishaps lead to
* `Site.Steady`: what holds of every such site

## Main results

* `Tier.coherent_of_open`: a tier that is opened is coherent
* `Site.Beset.steady`: every such site is steady
-/

namespace PersistentTier

open Ledger

/-! ## Opening and closing -/

namespace Tier

variable {settings : Settings} {volume : Volume} {fresh seed : UInt64}

/-- **Closing a pool leaves the place of an image.** A pool in memory leaves the one that was there. -/
theorem stores_release {E : Failure → Prop} {room : Nat} {c : Contents} {p : Pool}
    (hp : p.Serves E room c) (haside : ∀ place, p.image = some place → place.aside.Stores)
    (hvolume : volume.image.Stores) (file : Option AppendFile) :
    (release volume (some p) file).image.Stores := by
  simp only [release, Option.bind_some]
  cases hclose : p.close with
  | none => exact hvolume
  | some place => exact hp.stores_close haside hclose

/-- The pool that a tier is opened with holds contents in which every key comes once. -/
theorem exists_serves_openPool {p : Pool} (hvolume : volume.image.Stores)
    (hshort : volume.image.standing.Short) (hopen : openPool settings volume fresh = .ok p) :
    (∃ c, p.Serves (fun _ => True) 0 c) ∧ ∀ place, p.image = some place → place.aside.Stores := by
  unfold openPool at hopen
  split at hopen
  · exact hvolume.exists_serves hshort hopen
  · obtain rfl := Except.ok.inj hopen
    exact ⟨⟨{}, (Pool.holds_empty fresh _).serves List.nodup_nil nofun⟩, nofun⟩

/-- **A tier that is opened is coherent**, whatever the file holds. If it is not opened, what is left is
again the place of an image. -/
theorem coherent_of_open (settings : Settings) (hvolume : volume.image.Stores)
    (hshort : volume.image.standing.Short) (fresh seed : UInt64) :
    match Tier.open settings volume fresh seed with
    | (.ok t, v) => v = volume ∧ t.Coherent ∧ ∀ place, t.pool.image = some place → place.aside.Stores
    | (.error _, v) => v.image.Stores := by
  cases hvalid : settings.validate with
  | error fault =>
    simp only [Tier.open, hvalid]
    exact hvolume
  | ok =>
  cases hpool : openPool settings volume fresh with
  | error e =>
    simp only [Tier.open, hvalid, hpool]
    exact hvolume
  | ok p =>
  obtain ⟨⟨c, hp⟩, haside⟩ := exists_serves_openPool hvolume hshort hpool
  cases hfile : openFile settings volume with
  | error e =>
    simp only [Tier.open, hvalid, hpool, hfile]
    exact stores_release hp haside hvolume none
  | ok f =>
  cases hread : f.readAll with
  | error cause =>
    simp only [Tier.open, hvalid, hpool, hfile, hread]
    exact stores_release hp haside hvolume _
  | ok loaded =>
  have hstartup := Startup.attains_everything ⟨p, loaded.foldl Index.apply Index.empty, f⟩ c hp
    (nodeless_empty.foldl_apply loaded)
  cases hrun : (Startup.everything fileReplayer).run ⟨p, loaded.foldl Index.apply Index.empty, f⟩ with
  | error e s =>
    rw [hrun] at hstartup
    obtain ⟨hprecedes, c', hs⟩ := hstartup
    -- The pool is closed as far as the startup got, and its place is one of an image again.
    simp only [Tier.open, hvalid, hpool, hfile, hread, hrun]
    exact stores_release hs (fun _ => hprecedes.stores_aside haside) hvolume _
  | ok report s =>
    rw [hrun] at hstartup
    obtain ⟨hprecedes, c', hs, htallies⟩ := hstartup
    rw [open_eq hvalid hpool hfile hread hrun]
    exact ⟨rfl, ⟨⟨c', s.index, s.replayer, _, settings⟩, ⟨hs, rfl, rfl, rfl, rfl⟩, htallies⟩,
      fun _ => hprecedes.stores_aside haside⟩

end Tier

/-! ## Mishaps -/

/-- **What befalls a site** from outside. -/
inductive Mishap
  /-- From now on these steps of file access fail at the place of the image. -/
  | obstruct (steps : List FileStep)
  /-- The image is moved away, and a directory put in its place. -/
  | moveAside
  /-- The image is put back. -/
  | moveBack
  /-- Something happens to the append-only file, on the volume and as the tier has it open. -/
  | file (onVolume : Location → Location) (whileOpen : AppendFile → AppendFile)
  /-- The process is killed. -/
  | kill

namespace Site

/-- The site with its image at a changed place. -/
def atImage (s : Site) (change : Location → Location) : Site where
  volume := { s.volume with image := change s.volume.image }
  tier := s.tier.map fun t => { t with pool := t.pool.atPlace change }
  drains := s.drains

/-- The site after a mishap. -/
def befall (s : Site) : Mishap → Site
  | .obstruct steps => s.atImage fun place => { place with obstacles := steps }
  | .moveAside => s.atImage Location.moveAside
  | .moveBack => s.atImage Location.moveBack
  | .file onVolume whileOpen =>
    { s with
      volume := { s.volume with file := onVolume s.volume.file }
      tier := s.tier.map fun t => { t with file := whileOpen t.file } }
  | .kill => {
      volume := {
        image := (s.tier.bind fun t => t.pool.image).getD s.volume.image
        file := (s.tier.bind fun t => t.file.place).getD s.volume.file } }

/-- **The sites that users and mishaps lead to**, from a blank one on, so long as the image is not too
long to be read back. -/
inductive Beset : Site → Prop
  | blank : Beset {}
  | operate {s : Site} (before : s.Beset) (op : Operation) : Beset (s.operate op)
  | restart {s : Site} (before : s.Beset) (short : s.closed.image.standing.Short)
      (settings : Settings) (fresh seed : UInt64) : Beset (s.restart settings fresh seed)
  | befall {s : Site} (before : s.Beset) (mishap : Mishap) : Beset (s.befall mishap)

/-- **A site that is steady**: what is at the place of the image may be there, and so may what has been
moved away from it; and the tier that is open is coherent. -/
structure Steady (s : Site) : Prop where
  image : s.volume.image.Stores
  tier : ∀ t, s.tier = some t →
    t.Coherent ∧ ∀ place, t.pool.image = some place → place.aside.Stores

namespace Steady

variable {s : Site}

/-- **Every operation keeps a site steady**, however it ends. -/
theorem operate (hs : s.Steady) (op : Operation) : (s.operate op).Steady := by
  unfold Site.operate
  cases ht : s.tier with
  | none => exact hs
  | some t =>
    obtain ⟨hcoherent, haside⟩ := hs.tier t ht
    have hends := (op.endures s.drains).coherent hcoherent
    dsimp only
    cases hrun : (op.call s.drains).run t with
    | ok _ t' | error _ t' =>
      rw [hrun] at hends
      refine ⟨hs.image, ?_⟩
      rintro _ ⟨⟩
      exact ⟨hends.2, fun _ => hends.1.stores_aside haside⟩

/-- Closing leaves the place of an image. -/
theorem closed (hs : s.Steady) : s.closed.image.Stores := by
  unfold Site.closed
  split
  · rename_i t ht
    obtain ⟨⟨S, hdisplays, -⟩, haside⟩ := hs.tier t ht
    exact Tier.stores_release hdisplays.pool haside hs.image _
  · exact hs.image

/-- **Every restart keeps a site steady**, whether a tier is opened or not. -/
theorem restart (hs : s.Steady) (hshort : s.closed.image.standing.Short) (settings : Settings)
    (fresh seed : UInt64) : (s.restart settings fresh seed).Steady := by
  have hopen := Tier.coherent_of_open settings hs.closed hshort fresh seed
  unfold Site.restart
  generalize Tier.open settings s.closed fresh seed = out at hopen ⊢
  obtain ⟨e | t, v⟩ := out
  · exact ⟨hopen, fun _ h => by cases h⟩
  · obtain ⟨rfl, hcoherent, haside⟩ := hopen
    refine ⟨hs.closed, ?_⟩
    rintro _ ⟨⟩
    exact ⟨hcoherent, haside⟩

/-- What happens to the place of the image keeps a site steady so long as images stay there. -/
theorem atImage (hs : s.Steady) {change : Location → Location}
    (hchange : ∀ place, Location.Stores place → (change place).Stores) : (s.atImage change).Steady := by
  refine ⟨hchange _ hs.image, fun t' ht' => ?_⟩
  obtain ⟨t, ht, rfl⟩ := Option.map_eq_some_iff.1 ht'
  obtain ⟨⟨S, hdisplays, hS⟩, haside⟩ := hs.tier t ht
  have hstores : ∀ place, t.pool.image.map change = some place → place.Stores := by
    intro place himage
    obtain ⟨place', himage', rfl⟩ := Option.map_eq_some_iff.1 himage
    exact hchange place' ⟨hdisplays.pool.stored place' himage', haside place' himage'⟩
  have hheld : (t.pool.atPlace change).Holds S.contents :=
    ⟨hdisplays.pool.holds.root, hdisplays.pool.holds.heap,
      hdisplays.pool.holds.vacant.of_slots fun _ _ => rfl⟩
  have hserves := hheld.serves hdisplays.pool.distinct fun place h => (hstores place h).standing
  exact ⟨⟨S, { hdisplays with pool := hserves }, hS⟩, fun place h => (hstores place h).aside⟩

/-- **Every mishap keeps a site steady.** -/
theorem befall (hs : s.Steady) (mishap : Mishap) : (s.befall mishap).Steady := by
  cases mishap with
  | obstruct steps => exact hs.atImage fun _ h => h.obstruct steps
  | moveAside => exact hs.atImage fun _ h => h.moveAside
  | moveBack => exact hs.atImage fun _ h => h.moveBack
  | file onVolume whileOpen =>
    refine ⟨hs.image, fun t' ht' => ?_⟩
    obtain ⟨t, ht, rfl⟩ := Option.map_eq_some_iff.1 ht'
    obtain ⟨⟨S, hdisplays, hS⟩, haside⟩ := hs.tier t ht
    exact ⟨⟨{ S with file := whileOpen t.file }, { hdisplays with file := rfl }, hS⟩, haside⟩
  | kill =>
    refine ⟨?_, fun _ h => by cases h⟩
    simp only [Site.befall]
    cases ht : s.tier with
    | none => exact hs.image
    | some t =>
      -- Nothing is written in the end, so what is left is the image of the last commit.
      obtain ⟨⟨S, hdisplays, -⟩, haside⟩ := hs.tier t ht
      rw [Option.bind_some]
      cases himage : t.pool.image with
      | none => exact hs.image
      | some place => exact ⟨hdisplays.pool.stored place himage, haside place himage⟩

end Steady

/-- **Every site that users and mishaps lead to is steady.** -/
theorem Beset.steady {s : Site} (hs : s.Beset) : s.Steady := by
  induction hs with
  | blank => exact ⟨.blank, fun _ h => by cases h⟩
  | operate _ op ih => exact ih.operate op
  | restart _ short settings fresh seed ih => exact ih.restart short settings fresh seed
  | befall _ mishap ih => exact ih.befall mishap

end Site

end PersistentTier
