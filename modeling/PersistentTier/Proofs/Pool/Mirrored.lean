import PersistentTier.Proofs.Pool.Durable
import PersistentTier.Proofs.Scope.Transaction

/-!
# The image is what has been committed

In the synchronous mode a pool and the file behind it never part company. A commit writes the file or
is taken back, and a scope that is given up leaves no trace but empty slots at the end of the arena.
So whenever no scope is open, the file is the image of a pool of which this one is a padded form, and
no handle can tell the two apart.

That rests on the free list. An image that lists an occupied slot is read without complaint, and an
allocation that is taken back then empties a slot which the file still has.

## Main definitions

* `Pool.Event`, `Pool.run`: what may happen to a pool and to its file between two scopes
* `Location.unobstructed`: a place once its file can be read
* `Location.Files`: the image of a pool at a place, or moved away from it
* `Pool.Mirrored`: a pool that is the padded form of what is in its file

## Main results

* `Pool.Mirrored.ended`: scopes keep a pool mirrored, however they end
* `Pool.exists_open_saved`: any pool is read back from its image
* `Pool.exists_open_alike`: what is opened from the file is what is in memory
-/

namespace PersistentTier

open Pool Scope

/-! ## What may happen to a pool -/

/-- How users end a scope. -/
inductive Ending
  | commit
  | abort
  | drop
  deriving DecidableEq

/-- **What may happen to a pool and to its file** while no scope is open. -/
inductive Pool.Event
  /-- A scope is opened, anything is attempted in it, and it is ended. -/
  | scope (ops : List Primitive) (ending : Ending)
  /-- An operation is run in a scope of its own. -/
  | transaction (tx : Tx Unit) (stepwise : tx.Stepwise)
  | checkpoint
  /-- From now on so many writes succeed before one fails, or none fails. -/
  | limit (budget : Option Nat)
  /-- From now on these steps of file access fail at the place of the image. -/
  | obstruct (steps : List FileStep)
  /-- The file is moved away, and a directory put in its place. -/
  | moveAside
  /-- The file is put back. -/
  | moveBack

namespace Pool

/-- The pool with its image at a changed place. -/
def atPlace (p : Pool) (change : Location → Location) : Pool :=
  { p with image := p.image.map change }

/-- The pool after a scope in which anything has been attempted. -/
def afterScope (p : Pool) (ops : List Primitive) : Ending → Pool
  | .commit => (Scope.attemptAll { pool := p } ops).commit.2
  | .abort | .drop => (Scope.attemptAll { pool := p } ops).rollback

/-- The pool after an event. A checkpoint that fails changes nothing. -/
def after (p : Pool) : Event → Pool
  | .scope ops ending => p.afterScope ops ending
  | .transaction tx _ => (p.transaction tx).2
  | .checkpoint => p.checkpoint.toOption.getD p
  | .limit budget => { p with writeBudget := budget }
  | .obstruct steps => p.atPlace fun place => { place with obstacles := steps }
  | .moveAside => p.atPlace Location.moveAside
  | .moveBack => p.atPlace Location.moveBack

/-- The pool after a run of events. -/
def run (p : Pool) (events : List Event) : Pool := events.foldl Pool.after p

/-- **Pools that no reader can tell apart.** -/
structure Alike (p q : Pool) : Prop where
  id : q.id = p.id
  root : q.root = p.root
  resolve : ∀ h, q.resolve h = p.resolve h

end Pool

/-! ## Files of images -/

namespace Location

/-- The place once its file can be read: it is put back, and nothing stands in the way. -/
def unobstructed (place : Location) : Location := { place.moveBack with obstacles := [] }

/-- **The image of a pool at a place**, or moved away from it. Either it has been read from there or
it has been written. -/
def Files (place : Location) (p : Pool) : Prop :=
  ∃ bytes, (place.standing = .file bytes ∨ place.standing = .directory ∧ place.aside = .file bytes) ∧
    (bytes = p.toImage.encode ∨ Image.decode bytes = .ok p.toImage)

variable {place : Location} {p : Pool}

theorem Files.moveAside (h : place.Files p) : place.moveAside.Files p := by
  obtain ⟨bytes, hbytes, hp⟩ := h
  refine ⟨bytes, .inr ?_, hp⟩
  rcases hbytes with hfile | ⟨hdirectory, haside⟩
  · simp [Location.moveAside, hfile]
  · simp [Location.moveAside, hdirectory, haside]

theorem Files.moveBack (h : place.Files p) : place.moveBack.Files p := by
  obtain ⟨bytes, hbytes, hp⟩ := h
  refine ⟨bytes, .inl ?_, hp⟩
  rcases hbytes with hfile | ⟨hdirectory, haside⟩
  · simp [Location.moveBack, hfile]
  · simp [Location.moveBack, hdirectory, haside]

theorem Files.obstruct (h : place.Files p) (steps : List FileStep) :
    Files { place with obstacles := steps } p := h

/-- The image of a pool can be read, if it is short enough, once nothing stands in the way. -/
theorem Files.exists_decode (h : place.Files p) (hp : p.toImage.Storable) :
    ∃ bytes, place.unobstructed.standing = .file bytes ∧ Image.decode bytes = .ok p.toImage := by
  obtain ⟨bytes, hbytes, hread⟩ := h
  refine ⟨bytes, ?_, ?_⟩
  · rcases hbytes with hfile | ⟨hdirectory, haside⟩
    · simp [unobstructed, Location.moveBack, hfile]
    · simp [unobstructed, Location.moveBack, hdirectory, haside]
  · rcases hread with rfl | hread
    · exact Image.decode_encode rfl hp
    · exact hread

/-- The image of a pool is loaded, once nothing stands in the way. -/
theorem Files.load_unobstructed (h : place.Files p) (hp : p.toImage.Storable) :
    Image.load place.unobstructed = .ok (some p.toImage) := by
  obtain ⟨bytes, hbytes, hdecode⟩ := h.exists_decode hp
  exact Image.load_eq rfl hbytes hdecode

/-- The pool is opened from its image, once nothing stands in the way. -/
theorem Files.open_unobstructed (h : place.Files p) (hp : p.toImage.Storable) {options : PoolOptions}
    (hd : options.durability ≠ .none) (fresh : UInt64) :
    Pool.open place.unobstructed options fresh = .ok (p.loaded place.unobstructed options) :=
  Pool.open_of_load (h.load_unobstructed hp) hd fresh

end Location

namespace Pool

variable {p q : Pool} {s : Scope} {place place' : Location} {options : PoolOptions}

/-- What comes of two steps has come of the first one. -/
theorem exists_of_bind_eq_ok {ε α β : Type} {x : Except ε α} {f : α → Except ε β} {b : β}
    (h : x >>= f = .ok b) : ∃ a, x = .ok a ∧ f a = .ok b := by
  cases x with
  | error e => cases h
  | ok a => exact ⟨a, rfl, h⟩

/-- An image that is installed is in its place, and nothing else has changed there. -/
theorem install_eq {image : Image} (h : install image place = .ok place') :
    place' = { place with standing := .file image.encode } := by
  unfold install at h
  obtain ⟨-, -, h⟩ := exists_of_bind_eq_ok h
  obtain ⟨-, -, h⟩ := exists_of_bind_eq_ok h
  obtain ⟨-, -, h⟩ := exists_of_bind_eq_ok h
  obtain ⟨-, -, h⟩ := exists_of_bind_eq_ok h
  obtain ⟨-, -, h⟩ := exists_of_bind_eq_ok h
  exact (Except.ok.inj h).symm

/-- **What writing an image does**: if it succeeds, the image is in its place. -/
theorem exists_files_of_save (himage : p.image = some place) (hsave : p.save = .ok q) :
    ∃ place', q = { p with image := some place' } ∧ place'.Files q := by
  simp only [save, himage] at hsave
  obtain ⟨place', hinstall, hq⟩ := exists_of_bind_eq_ok hsave
  obtain rfl := Except.ok.inj hq
  refine ⟨place', rfl, p.toImage.encode, .inl ?_, .inl rfl⟩
  rw [install_eq hinstall]

/-- **A pool is read back from its image**, whatever it holds and whatever its free list names, if its
lists and its payloads are short enough. Nothing but an obstacle at its place keeps it from being
written, and once the file can be read, what is opened from it is the pool that was written. -/
theorem exists_open_saved (himage : p.image = some place) (hp : p.toImage.Storable)
    (hd : options.durability ≠ .none) (fresh : UInt64) :
    (place.obstacles = [] → place.standing ≠ .directory → ∃ q, p.save = .ok q) ∧
      ∀ q, p.save = .ok q → ∃ place' r, q = { p with image := some place' } ∧
        place'.standing = .file p.toImage.encode ∧
        Image.load place'.unobstructed = .ok (some p.toImage) ∧
        Pool.open place'.unobstructed options fresh = .ok r ∧
        r.id = p.id ∧ r.root = p.root ∧ r.slots = p.slots ∧ r.free = p.free := by
  refine ⟨fun hclear hstanding => ⟨_, save_eq himage hclear hstanding⟩, fun q hsave => ?_⟩
  simp only [save, himage] at hsave
  obtain ⟨place', hinstall, hq⟩ := exists_of_bind_eq_ok hsave
  obtain rfl := Except.ok.inj hq
  obtain rfl := install_eq hinstall
  -- The file that was written is at its place, and its bytes are those of the image.
  have hfiles : Location.Files { place with standing := .file p.toImage.encode } p :=
    ⟨p.toImage.encode, .inl rfl, .inl rfl⟩
  exact ⟨_, _, rfl, rfl, hfiles.load_unobstructed hp, hfiles.open_unobstructed hp hd fresh, rfl, rfl,
    rfl, rfl⟩

/-- A pool with a slot of every kind and a free list that names what it likes. -/
theorem exists_open_saved_assorted :
    let node : EntryNode := { key := ⟨9, 3⟩, value := ⟨8, 70000⟩, prev := some ⟨9, 300⟩, chain := .victims }
    let p : Pool := {
      id := 0xffffffffffffffff
      root := { entryLast := some ⟨9, 2⟩, activeBuffer := .b, victimCount := 5000000000, logCount := 200 }
      slots := #[none, some (.entry node), some (.payload (List.replicate 20 200)),
        some (.log { command := ⟨0, 0⟩, next := some ⟨1, 128⟩ }), none]
      free := [5, 2, 2, 65536]
      image := some { standing := .file [0xc1] } }
    p.toImage.Storable ∧ ∃ q place r, p.save = .ok q ∧ q.image = some place ∧
      Pool.open place.unobstructed { durability := .async } 0 = .ok r ∧
      r.id = p.id ∧ r.root = p.root ∧ r.slots = p.slots ∧ r.free = p.free := by
  intro node p
  have hp : p.toImage.Storable :=
    ⟨by decide, by decide, by simp [p, toImage, Object.Storable]⟩
  have himage : p.image = some { standing := .file [0xc1] } := rfl
  have hd : ({ durability := .async } : PoolOptions).durability ≠ .none := by decide
  obtain ⟨hsaves, hread⟩ := exists_open_saved himage hp hd 0
  obtain ⟨q, hsave⟩ := hsaves rfl (by decide)
  obtain ⟨place, r, hq, -, -, hopen, hsame⟩ := hread q hsave
  exact ⟨hp, q, place, r, hsave, by rw [hq], hopen, hsame⟩

/-! ## Mirrored pools -/

/-- **A mirrored pool**, in the synchronous mode: it is the padded form of the pool in its file. The
free list of that pool names empty slots, each once. -/
structure Mirrored (p : Pool) : Prop where
  sync : p.options.durability = .sync
  filed : ∃ place q, p.image = some place ∧ place.Files q ∧ q.Vacant q.free ∧
    Padded { q with image := p.image } p

/-- A pool that has just been written is mirrored. -/
theorem mirrored_of_save (hsync : p.options.durability = .sync) (hfree : p.Vacant p.free)
    (himage : p.image = some place) (hsave : p.save = .ok q) : q.Mirrored := by
  obtain ⟨place', rfl, hfiles⟩ := exists_files_of_save himage hsave
  exact ⟨hsync, place', _, rfl, hfiles, hfree.of_slots fun _ _ => rfl, .refl _⟩

namespace Mirrored

/-- The free list of a mirrored pool names empty slots. -/
theorem vacant (hp : p.Mirrored) : p.Vacant p.free := by
  obtain ⟨place, q, -, -, hfree, n, hn⟩ := hp.filed
  exact hn.vacant_free (hfree.of_slots fun _ _ => rfl)

/-- A mirrored pool that is padded stays mirrored. -/
theorem padded (hp : p.Mirrored) (hpq : Padded p q) : q.Mirrored := by
  obtain ⟨place, r, himage, hfiles, hfree, hr⟩ := hp.filed
  obtain ⟨n, hn⟩ := hpq
  refine ⟨hn.options ▸ hp.sync, place, r, hn.image ▸ himage, hfiles, hfree, ?_⟩
  rw [hn.image]
  exact hr.trans ⟨n, hn⟩

/-- What happens to the file leaves a pool mirrored so long as the image stays there. -/
theorem atPlace (hp : p.Mirrored) {change : Location → Location}
    (hchange : ∀ place q, Location.Files place q → (change place).Files q) :
    (p.atPlace change).Mirrored := by
  obtain ⟨place, q, himage, hfiles, hfree, n, hn⟩ := hp.filed
  refine ⟨hp.sync, change place, q, by simp [Pool.atPlace, himage], hchange place q hfiles, hfree, n, ?_⟩
  exact ⟨hn.id, hn.root, rfl, hn.options, hn.slots, hn.free⟩

/-- A checkpoint leaves a pool mirrored, whether it succeeds or not. -/
theorem checkpoint (hp : p.Mirrored) : (p.checkpoint.toOption.getD p).Mirrored := by
  obtain ⟨place, -, himage, -⟩ := hp.filed
  cases hsave : p.checkpoint with
  | error cause => exact hp
  | ok q => exact mirrored_of_save hp.sync hp.vacant himage hsave

/-- **However a scope ends**, it leaves a mirrored pool mirrored. -/
theorem ended (hp : p.Mirrored) (hsteps : Steps { pool := p } s) :
    s.rollback.Mirrored ∧ s.commit.2.Mirrored := by
  have hsince := since_of_steps (since_begin hp.vacant) hsteps
  have hhost := sameHost_of_steps hsteps
  have hrollback : s.rollback.Mirrored := hp.padded hsince.padded
  refine ⟨hrollback, ?_⟩
  obtain ⟨place, -, himage, -⟩ := hp.filed
  rcases s.commit_snd_cases with hback | hcommit
  · exact hback ▸ hrollback
  · -- The commit has written the image, and what the scope has freed is listed in it.
    have hsync : (s.pool.release s.freedOffsets).options.durability = .sync :=
      hhost.options ▸ hp.sync
    have hsaved : (s.pool.release s.freedOffsets).save = .ok s.commit.2 := by
      generalize s.commit.2 = q at hcommit ⊢
      simp only [Scope.commit, makeDurable, hsync] at hcommit
      split at hcommit
      · rename_i q' hq'
        obtain ⟨-, rfl⟩ := Prod.mk.inj hcommit
        exact hq'
      · simp at hcommit
    exact mirrored_of_save hsync (hsince.sound.vacant.of_slots fun _ _ => rfl)
      (hhost.image.trans himage) hsaved

theorem afterScope (hp : p.Mirrored) (ops : List Primitive) (ending : Ending) :
    (p.afterScope ops ending).Mirrored := by
  have hended := hp.ended (steps_attemptAll { pool := p } ops)
  cases ending with
  | commit => exact hended.2
  | abort | drop => exact hended.1

/-- A transaction leaves a mirrored pool mirrored, whatever its outcome. -/
theorem transaction (hp : p.Mirrored) {α : Type} {tx : Tx α} (htx : tx.Stepwise) :
    (p.transaction tx).2.Mirrored := by
  obtain ⟨s, hsteps, hend⟩ := p.exists_steps_transaction htx
  rcases hend with hend | hend
  · exact hend ▸ (hp.ended hsteps).1
  · exact hend ▸ (hp.ended hsteps).2

/-- **Every event leaves a mirrored pool mirrored.** -/
theorem after (hp : p.Mirrored) (event : Event) : (p.after event).Mirrored := by
  cases event with
  | scope ops ending => exact hp.afterScope ops ending
  | transaction tx stepwise => exact hp.transaction stepwise
  | checkpoint => exact hp.checkpoint
  | limit budget => exact hp.padded ⟨0, paddedBy_writeBudget p budget⟩
  | obstruct steps => exact hp.atPlace fun _ _ h => h.obstruct steps
  | moveAside => exact hp.atPlace fun _ _ h => h.moveAside
  | moveBack => exact hp.atPlace fun _ _ h => h.moveBack

theorem run (hp : p.Mirrored) (events : List Event) : (p.run events).Mirrored := by
  induction events generalizing p with
  | nil => exact hp
  | cons event events ih => exact ih (hp.after event)

end Mirrored

/-! ## Opening -/

/-- The image that is read at a place, if any is. -/
theorem exists_files_of_load {image : Image} (h : Image.load place = .ok (some image)) :
    ∃ bytes, place.standing = .file bytes ∧ Image.decode bytes = .ok image := by
  unfold Image.load at h
  split at h
  · cases h
  · obtain ⟨-, -, h⟩ := exists_of_bind_eq_ok h
    cases h
  · rename_i bytes hbytes
    obtain ⟨-, -, h⟩ := exists_of_bind_eq_ok h
    obtain ⟨-, -, h⟩ := exists_of_bind_eq_ok h
    split at h
    · rename_i image' himage'
      cases h
      exact ⟨bytes, hbytes, himage'⟩
    · cases h

/-- An image that is read is of the current version. -/
theorem version_of_decode {bytes : Bytes} {image : Image} (h : Image.decode bytes = .ok image) :
    image.version = formatVersion := by
  unfold Image.decode at h
  split at h
  · cases h
  · split at h
    · rename_i hversion
      exact Except.ok.inj h ▸ hversion
    · cases h

/-- **A pool that has been opened is mirrored**, if the slots that it lists as free are empty. -/
theorem mirrored_of_open {fresh : UInt64} (hopen : Pool.open place options fresh = .ok p)
    (hsync : options.durability = .sync) (hfree : p.Vacant p.free) : p.Mirrored := by
  rw [Pool.open_eq (by simp [hsync])] at hopen
  split at hopen
  · cases hopen
  · rename_i image hload
    obtain ⟨bytes, hbytes, hdecode⟩ := exists_files_of_load hload
    unfold ofImage at hopen
    split at hopen
    · cases hopen
      refine ⟨hsync, place, _, rfl, ⟨bytes, .inl hbytes, .inr ?_⟩, hfree, .refl _⟩
      simpa [toImage, ← version_of_decode hdecode] using hdecode
    · cases hopen
  · cases hsave : ({ empty fresh options with image := some place } : Pool).save with
    | error cause => simp [hsave, Except.mapError] at hopen
    | ok q =>
      simp only [hsave, Except.mapError, Except.ok.injEq] at hopen
      subst hopen
      have hempty : ({ empty fresh options with image := some place } : Pool).Vacant [] :=
        ⟨List.nodup_nil, fun _ h => absurd h List.not_mem_nil⟩
      exact mirrored_of_save hsync hempty rfl hsave

/-- What a padded pool can store the other one can. -/
theorem PaddedBy.storable {n : Nat} (hpq : PaddedBy n p q) (hq : q.toImage.Storable) :
    p.toImage.Storable := by
  have hslots : p.slots.size ≤ q.slots.size := hpq.size_eq ▸ Nat.le_add_right _ _
  have hfree := congrArg List.length hpq.free
  rw [List.length_append] at hfree
  have hslots' := hq.slots
  have hfree' := hq.free
  simp only [toImage, Array.length_toList, List.length_reverse] at hslots' hfree'
  refine ⟨?_, ?_, fun a ha => hq.objects a ?_⟩
  · simp only [toImage, Array.length_toList]
    omega
  · simp only [toImage, List.length_reverse]
    omega
  · simp only [toImage] at ha ⊢
    rw [hpq.slots]
    exact List.mem_append_left _ ha

/-- **The image is what has been committed.** Whatever has been done in scopes and however they have
ended, whichever writes were refused and whichever steps of file access failed: once the file can be
read, it decodes to an image with the id and the root of the pool, and every handle resolves in the
pool that is opened from it to what it resolves to in memory. The pool was opened with a free list of
empty slots, each of them listed once. -/
theorem exists_open_alike {p₀ : Pool} {fresh : UInt64}
    (hopen : Pool.open place options fresh = .ok p₀) (hsync : options.durability = .sync)
    (hfree : p₀.Vacant p₀.free) (events : List Event) (hstorable : (p₀.run events).toImage.Storable)
    (fresh' : UInt64) :
    ∃ place' bytes image q, (p₀.run events).image = some place' ∧
      place'.unobstructed.standing = .file bytes ∧ Image.decode bytes = .ok image ∧
      image.id = (p₀.run events).id ∧ image.root = (p₀.run events).root ∧
      Pool.open place'.unobstructed options fresh' = .ok q ∧ (p₀.run events).Alike q := by
  have hmirrored := (mirrored_of_open hopen hsync hfree).run events
  generalize p₀.run events = p at hmirrored hstorable ⊢
  obtain ⟨place', q, himage, hfiles, -, n, hn⟩ := hmirrored.filed
  have hq : q.toImage.Storable := hn.storable hstorable
  obtain ⟨bytes, hbytes, hdecode⟩ := hfiles.exists_decode hq
  have hd : options.durability ≠ .none := by simp [hsync]
  refine ⟨place', bytes, q.toImage, q.loaded place'.unobstructed options, himage, hbytes, hdecode,
    hn.id.symm, hn.root.symm, hfiles.open_unobstructed hq hd fresh', hn.id.symm, hn.root.symm,
    fun h => ?_⟩
  have hobject : p.object? h = q.object? h := hn.object?_eq h
  simp only [Pool.resolve, hobject]
  rfl

/-- A pool with one object and one slot to be used again. -/
def vacated : Pool where
  id := 9
  slots := #[some (.payload [97]), none]
  free := [2]

/-- The place of the image of a pool. -/
def filed (p : Pool) : Location := { standing := .file p.toImage.encode }

/-- A write is refused, a scope is aborted, the image cannot be written, the file is away for a while,
and in the end a scope is committed. -/
def troubles : List Event :=
  [.limit (some 1), .scope [.record ⟨9, 1⟩, .alloc (.payload [98]), .free ⟨9, 1⟩] .drop,
    .scope [.alloc (.payload [98]), .alloc (.payload [99]), .free ⟨9, 1⟩] .abort,
    .obstruct [.syncImage], .scope [.alloc (.payload [98]), .alloc (.payload [99])] .commit,
    .obstruct [], .moveAside, .transaction (Tx.free ⟨9, 1⟩) (.free _), .moveBack,
    .scope [.free ⟨9, 1⟩, .alloc (.payload [100])] .commit, .checkpoint]

theorem exists_open_alike_troubled :
    let p₀ := vacated.loaded vacated.filed {}
    let p := p₀.run troubles
    Pool.open vacated.filed {} 0 = .ok p₀ ∧ p₀.Vacant p₀.free ∧ p.toImage.Storable ∧
      p.slots = #[none, some (.payload [100]), none] ∧
      ∃ place bytes image q, p.image = some place ∧ place.unobstructed.standing = .file bytes ∧
        Image.decode bytes = .ok image ∧ image.id = p.id ∧ image.root = p.root ∧
        Pool.open place.unobstructed {} 0 = .ok q ∧ p.Alike q := by
  intro p₀ p
  have hopen : Pool.open vacated.filed {} 0 = .ok p₀ := by decide +kernel
  have hfree : p₀.Vacant p₀.free := ⟨by decide, by simp [p₀, loaded, vacated]⟩
  have hslots : p.slots = #[none, some (.payload [100]), none] := by decide +kernel
  have hlisted : p.free.length = 2 := by decide +kernel
  have hstorable : p.toImage.Storable :=
    ⟨by simp [toImage, hslots], by simp [toImage, hlisted], by simp [toImage, hslots, Object.Storable]⟩
  exact ⟨hopen, hfree, hstorable, hslots,
    exists_open_alike hopen rfl hfree troubles hstorable 0⟩

/-- A pool whose only slot is occupied, and listed as free all the same. -/
def overlisted : Pool where
  id := 9
  slots := #[some (.payload [97])]
  free := [1]

/-- **A slot that is occupied and listed as free** is lost in memory when an allocation is taken back.
The file still has its object. -/
theorem not_alike_overlisted :
    let p := (overlisted.loaded overlisted.filed {}).run [.scope [.alloc (.payload [98])] .abort]
    ∃ q, Pool.open overlisted.filed {} 0 = .ok (overlisted.loaded overlisted.filed {}) ∧
      p.toImage.Storable ∧ p.image = some overlisted.filed ∧
      Pool.open overlisted.filed.unobstructed {} 0 = .ok q ∧ ¬ p.Alike q ∧
      q.resolve ⟨9, 1⟩ = .ok (.payload [97]) ∧
      p.resolve ⟨9, 1⟩ = .error (.invalidHandle ⟨9, 1⟩) := by
  intro p
  have hslots : p.slots = #[none] := by decide +kernel
  have hlisted : p.free.length = 1 := by decide +kernel
  have hlost : p.resolve ⟨9, 1⟩ = .error (.invalidHandle ⟨9, 1⟩) := by decide +kernel
  have hfiled : (overlisted.loaded overlisted.filed {}).resolve ⟨9, 1⟩ = .ok (.payload [97]) := by
    decide +kernel
  refine ⟨overlisted.loaded overlisted.filed {}, by decide +kernel, ?_, by decide +kernel,
    by decide +kernel, fun halike => ?_, hfiled, hlost⟩
  · exact ⟨by simp [toImage, hslots], by simp [toImage, hlisted], by simp [toImage, hslots]⟩
  · have hresolve := halike.resolve ⟨9, 1⟩
    rw [hfiled, hlost] at hresolve
    cases hresolve

end Pool

end PersistentTier
