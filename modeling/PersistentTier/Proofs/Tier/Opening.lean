import PersistentTier.Proofs.Tier.Startup

/-!
# Opening and closing

A tier is opened on a volume whose places keep the contents of a pool and the commands of a file, and
closing it leaves a volume of that kind. Which of the places matter depends on the settings. Under
durable settings both do, and closing leaves exactly what the tier shows.

## Main definitions

* `Settings.Durable`: settings under which everything is on disk once an operation has succeeded
* `Settings.mode`: how a tier of given settings is used
* `Volume.Keeps`: what the places of a volume keep
* `Volume.Sound`: a volume on which a tier can be opened

## Main results

* `Settings.validate_of_differ`: settings with a file are accepted as those without it
* `Volume.Keeps.exists_open`: opening succeeds, and the tier shows the ledger of a restart
* `Tier.Shows.close`, `Tier.Shows.sound_close`: what closing leaves
-/

namespace PersistentTier

open Ledger

/-- **Settings under which everything is on disk** once an operation has succeeded: an image and a
file at two places, both written synchronously. -/
structure Settings.Durable (settings : Settings) : Prop where
  valid : settings.validate = .ok ()
  image : settings.poolPath.isSome
  file : settings.filePath.isSome
  sync : settings.durability = .sync

/-! ## Settings that are accepted -/

/-- A name of one character, which is not a slash, is its only component. -/
theorem PathName.splitOn_of_next {s : String} (hstart : String.Pos.Raw.atEnd s 0 = false)
    (hslash : String.Pos.Raw.get s 0 ≠ '/')
    (hend : String.Pos.Raw.atEnd s (String.Pos.Raw.next s 0) = true)
    (hall : String.Pos.Raw.extract s 0 (String.Pos.Raw.next s 0) = s) : s.splitOn "/" = [s] := by
  have hget : String.Pos.Raw.get "/" 0 = '/' := by decide +kernel
  have hnext : s.splitOnAux "/" 0 (String.Pos.Raw.next s 0) 0 [] = [s] := by
    rw [String.splitOnAux, if_pos hend]
    exact congrArg ([·]) hall
  rw [String.splitOn, if_neg (by decide), String.splitOnAux, if_neg (Bool.eq_false_iff.1 hstart),
    if_neg (by simpa [hget] using hslash)]
  exact hnext

/-- The names that the image and the file are given where a run on a fixed volume is looked at. -/
theorem PathName.same_p_f : same "p" "f" = false := by
  have himage : "p".splitOn "/" = ["p"] := by apply splitOn_of_next <;> decide +kernel
  have hfile : "f".splitOn "/" = ["f"] := by apply splitOn_of_next <;> decide +kernel
  rw [same, components, components, himage, hfile]
  decide +kernel

/-- A file at a path of its own changes nothing about settings that are accepted. -/
theorem Settings.validate_of_differ {settings : Settings} (hpaths : settings.samePaths = false)
    (hrest : ({ settings with filePath := none } : Settings).validate = .ok ()) :
    settings.validate = .ok () := by
  have hnone : ({ settings with filePath := none } : Settings).samePaths = false := by
    cases settings.poolPath <;> rfl
  simpa only [validate, hnone, hpaths] using hrest

/-! ## Volumes -/

/-- **How a tier of given settings is used** on a volume. Its operations may fail in any way. -/
def Settings.mode (settings : Settings) (volume : Volume) : Tier.Mode where
  fails _ := True
  live := settings.filePath.isSome ∧ settings.durability ≠ .none
  place := settings.filePath.map fun _ => volume.file
  imaged := settings.poolPath.isSome ∧ settings.durability = .sync
  batches := settings.policy = .lru

theorem Settings.faulty_mode (settings : Settings) (volume : Volume) :
    (settings.mode volume).Faulty := fun _ => trivial

/-- **A volume that keeps** the image of a pool with contents of which `P` holds, and a file of
commands. -/
structure Volume.Keeps (volume : Volume) (bound : Nat) (P : Contents → Prop) (cmds : List Command) :
    Prop where
  image : volume.image.Keeps bound P
  file : volume.file.FileReady cmds

/-- **A volume on which a tier can be opened.** -/
def Volume.Sound (volume : Volume) : Prop :=
  ∃ bound cmds, volume.Keeps bound Contents.Regular cmds ∧ bound < 2 ^ 32 ∧ ∀ cmd ∈ cmds, cmd.Fits

/-- Before anything is written, a volume keeps the empty contents and no commands. -/
theorem Volume.keeps_blank {P : Contents → Prop} (hP : P {}) :
    Volume.Keeps {} 0 P [] where
  image := ⟨rfl, .inl ⟨rfl, hP⟩⟩
  file := ⟨rfl, .inr ⟨rfl, rfl⟩⟩

theorem Volume.sound_blank : Volume.Sound {} :=
  ⟨0, [], keeps_blank Contents.regular_empty, by decide, fun _ h => absurd h List.not_mem_nil⟩

variable {settings : Settings} {volume : Volume} {bound : Nat} {P : Contents → Prop}
  {cmds : List Command}

/-! ## Opening -/

/-- A tier is opened once its parts are and the startup has succeeded. -/
theorem Tier.open_eq {p : Pool} {f : AppendFile} {report : StartupReport} {s : Startup AppendFile}
    {fresh : UInt64} (hvalid : settings.validate = .ok ())
    (hpool : openPool settings volume fresh = .ok p) (hfile : openFile settings volume = .ok f)
    (hread : f.readAll = .ok cmds)
    (hrun : (Startup.everything fileReplayer).run ⟨p, cmds.foldl Index.apply Index.empty, f⟩ =
      .ok report s) (seed : UInt64) :
    Tier.open settings volume fresh seed = (.ok {
      settings := settings
      pool := s.pool
      index := s.index
      file := s.replayer
      policy := .ofKind settings.policy (settings.seed.getD seed)
      report := report }, volume) := by
  simp only [Tier.open, hvalid, hpool, hfile, hread, hrun]

/-- **The pool is opened**, from its image or empty. -/
theorem Volume.Keeps.exists_openPool (hvolume : volume.Keeps bound P cmds) (hbound : bound < 2 ^ 32)
    (hP : ∀ c, P c → c.Regular) (settings : Settings) (fresh : UInt64) :
    ∃ p c, Tier.openPool settings volume fresh = .ok p ∧ p.Keeps c ∧ c.Regular ∧
      p.writeBudget = none ∧ ((settings.mode volume).imaged →
        p.image.isSome ∧ p.options.durability = .sync ∧ P c) := by
  have hempty : (Pool.empty fresh settings.poolOptions).Keeps {} :=
    ⟨Pool.holds_empty fresh _, fun _ h => by cases h⟩
  unfold Tier.openPool
  cases hpath : settings.poolPath with
  | none =>
    refine ⟨_, {}, rfl, hempty, Contents.regular_empty, rfl, fun h => ?_⟩
    simp [Settings.mode, hpath] at h
  | some path =>
    by_cases hd : settings.durability = .none
    -- Without durability the image is not even looked at.
    · have hopen : Pool.open volume.image settings.poolOptions fresh =
          .ok (.empty fresh settings.poolOptions) := by
        simp only [Pool.open, Settings.poolOptions, hd]
      refine ⟨_, {}, hopen, hempty, Contents.regular_empty, rfl, fun h => ?_⟩
      simp [Settings.mode, hd] at h
    · have hopens : settings.poolOptions.durability ≠ .none := hd
      obtain ⟨p, c, hopen, hc, hp, himage, hoptions, hbudget, -⟩ :=
        hvolume.image.exists_open hbound hP hopens fresh
      exact ⟨p, c, hopen, hp, hP c hc, hbudget, fun h => ⟨himage, by rw [hoptions]; exact h.2, hc⟩⟩

/-- **The file is opened**, and the commands in it are read. -/
theorem Volume.Keeps.exists_openFile (hvolume : volume.Keeps bound P cmds)
    (hcmds : ∀ cmd ∈ cmds, cmd.Fits) (settings : Settings) :
    ∃ f filed, Tier.openFile settings volume = .ok f ∧ f.readAll = .ok filed ∧
      f.Carries (settings.mode volume).live filed ∧ (∀ cmd ∈ filed, cmd.Fits) ∧
      ((settings.mode volume).live = false → f.place = (settings.mode volume).place) ∧
      ((settings.mode volume).live = true → filed = cmds) := by
  unfold Tier.openFile
  cases hpath : settings.filePath with
  | none =>
    have hlive : (settings.mode volume).live = false := by simp [Settings.mode, hpath]
    have hplace : (settings.mode volume).place = none := by simp [Settings.mode, hpath]
    rw [hlive, hplace]
    exact ⟨_, [], rfl, rfl, AppendFile.carries_disabled [], by simp, fun _ => rfl, by simp⟩
  | some path =>
    have hplace : (settings.mode volume).place = some volume.file := by simp [Settings.mode, hpath]
    by_cases hd : settings.durability = .none
    · have hlive : (settings.mode volume).live = false := by simp [Settings.mode, hd]
      obtain ⟨f, hopen, hf, -, hf'⟩ := AppendFile.open_none hvolume.file []
      rw [hlive, hplace, hd]
      exact ⟨f, [], by simp only [hopen]; rfl, AppendFile.readAll_idle hf, hf, by simp,
        fun _ => hf', by simp⟩
    · have hlive : (settings.mode volume).live = true := by simp [Settings.mode, hpath, hd]
      obtain ⟨f, hopen, hf, -, hread⟩ := AppendFile.open_live hvolume.file hcmds hd
      rw [hlive]
      exact ⟨f, cmds, by simp only [hopen]; rfl, hread, hf, hcmds, by simp, fun _ => rfl⟩

/-- **Opening succeeds**, and the tier shows the ledger of a restart, with no limit to its writes. Under
durable settings that is one from what the volume keeps. -/
theorem Volume.Keeps.exists_open (hvolume : volume.Keeps bound P cmds) (hbound : bound < 2 ^ 32)
    (hP : ∀ c, P c → c.Regular) (hcmds : ∀ cmd ∈ cmds, cmd.Fits)
    (hvalid : settings.validate = .ok ()) (fresh seed : UInt64) :
    ∃ t c filed, Tier.open settings volume fresh seed = (.ok t, volume) ∧
      t.Shows (settings.mode volume) 0 (restarted c filed) ∧ t.pool.writeBudget = none ∧ c.Regular ∧
      (∀ cmd ∈ filed, cmd.Fits) ∧ (settings.Durable → P c ∧ filed = cmds) := by
  obtain ⟨p, c, hpool, hp, hc, hbudget, himaged⟩ := hvolume.exists_openPool hbound hP settings fresh
  obtain ⟨f, filed, hfile, hread, hf, hfiled, hplace, hlive⟩ :=
    hvolume.exists_openFile hcmds settings
  have hparts : Tier.Parts (settings.mode volume) ⟨c, filed.foldl Index.apply Index.empty, filed⟩ p
      (filed.foldl Index.apply Index.empty) f :=
    ⟨hp, rfl, hf, hplace, fun h => ⟨(himaged h).1, (himaged h).2.1⟩⟩
  obtain ⟨report, hstartup⟩ := Startup.yields_everything (settings.mode volume) hc filed
  obtain ⟨s, hrun, hs⟩ := hstartup ⟨p, _, f⟩ ⟨hparts, hbudget⟩
  have hbatches : (Policy.ofKind settings.policy (settings.seed.getD seed)).supportsBatches =
      (settings.mode volume).batches := by
    simp only [Settings.mode]
    cases settings.policy <;> rfl
  refine ⟨_, c, filed, Tier.open_eq hvalid hpool hfile hread hrun seed,
    ⟨hs.toParts, hbatches, .inl trivial, .inl trivial⟩, hs.budget, hc, hfiled, fun hdurable => ?_⟩
  refine ⟨(himaged ⟨hdurable.image, hdurable.sync⟩).2.2, hlive ?_⟩
  simp [Settings.mode, hdurable.file, hdurable.sync]

/-! ## Closing -/

/-- A pool that leaves an image has one. -/
theorem Pool.isSome_image_of_close {p : Pool} {place : Location} (hclose : p.close = some place) :
    p.image.isSome := by
  cases himage : p.image with
  | some => rfl
  | none =>
    have hnone : p.close = none := by
      unfold Pool.close
      split <;> simp [Pool.checkpoint, Pool.save, himage, Except.toOption]
    rw [hnone] at hclose
    cases hclose

namespace Tier

variable {m : Mode} {room : Nat} {L : Ledger} {t : Tier}

/-- **Closing leaves what the tier shows**, if it has an image and a file that are written. -/
theorem Shows.close (ht : t.Shows m room L) (hL : L.Agrees) (hlive : m.live = true)
    (himaged : m.imaged) (volume : Volume) :
    (t.close volume).Keeps t.pool.slots.size (fun c => c = L.contents) L.filed := by
  obtain ⟨himage, hsync⟩ := ht.imaged himaged
  obtain ⟨place, hplace⟩ := Option.isSome_iff_exists.1 himage
  have hclose : t.pool.close = some place := by simp only [Pool.close, hsync, hplace]
  obtain ⟨place', hclose', hready⟩ := AppendFile.Carries.close (hlive ▸ ht.file)
  have hkeeps := ht.pool.close hL.regular hclose
  constructor
  · simp only [Tier.close, release, Option.bind_some, hclose, Option.getD_some]
    exact hkeeps.mono (Nat.le_refl _) fun c hc => by simpa only [Pool.Images, hsync, if_true] using hc
  · simp only [Tier.close, release, Option.bind_some, hclose', Option.getD_some]
    exact hready

/-- An image that is longer than `2 ^ 32` slots would not be read back. -/
def Small (t : Tier) : Prop := t.pool.image.isSome → t.pool.slots.size < 2 ^ 32

instance (t : Tier) : Decidable t.Small :=
  inferInstanceAs (Decidable (t.pool.image.isSome → t.pool.slots.size < 2 ^ 32))

/-- **Closing leaves a sound volume**, whatever the settings. -/
theorem Shows.sound_close (ht : t.Shows (settings.mode volume) room L) (hL : L.Agrees)
    (hvolume : volume.Sound) (hsmall : t.Small) : (t.close volume).Sound := by
  obtain ⟨bound, cmds, hkeeps, hbound, hcmds⟩ := hvolume
  have himage : ∃ bound, bound < 2 ^ 32 ∧
      (t.close volume).image.Keeps bound Contents.Regular := by
    simp only [Tier.close, release, Option.bind_some]
    cases hclose : t.pool.close with
    | none => exact ⟨bound, hbound, hkeeps.image⟩
    | some place =>
      refine ⟨_, hsmall (Pool.isSome_image_of_close hclose),
        (ht.pool.close hL.regular hclose).mono (Nat.le_refl _) fun c hc => ?_⟩
      unfold Pool.Images at hc
      split at hc
      · exact hc ▸ hL.regular
      · exact hc
  -- A file that is not written is as it was found, or there is none.
  have hfile : ∃ cmds, (∀ cmd ∈ cmds, cmd.Fits) ∧ (t.close volume).file.FileReady cmds := by
    simp only [Tier.close, release, Option.bind_some]
    cases hlive : (settings.mode volume).live with
    | true =>
      obtain ⟨place, hclose, hready⟩ := AppendFile.Carries.close (hlive ▸ ht.file)
      rw [hclose]
      exact ⟨L.filed, hL.filed, hready⟩
    | false =>
      rw [AppendFile.Carries.close_idle (hlive ▸ ht.file), ht.place hlive]
      cases hpath : settings.filePath with
      | none => simpa [Settings.mode, hpath] using ⟨cmds, hcmds, hkeeps.file⟩
      | some path => simpa [Settings.mode, hpath] using ⟨cmds, hcmds, hkeeps.file⟩
  obtain ⟨bound', hbound', himage⟩ := himage
  obtain ⟨cmds', hcmds', hfile⟩ := hfile
  exact ⟨bound', cmds', ⟨himage, hfile⟩, hbound', hcmds'⟩

end Tier

end PersistentTier
