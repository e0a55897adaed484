import PersistentTier.Proofs.Pool.Mirrored
import PersistentTier.Proofs.Tier.Effects

/-!
# Replacements that fail

A writer follows its file wherever it is moved, and steps of file access may fail at any time. What is
in its way does not change what a writer does, so long as it succeeds: it does then what it does to a
file at its path with nothing in its way. So commands that have been appended and synced are in the
file, whatever became of the file in between.

A replacement that fails before the new file is put in place leaves the file as it was. The writer is
given up before that step, though. If the new file cannot be installed then, or cannot be opened, the
file is left without a writer: whatever is appended or drained from there on is discarded, and nobody
is told.

## Main definitions

* `Location.Offers`: the content of the file that a writer holds
* `AppendFile.SeenAs`: a file as its writer sees it
* `FileOp.Undeterred`: an operation that does not depend on what is in its way, if it succeeds
* `FileEvent`: what may happen to an open file
* `AppendFile.Settled`: a file that has synced given commands, wherever it is
* `AppendFile.Continues`, `AppendFile.Discards`: files after a replacement that failed

## Main results

* `undeterred_appendEncoded`, `undeterred_sync`: what is in the way of a writer makes no difference
* `AppendFile.Bears.performAll`: commands that are appended and synced are in the file
* `AppendFile.compactTo_failed`: what a replacement that fails leaves behind
* `Tier.turns_completeDrain_discarding`: a drain is completed although nothing is written
-/

namespace PersistentTier

/-! ## Files that are held open -/

/-- **The content of the file that a writer holds**: a file at the path, one that was moved away from
there with a directory in its place, or one without a name. -/
inductive Location.Offers (content : Bytes) : Location → Target → Prop
  | atPath (aside : Standing) (obstacles : List FileStep) :
    Offers content ⟨.file content, aside, obstacles⟩ .atPath
  | aside (obstacles : List FileStep) :
    Offers content ⟨.directory, .file content, obstacles⟩ .aside
  | unlinked (place : Location) : Offers content place (.unlinked content)

namespace Location

variable {place place' : Location} {step : FileStep} {content : Bytes} {cause : Cause}

/-- A step that fails because it is obstructed. -/
theorem attempt_eq_error (h : place.attempt step = .error cause) :
    cause = .io (.failed step .inputOutput) := by
  unfold attempt at h
  split at h <;> cases h
  rfl

/-- The first of some steps that fails. -/
theorem forM_attempt_eq_error {steps : List FileStep} (h : steps.forM place.attempt = .error cause) :
    ∃ step ∈ steps, cause = .io (.failed step .inputOutput) := by
  induction steps with
  | nil => cases h
  | cons step steps ih =>
    change (place.attempt step >>= fun _ => steps.forM place.attempt) = .error cause at h
    cases hfirst : place.attempt step with
    | error cause' =>
      rw [hfirst] at h
      obtain rfl : cause' = cause := Except.error.inj h
      exact ⟨step, List.mem_cons_self, attempt_eq_error hfirst⟩
    | ok =>
      rw [hfirst] at h
      obtain ⟨step', hstep', hcause⟩ := ih h
      exact ⟨step', List.mem_cons_of_mem step hstep', hcause⟩

theorem install_eq_error (h : place.install step content = .error cause) :
    ∃ reason, cause = .io (.failed step reason) := by
  have honFile : place.attemptOnFile step = .error cause := by
    cases honFile : place.attemptOnFile step with
    | error cause' => simpa [install, honFile, bind, Except.bind] using h
    | ok => simp [install, honFile, bind, Except.bind, pure, Except.pure] at h
  unfold attemptOnFile at honFile
  split at honFile
  · exact ⟨.isDirectory, (Except.error.inj honFile).symm⟩
  · exact ⟨.inputOutput, attempt_eq_error honFile⟩

theorem install_eq_ok (h : place.install step content = .ok place') :
    place' = { place with standing := .file content } := by
  obtain ⟨_, -, h⟩ := Pool.exists_of_bind_eq_ok h
  exact (Except.ok.inj h).symm

end Location

namespace Location.Offers

variable {content : Bytes} {place : Location} {target : Target}

theorem append (h : place.Offers content target) (bytes : Bytes) :
    (place.append target bytes).1.Offers (content ++ bytes) (place.append target bytes).2 := by
  cases h with
  | atPath aside obstacles => exact .atPath aside obstacles
  | aside obstacles => exact .aside obstacles
  | unlinked place => exact .unlinked place

theorem obstruct (h : place.Offers content target) (steps : List FileStep) :
    Offers content { place with obstacles := steps } target := by
  cases h with
  | atPath aside obstacles => exact .atPath aside steps
  | aside obstacles => exact .aside steps
  | unlinked place => exact .unlinked _

theorem moveAside (h : place.Offers content target) :
    place.moveAside.Offers content target.movedAside := by
  cases h with
  | atPath aside obstacles => exact .aside obstacles
  | aside obstacles => exact .aside obstacles
  | unlinked place => exact .unlinked _

theorem moveBack (h : place.Offers content target) :
    place.moveBack.Offers content target.movedBack := by
  cases h with
  | atPath aside obstacles => exact .atPath aside obstacles
  | aside obstacles => exact .atPath .absent obstacles
  | unlinked place => exact .unlinked _

theorem unlink (h : place.Offers content target) :
    place.unlink.Offers content (target.afterUnlink place) := by
  cases h with
  | atPath aside obstacles => exact .unlinked _
  | aside obstacles => exact .aside obstacles
  | unlinked place => exact .unlinked _

/-- A file that has a name is at its path once it can be read. -/
theorem standing_unobstructed (h : place.Offers content target)
    (hnamed : ∀ bytes, target ≠ .unlinked bytes) : place.unobstructed.standing = .file content := by
  cases h with
  | atPath aside obstacles => rfl
  | aside obstacles => rfl
  | unlinked place => exact absurd rfl (hnamed content)

end Location.Offers

namespace AppendFile

/-- **A file as its writer sees it**: at its path, with nothing in the way. -/
inductive SeenAs : AppendFile → AppendFile → Prop
  | held {place : Location} {target : Target} {content : Bytes} (pending : Bytes)
      (durability : Durability) (n : Nat) (offers : place.Offers content target) :
      SeenAs ⟨some place, some ⟨target, pending⟩, durability, n⟩
        (opened content pending .absent durability n)

end AppendFile

namespace AppendFile.SeenAs

variable {f f₀ : AppendFile}

theorem obstruct (h : f.SeenAs f₀) (steps : List FileStep) :
    (f.withPlace fun place => { place with obstacles := steps }).SeenAs f₀ := by
  cases h with
  | held pending durability n offers => exact .held pending durability n (offers.obstruct steps)

theorem moveAside (h : f.SeenAs f₀) : f.moveAside.SeenAs f₀ := by
  cases h with
  | held pending durability n offers => exact .held pending durability n offers.moveAside

theorem moveBack (h : f.SeenAs f₀) : f.moveBack.SeenAs f₀ := by
  cases h with
  | held pending durability n offers => exact .held pending durability n offers.moveBack

theorem unlink (h : f.SeenAs f₀) : f.unlink.SeenAs f₀ := by
  cases h with
  | held pending durability n offers => exact .held pending durability n offers.unlink

end AppendFile.SeenAs

open AppendFile

/-! ## What is in the way -/

/-- What has come of two steps has come of the first one. -/
theorem FileOp.exists_of_bind_eq_ok {α β : Type} {act : FileOp α} {next : α → FileOp β} {b : β}
    {f g : AppendFile} (h : (act >>= next).run f = .ok b g) :
    ∃ a f', act.run f = .ok a f' ∧ (next a).run f' = .ok b g := by
  rw [EStateM.run_bind] at h
  cases hfirst : act.run f with
  | error cause f' => simp [hfirst] at h
  | ok a f' =>
    rw [hfirst] at h
    exact ⟨a, f', rfl, h⟩

/-- **An operation that is undeterred**: where it succeeds, it does what it does when nothing is in
its way. -/
def FileOp.Undeterred {α : Type} (act : FileOp α) : Prop :=
  ∀ ⦃f f₀ a g⦄, f.SeenAs f₀ → act.run f = .ok a g → ∃ g₀, act.run f₀ = .ok a g₀ ∧ g.SeenAs g₀

namespace FileOp.Undeterred

variable {α β : Type} {act : FileOp α} {next : α → FileOp β} {f f₀ : AppendFile}

theorem pure (a : α) : FileOp.Undeterred (Pure.pure a) := by
  rintro f f₀ _ _ hf ⟨⟩
  exact ⟨f₀, rfl, hf⟩

theorem bind (hact : act.Undeterred) (hnext : ∀ a, (next a).Undeterred) :
    (act >>= next).Undeterred := by
  intro f f₀ b h hf hrun
  obtain ⟨a, g, hfirst, hsecond⟩ := FileOp.exists_of_bind_eq_ok hrun
  obtain ⟨g₀, hfirst₀, hg⟩ := hact hf hfirst
  obtain ⟨h₀, hsecond₀, hh⟩ := hnext a hg hsecond
  exact ⟨h₀, by rw [EStateM.run_bind, hfirst₀]; exact hsecond₀, hh⟩

/-- What goes by the file, but not by what is in its way. -/
theorem get {next : AppendFile → FileOp α} (hnext : ∀ f, (next f).Undeterred)
    (hsame : ∀ ⦃f f₀⦄, f.SeenAs f₀ → next f₀ = next f) : (MonadState.get >>= next).Undeterred := by
  intro f f₀ a g hf hrun
  obtain ⟨g₀, hrun₀, hg⟩ := hnext f hf hrun
  exact ⟨g₀, by rw [← hrun₀, ← hsame hf]; rfl, hg⟩

theorem ite {p : Prop} [Decidable p] {other : FileOp α} (hact : act.Undeterred)
    (hother : other.Undeterred) : (if p then act else other).Undeterred := by
  split
  · exact hact
  · exact hother

theorem forM {σ : Type} {write : σ → FileOp Unit} (items : List σ)
    (hwrite : ∀ x, (write x).Undeterred) : (items.forM write).Undeterred := by
  induction items with
  | nil => exact .pure ()
  | cons x items ih => exact (hwrite x).bind fun _ => ih

end FileOp.Undeterred

namespace AppendFile

/-! ## Writing in spite of obstacles -/

section Writing

variable (step : FileStep) (bytes record : Bytes)

theorem undeterred_writeThrough : (writeThrough step bytes).Undeterred := by
  intro f f₀ a g hf hrun
  cases hf with
  | @held place target content pending durability n offers =>
    simp only [writeThrough, EStateM.run] at hrun
    cases hattempt : place.attempt step with
    | error cause => simp [hattempt] at hrun
    | ok =>
      rw [hattempt] at hrun
      cases hrun
      exact ⟨_, rfl, .held pending durability n (offers.append bytes)⟩

theorem undeterred_setPending (change : Bytes → Bytes) : (setPending change).Undeterred := by
  rintro f f₀ a g ⟨pending, durability, n, offers⟩ ⟨⟩
  exact ⟨_, rfl, .held (change pending) durability n offers⟩

theorem undeterred_flushBuffer : (flushBuffer step).Undeterred := by
  refine .get (fun f => ?_) ?_
  · cases f.writer with
    | none => exact .pure ()
    | some writer =>
      have hflush := (undeterred_writeThrough step writer.pending).bind
        fun _ => undeterred_setPending fun _ => []
      exact .ite (.pure ()) hflush
  -- Whether and what to write is settled by the buffer alone.
  · rintro f f₀ ⟨⟩
    rfl

theorem undeterred_makeRoom : (makeRoom bytes).Undeterred := by
  refine .get (fun f => ?_) ?_
  · cases f.writer with
    | none => exact .pure ()
    | some writer => exact .ite (undeterred_flushBuffer .writeLog) (.pure ())
  · rintro f f₀ ⟨⟩
    rfl

theorem undeterred_put : (put bytes).Undeterred :=
  (undeterred_makeRoom bytes).bind fun _ =>
    .ite (undeterred_writeThrough .writeLog bytes) (undeterred_setPending _)

/-- A record is counted. -/
theorem undeterred_count : (modify fun f : AppendFile =>
    { f with recordsSinceCompaction := f.recordsSinceCompaction + 1 } : FileOp Unit).Undeterred := by
  rintro f f₀ a g ⟨pending, durability, n, offers⟩ ⟨⟩
  exact ⟨_, rfl, .held pending durability (n + 1) offers⟩

theorem undeterred_appendEncoded : (appendEncoded record).Undeterred := by
  refine .get (fun f => .ite ?_ (.pure ())) ?_
  · exact (undeterred_put _).bind fun _ => (undeterred_put record).bind fun _ => undeterred_count
  · rintro f f₀ ⟨⟩
    rfl

/-- A sync gets through to stable storage, or it fails. -/
theorem undeterred_sync : sync.Undeterred := by
  refine .get (fun f => .ite ((undeterred_flushBuffer .flushLog).bind fun _ => ?_) (.pure ())) ?_
  -- What is left is to reach stable storage, which changes nothing.
  · intro f f₀ a g hf hrun
    cases hf with
    | @held place target content pending durability n offers =>
      simp only [EStateM.run_bind, EStateM.run_get] at hrun ⊢
      have hsame : g = ⟨some place, some ⟨target, pending⟩, durability, n⟩ := by
        split at hrun
        · split at hrun <;> cases hrun
          rfl
        · cases hrun
          rfl
      subst hsame
      refine ⟨_, ?_, .held pending durability n offers⟩
      cases durability <;> rfl
  · rintro f f₀ ⟨⟩
    rfl

end Writing

end AppendFile

/-! ## Events -/

/-- **What may happen to an open file**: its users append to it and sync it, and others get at it. -/
inductive FileEvent
  | append (c : Command)
  /-- A generation is drained to the file, which is synced then. -/
  | drain (cmds : List Command)
  | sync
  /-- From now on these steps of file access fail. -/
  | obstruct (steps : List FileStep)
  | moveAside
  | moveBack
  | unlink
  deriving DecidableEq, Repr

namespace FileEvent

/-- Performs an event. -/
def perform : FileEvent → FileOp Unit
  | append c => AppendFile.append c
  | drain cmds => Tier.fileEncoded (cmds.map Command.encode)
  | sync => AppendFile.sync
  | obstruct steps => modify fun f => f.withPlace fun place => { place with obstacles := steps }
  | moveAside => modify AppendFile.moveAside
  | moveBack => modify AppendFile.moveBack
  | unlink => modify AppendFile.unlink

/-- The commands that are handed to the file. -/
def commands : FileEvent → List Command
  | append c => [c]
  | drain cmds => cmds
  | sync | obstruct _ | moveAside | moveBack | unlink => []

/-- What others make of the place. -/
def displace : FileEvent → Location → Location
  | append _ | drain _ | sync => id
  | obstruct steps => fun place => { place with obstacles := steps }
  | moveAside => Location.moveAside
  | moveBack => Location.moveBack
  | unlink => Location.unlink

/-- Events one after another, and a sync at last. -/
def performAll (events : List FileEvent) : FileOp Unit := do
  events.forM perform
  AppendFile.sync

theorem performAll_cons (e : FileEvent) (events : List FileEvent) :
    performAll (e :: events) = e.perform >>= fun _ => performAll events := bind_assoc e.perform _ _

end FileEvent

open FileEvent

namespace AppendFile

variable {f f₀ f' g : AppendFile} {cs cs' cmds : List Command} {cause : Cause}

/-- **A file with a writer** that has been handed given commands. Some may wait in the writer's
buffer. -/
def Bears (cs : List Command) (f : AppendFile) : Prop := ∃ f₀, f.SeenAs f₀ ∧ f₀.Carries true cs

/-- **A file with a writer** that has synced given commands, wherever the file is and whatever is in
its way. -/
def Settled (cs : List Command) (f : AppendFile) : Prop :=
  ∃ durability n, durability ≠ .none ∧ f.SeenAs (opened (frames cs) [] .absent durability n)

/-- A file that has a path. -/
def Named (f : AppendFile) : Prop := ∀ writer ∈ f.writer, ∀ content, writer.target ≠ .unlinked content

theorem Settled.bears (hf : f.Settled cs) : f.Bears cs := by
  obtain ⟨durability, n, hd, hseen⟩ := hf
  exact ⟨_, hseen, .live .absent n hd (List.append_nil _)⟩

theorem Settled.exists_held (hf : f.Settled cs) :
    ∃ place target, f.place = some place ∧ f.writer = some ⟨target, []⟩ ∧ f.durability ≠ .none ∧
      place.Offers (frames cs) target := by
  obtain ⟨durability, n, hd, hseen⟩ := hf
  cases hseen with
  | @held place target _ _ _ _ offers => exact ⟨place, target, rfl, rfl, hd, offers⟩

theorem Settled.isEnabled (hf : f.Settled cs) : f.isEnabled = true := by
  obtain ⟨place, target, -, hwriter, -, -⟩ := hf.exists_held
  rw [AppendFile.isEnabled, hwriter]
  rfl

/-- **Synced commands are read** from a file that has a path, once it can be read there. -/
theorem Settled.readAll_unobstructed (hf : f.Settled cs) (hnamed : f.Named) (hcs : ∀ c ∈ cs, c.Fits) :
    (f.withPlace Location.unobstructed).readAll = .ok cs := by
  obtain ⟨place, target, hplace, hwriter, hd, offers⟩ := hf.exists_held
  have hstanding : place.unobstructed.standing = .file (frames cs) :=
    offers.standing_unobstructed (hnamed _ hwriter)
  have hclear : ∀ step, place.unobstructed.attempt step = .ok () := fun step => by
    simp [Location.attempt, Location.unobstructed]
  simp only [readAll, withPlace, hplace, Option.map_some, if_neg hd, hstanding, hclear]
  exact readFrames_frames hcs

/-- What succeeds does to the commands what it does when nothing is in the way. -/
theorem Bears.yields {α : Type} {act : FileOp α} {a b : α} (hf : f.Bears cs) (hact : act.Undeterred)
    (hyields : FileOp.Yields true cs act a cs') (hrun : act.run f = .ok b g) : g.Bears cs' := by
  obtain ⟨f₀, hseen, hcarries⟩ := hf
  obtain ⟨g₀, hrun₀, hg⟩ := hact hseen hrun
  obtain ⟨g₁, hrun₁, hg₁, -⟩ := hyields f₀ hcarries
  obtain ⟨-, rfl⟩ : b = a ∧ g₀ = g₁ := by
    rw [hrun₀] at hrun₁
    cases hrun₁
    exact ⟨rfl, rfl⟩
  exact ⟨g₀, hg, hg₁⟩

/-- What others do to the file does not take commands from it. -/
theorem Bears.displaced (hf : f.Bears cs) {move : AppendFile → AppendFile}
    (hmove : ∀ ⦃f f₀⦄, f.SeenAs f₀ → (move f).SeenAs f₀)
    (hrun : (modify move : FileOp Unit).run f = .ok () g) : g.Bears cs := by
  obtain ⟨f₀, hseen, hcarries⟩ := hf
  cases hrun
  exact ⟨f₀, hmove hseen, hcarries⟩

/-- **An event that succeeds** adds its commands. -/
theorem Bears.perform (hf : f.Bears cs) (e : FileEvent) (hrun : e.perform.run f = .ok () g) :
    g.Bears (cs ++ e.commands) := by
  cases e with
  | append c => exact hf.yields (undeterred_appendEncoded _) (yields_append c) hrun
  | drain records =>
    exact hf.yields (.bind (.forM _ undeterred_appendEncoded) fun _ => undeterred_sync)
      (FileOp.yields_fileEncoded cs records) hrun
  | sync =>
    rw [commands, List.append_nil]
    exact hf.yields undeterred_sync yields_sync hrun
  -- The writer follows its file.
  | obstruct steps =>
    rw [commands, List.append_nil]
    exact hf.displaced (fun _ _ h => h.obstruct steps) hrun
  | moveAside =>
    rw [commands, List.append_nil]
    exact hf.displaced (fun _ _ h => h.moveAside) hrun
  | moveBack =>
    rw [commands, List.append_nil]
    exact hf.displaced (fun _ _ h => h.moveBack) hrun
  | unlink =>
    rw [commands, List.append_nil]
    exact hf.displaced (fun _ _ h => h.unlink) hrun

/-- A sync that succeeds settles all commands. -/
theorem Bears.settled (hf : f.Bears cs) (hrun : sync.run f = .ok () g) : g.Settled cs := by
  obtain ⟨f₀, hseen, hcarries⟩ := hf
  cases hseen with
  | @held place target content pending durability n offers =>
    obtain ⟨g₀, hrun₀, hg⟩ := undeterred_sync (.held pending durability n offers) hrun
    cases hcarries with
    | live _ _ on holds =>
      -- With nothing in its way the sync moves the buffer to the file.
      rw [run_sync, holds] at hrun₀
      cases hrun₀
      exact ⟨durability, n, on, hg⟩

/-- Events one after another, whatever they do to the place. -/
theorem Bears.performAll (hf : f.Bears cs) {events : List FileEvent}
    (hrun : (performAll events).run f = .ok () g) : g.Settled (cs ++ events.flatMap commands) := by
  induction events generalizing f cs with
  | nil =>
    rw [List.flatMap_nil, List.append_nil]
    exact hf.settled hrun
  | cons e events ih =>
    rw [performAll_cons] at hrun
    obtain ⟨_, f', hfirst, hrest⟩ := FileOp.exists_of_bind_eq_ok hrun
    rw [List.flatMap_cons, ← List.append_assoc]
    exact ih (hf.perform e hfirst) hrest

/-! ## Replacements that fail -/

/-- **A file that goes on**: what is appended to it and synced comes behind the commands that it has
synced already, whatever happens in between. -/
structure Continues (cs : List Command) (f : AppendFile) : Prop where
  enabled : f.isEnabled = true
  settled : ∀ events g, (performAll events).run f = .ok () g →
    g.Settled (cs ++ events.flatMap commands)
  read : ∀ events g, (performAll events).run f = .ok () g → g.Named →
    (∀ c ∈ cs ++ events.flatMap commands, c.Fits) →
      (g.withPlace Location.unobstructed).readAll = .ok (cs ++ events.flatMap commands)

/-- **A file that discards** all that it is handed, and reports success. Only others change its
place. -/
structure Discards (f : AppendFile) : Prop where
  disabled : f.isEnabled = false
  run : ∀ events, (performAll events).run f =
    .ok () (f.withPlace fun place => events.foldl (fun place e => e.displace place) place)

theorem Settled.continues (hf : f.Settled cs) : f.Continues cs where
  enabled := hf.isEnabled
  settled _ _ hrun := hf.bears.performAll hrun
  read _ _ hrun hnamed hfits := (hf.bears.performAll hrun).readAll_unobstructed hnamed hfits

/-- Without a writer records are discarded. -/
theorem run_fileEncoded_of_writer_eq_none (hf : f.writer = none) (records : List Bytes) :
    (Tier.fileEncoded records).run f = .ok () f := by
  obtain ⟨place, writer, durability, n⟩ := f
  obtain rfl : writer = none := hf
  induction records with
  | nil => rfl
  | cons record records ih => exact ih

/-- A file without a writer is changed by others only. -/
theorem run_perform_of_writer_eq_none (hf : f.writer = none) (e : FileEvent) :
    e.perform.run f = .ok () (f.withPlace e.displace) := by
  obtain ⟨place, writer, durability, n⟩ := f
  obtain rfl : writer = none := hf
  have hsame : (⟨place.map id, none, durability, n⟩ : AppendFile) = ⟨place, none, durability, n⟩ := by
    rw [Option.map_id, id]
  cases e with
  | append c | sync => exact congrArg (EStateM.Result.ok ()) hsame.symm
  | drain cmds =>
    exact (run_fileEncoded_of_writer_eq_none rfl _).trans (congrArg (EStateM.Result.ok ()) hsame.symm)
  | obstruct steps | moveAside | moveBack | unlink => rfl

theorem run_performAll_of_writer_eq_none (hf : f.writer = none) (events : List FileEvent) :
    (performAll events).run f =
      .ok () (f.withPlace fun place => events.foldl (fun place e => e.displace place) place) := by
  induction events generalizing f with
  | nil =>
    obtain ⟨place, writer, durability, n⟩ := f
    obtain rfl : writer = none := hf
    cases place <;> rfl
  | cons e events ih =>
    rw [performAll_cons, EStateM.run_bind, run_perform_of_writer_eq_none hf]
    have hwriter : (f.withPlace e.displace).writer = none := hf
    refine (ih hwriter).trans ?_
    simp [withPlace, Function.comp_def]

/-- **Without a writer** everything is discarded. -/
theorem discards_of_writer_eq_none (hf : f.writer = none) : f.Discards where
  disabled := by
    rw [AppendFile.isEnabled, hf]
    rfl
  run := run_performAll_of_writer_eq_none hf

/-- A sync of a file with nothing in the buffer changes nothing, whether it gets through or not. -/
theorem Settled.run_sync (hf : f.Settled cs) :
    sync.run f = .error (.io (.failed .syncLog .inputOutput)) f ∨ sync.run f = .ok () f := by
  obtain ⟨place, target, hplace, hwriter, -, -⟩ := hf.exists_held
  have hflush : (flushBuffer .flushLog).run f = .ok () f := by
    simp only [flushBuffer, EStateM.run_bind, EStateM.run_get, hwriter]
    rfl
  simp only [sync, EStateM.run_bind, EStateM.run_get, hf.isEnabled, if_true, hflush]
  split
  · simp only [hplace]
    cases hattempt : place.attempt .syncLog with
    | error cause =>
      rw [Location.attempt_eq_error hattempt]
      exact .inl rfl
    | ok => exact .inr rfl
  · exact .inr rfl

/-- The steps of a replacement, once the old file has been synced. -/
theorem run_compactTo {place : Location} (hplace : f.place = some place) (hd : f.durability ≠ .none)
    (hsync : sync.run f = .ok () f) :
    (compactTo cmds).run f =
      match [.createTempLog, .writeTempLog, .flushTempLog, .syncTempLog].forM place.attempt with
      | .error cause => .error cause f
      | .ok () =>
        match place.install .installLog (frames cmds) with
        | .error cause => .error cause { f with writer := none }
        | .ok place' =>
          match place'.attempt .reopenLog with
          | .error cause => .error cause { f with place := some place', writer := none }
          | .ok () => .ok cmds.length ⟨some place', some {}, f.durability, 0⟩ := by
  simp only [compactTo, EStateM.run_bind, EStateM.run_get, hplace, if_neg hd, hsync]
  rw [show (cmds.flatMap fun command => frame command.encode) = frames cmds from rfl]
  cases [FileStep.createTempLog, .writeTempLog, .flushTempLog, .syncTempLog].forM place.attempt with
  | error cause => rfl
  -- The new file is ready, and the writer is given up.
  | ok =>
    cases place.install .installLog (frames cmds) with
    | error cause => rfl
    | ok place' =>
      cases hreopen : place'.attempt .reopenLog with
      | error cause => simp only [hreopen]; rfl
      | ok => simp only [hreopen]; rfl

/-- **A replacement that fails.** Until the new file is installed a failure changes nothing, and the
file goes on. Once the writer has been given up it discards: the commands are still there if the new
file cannot be installed, and the new ones are there if it cannot be opened, but nothing comes
behind them. -/
theorem compactTo_failed (hf : f.Settled cs) (hrun : (compactTo cmds).run f = .error cause f') :
    ∃ step reason, cause = .io (.failed step reason) ∧
      ((step ∈ [.syncLog, .createTempLog, .writeTempLog, .flushTempLog, .syncTempLog] ∧ f' = f ∧
          f'.Continues cs) ∨
        (step = .installLog ∧ f' = { f with writer := none } ∧ f'.Discards) ∨
        (step = .reopenLog ∧ f'.Discards ∧ f' = { f with writer := none }.withPlace
          fun place => { place with standing := .file (frames cmds) })) := by
  obtain ⟨place, target, hplace, hwriter, hd, -⟩ := hf.exists_held
  rcases hf.run_sync with hsync | hsync
  · simp only [compactTo, EStateM.run_bind, EStateM.run_get, hplace, if_neg hd, hsync] at hrun
    cases hrun
    exact ⟨.syncLog, .inputOutput, rfl, .inl ⟨List.mem_cons_self, rfl, hf.continues⟩⟩
  rw [run_compactTo hplace hd hsync] at hrun
  split at hrun
  -- The new file has not been written.
  · rename_i cause' htemp
    obtain ⟨step, hstep, rfl⟩ := Location.forM_attempt_eq_error htemp
    cases hrun
    exact ⟨step, .inputOutput, rfl, .inl ⟨List.mem_cons_of_mem _ hstep, rfl, hf.continues⟩⟩
  -- From here on there is no writer.
  · split at hrun
    · rename_i cause' hinstall
      obtain ⟨reason, rfl⟩ := Location.install_eq_error hinstall
      cases hrun
      exact ⟨.installLog, reason, rfl, .inr (.inl ⟨rfl, rfl, discards_of_writer_eq_none rfl⟩)⟩
    · rename_i place' hinstall
      obtain rfl := Location.install_eq_ok hinstall
      split at hrun
      · rename_i cause' hreopen
        obtain rfl := Location.attempt_eq_error hreopen
        cases hrun
        refine ⟨.reopenLog, .inputOutput, rfl, .inr (.inr ⟨rfl, discards_of_writer_eq_none rfl, ?_⟩)⟩
        rw [withPlace, hplace, Option.map_some]
      · cases hrun

/-- A replacement that fails while the new file is written. Others move the old one away and back
before something is appended to it and drained. -/
theorem compactTo_failed_midway :
    let content := frames [.set [97] [49]]
    let f : AppendFile := ⟨some ⟨.file content, .absent, [.syncTempLog]⟩, some {}, .sync, 1⟩
    let events : List FileEvent := [.moveAside, .append (.del [97]), .obstruct [], .moveBack,
      .drain [.set [98] [50], .set [99] []]]
    (compactTo [.set [98] [50]]).run f = .error (.io (.failed .syncTempLog .inputOutput)) f ∧
      ∃ g, (performAll events).run f = .ok () g ∧ (g.withPlace Location.unobstructed).readAll =
        .ok [.set [97] [49], .del [97], .set [98] [50], .set [99] []] := by
  intro content f events
  have hf : f.Settled [.set [97] [49]] := ⟨.sync, 1, by decide, .held [] .sync 1 (.atPath .absent _)⟩
  have hrun : (compactTo [.set [98] [50]]).run f =
      .error (.io (.failed .syncTempLog .inputOutput)) f := rfl
  obtain ⟨step, reason, hcause, hcases⟩ := compactTo_failed hf hrun
  obtain rfl : FileStep.syncTempLog = step := by
    cases hcause
    rfl
  rcases hcases with ⟨-, -, hgoesOn⟩ | ⟨hstep, -, -⟩ | ⟨hstep, -, -⟩
  · exact ⟨hrun, _, rfl, hgoesOn.read events _ rfl (by rintro _ ⟨⟩ _ ⟨⟩) (by decide)⟩
  · cases hstep
  · cases hstep

/-- A replacement that cannot be installed, since the file has been moved away. The command that is
appended and drained from there on is lost. -/
theorem compactTo_failed_uninstalled :
    let f := (opened (frames [.set [97] [49]]) [] .absent .sync 1).moveAside
    f.Settled [.set [97] [49]] ∧ ∃ f',
      (compactTo [.set [98] [50]]).run f = .error (.io (.failed .installLog .isDirectory)) f' ∧
        f'.isEnabled = false ∧ (performAll [.append (.set [99] [51])]).run f' = .ok () f' ∧
        (performAll [.drain [.set [99] [51]]]).run f' = .ok () f' ∧
        f'.moveBack.readAll = .ok [.set [97] [49]] ∧
        f'.moveBack.readAll ≠ .ok [.set [97] [49], .set [99] [51]] := by
  intro f
  have hf : f.Settled [.set [97] [49]] := ⟨.sync, 1, by decide, .held [] .sync 1 (.aside _)⟩
  have hread : readFrames (frames [.set [97] [49]]) = .ok [.set [97] [49]] := by decide
  exact ⟨hf, _, rfl, rfl, rfl, rfl, hread, fun h => absurd (hread.symm.trans h) (by decide)⟩

end AppendFile

/-! ## Draining to a file without a writer -/

namespace Tier

/-- **A drain is completed though nothing is written.** The generation is freed and the number of its
commands reported, but the file is what it was. If the drain fails, nothing is freed. -/
theorem turns_completeDrain_discarding {E : Failure → Prop} {S : Snapshot} {drain : LogDrain}
    (hfile : S.file.writer = none)
    (hhead : drain.head = firstOf (logNodes S.contents.outOfService) none) :
    Turns E 0 S (completeDrain drain)
      (fun count S' => count = drain.commands.length ∧ S' = { S with contents := S.contents.drained })
      fun S' => S'.contents = S.contents := by
  have hrun := run_fileEncoded_of_writer_eq_none hfile drain.commands
  refine (turns_fileDrain hhead fun cause f hfailed => ?_).mono ?_ ?_
  · cases hrun.symm.trans hfailed
  · rintro _ _ ⟨rfl, f, hrun', rfl⟩
    cases hrun.symm.trans hrun'
    exact ⟨rfl, rfl⟩
  · rintro _ ⟨f, rfl⟩
    rfl

end Tier

end PersistentTier
