import Mathlib.Data.List.Induction
import PersistentTier.Proofs.AppendFile.Torn

/-!
# The history of an append-only file

A file is written to, synced, replaced, and closed and opened again, in any order. What counts of
this is a list of commands: those of the last replacement and all that were appended since. The
writer holds some of their bytes back, so that at any moment the file ends anywhere behind the
commands that are settled, within a frame perhaps. What is read then is a beginning of the list, with
all of the settled commands in it.

## Main definitions

* `FileAction`, `FileAction.perform`: what is done to a file
* `History`, `History.of`: the commands that a file is to hold, and which of them are settled
* `AppendFile.Holds`: a file that has come about by a given history

## Main results

* `AppendFile.Holds.exists_perform`: an action succeeds and takes the file along with its history
* `AppendFile.Holds.exists_readAll`: the settled commands are read, and some of the recent ones
* `AppendFile.exists_readAll_of_actions`: what is read after any actions on a new file
-/

namespace PersistentTier

/-! ## Actions -/

/-- **What is done to a file.** -/
inductive FileAction
  | append (c : Command)
  /-- A command is appended that was encoded before. -/
  | appendEncoded (c : Command)
  | sync
  | compactTo (cmds : List Command)
  /-- The file is closed and opened again. -/
  | reopen (durability : Durability)
  deriving DecidableEq, Repr

/-- Closes the file and opens it again. -/
def AppendFile.reopen (durability : Durability) : FileOp Unit := fun f =>
  match f.close with
  | none => .ok () f
  | some place =>
    match AppendFile.open place durability with
    | .ok f' => .ok () f'
    | .error cause => .error cause f

namespace FileAction

/-- Performs an action. A replacement reports a number of commands, the others nothing. -/
def perform : FileAction → FileOp (Option Nat)
  | append c => do AppendFile.append c; return none
  | appendEncoded c => do AppendFile.appendEncoded c.encode; return none
  | sync => do AppendFile.sync; return none
  | compactTo cmds => some <$> AppendFile.compactTo cmds
  | reopen durability => do AppendFile.reopen durability; return none

/-- The number that is reported. -/
def report : FileAction → Option Nat
  | compactTo cmds => some cmds.length
  | _ => none

/-- Whether nothing is left in the writer's buffer. -/
def settles : FileAction → Bool
  | append _ | appendEncoded _ => false
  | sync | compactTo _ | reopen _ => true

/-- **An action within bounds.** Its commands fit into frames, and the file keeps a writer. -/
def Fits : FileAction → Prop
  | append c | appendEncoded c => c.Fits
  | sync => True
  | compactTo cmds => ∀ c ∈ cmds, c.Fits
  | reopen durability => durability ≠ .none

instance : DecidablePred Fits
  | append c | appendEncoded c => inferInstanceAs (Decidable c.Fits)
  | sync => .isTrue trivial
  | compactTo cmds => inferInstanceAs (Decidable (∀ c ∈ cmds, c.Fits))
  | reopen durability => inferInstanceAs (Decidable (durability ≠ .none))

end FileAction

/-! ## Histories -/

/-- **What a file is to hold**: the commands up to the last sync, replacement or opening, and those
that were appended since. -/
structure History where
  settled : List Command := []
  recent : List Command := []
  deriving DecidableEq, Repr

namespace History

/-- The commands since the last replacement, with those that it put in place. -/
def commands (h : History) : List Command := h.settled ++ h.recent

/-- The history with one more action. -/
def extend (h : History) : FileAction → History
  | .append c | .appendEncoded c => { h with recent := h.recent ++ [c] }
  | .sync | .reopen _ => { settled := h.commands }
  | .compactTo cmds => { settled := cmds }

/-- The history of a file to which some actions have been done. -/
def of (actions : List FileAction) : History := actions.foldl extend {}

variable {h : History} {action : FileAction}

theorem recent_extend (ha : action.settles) : (h.extend action).recent = [] := by
  cases action with
  | append c => simp [FileAction.settles] at ha
  | appendEncoded c => simp [FileAction.settles] at ha
  | sync => rfl
  | compactTo cmds => rfl
  | reopen durability => rfl

/-- An action that settles leaves nothing recent. -/
theorem recent_of {actions : List FileAction} (h : ∀ a ∈ actions.getLast?, a.settles) :
    (of actions).recent = [] := by
  cases actions using List.reverseRecOn with
  | nil => rfl
  | append_singleton actions a =>
    have ha : a.settles := h a (by simp)
    rw [of, List.foldl_append]
    exact recent_extend ha

theorem fits_extend (hcmds : ∀ c ∈ h.commands, c.Fits) (ha : action.Fits) :
    ∀ c ∈ (h.extend action).commands, c.Fits := by
  have hmore : ∀ c : Command, c.Fits → ∀ c' ∈ h.settled ++ (h.recent ++ [c]), c'.Fits := by
    intro c hc c' hc'
    rw [← List.append_assoc, List.mem_append, List.mem_singleton] at hc'
    rcases hc' with hold | rfl
    · exact hcmds c' hold
    · exact hc
  cases action with
  | append c => exact hmore c ha
  | appendEncoded c => exact hmore c ha
  | sync => simpa [extend, commands] using hcmds
  | compactTo cmds =>
    have hnew : ∀ c ∈ cmds, c.Fits := ha
    simpa [extend, commands] using hnew
  | reopen durability => simpa [extend, commands] using hcmds

end History

/-! ## Files and their histories -/

namespace AppendFile

/-- **A file with a history.** The writer's buffer continues the file to the frames of all commands,
and those of the settled ones are in the file. -/
inductive Holds (h : History) : AppendFile → Prop
  | opened {content pending : Bytes} {durability : Durability} (aside : Standing) (n : Nat)
      (on : durability ≠ .none) (fits : ∀ c ∈ h.commands, c.Fits)
      (whole : content ++ pending = frames h.commands) (settled : frames h.settled <+: content) :
      Holds h (opened content pending aside durability n)

namespace Holds

variable {h : History} {f : AppendFile} {action : FileAction}

/-- A command that is appended becomes recent. -/
theorem exists_appendEncoded (hf : f.Holds h) {c : Command} (hc : c.Fits) :
    ∃ f', (appendEncoded c.encode).run f = .ok () f' ∧ f'.Holds (h.extend (.append c)) := by
  cases hf with
  | @opened content pending durability aside n on fits whole settled =>
    obtain ⟨content', pending', hgrown, hsame, hrun⟩ :=
      run_appendEncoded content pending aside durability n c.encode
    refine ⟨_, hrun, .opened aside (n + 1) on (History.fits_extend fits hc) ?_ (settled.trans hgrown)⟩
    calc content' ++ pending' = frames h.commands ++ frame c.encode := by rw [hsame, whole]
      _ = frames (h.settled ++ (h.recent ++ [c])) := by
        rw [← List.append_assoc, frames_append (h.settled ++ h.recent)]
        simp [frames, History.commands]

/-- A sync settles all commands. -/
theorem exists_sync (hf : f.Holds h) :
    ∃ f', sync.run f = .ok () f' ∧ f'.Holds (h.extend .sync) := by
  cases hf with
  | @opened content pending durability aside n on fits whole settled =>
    have hwhole : content ++ pending ++ [] = frames (h.extend .sync).commands := by
      simpa [History.extend, History.commands] using whole
    have hsettled : frames (h.extend .sync).settled <+: content ++ pending := by
      rw [whole]
      exact List.prefix_rfl
    exact ⟨_, run_sync content pending aside durability n,
      .opened aside n on (History.fits_extend fits trivial) hwhole hsettled⟩

/-- A replacement puts its own commands in place. -/
theorem exists_compactTo (hf : f.Holds h) {cmds : List Command} (hcmds : ∀ c ∈ cmds, c.Fits) :
    ∃ f', (compactTo cmds).run f = .ok cmds.length f' ∧ f'.Holds (h.extend (.compactTo cmds)) := by
  cases hf with
  | @opened content pending durability aside n on fits whole settled =>
    have hwhole : frames cmds ++ [] = frames (h.extend (.compactTo cmds)).commands := by
      simp [History.extend, History.commands]
    refine ⟨AppendFile.opened (frames cmds) [] aside durability 0, ?_,
      .opened aside 0 on (History.fits_extend fits hcmds) hwhole List.prefix_rfl⟩
    simp only [compactTo, EStateM.run_bind, EStateM.run_get, if_neg on, run_sync]
    rfl

/-- What is held back reaches the file when it is closed. -/
theorem exists_reopen (hf : f.Holds h) {durability : Durability} (hd : durability ≠ .none) :
    ∃ f', (reopen durability).run f = .ok () f' ∧ f'.Holds (h.extend (.reopen durability)) := by
  cases hf with
  | @opened content pending durability' aside n on fits whole settled =>
    have hwhole : content ++ pending ++ [] = frames (h.extend (.reopen durability)).commands := by
      simpa [History.extend, History.commands] using whole
    have hsettled : frames (h.extend (.reopen durability)).settled <+: content ++ pending := by
      rw [whole]
      exact List.prefix_rfl
    refine ⟨AppendFile.opened (content ++ pending) [] aside durability 0, ?_,
      .opened aside 0 hd (History.fits_extend fits hd) hwhole hsettled⟩
    simp only [reopen, EStateM.run, close_opened, open_opened _ aside hd]

/-- **An action** succeeds and takes the file along with its history. -/
theorem exists_perform (hf : f.Holds h) (ha : action.Fits) :
    ∃ f', action.perform.run f = .ok action.report f' ∧ f'.Holds (h.extend action) := by
  cases action with
  | append c =>
    obtain ⟨f', hrun, hf'⟩ := hf.exists_appendEncoded ha
    exact ⟨f', by simp only [FileAction.perform, append, EStateM.run_bind, hrun]; rfl, hf'⟩
  | appendEncoded c =>
    obtain ⟨f', hrun, hf'⟩ := hf.exists_appendEncoded ha
    exact ⟨f', by simp only [FileAction.perform, EStateM.run_bind, hrun]; rfl, hf'⟩
  | sync =>
    obtain ⟨f', hrun, hf'⟩ := hf.exists_sync
    exact ⟨f', by simp only [FileAction.perform, EStateM.run_bind, hrun]; rfl, hf'⟩
  | compactTo cmds =>
    obtain ⟨f', hrun, hf'⟩ := hf.exists_compactTo ha
    exact ⟨f', by simp only [FileAction.perform, ← bind_pure_comp, EStateM.run_bind, hrun]; rfl, hf'⟩
  | reopen durability =>
    obtain ⟨f', hrun, hf'⟩ := hf.exists_reopen ha
    exact ⟨f', by simp only [FileAction.perform, EStateM.run_bind, hrun]; rfl, hf'⟩

/-- Actions one after another. -/
theorem exists_performAll (hf : f.Holds h) {actions : List FileAction}
    (hactions : ∀ a ∈ actions, a.Fits) :
    ∃ f', (actions.mapM FileAction.perform).run f = .ok (actions.map FileAction.report) f' ∧
      f'.Holds (actions.foldl History.extend h) := by
  induction actions generalizing f h with
  | nil => exact ⟨f, rfl, hf⟩
  | cons a actions ih =>
    obtain ⟨f₁, hrun₁, hf₁⟩ := hf.exists_perform (hactions a List.mem_cons_self)
    obtain ⟨f₂, hrun₂, hf₂⟩ := ih hf₁ fun a' ha' => hactions a' (List.mem_cons_of_mem _ ha')
    refine ⟨f₂, ?_, hf₂⟩
    rw [List.mapM_cons, EStateM.run_bind, hrun₁]
    dsimp only
    rw [EStateM.run_bind, hrun₂]
    rfl

/-- **The settled commands are read**, and then some of the recent ones from the first on. -/
theorem exists_readAll (hf : f.Holds h) :
    ∃ recent, f.readAll = .ok (h.settled ++ recent) ∧ recent <+: h.recent := by
  cases hf with
  | @opened content pending durability aside n on fits whole settled =>
    obtain ⟨later, rfl⟩ := settled
    have hlater : later <+: frames h.recent := by
      refine ⟨pending, (List.append_right_inj (frames h.settled)).1 ?_⟩
      rw [← List.append_assoc, whole, History.commands, frames_append]
    obtain ⟨recent, rest, -, hsplit, -, -, hread⟩ := exists_whole_of_prefix
      (fun c hc => fits c (List.mem_append_right h.settled hc)) hlater
    refine ⟨recent, ?_, rest, hsplit.symm⟩
    rw [readAll_opened _ aside on,
      readFrames_append (fun c hc => fits c (List.mem_append_left h.recent hc)), hread]
    rfl

end Holds

/-- A new file has no history. -/
theorem holds_opened (aside : Standing) {durability : Durability} (hd : durability ≠ .none) :
    (opened [] [] aside durability 0).Holds {} :=
  .opened aside 0 hd (by simp [History.commands]) rfl List.prefix_rfl

/-- **A file is a list of commands.** On a file that is created at a free path, all actions succeed,
and a replacement reports how many commands it was given. What is read at any moment is a beginning of
the commands since the last replacement and has all those in it that are settled. After a sync, a
replacement or an opening, these are all commands. -/
theorem exists_readAll_of_actions {place : Location} {durability : Durability}
    {actions : List FileAction} (hclear : place.obstacles = []) (habsent : place.standing = .absent)
    (hd : durability ≠ .none) (hactions : ∀ a ∈ actions, a.Fits) :
    ∃ f f' found, AppendFile.open place durability = .ok f ∧
      (actions.mapM FileAction.perform).run f = .ok (actions.map FileAction.report) f' ∧
      f'.readAll = .ok found ∧ (History.of actions).settled <+: found ∧
      found <+: (History.of actions).commands ∧
      ((∀ a ∈ actions.getLast?, a.settles) → found = (History.of actions).commands) := by
  obtain ⟨standing, aside, obstacles⟩ := place
  obtain rfl : obstacles = [] := hclear
  obtain rfl : standing = .absent := habsent
  obtain ⟨f', hrun, hf'⟩ : ∃ f', (actions.mapM FileAction.perform).run (opened [] [] aside durability 0) =
      .ok (actions.map FileAction.report) f' ∧ f'.Holds (History.of actions) :=
    (holds_opened aside hd).exists_performAll hactions
  obtain ⟨recent, hread, hrecent⟩ := hf'.exists_readAll
  refine ⟨_, f', _, open_absent aside hd, hrun, hread, List.prefix_append _ recent,
    (List.prefix_append_right_inj _).2 hrecent, fun hlast => ?_⟩
  rw [History.recent_of hlast, List.prefix_nil] at hrecent
  rw [hrecent, History.commands, History.recent_of hlast]

/-- A file that is read when two long commands were appended, the second of which does not fit into
the buffer beside the first. -/
theorem exists_readAll_of_actions_long :
    let long := Command.set [1] (List.replicate 6000 7)
    let actions : List FileAction := [.append (.set [2] [20]), .sync, .appendEncoded (.del [2]),
      .compactTo [.set [3] [30], .del [5]], .append (.set [4] [40]), .reopen .async, .append long,
      .append long]
    let settled : List Command := [.set [3] [30], .del [5], .set [4] [40]]
    (∀ a ∈ actions, a.Fits) ∧ ∃ f f' found, AppendFile.open {} .sync = .ok f ∧
      (actions.mapM FileAction.perform).run f =
        .ok [none, none, none, some 2, none, none, none, none] f' ∧
      f'.readAll = .ok found ∧ settled <+: found ∧ found <+: settled ++ [long, long] := by
  intro long actions settled
  have hactions : ∀ a ∈ actions, a.Fits := by decide +kernel
  have hclear : ({} : Location).obstacles = [] := rfl
  have hd : Durability.sync ≠ .none := by decide
  obtain ⟨f, f', found, hopen, hrun, hread, hsettled, hfound, -⟩ :=
    exists_readAll_of_actions hclear rfl hd hactions
  exact ⟨hactions, f, f', found, hopen, hrun, hread, hsettled, hfound⟩

end AppendFile

end PersistentTier
