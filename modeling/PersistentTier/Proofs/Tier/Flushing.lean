import PersistentTier.Proofs.Tier.Calls
import PersistentTier.Proofs.Tier.Site

/-!
# Flushing the log

Flushing drains the log twice. Which buffer comes first, and whether the buffers change their roles,
depends on what has been left out of service; whether there is a second round depends on what is left
to count. In every case each command goes to the file once, in the order of logging, and then its node
and its payload go. Nothing else changes.

## Main definitions

* `Tier.Flushed`: a tier of which the log has been flushed

## Main results

* `AppendFile.gains_logged`: what draining both generations does to a file that is written
* `Site.exists_flushed`: flushing the log succeeds and drains everything once
-/

namespace PersistentTier

open Ledger

/-- **A tier of which the log has been flushed**: `older` are the commands that were out of service, and
`newer` those of the current buffer. -/
structure Tier.Flushed (t : Tier) (older newer : List Command) (t' : Tier) : Prop where
  outOfService : LogBuffer.pending t.pool (LogBuffer.otherHead t.pool) =
    .ok (older.map Command.encode)
  current : LogBuffer.pending t.pool (LogBuffer.currentHead t.pool) = .ok (newer.map Command.encode)
  file : t.file.Gains (older ++ newer) t'.file
  /-- The commands are read behind those that were written before. -/
  read : older ++ newer ≠ [] → ∃ filed, t.file.Carries true filed ∧
    t'.file.readAll = .ok (filed ++ (older ++ newer))
  /-- The log is empty, and its buffers may have changed their roles. -/
  root : t'.pool.root = { t.pool.root with
    logBufferA := none
    logBufferB := none
    logCount := 0
    activeBuffer := t'.pool.root.activeBuffer }
  /-- The log nodes and their payloads are gone, and nothing else has changed. -/
  objects : ∀ h, t'.pool.object? h =
    if h ∈ (LogBuffer.waiting t.pool).flatMap t.pool.owned then none else t.pool.object? h
  index : t'.index = t.index

/-- **A file that is written gains** both generations, the older one first. -/
theorem AppendFile.gains_logged {c : Contents} {f f₁ f' : AppendFile} {filed : List Command}
    (hc : c.Regular) (holder : f.Files (Logged.records c.outOfService) f₁)
    (hnewer : f₁.Files (Logged.records (c.log c.active)) f') (hf : f.Carries true filed) :
    f.Gains c.logged f' := by
  rw [Logged.records, Contents.outOfService, hc.encoded] at holder
  rw [Logged.records, hc.encoded] at hnewer
  exact (holder.gains hf).trans (hnewer.gains (holder.carries hf))

namespace Pool.Holds

variable {p q : Pool} {c : Contents} {active : Buffer}

/-- The root of contents without a log. -/
theorem root_unlogged (hp : p.Holds c) (hq : q.Holds { c with log := fun _ => [], active := active }) :
    q.root = { p.root with
      logBufferA := none
      logBufferB := none
      logCount := 0
      activeBuffer := q.root.activeBuffer } := by
  rw [hp.root, hq.root]
  rfl

/-- Without the log, its nodes and its payloads are gone. -/
theorem object?_unlogged (hp : p.Holds c)
    (hq : q.Holds { c with log := fun _ => [], active := active }) (h : Handle) : q.object? h =
      if h ∈ (LogBuffer.waiting p).flatMap p.owned then none else p.object? h := by
  -- What was there is the two log chains and what is left.
  have hheap : p.heap = logChain none (c.log c.active) + logChain none (c.log c.active.flipped) +
      q.heap := by
    rw [hp.heap, hq.heap, Contents.heap, c.logHeap_eq c.active]
    simp only [Contents.heap, Contents.logHeap, logChain]
    abel
  have hgone : (logChain none (c.log c.active) + logChain none (c.log c.active.flipped)).map Prod.fst =
      ((LogBuffer.waiting p).flatMap p.owned : List Handle) := by
    rw [hp.waiting_eq, Contents.waiting, List.flatMap_append, owned_of_logChain (hp.logChain_le _),
      owned_of_logChain (hp.logChain_le _), Multiset.map_add, map_logChain, map_logChain,
      Multiset.coe_add]
  exact object?_of_heap_add hheap hgone h

end Pool.Holds

/-- **Flushing the log drains everything once, in order**, whatever has happened at a site, so long as
writes are not limited. -/
theorem Site.exists_flushed {s : Site} {t : Tier} (hs : s.Reachable fun _ a => a.Fits)
    (ht : s.tier = some t) (henabled : t.file.isEnabled = true) (hbudget : t.pool.writeBudget = none) :
    ∃ t' older newer, Tier.flushLog.run t = .ok t.pool.root.logCount.toNat t' ∧
      t.Flushed older newer t' := by
  obtain ⟨settings, L, hshows, hL⟩ := (hs.sound fun _ _ h => h).tier t ht
  have hdisplays := hshows.displays hL hbudget
  have hencoded : L.contents.Encoded := fun y z hz =>
    let ⟨cmd, _, hcmd⟩ := hL.regular.log y z hz
    ⟨cmd, hcmd⟩
  obtain ⟨count, t', _, hrun, ht', hcount, f₁, f, active, hfiles₁, hfiles, -, rfl⟩ :=
    (Tier.turns_flushLog ⟨_, hshows.file⟩ hencoded).exists_ok hdisplays
  have hp : t.pool.Holds L.contents := hdisplays.pool.holds
  have hcarries := hshows.file.of_isEnabled henabled
  have hgains : t.file.Gains L.contents.logged t'.file :=
    ht'.file ▸ AppendFile.gains_logged hL.regular hfiles₁ hfiles hcarries
  have hcommands : ∀ cmd ∈ L.filed ++ L.contents.logged, cmd.Fits :=
    List.forall_mem_append.2 ⟨hL.filed, hL.regular.fits_logged⟩
  -- The counter is that of both buffers, whichever of them is the current one.
  have hall : count = t.pool.root.logCount.toNat := by
    rw [hcount, hp.logCount_eq, Contents.length_log (x := L.contents.active), Nat.add_comm]
    rfl
  refine ⟨t', L.contents.generation L.contents.active.flipped,
    L.contents.generation L.contents.active, by rw [hrun, hall], ?_⟩
  constructor
  case outOfService =>
    exact (Tier.pending_otherHead hp).trans (congrArg Except.ok (hL.regular.encoded _))
  case current =>
    exact (Tier.pending_currentHead hp).trans (congrArg Except.ok (hL.regular.encoded _))
  case file => exact hgains
  case read => exact fun hne => ⟨L.filed, hcarries, hgains.readAll hne hcarries hcommands⟩
  case root => exact hp.root_unlogged ht'.pool.holds
  case objects => exact hp.object?_unlogged ht'.pool.holds
  case index => exact ht'.index

/-- A drain is begun and not completed, and the log goes on in the other buffer. -/
theorem Site.exists_flushed_leftOver :
    let s₁ := (Action.restart { filePath := some "f" } 1 0).perform {}
    let s₂ := (Action.operate (.append (.set [1] [10]))).perform s₁
    let s₃ := (Action.operate .beginDrain).perform s₂
    let s₄ := (Action.operate (.append (.set [2] [20]))).perform s₃
    ∃ t t' older newer, s₄.tier = some t ∧ Tier.flushLog.run t = .ok 2 t' ∧
      t.Flushed older newer t' ∧ older.map Command.encode = [(Command.set [1] [10]).encode] ∧
      newer.map Command.encode = [(Command.set [2] [20]).encode] := by
  intro s₁ s₂ s₃ s₄
  have hfirst : (Command.set [1] [10]).Fits := by decide
  have hsecond : (Command.set [2] [20]).Fits := by decide
  have hs₂ : s₂.Reachable fun _ a => a.Fits :=
    .step (.step .blank trivial (by decide +kernel)) hfirst (by decide +kernel)
  have hs₄ : s₄.Reachable fun _ a => a.Fits :=
    .step (.step hs₂ trivial (by decide +kernel)) hsecond (by decide +kernel)
  have hfacts : s₄.tier.map (fun t => (t.file.isEnabled, t.pool.writeBudget, t.pool.root.logCount)) =
      some (true, none, 2) := by decide +kernel
  have hwaiting : s₄.tier.map (fun t =>
      ((LogBuffer.pending t.pool (LogBuffer.otherHead t.pool)).toOption,
        (LogBuffer.pending t.pool (LogBuffer.currentHead t.pool)).toOption)) =
      some (some [(Command.set [1] [10]).encode], some [(Command.set [2] [20]).encode]) := by
    decide +kernel
  obtain ⟨t, ht, hfacts⟩ := Option.map_eq_some_iff.1 hfacts
  simp only [Prod.mk.injEq] at hfacts
  obtain ⟨henabled, hbudget, hcount⟩ := hfacts
  obtain ⟨t', older, newer, hrun, hflushed⟩ := Site.exists_flushed hs₄ ht henabled hbudget
  rw [hcount] at hrun
  rw [ht, Option.map_some, hflushed.outOfService, hflushed.current] at hwaiting
  obtain ⟨holder, hnewer⟩ := Prod.mk.inj (Option.some.inj hwaiting)
  exact ⟨t, t', older, newer, ht, hrun, hflushed, Option.some.inj holder, Option.some.inj hnewer⟩

end PersistentTier
