import PersistentTier.Proofs.Mirrors
import PersistentTier.Startup

/-!
# Putting the calls of a replayer on record

What a startup hands over, and in which order, is a matter of the calls that its replayer receives.
A replayer that puts its calls on record, each with whether it has succeeded, does so besides what it
does: a startup with it is the startup without the record.

## Main definitions

* `Replayer.Call`, `Replayer.perform`, `Replayer.carryOut`: calls of a replayer
* `Replayer.Event`, `Replayer.recorded`: a replayer with a record

## Main results

* `Startup.mirrors_everything`: the record makes no difference to a startup
* `Replayer.carryOut_recorded`: calls that succeed are on record
-/

namespace PersistentTier

variable {ρ α : Type}

namespace Replayer

/-- A call of a replayer. -/
inductive Call
  | replay (command : Bytes)
  | persist (key value : Bytes)
  | sync
  deriving DecidableEq, Repr

/-- An action on the second part of a state. -/
def aside (act : EStateM Failure ρ Unit) : EStateM Failure (Index × ρ) Unit := fun s =>
  match act.run s.2 with
  | .ok () x => .ok () (s.1, x)
  | .error e x => .error e (s.1, x)

/-- What a call does to the index and to the state of the replayer. -/
def perform (r : Replayer ρ) : Call → EStateM Failure (Index × ρ) Unit
  | .replay command => r.replay command
  | .persist key value => aside (r.persist key value)
  | .sync => aside r.sync

/-- Calls one after another. -/
def carryOut (r : Replayer ρ) (calls : List Call) : EStateM Failure (Index × ρ) Unit :=
  calls.forM r.perform

/-- A call that has come back. -/
structure Event where
  call : Call
  succeeded : Bool
  deriving DecidableEq, Repr

/-- The outcome of a call, put on record. -/
def note {σ τ : Type} (call : Call) (record : List Event) (put : σ → List Event → τ) :
    EStateM.Result Failure σ Unit → EStateM.Result Failure τ Unit
  | .ok () s => .ok () (put s (record ++ [⟨call, true⟩]))
  | .error e s => .error e (put s (record ++ [⟨call, false⟩]))

/-- **A replayer that puts its calls on record.** -/
def recorded (r : Replayer ρ) : Replayer (ρ × List Event) where
  replay command := fun (index, x, record) =>
    note (.replay command) record (fun s record => (s.1, s.2, record))
      ((r.replay command).run (index, x))
  persist key value := fun (x, record) =>
    note (.persist key value) record Prod.mk ((r.persist key value).run x)
  sync := fun (x, record) => note .sync record Prod.mk (r.sync.run x)

variable {r : Replayer ρ}

/-- A call of the replayer with a record. -/
theorem perform_recorded (call : Call) (index : Index) (x : ρ) (record : List Event) :
    (r.recorded.perform call).run (index, x, record) =
      note call record (fun s record => (s.1, s.2, record)) ((r.perform call).run (index, x)) := by
  cases call with
  | replay command => rfl
  | persist key value =>
    simp only [perform, aside, recorded, EStateM.run]
    cases r.persist key value x <;> rfl
  | sync =>
    simp only [perform, aside, recorded, EStateM.run]
    cases r.sync x <;> rfl

/-- **Calls that succeed are on record** in their order. -/
theorem carryOut_recorded {calls : List Call} {s t : Index × ρ} (record : List Event)
    (h : (r.carryOut calls).run s = .ok () t) :
    (r.recorded.carryOut calls).run (s.1, s.2, record) =
      .ok () (t.1, t.2, record ++ calls.map fun call => ⟨call, true⟩) := by
  induction calls generalizing s record with
  | nil =>
    obtain ⟨-, rfl⟩ := EStateM.Result.ok.inj h
    simp only [List.map_nil, List.append_nil]
    rfl
  | cons call calls ih =>
    change (r.perform call >>= fun _ => r.carryOut calls).run s = _ at h
    change (r.recorded.perform call >>= fun _ => r.recorded.carryOut calls).run _ = _
    rw [EStateM.run_bind] at h ⊢
    rw [perform_recorded]
    cases hcall : (r.perform call).run s with
    | error e u => simp [hcall] at h
    | ok _ u =>
      rw [hcall] at h
      simp only [note, ih _ h, List.map_cons, List.append_assoc, List.singleton_append]

end Replayer

namespace Startup

open Replayer

/-- A startup without the record. -/
def forget (s : Startup (ρ × List Event)) : Startup ρ := ⟨s.pool, s.index, s.replayer.1⟩

/-- A step with a record and the step without it. -/
abbrev Unrecorded (act : StartupM (ρ × List Event) α) (mirror : StartupM ρ α) : Prop :=
  Mirrors forget act mirror

variable {r : Replayer ρ}

theorem mirrors_ofPool (look : Pool → Except Corruption α) :
    @Unrecorded ρ _ (ofPool look) (ofPool look) := by
  intro s
  change ofPool look (forget s) = Seen forget (ofPool look s)
  have hpool : (forget s).pool = s.pool := rfl
  simp only [ofPool, hpool]
  cases look s.pool <;> rfl

theorem mirrors_inTransaction (tx : Tx α) :
    @Unrecorded ρ _ (inTransaction tx) (inTransaction tx) := by
  intro s
  change inTransaction tx (forget s) = Seen forget (inTransaction tx s)
  have hpool : (forget s).pool = s.pool := rfl
  simp only [inTransaction, hpool]
  rcases s.pool.transaction tx with ⟨_ | _, _⟩ <;> rfl

theorem mirrors_reserve (count size : Nat) :
    @Unrecorded ρ _ (reserve count size) (reserve count size) := (Mirrors.pure ()).ite (.throw _)

theorem mirrors_makeRoom (root : Root) : @Unrecorded ρ _ (makeRoom root) (makeRoom root) := by
  unfold makeRoom
  cases checkedAdd root.entryCount root.victimCount with
  | ok sum => exact mirrors_reserve sum.toNat 72
  | error crash => exact .throw (Failure.crash crash)

theorem mirrors_pair (node : Handle) : @Unrecorded ρ _ (pair node) (pair node) :=
  mirrors_ofPool _

theorem mirrors_updateIndex (change : Index → Index) :
    @Unrecorded ρ _ (updateIndex change) (updateIndex change) := fun _ => rfl

theorem mirrors_replay (command : Bytes) :
    Unrecorded (replay r.recorded command) (replay r command) := by
  intro s
  change replay r command (forget s) = Seen forget (replay r.recorded command s)
  have hrun : (r.recorded.replay command).run (s.index, s.replayer) =
      note (.replay command) s.replayer.2 (fun t record => (t.1, t.2, record))
        ((r.replay command).run (s.index, s.replayer.1)) := rfl
  have hpart : ((forget s).index, (forget s).replayer) = (s.index, s.replayer.1) := rfl
  simp only [replay, hrun, hpart]
  cases (r.replay command).run (s.index, s.replayer.1) <;> rfl

theorem mirrors_call {call : Call} {act : EStateM Failure (ρ × List Event) Unit}
    {mirror : EStateM Failure ρ Unit}
    (hact : ∀ x record, act.run (x, record) = note call record Prod.mk (mirror.run x)) :
    Unrecorded (Startup.call act) (Startup.call mirror) := by
  intro s
  change Startup.call mirror (forget s) = Seen forget (Startup.call act s)
  have hrun := hact s.replayer.1 s.replayer.2
  have hpart : (forget s).replayer = s.replayer.1 := rfl
  simp only [Startup.call, hrun, hpart]
  cases mirror.run s.replayer.1 <;> rfl

theorem mirrors_persist (key value : Bytes) :
    Unrecorded (call (r.recorded.persist key value)) (call (r.persist key value)) :=
  mirrors_call fun _ _ => rfl

theorem mirrors_sync : Unrecorded (call r.recorded.sync) (call r.sync) := mirrors_call fun _ _ => rfl

theorem mirrors_strictWalk (chain : ChainKind) :
    @Unrecorded ρ _ (strictWalk chain) (strictWalk chain) :=
  .get fun _ => (mirrors_reserve _ _).bind fun _ => mirrors_ofPool _

theorem mirrors_flushVictims (pairs : List (Bytes × Bytes)) :
    Unrecorded (flushVictims r.recorded pairs) (flushVictims r pairs) := by
  refine .get fun s => ?_
  have hfirst : (forget s).pool.root.victimFirst = s.pool.root.victimFirst := rfl
  rw [hfirst]
  cases s.pool.root.victimFirst with
  | none => exact .pure ()
  | some head =>
    exact (Mirrors.forM (fun pair => mirrors_persist pair.1 pair.2) pairs).bind fun _ =>
      mirrors_sync.bind fun _ => (mirrors_inTransaction _).bind fun _ => .pure ()

theorem mirrors_log : Unrecorded (log r.recorded) (log r) :=
  (mirrors_ofPool _).bind fun _ => (mirrors_ofPool _).bind fun _ =>
    (Mirrors.forM mirrors_replay _).bind fun _ => mirrors_sync.bind fun _ =>
      (mirrors_inTransaction _).bind fun _ => .pure _

theorem mirrors_indexEntry (node : Handle) :
    @Unrecorded ρ _ (indexEntry node) (indexEntry node) :=
  (mirrors_pair node).bind fun _ => mirrors_updateIndex _

theorem mirrors_entries : @Unrecorded ρ _ entries entries :=
  (mirrors_strictWalk _).bind fun nodes => (mirrors_reserve _ _).bind fun _ =>
    (Mirrors.forM mirrors_indexEntry nodes).bind fun _ => .pure _

theorem mirrors_indexVictim (node : Handle) :
    @Unrecorded ρ _ (indexVictim node) (indexVictim node) :=
  (mirrors_pair node).bind fun _ => (mirrors_updateIndex _).bind fun _ => .pure _

/-- **The record makes no difference to a startup.** -/
theorem mirrors_everything (r : Replayer ρ) : Unrecorded (everything r.recorded) (everything r) :=
  .get fun s => (mirrors_makeRoom s.pool.root).bind fun _ => (mirrors_strictWalk _).bind fun _ =>
    (mirrors_reserve _ _).bind fun _ => (Mirrors.mapM mirrors_indexVictim _).bind fun _ =>
      (mirrors_flushVictims _).bind fun _ => mirrors_log.bind fun _ =>
        mirrors_entries.bind fun _ => .pure _

end Startup

end PersistentTier
