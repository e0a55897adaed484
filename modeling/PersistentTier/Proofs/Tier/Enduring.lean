import PersistentTier.Proofs.Tier.Effects
import PersistentTier.Proofs.Tier.Site

/-!
# Operations that may fail anywhere

Any write of a pool may be refused, any commit may fail and any step of file access may be obstructed.
However an operation of a tier comes to its end, the index tallies with the pairs of the pool; and what
is done to enforce the limits leaves the log and the value of every key alone, however far it gets.

## Main definitions

* `Snapshot.Tallied`: the index of a snapshot tallies with its pairs
* `Snapshot.Settles`: what enforcing the limits does to a snapshot
* `Tier.Endures`: an operation that leaves the index tallying, whether it succeeds or fails
* `Tier.Coherent`: a tier in which the index tallies with the pool, whatever has gone wrong

## Main results

* `Tier.settles_enforceLimits`: the limits are enforced without a change of any value
* `Operation.endures`: every operation endures
-/

namespace PersistentTier

open Ledger

/-- **The index of a snapshot tallies with its pairs.** -/
def Snapshot.Tallied (S : Snapshot) : Prop := Tallies S.contents S.index

/-- **What enforcing the limits does to a snapshot**: pairs move or are flushed, while the log stays as
it is and so does the value of every key. -/
structure Snapshot.Settles (S S' : Snapshot) : Prop where
  tallied : S'.Tallied
  log : S'.contents.log = S.contents.log
  active : S'.contents.active = S.contents.active
  value? : ∀ key, S'.index.value? key = S.index.value? key

namespace Snapshot.Settles

variable {S S' S'' : Snapshot}

theorem refl (hS : S.Tallied) : S.Settles S := ⟨hS, rfl, rfl, fun _ => rfl⟩

theorem trans (h : S.Settles S') (h' : S'.Settles S'') : S.Settles S'' where
  tallied := h'.tallied
  log := h'.log.trans h.log
  active := h'.active.trans h.active
  value? key := (h'.value? key).trans (h.value? key)

end Snapshot.Settles

/-- Evictions change no value. -/
theorem Snapshot.Rearranges.settles {S S' : Snapshot} (h : S.Rearranges S') (hS : S.Tallied) :
    S.Settles S' where
  tallied := h.tallies hS
  log := h.contents.log
  active := h.contents.active
  value? key := by rw [h.index]

namespace Tier

/-! ## Enforcing the limits -/

section Limits

variable {α β : Type} {E : Failure → Prop} {S : Snapshot} {act : TierM α} {f : α → TierM β}

/-- One thing is done after another, and neither changes a value. -/
theorem settles_bind (hact : Turns E 0 S act (fun _ => S.Settles) S.Settles)
    (hf : ∀ a S', S'.Tallied → Turns E 0 S' (f a) (fun _ => S'.Settles) S'.Settles) :
    Turns E 0 S (act >>= f) (fun _ => S.Settles) S.Settles :=
  hact.bind fun a S' h => (hf a S' h.tallied).mono (fun _ _ => h.trans) fun _ => h.trans

theorem settles_evictOne (hS : S.Tallied) :
    Turns E 0 S evictOne (fun _ => S.Settles) S.Settles := by
  refine (turns_evictOne E S).mono ?_ ?_
  · rintro _ _ ⟨-, rfl⟩
    exact ⟨Contents.tallies_evictedAt hS _, rfl, rfl, fun _ => rfl⟩
  · rintro _ rfl
    exact ⟨hS, rfl, rfl, fun _ => rfl⟩

theorem settles_evictBatch (hE : ∀ cause, E (.cause cause)) (hS : S.Tallied) (count : Nat) :
    Turns E 0 S (evictBatch count) (fun _ => S.Settles) S.Settles := by
  refine (turns_evictBatch (.inr hE) count).mono ?_ ?_
  · rintro _ _ ⟨-, rfl⟩
    exact ⟨Contents.tallies_evicted hS count, rfl, rfl, fun _ => rfl⟩
  · rintro _ rfl
    exact .refl hS

theorem settles_flushVictims (hE : ∀ cause, E (.cause cause)) (hS : S.Tallied) :
    Turns E 0 S flushVictims (fun _ => S.Settles) S.Settles := by
  refine (turns_flushVictims (.inl hE)).mono ?_ ?_
  · rintro _ _ ⟨-, f, rfl, -⟩
    exact ⟨hS.reclaim, rfl, rfl, value?_cleared S.index S.contents.victims⟩
  · rintro _ ⟨f, rfl⟩
    exact ⟨hS, rfl, rfl, fun _ => rfl⟩

/-- **The limits are enforced** without a change of any value, as far as that goes. -/
theorem settles_enforceLimits (hE : ∀ cause, E (.cause cause)) (hS : S.Tallied) :
    Turns E 0 S enforceLimits (fun _ => S.Settles) S.Settles := by
  have hentries : Turns E 0 S enforceEntryLimit (fun _ => S.Settles) S.Settles :=
    (turns_enforceEntryLimit E S).mono (fun _ _ h => h.settles hS) fun _ h => h.settles hS
  refine settles_bind hentries fun _ S' hS' => Turns.get fun t _ => ?_
  split
  · exact settles_bind (settles_flushVictims hE hS') fun _ _ h => Turns.pure (.refl h)
  · exact Turns.pure (.refl hS')

end Limits

/-! ## Operations that endure -/

/-- **An operation that leaves the index tallying**, whether it succeeds or fails. Anything may fail. -/
def Endures {α : Type} (act : TierM α) : Prop :=
  ∀ S : Snapshot, S.Tallied →
    Turns (fun _ => True) 0 S act (fun _ S' => S'.Tallied) Snapshot.Tallied

/-- If anything may fail, then no room is needed. -/
theorem Turns.withoutRoom {α : Type} {room : Nat} {S : Snapshot} {act : TierM α}
    {Q : α → Snapshot → Prop} {X : Snapshot → Prop}
    (hact : Turns (fun _ => True) room S act Q X) : Turns (fun _ => True) 0 S act Q X :=
  fun t ht => hact t
    { ht with pool := { ht.pool with able := ⟨.inl trivial, .inl trivial⟩ } }

namespace Endures

variable {α β : Type} {act : TierM α} {f : α → TierM β}

theorem bind (hact : Endures act) (hf : ∀ a, Endures (f a)) : Endures (act >>= f) :=
  fun S hS => (hact S hS).bind fun a S' hS' => hf a S' hS'

theorem pure (a : α) : Endures (Pure.pure a : TierM α) := fun _ hS => Turns.pure hS

theorem get {f : Tier → TierM β} (hf : ∀ t, Endures (f t)) : Endures (MonadState.get >>= f) :=
  fun S hS => Turns.get fun t _ => hf t S hS

/-- An operation that leaves the snapshot alone if it fails. -/
theorem of_turns {room : Nat} {Q : Snapshot → α → Snapshot → Prop}
    (h : ∀ S : Snapshot, S.Tallied → Turns (fun _ => True) room S act (Q S) fun S' => S' = S)
    (hQ : ∀ S a S', S.Tallied → Q S a S' → S'.Tallied) : Endures act := by
  intro S hS
  refine (h S hS).withoutRoom.mono (fun a S' => hQ S a S' hS) ?_
  rintro _ rfl
  exact hS

/-- What is done to the file does not matter. -/
theorem onFile (act : FileOp α) : Endures (Tier.onFile act) := by
  refine fun S hS => (Turns.onFile fun _ _ _ => trivial).mono ?_ ?_
  · rintro _ _ ⟨f, -, rfl⟩
    exact hS
  · rintro _ ⟨f, rfl⟩
    exact hS

end Endures

theorem endures_insert (key value : Bytes) : Endures (insert key value) := by
  refine .of_turns (fun S hS => turns_insert hS fun S₁ hputs => ?_) fun _ _ _ _ h => h
  -- As far as the limits are enforced, the index goes on tallying.
  exact (settles_enforceLimits (fun _ => ⟨trivial, nofun⟩) (hputs.tallies hS)).mono
    (fun _ _ h => h.tallied) fun _ h => h.tallied

theorem endures_get? (key : Bytes) : Endures (get? key) := by
  refine .of_turns (fun S hS => turns_get? _ hS key) ?_
  rintro S _ _ hS ⟨-, rfl⟩
  exact Snapshot.tallies_touched hS key

theorem endures_erase (key : Bytes) : Endures (erase key) := by
  refine .of_turns (fun S hS => turns_erase _ hS key) ?_
  rintro S found S' hS ⟨-, h⟩
  cases found with
  | true => exact h.tallies hS
  | false => exact h ▸ hS

theorem endures_appendCommand (cmd : Command) : Endures (appendCommand cmd) := by
  refine .of_turns (fun S _ => turns_appendCommand _ S cmd) ?_
  rintro S _ _ hS ⟨z, -, -, rfl⟩
  exact ⟨hS.keys, hS.resident⟩

theorem endures_switchBuffers : Endures switchBuffers := by
  refine .of_turns (fun S _ => turns_switchBuffers _ S) ?_
  rintro S _ _ hS ⟨-, rfl⟩
  exact ⟨hS.keys, hS.resident⟩

theorem endures_clearCurrentBuffer : Endures clearCurrentBuffer := by
  refine .of_turns (fun S _ => turns_clearCurrentBuffer _ S) ?_
  rintro S _ _ hS ⟨-, rfl⟩
  exact ⟨hS.keys, hS.resident⟩

theorem endures_beginDrain : Endures beginDrain := by
  refine .of_turns (fun S _ => turns_beginDrain _ S) ?_
  rintro S _ _ hS ⟨-, -, rfl⟩
  by_cases hempty : S.contents.outOfService = []
  · rw [if_pos hempty]
    exact ⟨hS.keys, hS.resident⟩
  · rw [if_neg hempty]
    exact hS

/-- A drain may be of any generation, and of commands that have never been logged. -/
theorem endures_completeDrain (drain : LogDrain) : Endures (completeDrain drain) := by
  intro S hS
  by_cases hhead : drain.head = firstOf (logNodes S.contents.outOfService) none
  · refine (turns_fileDrain hhead fun _ _ _ => trivial).mono ?_ ?_
    · rintro _ _ ⟨-, f, -, rfl⟩
      exact ⟨hS.keys, hS.resident⟩
    · rintro _ ⟨f, rfl⟩
      exact hS
  · -- A drain of another generation is refused before anything is done.
    refine Turns.get fun t ht => ?_
    rw [otherHead_eq ht.pool.holds, if_neg hhead]
    exact Turns.throw trivial hS

theorem endures_drainOnce : Endures drainOnce := by
  refine Endures.get fun t => ?_
  split
  · exact .pure 0
  · exact endures_beginDrain.bind endures_completeDrain

theorem endures_flushLog : Endures flushLog :=
  endures_drainOnce.bind fun _ => endures_drainOnce.bind fun _ => .pure _

theorem endures_evictOne : Endures evictOne := fun _ hS =>
  (settles_evictOne hS).mono (fun _ _ h => h.tallied) fun _ h => h.tallied

theorem endures_evictBatch (count : Nat) : Endures (evictBatch count) := fun _ hS =>
  (settles_evictBatch (fun _ => trivial) hS count).mono (fun _ _ h => h.tallied) fun _ h => h.tallied

theorem endures_flushVictims : Endures flushVictims := fun _ hS =>
  (settles_flushVictims (fun _ => trivial) hS).mono (fun _ _ h => h.tallied) fun _ h => h.tallied

theorem endures_compact : Endures compact :=
  endures_flushLog.bind fun _ => .get fun _ => .onFile _

theorem endures_checkpoint : Endures checkpoint := by
  refine (Endures.onFile _).bind fun _ S hS t ht => ?_
  rw [EStateM.run_bind, EStateM.run_get]
  dsimp only
  cases hcheckpoint : t.pool.checkpoint with
  | error cause => exact ⟨.refl _, trivial, S, ht, hS⟩
  | ok q =>
    obtain ⟨hprecedes, hq⟩ := ht.pool.checkpoint hcheckpoint
    exact ⟨hprecedes, S, { ht with pool := hq }, hS⟩

/-- **A tier in which the index tallies with the pool**, whatever has gone wrong. -/
def Coherent (t : Tier) : Prop := ∃ S, t.Displays (fun _ => True) 0 S ∧ S.Tallied

/-- **What endures leaves a coherent tier coherent.** -/
theorem Endures.coherent {α : Type} {act : TierM α} {t : Tier} (hact : Endures act)
    (ht : t.Coherent) : match act.run t with
    | .ok _ t' | .error _ t' => t.pool.Precedes t'.pool ∧ t'.Coherent := by
  obtain ⟨S, ht, hS⟩ := ht
  have h := hact S hS t ht
  cases hr : act.run t with
  | ok a t' =>
    rw [hr] at h
    exact ⟨h.1, h.2⟩
  | error e t' =>
    rw [hr] at h
    exact ⟨h.1, h.2.2⟩

end Tier

namespace Operation

open Tier

variable {α : Type} {act : TierM α}

/-- A call that begins no drain. -/
theorem endures_plain (hact : Endures act) :
    Endures (do let _ ← act; return ([] : List LogDrain)) := hact.bind fun _ => .pure _

/-- **Every operation endures**, whatever drains are held. -/
theorem endures (op : Operation) (drains : List LogDrain) : Endures (op.call drains) := by
  cases op with
  | insert key value => exact endures_plain (endures_insert key value)
  | get key => exact endures_plain (endures_get? key)
  | erase key => exact endures_plain (endures_erase key)
  | append cmd => exact endures_plain (endures_appendCommand cmd)
  | switch => exact endures_plain endures_switchBuffers
  | clear => exact endures_plain endures_clearCurrentBuffer
  | beginDrain => exact endures_beginDrain.bind fun _ => .pure _
  | completeDrain i =>
    simp only [call]
    split
    · exact .pure _
    · exact endures_plain (endures_completeDrain _)
  | forgetDrain i => exact .pure _
  | flushLog => exact endures_plain endures_flushLog
  | evictOne => exact endures_plain endures_evictOne
  | evictBatch count => exact endures_plain (endures_evictBatch count)
  | flushVictims => exact endures_plain endures_flushVictims
  | compact => exact endures_plain endures_compact
  | checkpoint => exact endures_plain endures_checkpoint
  | limit budget =>
    intro S hS t ht
    -- A snapshot knows nothing of the write budget.
    have hheld : Pool.Holds { t.pool with writeBudget := budget } S.contents :=
      ⟨ht.pool.holds.root, ht.pool.holds.heap, ht.pool.holds.vacant.of_slots fun _ _ => rfl⟩
    exact ⟨⟨Nat.le_refl _, rfl⟩, S,
      { ht with pool := hheld.serves ht.pool.distinct ht.pool.stored }, hS⟩
  | repick picks =>
    intro S hS t ht
    -- Under the recency policy there are no picks to be replaced.
    cases hpolicy : t.policy with
    | lru =>
      have hrun : (call drains (.repick picks)).run t = .ok [] t := by
        simp only [call, EStateM.run_bind, EStateM.run_get, hpolicy, EStateM.run_pure]
      rw [hrun]
      exact ⟨.refl _, S, ht, hS⟩
    | random _ =>
      have hrun : (call drains (.repick picks)).run t = .ok [] { t with policy := .random picks } := by
        simp only [call, EStateM.run_bind, EStateM.run_get, hpolicy, EStateM.run_set, EStateM.run_pure]
      rw [hrun]
      exact ⟨.refl _, { S with policy := .random picks }, { ht with policy := rfl }, hS⟩

end Operation

end PersistentTier
