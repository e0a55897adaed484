import PersistentTier.Proofs.Chain.Formed
import PersistentTier.Proofs.Startup.Reconstruction

/-!
# What the strict walk of a startup accepts

A startup asks for memory before it walks along a chain, and it treats what the walk objects to as
corruption. With that memory its walk accepts exactly the chains that are formed as their root
records.

## Main results

* `Startup.strictWalk_iff_formed`: the strict walk of a startup, which ends in one of two ways
-/

namespace PersistentTier

namespace Startup

variable {ρ : Type} {s : Startup ρ} {kind : ChainKind}

/-- With memory for its result, the strict walk of a startup is that of the pool. -/
theorem strictWalk_eq_ofPool
    (hroom : (s.pool.root.recordedLength kind).toNat * 16 < memoryBound) :
    (strictWalk kind).run s = (ofPool (·.strictWalk kind)).run s :=
  (run_get_bind _).trans (run_bind_of_ok (run_reserve hroom))

/-- **The strict walk of a startup accepts exactly the formed chains**, of any pool. The nodes of
such a chain are distinct, and there are no others. Every other chain is corrupt. -/
theorem strictWalk_iff_formed (s : Startup ρ) (kind : ChainKind)
    (hroom : (s.pool.root.recordedLength kind).toNat * 16 < memoryBound) :
    (∀ hs, (strictWalk kind).run s = .ok hs s ↔ s.pool.Formed kind hs) ∧
      (∀ hs, s.pool.Formed kind hs → hs.Nodup ∧ ∀ hs', s.pool.Formed kind hs' → hs' = hs) ∧
      ((∀ hs, ¬ s.pool.Formed kind hs) →
        ∃ corruption, (strictWalk kind).run s = .error (.cause (.corrupt corruption)) s) := by
  refine ⟨fun hs => ?_, fun hs hf => ⟨hf.nodup, fun hs' => hf.unique⟩, fun hnone => ?_⟩
  · rw [strictWalk_eq_ofPool hroom, ← Pool.strictWalk_eq_ok_iff]
    simp only [ofPool, EStateM.run]
    cases s.pool.strictWalk kind <;> simp
  · rw [strictWalk_eq_ofPool hroom]
    simp only [ofPool, EStateM.run]
    cases hwalk : s.pool.strictWalk kind with
    | ok hs => exact absurd (Pool.strictWalk_eq_ok_iff.1 hwalk) (hnone hs)
    | error corruption => exact ⟨corruption, rfl⟩

/-- Two victims that lead to each other. -/
def circular : Pool where
  id := 9
  root := { victimFirst := some ⟨9, 1⟩, victimCount := 2 }
  slots := #[
    some (.entry ⟨⟨9, 3⟩, ⟨9, 4⟩, some ⟨9, 2⟩, none, .victims⟩),
    some (.entry ⟨⟨9, 3⟩, ⟨9, 4⟩, some ⟨9, 1⟩, some ⟨9, 1⟩, .victims⟩),
    some (.payload [1]), some (.payload [10])]

/-- Going round in circles is corrupt, whatever is recorded. -/
theorem strictWalk_iff_formed_circular :
    (circular.root.recordedLength .victims).toNat * 16 < memoryBound ∧
      (∀ hs, ¬ circular.Formed .victims hs) ∧
      ∃ corruption, (strictWalk .victims).run ⟨circular, Index.empty, ()⟩ =
        .error (.cause (.corrupt corruption)) ⟨circular, Index.empty, ()⟩ := by
  have hroom : (circular.root.recordedLength .victims).toNat * 16 < memoryBound := by decide
  obtain ⟨hiff, -, hcorrupt⟩ := strictWalk_iff_formed ⟨circular, Index.empty, ()⟩ .victims hroom
  have hnone : ∀ hs, ¬ circular.Formed .victims hs := fun hs hf => by
    have hwalk := (hiff hs).2 hf
    cases hwalk
  exact ⟨hroom, hnone, hcorrupt hnone⟩

end Startup

end PersistentTier
