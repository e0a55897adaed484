import Mathlib.Tactic.Common

/-!
# Actions seen through a view of their state

A view of a state leaves something of it out. An action is mirrored by another one if it makes no
difference whether one looks first and runs the other one, or runs the action and looks at what it
has left. What the view leaves out is then of no use to the action.

## Main definitions

* `Seen`: an outcome seen through a view
* `Mirrors`: an action and its mirror

## Main results

* `Mirrors.bind`, `Mirrors.forM`, `Mirrors.mapM`: actions one after another
-/

namespace PersistentTier

variable {ε σ τ α β γ : Type} {view : σ → τ}

/-- An outcome seen through a view of the state. -/
def Seen (view : σ → τ) : EStateM.Result ε σ α → EStateM.Result ε τ α
  | .ok a s => .ok a (view s)
  | .error e s => .error e (view s)

/-- **An action and its mirror.** Looking and then running the mirror is running the action and then
looking. -/
def Mirrors (view : σ → τ) (act : EStateM ε σ α) (mirror : EStateM ε τ α) : Prop :=
  ∀ s, mirror.run (view s) = Seen view (act.run s)

namespace Mirrors

theorem pure (a : α) : Mirrors view (Pure.pure a : EStateM ε σ α) (Pure.pure a) := fun _ => rfl

theorem throw (e : ε) : Mirrors view (throw e : EStateM ε σ α) (throw e) := fun _ => rfl

/-- Actions one after another. -/
theorem bind {act : EStateM ε σ α} {mirror : EStateM ε τ α} {f : α → EStateM ε σ β}
    {g : α → EStateM ε τ β} (hact : Mirrors view act mirror)
    (hf : ∀ a, Mirrors view (f a) (g a)) : Mirrors view (act >>= f) (mirror >>= g) := by
  intro s
  rw [EStateM.run_bind, EStateM.run_bind, hact s]
  cases act.run s with
  | ok a s' => exact hf a s'
  | error e s' => rfl

/-- What is done next may depend on the state, so long as the mirror can tell from what it sees. -/
theorem get {f : σ → EStateM ε σ β} {g : τ → EStateM ε τ β}
    (hf : ∀ s, Mirrors view (f s) (g (view s))) :
    Mirrors view (MonadState.get >>= f) (MonadState.get >>= g) := fun s => hf s s

theorem ite {c : Prop} [Decidable c] {act act' : EStateM ε σ α} {mirror mirror' : EStateM ε τ α}
    (h : Mirrors view act mirror) (h' : Mirrors view act' mirror') :
    Mirrors view (if c then act else act') (if c then mirror else mirror') := by
  split
  · exact h
  · exact h'

theorem forM {f : γ → EStateM ε σ Unit} {g : γ → EStateM ε τ Unit}
    (hf : ∀ c, Mirrors view (f c) (g c)) (items : List γ) :
    Mirrors view (items.forM f) (items.forM g) := by
  induction items with
  | nil => exact pure ()
  | cons c items ih => exact (hf c).bind fun _ => ih

theorem mapM {f : γ → EStateM ε σ α} {g : γ → EStateM ε τ α}
    (hf : ∀ c, Mirrors view (f c) (g c)) (items : List γ) :
    Mirrors view (items.mapM f) (items.mapM g) := by
  induction items with
  | nil => exact pure []
  | cons c items ih =>
    rw [List.mapM_cons, List.mapM_cons]
    exact (hf c).bind fun _ => ih.bind fun _ => pure _

end Mirrors

end PersistentTier
