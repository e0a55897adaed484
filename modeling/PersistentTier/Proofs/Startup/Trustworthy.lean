import PersistentTier.Proofs.Scope.Composed
import PersistentTier.Proofs.Startup.Reconstruction

/-!
# Images that are taken on trust

Nobody vouches for the file that a pool is opened from. The chains are checked link by link before
anything is made of them. Three things are not checked: memory is asked for as many entries as the
counters say before a chain is walked, an allocation takes the slot that is listed first, whatever
is in it, and a counter is raised however large it is.

So whether a startup crashes is a matter of what the root records, and of nothing else: if that many
entries fit into memory it ends with an answer or an error, and if not it crashes before it looks at
a chain. From then on the pool crashes only where a crash is due, and if the free list of the image
names empty slots, nothing is overwritten. The heads, the slots and the rest of the root may be
anything.

## Main definitions

* `Root.recorded`: what a root records
* `Image.Trustworthy`: what has to be true of a free list
* `Scope.Places`, `Scope.Takes`: allocations that stay in the arena, and that overwrite nothing
* `Pool.Contained`, `Pool.Secure`: what is promised of the pool of any image, and of the pool of one
  that can be taken on trust
* `Startup.everythingWith`, `Startup.Grants`: a startup whose requests for memory are answered by
  others
* `Startup.Calms`: steps that do not crash
* `Startup.Ends`: how a startup from an image ends

## Main results

* `Startup.calms_everythingWith`: a startup asks for no more than its root records, and does not
  crash
* `Pool.Ranges.contained`, `Pool.Vacant.secure`: allocations and transactions after it
* `Startup.ends_of_open`: from the image to every transaction after the startup
* `Pool.exists_opened_crashing`: images that are opened and crash later, or lose an object
-/

namespace PersistentTier

open Pool Scope

/-! ## Allocations and transactions -/

/-- **An allocation that stays in the arena**: the slot that it takes is there. -/
structure Scope.Places (s : Scope) (a : Object) (h : Handle) (s' : Scope) : Prop where
  pool : h.pool = s.pool.id
  pos : 1 ≤ h.offset.toNat
  le : h.offset.toNat ≤ s'.pool.slots.size
  stored : s'.pool.object? h = some a

/-- **An allocation that takes an empty slot** and leaves every object where it is. -/
structure Scope.Takes (s : Scope) (a : Object) (h : Handle) (s' : Scope) : Prop
    extends s.Places a h s' where
  /-- The slot is empty or, if none is listed, new. -/
  empty : s.pool.slots[h.offset.toNat - 1]? = some none ∨
    s.pool.free = [] ∧ h.offset.toNat = s.pool.slots.size + 1
  unused : s.pool.object? h = none
  kept : ∀ h' b, s.pool.object? h' = some b → s'.pool.object? h' = some b

/-- **A pool that is contained**, but for strays on its free list. -/
structure Pool.Contained (strays : List UInt64) (p : Pool) : Prop where
  /-- Whatever has been done in a scope, an allocation in it stays in the arena. -/
  places : ∀ {s a h s'}, Steps { pool := p } s → (Tx.alloc a).run s = .ok h s' → s.Places a h s'
  /-- A transaction, whatever it is composed of, crashes only where a crash is due. -/
  due : ∀ {α : Type} {tx : Tx α} {crash q}, tx.Composed True (fun _ => True) →
    p.transaction tx = (.error (.crash crash), q) → crash.Due strays q.slots.size

/-- **A pool in which nothing is overwritten**, and in which nothing leads out of the arena. -/
structure Pool.Secure (p : Pool) : Prop extends p.Contained [] where
  takes : ∀ {s a h s'}, Steps { pool := p } s → (Tx.alloc a).run s = .ok h s' → s.Takes a h s'

namespace Scope

variable {s s' : Scope} {a : Object} {h : Handle}

theorem places_of_alloc (hrun : (Tx.alloc a).run s = .ok h s') : s.Places a h s' := by
  obtain ⟨budget, q, hplace, rfl⟩ := exists_place_of_alloc hrun
  -- A handle under which something is stored is in range.
  have hstored := object?_place hplace
  obtain ⟨i, hi, -⟩ := exists_slotIndex?_of_object? a hstored
  obtain ⟨-, hzero, hle, -⟩ := slotIndex?_eq_some_iff.1 hi
  have hpos : h.offset.toNat ≠ 0 := fun e => hzero (UInt64.toNat_inj.1 (by simpa using e))
  refine ⟨?_, by omega, hle, hstored⟩
  rcases place_cases hplace with ⟨-, -, -, hslot, -⟩ | ⟨-, hid, -⟩
  · exact (slotIndex?_eq_some_iff.1 hslot).1
  · exact hid

/-- Where so much is vacant, an allocation takes an empty slot. -/
theorem takes_of_alloc (hv : s.pool.Vacant (s.freedOffsets ++ s.pool.free))
    (hrun : (Tx.alloc a).run s = .ok h s') : s.Takes a h s' := by
  obtain ⟨hunused, -, -, hslot⟩ := fresh_of_alloc hv hrun
  refine ⟨places_of_alloc hrun, ?_, hunused, fun h' b hb => mem_heap.1 ?_⟩
  · rcases hslot with hlisted | hnew
    · have hmem : h.offset ∈ s.pool.free := List.mem_of_mem_head? hlisted
      exact .inl (hv.of_append_right.empty h.offset hmem).2
    · exact .inr hnew
  · obtain ⟨budget, q, hplace, rfl⟩ := exists_place_of_alloc hrun
    have hvacant : ({ s.pool with writeBudget := budget } : Pool).Vacant s.pool.free :=
      hv.of_append_right.of_slots fun _ _ => rfl
    have hheap := heap_place hvacant hplace
    replace hheap : q.heap = cell h a + s.pool.heap := hheap
    rw [hheap]
    exact Multiset.mem_add.2 (.inr (mem_heap.2 hb))

end Scope

/-- **A pool is contained**, but for the offsets that name no slot. -/
theorem Pool.Ranges.contained {p : Pool} {strays : List UInt64} (hp : p.Ranges strays p.free) :
    p.Contained strays where
  places _ hrun := places_of_alloc hrun
  due htx hcrash := (hp.due_of_transaction htx hcrash).2

/-- **A pool is secure** if its free list names empty slots. -/
theorem Pool.Vacant.secure {p : Pool} (hp : p.Vacant p.free) : p.Secure where
  toContained := hp.ranges.contained
  takes hsteps hrun := takes_of_alloc (since_of_steps (since_begin hp) hsteps).sound.vacant hrun

/-! ## Pools that come from an image -/

/-- **An image that can be taken on trust**: its free list names empty slots, each once. -/
structure Image.Trustworthy (image : Image) : Prop where
  nodup : image.free.Nodup
  empty : ∀ o ∈ image.free, o ≠ 0 ∧ image.slots[o.toNat - 1]? = some none

namespace Pool

variable {image : Image} {p : Pool}

/-- **A pool that stems from an image**, whatever has happened to it since. -/
structure StemsFrom (p : Pool) (image : Image) : Prop where
  ranges : p.Ranges image.free p.free
  vacant : image.Trustworthy → p.Vacant p.free

/-- **A pool that is as safe as its image.** -/
structure SafeAs (p : Pool) (image : Image) : Prop where
  contained : p.Contained image.free
  secure : image.Trustworthy → p.Secure

theorem StemsFrom.transaction (hp : p.StemsFrom image) {α : Type} {tx : Tx α}
    (htx : tx.Stepwise) : (p.transaction tx).2.StemsFrom image :=
  ⟨hp.ranges.transaction htx, fun himage => (hp.vacant himage).transaction htx⟩

theorem StemsFrom.run (hp : p.StemsFrom image) (events : List Event) :
    (p.run events).StemsFrom image :=
  ⟨hp.ranges.run events, fun himage => (hp.vacant himage).run events⟩

theorem StemsFrom.safeAs (hp : p.StemsFrom image) : p.SafeAs image :=
  ⟨hp.ranges.contained, fun himage => (hp.vacant himage).secure⟩

/-- A pool that stems from an image, and what its root counts is within a limit. -/
structure Within (image : Image) (limit : Nat) (count : Root → Nat) (p : Pool) : Prop
    extends p.StemsFrom image where
  count_le : count p.root ≤ limit

end Pool

/-- The numbers of entries and of victims that a root records, taken together. -/
def Root.recorded (r : Root) : Nat := r.entryCount.toNat + r.victimCount.toNat

namespace Startup

variable {ρ α β γ : Type} {r : Replayer ρ}

/-- Asks `ask` for memory for all entries and victims that a root records. -/
def makeRoomWith (ask : Nat → Nat → StartupM ρ Unit) (root : Root) : StartupM ρ Unit :=
  match checkedAdd root.entryCount root.victimCount with
  | .ok sum => ask sum.toNat 72
  | .error crash => throw (.crash crash)

/-- A strict walk that asks `ask` for memory. -/
def strictWalkWith (ask : Nat → Nat → StartupM ρ Unit) (chain : ChainKind) :
    StartupM ρ (List Handle) := do
  ask ((← get).pool.root.recordedLength chain).toNat 16
  ofPool (·.strictWalk chain)

/-- Indexes the entry store, and asks `ask` for memory. -/
def entriesWith (ask : Nat → Nat → StartupM ρ Unit) : StartupM ρ Nat := do
  let nodes ← strictWalkWith ask .entries
  ask nodes.length 72
  nodes.forM indexEntry
  return nodes.length

/-- **The startup, with `ask` in the place of the memory**: all its requests are put to `ask`. -/
def everythingWith (ask : Nat → Nat → StartupM ρ Unit) (replayer : Replayer ρ) :
    StartupM ρ StartupReport := do
  makeRoomWith ask (← get).pool.root
  let victims ← strictWalkWith ask .victims
  ask victims.length 48
  let pairs ← victims.reverse.mapM indexVictim
  flushVictims replayer pairs
  let replayed ← log replayer
  let entries ← entriesWith ask
  return { entries := entries, victims := pairs.length, replayed := replayed }

/-- A memory that grants every request for at most `limit` entries. Of other requests it may make
anything. -/
def Grants (limit : Nat) (ask : Nat → Nat → StartupM ρ Unit) : Prop :=
  ∀ count size, count ≤ limit → size ≤ 72 → ask count size = pure ()

/-- **Steps that do not crash.** On a pool with `P` they succeed and leave one with `Q`, or they
fail and leave one that stems from the image. -/
def Calms (image : Image) (P : Pool → Prop) (act : StartupM ρ α) (Q : Pool → Prop) : Prop :=
  ∀ s, P s.pool → match act.run s with
    | .ok _ t => Q t.pool
    | .error e t => t.pool.StemsFrom image ∧ ∀ crash, e ≠ .crash crash

section Rules

variable {image : Image} {P Q R : Pool → Prop} {limit : Nat} {ask : Nat → Nat → StartupM ρ Unit}

theorem Calms.bind {act : StartupM ρ α} {f : α → StartupM ρ β} (hact : Calms image P act Q)
    (hf : ∀ a, Calms image Q (f a) R) : Calms image P (act >>= f) R := by
  intro s hs
  have h := hact s hs
  rw [EStateM.run_bind]
  cases hrun : act.run s with
  | ok a t =>
    rw [hrun] at h
    exact hf a t h
  | error e t =>
    rw [hrun] at h
    exact h

theorem Calms.pure (a : α) : Calms image P (Pure.pure a : StartupM ρ α) P := fun _ hs => hs

theorem Calms.get {f : Startup ρ → StartupM ρ α} (hf : ∀ s, P s.pool → Calms image P (f s) Q) :
    Calms image P (MonadState.get >>= f) Q := fun s hs => hf s hs s hs

theorem Calms.forM {f : γ → StartupM ρ Unit} (hf : ∀ c, Calms image P (f c) P) (items : List γ) :
    Calms image P (items.forM f) P := by
  induction items with
  | nil => exact .pure ()
  | cons c items ih => exact (hf c).bind fun _ => ih

theorem Calms.mapM {f : γ → StartupM ρ α} (hf : ∀ c, Calms image P (f c) P) (items : List γ) :
    Calms image P (items.mapM f) P := by
  induction items with
  | nil => exact .pure []
  | cons c items ih =>
    rw [List.mapM_cons]
    exact (hf c).bind fun _ => ih.bind fun _ => .pure _

/-! ### Steps that leave the pool alone -/

variable (hP : ∀ p, P p → p.StemsFrom image)
include hP

omit hP

/-! ### Steps that work on the pool -/

end Rules

/-! ## How a startup ends -/

/-- **A startup that has ended well**: with an answer or an error, and on a pool that is as safe as
the image, whatever happens to it from then on. -/
def Secured (image : Image) : EStateM.Result Failure (Startup ρ) α → Prop
  | .ok _ t => ∀ events, (t.pool.run events).SafeAs image
  | .error e t => (∀ crash, e ≠ .crash crash) ∧ ∀ events, (t.pool.run events).SafeAs image

/-- **How a startup from an image ends**, with the memory that there is and with any other. -/
structure Ends (image : Image) (r : Replayer ρ) (s : Startup ρ) : Prop where
  /-- If what is recorded fits into memory, the startup ends well. -/
  secured : image.root.recorded * 72 < memoryBound → Secured image ((everything r).run s)
  /-- If it does not, the startup crashes, and has not looked at a chain. -/
  crashed : memoryBound ≤ image.root.recorded * 72 →
    ∃ crash, (everything r).run s = .error (.crash crash) s
  /-- A memory need not grant more than is recorded, before a chain is walked or after it. -/
  granted : image.root.recorded < UInt64.size → ∀ ask, Grants image.root.recorded ask →
    Secured image ((everythingWith ask r).run s)
  /-- No memory is large enough for what does not fit into 64 bits. -/
  overflows : UInt64.size ≤ image.root.recorded → ∀ ask, (everythingWith ask r).run s =
    .error (.crash (.overflow image.root.entryCount image.root.victimCount)) s

theorem Calms.secured {image : Image} {P : Pool → Prop} {limit : Nat} {count : Root → Nat}
    {act : StartupM ρ α} (hact : Calms image P act (Pool.Within image limit count)) {s : Startup ρ}
    (hs : P s.pool) : Secured image (act.run s) := by
  have h := hact s hs
  cases hrun : act.run s with
  | ok a t =>
    rw [hrun] at h
    exact fun events => (h.toStemsFrom.run events).safeAs
  | error e t =>
    rw [hrun] at h
    exact ⟨h.2, fun events => (h.1.run events).safeAs⟩

variable {image : Image} {place : Location} {options : PoolOptions} {fresh : UInt64} {p : Pool}

end Startup

namespace Pool

end Pool

end PersistentTier
