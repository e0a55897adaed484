import PersistentTier.Proofs.Chain.Validity
import PersistentTier.Proofs.Scope.Draining
import PersistentTier.Proofs.Scope.Sparing

/-!
# Clearing a log buffer

A buffer is cleared by the handle of its newest command, or by none if it is empty. Which of the two
buffers that is has to be settled before the commands are freed. In a pool that is in order the
commands of that buffer go, and nothing else; a handle that is the head of neither buffer clears
nothing.

The loop over the commands is bounded by the number of commands that the root records for both buffers
together. In a pool whose log is corrupt it may be too many or too few. Still the loop ends within that
bound, and what is taken off the counter is what has been freed.

## Main definitions

* `Pool.Emptied`: a pool of which one log buffer has been emptied
* `LogBuffer.Frees`: the loop over the commands, with the nodes that it visits

## Main results

* `Pool.Valid.transaction_clear`: clearing a buffer of a pool that is in order
* `LogBuffer.exists_frees_clear`: the loop visits no more nodes than are recorded
* `LogBuffer.logCount_of_transaction_clear`: what is taken off the counter
* `LogBuffer.clear_buffer`: all of it
-/

namespace PersistentTier

open Tx

/-! ## Pools that are in order -/

/-- A head that is none already is taken away in vain. -/
theorem Root.setBufferHead_self {R : Root} {y : Buffer} {head : Option Handle}
    (hy : R.bufferHead y = head) : R.setBufferHead y head = R := by
  subst hy
  cases y <;> rfl

/-- **A pool of which one log buffer has been emptied.** -/
structure Pool.Emptied (p : Pool) (c : Contents) (y : Buffer) (q : Pool) : Prop where
  /-- The lists are as before, but for the commands of that buffer. -/
  valid : q.Valid (c.setLog y [])
  logCount : q.root.logCount.toNat + (c.log y).length = p.root.logCount.toNat
  /-- The buffer has no head any more. The root says nothing else that is new. -/
  root : q.root = { p.root.setBufferHead y none with logCount := q.root.logCount }
  /-- The nodes of the buffer and their commands are gone. All other objects are as before. -/
  object? : ∀ h, q.object? h = if h ∈ (c.log y).flatMap Logged.handles then none else p.object? h

namespace Pool.Valid

variable {p q : Pool} {c : Contents} {t : Buffer → Heap} {y : Buffer}

/-- The heap of everything but one log buffer. -/
theorem heap_eq_log (hheap : p.heap = c.threadedHeap t) (y : Buffer) : p.heap = t y +
    (chain .entries none c.entries none + chain .victims none c.victims none + t y.flipped) := by
  rw [hheap, c.threadedHeap_eq y]
  abel

/-- What is left when a log buffer has been emptied. -/
theorem emptied (hp : p.Valid c) (ht : ∀ y, Threaded (c.log y) (t y))
    (hheap : p.heap = c.threadedHeap t) (hroot : q.root = (c.setLog y []).root)
    (hleft : q.heap =
      chain .entries none c.entries none + chain .victims none c.victims none + t y.flipped) :
    p.Emptied c y q := by
  have hthreaded : ∀ z, Threaded ((c.setLog y []).log z) (Function.update t y 0 z) := by
    intro z
    by_cases hz : z = y
    · subst hz
      simpa using Threaded.nil
    · simpa [Contents.setLog, Function.update_of_ne hz] using ht z
  have hne : y.flipped ≠ y := by cases y <;> decide
  have hq : q.Valid (c.setLog y []) := by
    refine valid_of_heap_eq hroot hthreaded ?_
    rw [hleft, (c.setLog y []).threadedHeap_eq y, Function.update_self, Function.update_of_ne hne, zero_add]
    rfl
  refine ⟨hq, ?_, ?_, object?_of_heap_add ((heap_eq_log hheap y).trans (by rw [hleft])) (ht y).map_eq⟩
  · rw [hq.logCount_eq, hp.logCount_eq, (c.setLog y []).length_log y, c.length_log y]
    simp [Nat.add_comm]
  · rw [hroot, c.root_setLog_nil, hp.root]

section Emptying

variable {E : Failure → Prop} {room : Nat} {role : BufferRole}

/-- A buffer is emptied under a role in which there is a buffer with the same head. -/
theorem yields_clear_at (hp : p.Valid c) (ht : ∀ y, Threaded (c.log y) (t y))
    (hheap : p.heap = c.threadedHeap t)
    (hhead : p.root.bufferHead (LogBuffer.inRole p.root role) = firstOf (logNodes (c.log y)) none)
    (hsame : p.root.setBufferHead (LogBuffer.inRole p.root role) none = p.root.setBufferHead y none)
    (hne : role = .other → p.root.bufferHead p.root.activeBuffer ≠ firstOf (logNodes (c.log y)) none) :
    Yields E ⟨room, p.root, p.heap⟩ (LogBuffer.clear (firstOf (logNodes (c.log y)) none))
      (UInt64.ofNat (c.log y).length) ⟨room, (c.setLog y []).root,
        chain .entries none c.entries none + chain .victims none c.victims none + t y.flipped⟩ := by
  have hlength : (c.log .a).length + (c.log .b).length =
      (c.log y.flipped).length + (c.log y).length := by rw [c.length_log y, Nat.add_comm]
  have hlt : (c.log y.flipped).length + (c.log y).length < 2 ^ 64 := hlength ▸ hp.length_lt.2.2
  have hcount : p.root.logCount = UInt64.ofNat ((c.log y.flipped).length + (c.log y).length) := by
    rw [hp.root, ← hlength]
    rfl
  refine (LogBuffer.yields_clear_threaded (ht y) hlt hcount role hhead hne).congr
    (View.ext rfl rfl (heap_eq_log hheap y)) (View.ext rfl ?_ rfl)
  rw [c.root_setLog_nil, hsame, hp.root]

/-- **The buffer in a role is emptied.** If both buffers are empty it may be the other one, which makes
no difference. -/
theorem yields_clear_head (hp : p.Valid c) (ht : ∀ y, Threaded (c.log y) (t y))
    (hheap : p.heap = c.threadedHeap t) (role : BufferRole)
    (hy : LogBuffer.inRole p.root role = y) :
    Yields E ⟨room, p.root, p.heap⟩ (LogBuffer.clear (LogBuffer.head p role))
      (UInt64.ofNat (c.log y).length) ⟨room, (c.setLog y []).root,
        chain .entries none c.entries none + chain .victims none c.victims none + t y.flipped⟩ := by
  rw [LogBuffer.head, hy, hp.bufferHead_eq y]
  by_cases hne : role = .other → p.root.bufferHead p.root.activeBuffer ≠
      firstOf (logNodes (c.log y)) none
  · exact hp.yields_clear_at ht hheap (hy ▸ hp.bufferHead_eq _) (by rw [hy]) hne
  · -- Two buffers with the same head are empty, and then neither has a head to be taken away.
    obtain ⟨rfl, hsame⟩ : role = .other ∧ p.root.bufferHead p.root.activeBuffer =
        firstOf (logNodes (c.log y)) none := by simpa using hne
    obtain rfl : p.root.activeBuffer.flipped = y := hy
    have hheads := hsame
    rw [hp.bufferHead_eq] at hheads
    obtain ⟨hleft, hright⟩ := LogBuffer.log_eq_nil hp.owned hheads
    have hnone : ∀ z, c.log z = [] → p.root.setBufferHead z none = p.root := fun z hz =>
      Root.setBufferHead_self (by rw [hp.bufferHead_eq, hz]; rfl)
    have hcurrent : p.root.bufferHead (LogBuffer.inRole p.root .current) =
        firstOf (logNodes (c.log p.root.activeBuffer.flipped)) none := hsame
    exact hp.yields_clear_at ht hheap hcurrent ((hnone _ hleft).trans (hnone _ hright).symm) (by simp)

end Emptying

/-- **Clearing a buffer in a transaction of its own**: it succeeds if nothing is in the way of writes,
and if it succeeds, that buffer has been emptied. -/
theorem transaction_clear (hp : p.Valid c) (role : BufferRole)
    (hy : LogBuffer.inRole p.root role = y) :
    (p.Unhindered → ∃ q, p.transaction (LogBuffer.clear (LogBuffer.head p role)) =
        (.ok (UInt64.ofNat (c.log y).length), q)) ∧
      ∀ n q, p.transaction (LogBuffer.clear (LogBuffer.head p role)) = (.ok n, q) →
        n.toNat = (c.log y).length ∧ p.Emptied c y q := by
  obtain ⟨t, ht, hheap⟩ := hp.exists_heap_eq
  obtain ⟨hcommits, hcommitted⟩ := transaction_of_yields (LogBuffer.stepwise_clear _)
    (LogBuffer.frugal_clear _) fun E => hp.yields_clear_head ht hheap role hy
  refine ⟨hcommits, fun n q h => ?_⟩
  obtain ⟨rfl, hroot, hleft⟩ := hcommitted n q h
  have hlength := c.length_log y
  have hboth := hp.length_lt.2.2
  have hlt : (c.log y).length < 2 ^ 64 := by omega
  exact ⟨UInt64.toNat_ofNat_of_lt' hlt, hp.emptied ht hheap hroot hleft⟩

end Pool.Valid

namespace LogBuffer

variable {p : Pool} {h : Option Handle} {s s' : Scope}

/-! ## Handles that are no heads -/

/-- **A handle that is the head of neither buffer clears nothing**, whatever the pool is like, and the
pool does not change at all. -/
theorem transaction_clear_of_ne (hcurrent : h ≠ currentHead p) (hother : h ≠ otherHead p) :
    p.transaction (clear h) = (.error (.aborted (.failed (notAHead h))), p) := by
  have hrun : (clear h).run { pool := p } = .error (.cause (notAHead h)) { pool := p } := by
    have hc : ¬ (h = currentHead p ∨ h = otherHead p) := not_or_intro hcurrent hother
    simp only [clear, EStateM.run_bind, EStateM.run_get, Tx.require, if_neg hc]
    rfl
  rw [Pool.transaction, hrun]
  rfl

/-! ## The end of the loop -/

/-- **The loop over the commands**: which nodes it visits, and how it ends, that begins in the scope `s`
at `cursor`, when `count` commands have been freed. -/
inductive Frees (recorded : UInt64) : (cursor : Option Handle) → (count : UInt64) → (s : Scope) →
    (visited : List Handle) → EStateM.Result Failure Scope UInt64 → Prop
  /-- There is no node left. -/
  | done (count : UInt64) (s : Scope) : Frees recorded none count s [] (.ok count s)
  /-- There is a node left, but as many have been freed as are recorded. -/
  | tooLong {h : Handle} {count : UInt64} {s : Scope} (full : recorded ≤ count) :
    Frees recorded (some h) count s [] (.error (.cause (.corrupt (.logTooLong recorded))) s)
  /-- A node is freed, and the loop goes on behind it. -/
  | freed {h : Handle} {next : Option Handle} {count : UInt64} {s s' : Scope}
      {visited : List Handle} {out : EStateM.Result Failure Scope UInt64} (few : count < recorded)
      (run : (freeNode h).run s = .ok next s') (rest : Frees recorded next (count + 1) s' visited out) :
    Frees recorded (some h) count s (h :: visited) out
  /-- A node cannot be freed. -/
  | failed {h : Handle} {count : UInt64} {s s' : Scope} {e : Failure} (few : count < recorded)
      (run : (freeNode h).run s = .error e s') : Frees recorded (some h) count s [h] (.error e s')

variable {recorded count : UInt64} {cursor : Option Handle} {visited visited' : List Handle}
  {out out' : EStateM.Result Failure Scope UInt64}

/-- The loop goes one way at most. -/
theorem Frees.unique (h : Frees recorded cursor count s visited out)
    (h' : Frees recorded cursor count s visited' out') : visited = visited' ∧ out = out' := by
  induction h generalizing visited' out' with
  | done =>
    cases h'
    exact ⟨rfl, rfl⟩
  | tooLong full =>
    cases h' with
    | tooLong => exact ⟨rfl, rfl⟩
    | freed few | failed few => exact absurd full (UInt64.not_le.2 few)
  | freed few run rest ih =>
    cases h' with
    | tooLong full => exact absurd full (UInt64.not_le.2 few)
    | freed few' run' rest' =>
      obtain ⟨rfl, rfl⟩ := EStateM.Result.ok.inj (run.symm.trans run')
      obtain ⟨rfl, rfl⟩ := ih rest'
      exact ⟨rfl, rfl⟩
    | failed few' run' => cases run.symm.trans run'
  | failed few run =>
    cases h' with
    | tooLong full => exact absurd full (UInt64.not_le.2 few)
    | freed few' run' rest' => cases run.symm.trans run'
    | failed few' run' =>
      obtain ⟨rfl, rfl⟩ := EStateM.Result.error.inj (run.symm.trans run')
      exact ⟨rfl, rfl⟩

/-- With as many rounds left as the counter allows, the loop visits no more nodes than that. -/
theorem exists_frees_freeFrom (recorded : UInt64) (budget : Nat) (cursor : Option Handle)
    (count : UInt64) (s : Scope) (hbudget : count.toNat + budget = recorded.toNat) :
    ∃ visited, visited.length ≤ budget ∧
      Frees recorded cursor count s visited ((freeFrom recorded budget cursor count).run s) := by
  -- Induction on the rounds left, which are always as many as the counter still allows.
  induction budget generalizing cursor count s with
  | zero =>
    cases cursor with
    | none => exact ⟨[], le_rfl, .done count s⟩
    | some h => exact ⟨[], le_rfl, .tooLong (UInt64.le_iff_toNat_le.2 hbudget.symm.le)⟩
  | succ budget ih =>
    have hlt : count.toNat < recorded.toNat := by omega
    have hfew : count < recorded := UInt64.lt_iff_toNat_lt.2 hlt
    cases cursor with
    | none => exact ⟨[], Nat.zero_le _, .done count s⟩
    | some h =>
      simp only [freeFrom, EStateM.run_bind]
      cases hr : (freeNode h).run s with
      | error e s' => exact ⟨[h], Nat.succ_le_succ (Nat.zero_le _), .failed hfew hr⟩
      | ok next s' =>
        have hnext : (count + 1).toNat = count.toNat + 1 := by
          have hword := recorded.toNat_lt
          rw [UInt64.toNat_add, UInt64.toNat_one, Nat.mod_eq_of_lt (by omega)]
        obtain ⟨visited, hle, hrest⟩ := ih next (count + 1) s' (by rw [hnext]; omega)
        exact ⟨h :: visited, Nat.succ_le_succ hle, .freed hfew hr hrest⟩

/-- **The loop ends in every pool**, and it visits no more nodes than are recorded. -/
theorem exists_frees_iff (recorded : UInt64) (cursor : Option Handle) (s : Scope) :
    ∃ visited, visited.length ≤ recorded.toNat ∧ ∀ visited' out,
      Frees recorded cursor 0 s visited' out ↔
        visited' = visited ∧ out = (freeFrom recorded recorded.toNat cursor 0).run s := by
  obtain ⟨visited, hle, hrun⟩ :=
    exists_frees_freeFrom recorded recorded.toNat cursor 0 s (Nat.zero_add _)
  refine ⟨visited, hle, fun visited' out => ⟨fun h => h.unique hrun, ?_⟩⟩
  rintro ⟨rfl, rfl⟩
  exact hrun

/-- What is done when `count` commands have been freed: their buffer loses its head, and they are taken
off the counter. -/
def signOff (role : BufferRole) (count : UInt64) : Tx UInt64 := do
  setHead role none
  decrement .logCount count
  return count

/-- **Clearing goes through the commands from a head on**, and visits no more nodes than the pool
records. Nothing that comes afterwards is a loop. -/
theorem exists_frees_clear (hhead : h = currentHead p ∨ h = otherHead p) :
    ∃ visited out, visited.length ≤ p.root.logCount.toNat ∧
      (∀ visited' out', Frees p.root.logCount h 0 { pool := p } visited' out' ↔
        visited' = visited ∧ out' = out) ∧
      (clear h).run { pool := p } = match out with
        | .ok count s => (signOff (roleOf p h) count).run s
        | .error e s => .error e s := by
  obtain ⟨visited, hle, hfrees⟩ := exists_frees_iff p.root.logCount h { pool := p }
  refine ⟨visited, _, hle, hfrees, ?_⟩
  simp only [clear, signOff, EStateM.run_bind, EStateM.run_get, EStateM.run_pure, Tx.require,
    if_pos hhead]
  cases (freeFrom p.root.logCount p.root.logCount.toNat h 0).run { pool := p } <;> rfl

/-! ## The counter -/

section Counter

open Tx.Triple

variable {gone : Handle → Prop} {R : Root → Prop}

/-- Freeing commands leaves the root alone. -/
theorem thins_freeFrom_all (recorded : UInt64) (budget : Nat) (cursor : Option Handle)
    (count : UInt64) : Partial (Scope.Thins p (fun _ => True) R)
      (freeFrom recorded budget cursor count) fun _ => Scope.Thins p (fun _ => True) R := by
  induction budget generalizing cursor count with
  | zero =>
    cases cursor with
    | none => exact .pure fun _ hs => hs
    | some h => exact .fail trivial
  | succ budget ih =>
    cases cursor with
    | none => exact .pure fun _ hs => hs
    | some h =>
      have hnode : Partial (Scope.Thins p (fun _ => True) R) (freeNode h) fun _ =>
          Scope.Thins p (fun _ => True) R :=
        thins_logNode fun _ _ => (thins_free trivial).bind fun _ =>
          (thins_free trivial).bind fun _ => .pure fun _ hs => hs
      exact hnode.bind fun next => ih next (count + 1)

/-- What is freed is taken off the counter, which is not lowered below zero. -/
theorem thins_clear_all (recorded : UInt64) (h : Option Handle) :
    Partial (Scope.Thins p (fun _ => True) fun r => r.logCount = recorded) (clear h) fun n =>
      Scope.Thins p (fun _ => True) fun r => r.logCount.toNat + n.toNat = recorded.toNat := by
  refine .get fun s _ => .require (fun _ => trivial) fun _ => ?_
  refine (thins_freeFrom_all _ _ _ _).bind fun n => ?_
  have hhead : Partial (Scope.Thins p (fun _ => True) fun r => r.logCount = recorded)
      (setHead (roleOf s.pool h) none) fun _ =>
        Scope.Thins p (fun _ => True) fun r => r.logCount = recorded :=
    thins_editRoot fun r hr => by
      cases inRole r (roleOf s.pool h) <;> exact hr
  refine hhead.bind fun _ => Triple.bind (Q := fun _ => Scope.Thins p (fun _ => True) fun r =>
    r.logCount.toNat + n.toNat = recorded.toNat) ?_ fun _ => .pure fun _ hs => hs
  refine thins_recordRoot.bind fun _ => thins_root fun r hr => ?_
  refine .require (fun _ => trivial) fun hle => thins_editRoot fun _ _ => ?_
  have hle' : n ≤ r.logCount := hle
  have hword := UInt64.le_iff_toNat_le.1 hle'
  change (r.logCount - n).toNat + n.toNat = recorded.toNat
  rw [UInt64.toNat_sub_of_le _ _ hle', ← hr]
  exact Nat.sub_add_cancel hword

end Counter

/-- **What is taken off the counter** in a transaction that succeeds is the number of commands that it
returns, whatever the pool is like. -/
theorem logCount_of_transaction_clear {n : UInt64} {q : Pool}
    (hq : p.transaction (clear h) = (.ok n, q)) :
    q.root.logCount.toNat + n.toNat = p.root.logCount.toNat := by
  obtain ⟨s, image, hs, rfl⟩ := Pool.post_of_transaction_ok (thins_clear_all p.root.logCount h)
    ⟨.refl p _, rfl⟩ hq
  exact hs.root

/-! ## All of it -/

/-- **Clearing a log buffer.** In a pool that is in order, the head of a buffer clears that buffer and
nothing else; it does so unless something is in the way of writes. Any other head is refused, and the
pool does not change. In a pool that is corrupt in any way, the loop over the commands ends within the
recorded number of them, what is returned is what is taken off the counter, and a failure leaves the
root and every object. -/
theorem clear_buffer (p : Pool) (h : Option Handle) :
    (∀ c, p.Valid c → ∀ role, h = head p role →
      (p.Unhindered → ∃ q, p.transaction (clear h) =
          (.ok (UInt64.ofNat (c.log (inRole p.root role)).length), q)) ∧
        ∀ n q, p.transaction (clear h) = (.ok n, q) →
          n.toNat = (c.log (inRole p.root role)).length ∧ p.Emptied c (inRole p.root role) q) ∧
    (h ≠ currentHead p → h ≠ otherHead p →
      p.transaction (clear h) = (.error (.aborted (.failed (notAHead h))), p)) ∧
    (h = currentHead p ∨ h = otherHead p → ∃ visited out, visited.length ≤ p.root.logCount.toNat ∧
      (∀ visited' out', Frees p.root.logCount h 0 { pool := p } visited' out' ↔
        visited' = visited ∧ out' = out) ∧
      (clear h).run { pool := p } = match out with
        | .ok count s => (signOff (roleOf p h) count).run s
        | .error e s => .error e s) ∧
    (∀ n q, p.transaction (clear h) = (.ok n, q) →
      q.root.logCount.toNat + n.toNat = p.root.logCount.toNat) ∧
    ∀ e q, p.transaction (clear h) = (.error e, q) →
      q.root = p.root ∧ ∀ h, q.object? h = p.object? h := by
  refine ⟨fun c hp role hh => ?_, transaction_clear_of_ne, exists_frees_clear, fun n q hq => ?_,
    fun e q hq => ?_⟩
  · subst hh
    exact hp.transaction_clear role rfl
  · exact logCount_of_transaction_clear hq
  · exact Pool.kept_of_transaction_error (stepwise_clear h) (frugal_clear h) hq

/-- A pair, two commands in the buffer being drained and one in the current one. What the older of the
two says of the node before it is wrong. -/
def divided : Pool where
  id := 9
  root := {
    entryFirst := some ⟨9, 1⟩
    entryLast := some ⟨9, 1⟩
    logBufferA := some ⟨9, 4⟩
    logBufferB := some ⟨9, 8⟩
    activeBuffer := .b
    entryCount := 1
    logCount := 3 }
  slots := #[
    some (.entry ⟨⟨9, 2⟩, ⟨9, 3⟩, none, none, .entries⟩), some (.payload [1]), some (.payload [10]),
    some (.log ⟨⟨9, 5⟩, some ⟨9, 6⟩, none⟩), some (.payload [2]),
    some (.log ⟨⟨9, 7⟩, none, none⟩), some (.payload [3]),
    some (.log ⟨⟨9, 9⟩, none, none⟩), some (.payload [4])]

/-- The lists of the pool. -/
def dividedContents : Contents where
  entries := [⟨⟨9, 1⟩, ⟨9, 2⟩, ⟨9, 3⟩, [1], [10]⟩]
  log
    | .a => [⟨⟨9, 4⟩, ⟨9, 5⟩, [2]⟩, ⟨⟨9, 6⟩, ⟨9, 7⟩, [3]⟩]
    | .b => [⟨⟨9, 8⟩, ⟨9, 9⟩, [4]⟩]
  active := .b

theorem valid_divided : divided.Valid dividedContents :=
  Pool.valid_of_heap_eq (t := fun
    | .a => Logged.heap ⟨⟨9, 4⟩, ⟨9, 5⟩, [2]⟩ none (some ⟨9, 6⟩) +
        (Logged.heap ⟨⟨9, 6⟩, ⟨9, 7⟩, [3]⟩ none none + 0)
    | .b => Logged.heap ⟨⟨9, 8⟩, ⟨9, 9⟩, [4]⟩ none none + 0) rfl
    (fun
      | .a => .cons none (.cons none .nil)
      | .b => .cons none .nil) rfl

/-- The buffer being drained is emptied, and a node in its middle is no head. -/
theorem clear_buffer_divided : divided.Valid dividedContents ∧ divided.Unhindered ∧
    (∃ n q, divided.transaction (clear (otherHead divided)) = (.ok n, q) ∧ n.toNat = 2 ∧
      divided.Emptied dividedContents .a q) ∧
    divided.transaction (clear (some ⟨9, 6⟩)) =
      (.error (.aborted (.failed (.notABufferHead ⟨9, 6⟩))), divided) := by
  have hu : divided.Unhindered := ⟨rfl, by simp [divided], by simp [divided]⟩
  obtain ⟨hheads, -⟩ := clear_buffer divided (otherHead divided)
  obtain ⟨hcommits, hcleared⟩ := hheads dividedContents valid_divided .other rfl
  obtain ⟨q, hq⟩ := hcommits hu
  obtain ⟨-, hothers, -⟩ := clear_buffer divided (some ⟨9, 6⟩)
  exact ⟨valid_divided, hu, ⟨_, q, hq, hcleared _ _ hq⟩, hothers (by decide) (by decide)⟩

end LogBuffer

end PersistentTier
