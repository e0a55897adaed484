import PersistentTier.Proofs.Chain.Operations
import PersistentTier.Proofs.Chain.Reading

/-!
# Operations on the log buffers

Appending puts a command in front of those of the active buffer, switching exchanges the roles, and
clearing frees all commands of one buffer. A buffer to be cleared is named by its head. Two empty
buffers have the same head, namely none, but then it makes no difference which one is cleared.

## Main definitions

* `LogBuffer.waiting`: the nodes of both buffers

## Main results

* `triple_append`, `yields_switch`, `yields_clear`: the three operations, said of the lists
* `fails_clear`: a handle that is the head of neither buffer clears nothing
-/

namespace PersistentTier

open Tx

/-- There are two buffers. -/
theorem Buffer.eq_flipped_of_ne {x y : Buffer} (h : y ≠ x) : y = x.flipped := by
  cases x <;> cases y <;> simp_all [Buffer.flipped]

namespace Root

variable (R : Root)

@[simp] theorem activeBuffer_setBufferHead (x : Buffer) (head : Option Handle) :
    (R.setBufferHead x head).activeBuffer = R.activeBuffer := by cases x <;> rfl

/-- Taking both heads away, with the counter set in between. -/
theorem clear_flipped (x : Buffer) (n k : UInt64) :
    { ({ R.setBufferHead x none with logCount := n } : Root).setBufferHead x.flipped none with
      logCount := k } = { R with logBufferA := none, logBufferB := none, logCount := k } := by
  cases x <;> rfl

/-- Taking one head away twice is enough if there is no other. -/
theorem clear_twice {x : Buffer} (n k : UInt64) (hx : R.bufferHead x.flipped = none) :
    { ({ R.setBufferHead x none with logCount := n } : Root).setBufferHead x none with
      logCount := k } = { R with logBufferA := none, logBufferB := none, logCount := k } := by
  cases x with
  | a => rw [← show R.logBufferB = none from hx]; rfl
  | b => rw [← show R.logBufferA = none from hx]; rfl

end Root

namespace Contents

variable (c : Contents) (x : Buffer) (xs : List Logged)

@[simp] theorem log_setLog : (c.setLog x xs).log x = xs := by simp [setLog]

@[simp] theorem log_flipped_setLog : (c.setLog x xs).log x.flipped = c.log x.flipped := by
  cases x <;> simp [setLog, Buffer.flipped, Function.update]

@[simp] theorem entries_setLog : (c.setLog x xs).entries = c.entries := rfl

@[simp] theorem victims_setLog : (c.setLog x xs).victims = c.victims := rfl

@[simp] theorem active_setLog : (c.setLog x xs).active = c.active := rfl

/-- The number of commands in both buffers, in either order. -/
theorem length_log : (c.log .a).length + (c.log .b).length =
    (c.log x).length + (c.log x.flipped).length := by
  cases x with
  | a => rfl
  | b => exact Nat.add_comm _ _

/-- A buffer that already is as required is not changed. -/
theorem setLog_self (hx : c.log x = xs) : c.setLog x xs = c := by
  cases c
  simp only [setLog, mk.injEq, true_and, and_true]
  rw [← hx, Function.update_eq_self]

theorem links_setLog (r : Root) :
    (c.setLog x xs).links r = (c.links r).setBufferHead x (firstOf (logNodes xs) none) := by
  cases x <;> simp [links, setLog, Root.setBufferHead, Function.update]

theorem counters_setLog : (c.setLog x xs).counters = c.counters.setCounter .logCount
    (UInt64.ofNat (xs.length + (c.log x.flipped).length)) := by
  have := (c.setLog x xs).length_log x
  simp only [log_setLog, log_flipped_setLog] at this
  simp [counters, Root.setCounter, this]

/-- The root when one buffer is emptied. -/
theorem root_setLog_nil : (c.setLog x []).root = { c.root.setBufferHead x none with
    logCount := UInt64.ofNat (c.log x.flipped).length } := by
  rw [root, c.links_setLog, c.counters_setLog]
  cases x <;> simp [root, Root.setBufferHead, Root.setCounter, links]

/-- The heap of everything but one buffer. -/
def apartFrom : Heap :=
  chain .entries none c.entries none + chain .victims none c.victims none +
    logChain none (c.log x.flipped)

theorem heap_eq_log : c.heap = logChain none (c.log x) + c.apartFrom x := by
  simp only [heap, c.logHeap_eq x, apartFrom]
  abel

@[simp] theorem apartFrom_setLog : (c.setLog x xs).apartFrom x = c.apartFrom x := by
  simp [apartFrom]

/-- No node is in two places of the log. -/
theorem nodup_logNodes (hn : c.handles.Nodup) (y : Buffer) :
    (logNodes (c.log y) ++ logNodes (c.log y.flipped)).Nodup := by
  have hboth := hn.sublist c.sublist_handles_log
  cases y with
  | a => exact hboth
  | b => exact List.nodup_append_comm.1 hboth

/-- A node is in one buffer only. -/
theorem eq_of_mem_logNodes {c : Contents} (hn : c.handles.Nodup) {h : Handle} {y z : Buffer}
    (hy : h ∈ logNodes (c.log y)) (hz : h ∈ logNodes (c.log z)) : y = z := by
  by_contra hne
  obtain rfl := Buffer.eq_flipped_of_ne (Ne.symm hne)
  exact (List.nodup_append.1 (c.nodup_logNodes hn y)).2.2 h hy h hz rfl

@[simp] theorem bufferHead_links (r : Root) :
    (c.links r).bufferHead x = firstOf (logNodes (c.log x)) none := by cases x <;> rfl

end Contents

namespace LogBuffer

/-- The buffer that has a role in the contents. -/
def roleIn (c : Contents) : BufferRole → Buffer
  | .current => c.active
  | .other => c.active.flipped

section Operations

variable {E : Failure → Prop} {room : Nat} {R : Root} {m : Heap} {c : Contents} {h : Handle}
  {before : Option Handle} {xs : List Logged} {x : Logged}

theorem inRole_links (role : BufferRole) : inRole (c.links R) role = roleIn c role := by
  cases role <;> rfl

/-- The head of the buffer in a role, in a pool with the links of some contents. -/
theorem head_eq {p : Pool} (hp : p.root = c.links R) (role : BufferRole) :
    head p role = firstOf (logNodes (c.log (roleIn c role))) none := by
  rw [head, hp, inRole_links, Contents.bufferHead_links]

/-- The first of some commands gets another predecessor. -/
theorem yields_setPrev (node : Handle) :
    Yields E ⟨room, R, logChain before xs + m⟩ (setPrev node (firstOf (logNodes xs) none)) ()
      ⟨room, R, logChain (some node) xs + m⟩ := by
  cases xs with
  | nil => exact .pure _ ()
  | cons x xs =>
    have hheap : ∀ prev, logChain prev (x :: xs) + m =
        cell x.node (.log (x.entry prev (firstOf (logNodes xs) none))) +
          (cell x.payload (.payload x.command) + logChain (some x.node) xs + m) := by
      intro prev
      simp only [logChain, Logged.heap]
      abel
    rw [hheap, hheap]
    exact yields_editLog _ _

theorem yields_setHead (role : BufferRole) (head : Option Handle) :
    Yields E ⟨room, c.links R, m⟩ (setHead role head) ()
      ⟨room, (c.links R).setBufferHead (roleIn c role) head, m⟩ := by
  rw [← inRole_links (R := R)]
  exact yields_editRoot _

/-- **A command is logged** in front of those of the active buffer. -/
theorem triple_append (command : Bytes) :
    Triple E (Scope.Shows E (c.view (room + 2) c.counters m)) (append command) fun h s =>
      ∃ x : Logged, x.node = h ∧ x.command = command ∧
        s.Shows E ((c.setLog c.active (x :: c.log c.active)).view room
          (c.setLog c.active (x :: c.log c.active)).counters m) := by
  refine (triple_alloc _).bind fun payload => (triple_alloc _).bind fun node => ?_
  let x : Logged := ⟨node, payload, command⟩
  let xs := c.log c.active
  refine Triple.get fun s hs => ?_
  have hhead : currentHead s.pool = firstOf (logNodes xs) none := head_eq hs.root .current
  have hedit : Yields E ⟨room, c.links c.counters, cell node (.log { command := payload }) +
        (cell payload (.payload command) + (c.heap + m))⟩
      (editLog node fun n => { n with next := currentHead s.pool }) ()
      ⟨room, c.links c.counters, logChain none xs + (x.heap none (firstOf (logNodes xs) none) +
        (c.apartFrom c.active + m))⟩ := by
    rw [hhead]
    refine (yields_editLog { command := payload } _).congr rfl (View.ext rfl rfl ?_)
    simp only [c.heap_eq_log c.active, Logged.heap, Logged.entry, x, xs]
    abel
  refine hedit.bind ?_
  rw [hhead]
  refine (yields_setPrev node).bind ((yields_setHead .current _).bind ?_)
  -- The new node is the head, and the old head's link leads back to it.
  have hlinks : (c.links c.counters).setBufferHead (roleIn c .current) (some node) =
      (c.setLog c.active (x :: xs)).links c.counters :=
    (c.links_setLog c.active (x :: xs) c.counters).symm
  have hheap : logChain (some node) xs + (x.heap none (firstOf (logNodes xs) none) +
      (c.apartFrom c.active + m)) = (c.setLog c.active (x :: xs)).heap + m := by
    simp only [Contents.heap_eq_log _ c.active, Contents.log_setLog, Contents.apartFrom_setLog,
      logChain, x]
    abel
  rw [hlinks, hheap]
  have hcounters : c.counters.setCounter .logCount
      (UInt64.ofNat ((c.log .a).length + (c.log .b).length + 1)) =
        (c.setLog c.active (x :: xs)).counters := by
    rw [c.counters_setLog, c.length_log c.active, List.length_cons, Nat.add_right_comm]
  have hincrement : Yields E ((c.setLog c.active (x :: xs)).view room c.counters m)
      (increment .logCount 1) ()
      ((c.setLog c.active (x :: xs)).view room (c.setLog c.active (x :: xs)).counters m) := by
    rw [← hcounters]
    refine Triple.of_length fun _ hlen => yields_increment_view .logCount (n := 1) ?_ rfl
    rw [Contents.length_log _ c.active, Contents.log_setLog, Contents.log_flipped_setLog,
      List.length_cons] at hlen
    rw [c.length_log c.active, Nat.add_right_comm]
    exact hlen
  exact hincrement.bind (Triple.pure fun s hs => ⟨x, rfl, rfl, hs⟩)

/-- **The buffers exchange their roles.** -/
theorem yields_switch :
    Yields E (c.view room R m) switch c.active.flipped
      (({ c with active := c.active.flipped }).view room R m) := by
  have hedit : Yields E (c.view room R m)
      (editRoot fun r => { r with activeBuffer := r.activeBuffer.flipped }) ()
      (({ c with active := c.active.flipped }).view room R m) :=
    (yields_editRoot _).congr rfl rfl
  exact hedit.bind (yields_root.bind (Yields.pure _ _))

/-- The commands from one on are freed, and counted. -/
theorem yields_freeFrom {a : Heap} (hxs : Threaded xs a) {recorded count : UInt64} {budget : Nat}
    (hbudget : xs.length ≤ budget) :
    Yields E ⟨room, R, a + m⟩ (freeFrom recorded budget (firstOf (logNodes xs) none) count)
      (count + UInt64.ofNat xs.length) ⟨room, R, m⟩ := by
  -- Induction on the commands left; the budget lasts as long as there are commands.
  induction hxs generalizing budget count with
  | nil =>
    simpa using Yields.pure (E := E) ⟨room, R, m⟩ count
  | @cons x xs a before rest ih =>
    cases budget with
    | zero => simp at hbudget
    | succ budget =>
      have hheap : ∀ next, x.heap before next + (a + m) =
          cell x.payload (.payload x.command) +
            (cell x.node (.log (x.entry before next)) + (a + m)) := by
        intro next
        simp only [Logged.heap]
        abel
      have hnode : Yields E ⟨room, R, x.heap before (firstOf (logNodes xs) none) + (a + m)⟩
          (freeNode x.node) (firstOf (logNodes xs) none) ⟨room, R, a + m⟩ := by
        refine (yields_logNode (x.entry before _) (add_assoc _ _ _)).bind ?_
        rw [hheap]
        exact (yields_free _).bind ((yields_free _).bind (Yields.pure _ _))
      have hrest : Yields E ⟨room, R, a + m⟩
          (freeFrom recorded budget (firstOf (logNodes xs) none) (count + 1))
          (count + 1 + UInt64.ofNat xs.length) ⟨room, R, m⟩ := ih (by simpa using hbudget)
      rw [add_assoc, List.length_cons, Nat.add_comm xs.length, UInt64.ofNat_add,
        ← UInt64.add_assoc]
      exact hnode.bind hrest

/-- **A buffer is emptied** under the role that it has. The heads differ, unless it is the current
one. -/
theorem yields_clear_threaded {a : Heap} (hxs : Threaded xs a) {n : Nat}
    (hn : n + xs.length < 2 ^ 64) (hR : R.logCount = UInt64.ofNat (n + xs.length))
    (role : BufferRole) (hhead : R.bufferHead (inRole R role) = firstOf (logNodes xs) none)
    (hrole : role = .other → R.bufferHead R.activeBuffer ≠ firstOf (logNodes xs) none) :
    Yields E ⟨room, R, a + m⟩ (clear (firstOf (logNodes xs) none)) (UInt64.ofNat xs.length)
      ⟨room, { R.setBufferHead (inRole R role) none with logCount := UInt64.ofNat n }, m⟩ := by
  refine Triple.get fun s hs => ?_
  have hroot : s.pool.root = R := hs.root
  have hheads : ∀ role, head s.pool role = R.bufferHead (inRole R role) := fun role => by
    rw [head, hroot]
  have hroleOf : roleOf s.pool (firstOf (logNodes xs) none) = role := by
    rw [roleOf, currentHead, hheads]
    cases role with
    | current => exact if_pos hhead.symm
    | other => exact if_neg (Ne.symm (hrole rfl))
  refine Triple.require (fun hne => absurd ?_ hne) fun _ => ?_
  · rw [currentHead, otherHead, hheads, hheads]
    cases role with
    | current => exact .inl hhead.symm
    | other => exact .inr hhead.symm
  -- The counter is of both buffers, so it is budget enough for one.
  have hbudget : xs.length ≤ s.pool.root.logCount.toNat := by
    rw [hroot, hR, UInt64.toNat_ofNat_of_lt' hn]
    exact Nat.le_add_left _ _
  have hfree : Yields E ⟨room, R, a + m⟩ (freeFrom s.pool.root.logCount
      s.pool.root.logCount.toNat (firstOf (logNodes xs) none) 0) (0 + UInt64.ofNat xs.length)
      ⟨room, R, m⟩ := yields_freeFrom hxs hbudget
  rw [UInt64.zero_add] at hfree
  refine hfree.bind ?_
  -- The role was found out before the commands were freed.
  rw [hroleOf]
  have hcount : (R.setBufferHead (inRole R role) none).counter .logCount =
      UInt64.ofNat (n + xs.length) := by
    rw [← hR]
    cases inRole R role <;> rfl
  exact Yields.bind (yields_editRoot _)
    ((yields_decrement_of_eq .logCount hn hcount).bind (Yields.pure _ _))

/-- Both log buffers are emptied, the current one first. -/
def clearBoth : Tx Unit := do
  let _ ← clear (currentHead (← get).pool)
  let _ ← clear (otherHead (← get).pool)

theorem stepwise_clearBoth : clearBoth.Stepwise :=
  Stepwise.get.bind fun _ => (stepwise_clear _).bind fun _ =>
    Stepwise.get.bind fun _ => (stepwise_clear _).bind fun _ => .pure ()

/-- **Both buffers are emptied**, whatever their links back say. What the counter is too large by stays
on it. -/
theorem yields_clearBoth_surplus {ys : List Logged} {a b : Heap} {k : Nat} (hxs : Threaded xs a)
    (hys : Threaded ys b) (hn : k + ys.length + xs.length < 2 ^ 64)
    (hR : R.logCount = UInt64.ofNat (k + ys.length + xs.length))
    (hcurrent : R.bufferHead R.activeBuffer = firstOf (logNodes xs) none)
    (hother : R.bufferHead R.activeBuffer.flipped = firstOf (logNodes ys) none) :
    Yields E ⟨room, R, a + (b + m)⟩ clearBoth ()
      ⟨room, { R with logBufferA := none, logBufferB := none, logCount := UInt64.ofNat k }, m⟩ := by
  let R₁ : Root :=
    { R.setBufferHead R.activeBuffer none with logCount := UInt64.ofNat (k + ys.length) }
  have hactive : R₁.activeBuffer = R.activeBuffer := R.activeBuffer_setBufferHead _ _
  have hempty : R₁.bufferHead R.activeBuffer = none := R.bufferHead_setBufferHead _ _
  have hleft : R₁.bufferHead R.activeBuffer.flipped = firstOf (logNodes ys) none :=
    (R.bufferHead_flipped_setBufferHead _ _).trans hother
  have hfirst : Yields E ⟨room, R, a + (b + m)⟩ (clear (firstOf (logNodes xs) none))
      (UInt64.ofNat xs.length) ⟨room, R₁, b + m⟩ :=
    yields_clear_threaded hxs hn hR .current hcurrent (by simp)
  refine Triple.get fun s hs => ?_
  have hhead : currentHead s.pool = firstOf (logNodes xs) none := by
    rw [← hcurrent, ← show s.pool.root = R from hs.root]
    rfl
  rw [hhead]
  refine hfirst.bind (Triple.get fun s hs => ?_)
  have hhead : otherHead s.pool = firstOf (logNodes ys) none := by
    rw [← hleft, ← hactive, ← show s.pool.root = R₁ from hs.root]
    rfl
  rw [hhead]
  -- Without commands in the other buffer it is the current one that is cleared again.
  cases ys with
  | nil =>
    refine Yields.bind ((yields_clear_threaded (n := k) hys (by simp at hn ⊢; omega) rfl .current ?_
      (by simp)).congr rfl ?_) (Yields.pure _ _)
    · exact (congrArg R₁.bufferHead hactive).trans hempty
    · rw [inRole, hactive]
      exact congrArg (View.mk room · m) (R.clear_twice _ _ hother).symm
  | cons y ys =>
    refine Yields.bind ((yields_clear_threaded (n := k) hys (by omega) rfl .other ?_ fun _ => ?_).congr
      rfl ?_) (Yields.pure _ _)
    · exact (congrArg R₁.bufferHead (congrArg Buffer.flipped hactive)).trans hleft
    · rw [hactive, hempty]
      simp
    · rw [inRole, hactive]
      exact congrArg (View.mk room · m) (R.clear_flipped _ _ _).symm

/-- Both buffers are emptied, and so is a counter that is exact. -/
theorem yields_clearBoth {ys : List Logged} {a b : Heap} (hxs : Threaded xs a)
    (hys : Threaded ys b) (hn : ys.length + xs.length < 2 ^ 64)
    (hR : R.logCount = UInt64.ofNat (ys.length + xs.length))
    (hcurrent : R.bufferHead R.activeBuffer = firstOf (logNodes xs) none)
    (hother : R.bufferHead R.activeBuffer.flipped = firstOf (logNodes ys) none) :
    Yields E ⟨room, R, a + (b + m)⟩ clearBoth ()
      ⟨room, { R with logBufferA := none, logBufferB := none, logCount := 0 }, m⟩ :=
  yields_clearBoth_surplus (k := 0) hxs hys (by rwa [Nat.zero_add]) (by rwa [Nat.zero_add]) hcurrent
    hother

/-- A buffer is emptied under the role that it has. -/
theorem yields_clear_role (role : BufferRole) {y : Buffer} (hy : roleIn c role = y)
    (hrole : role = .other →
      firstOf (logNodes (c.log c.active)) none ≠ firstOf (logNodes (c.log y)) none) :
    Yields E (c.view room c.counters m) (clear (firstOf (logNodes (c.log y)) none))
      (UInt64.ofNat (c.log y).length)
      ((c.setLog y []).view room (c.setLog y []).counters m) := by
  refine Triple.of_length fun _ hlen => ?_
  have hsum : (c.log .a).length + (c.log .b).length =
      (c.log y.flipped).length + (c.log y).length := by rw [c.length_log y, Nat.add_comm]
  -- The buffer is found under its role; the commands of the other one are counted as before.
  have hinRole : inRole (c.links c.counters) role = y := (inRole_links role).trans hy
  have hheap : (c.view room c.counters m).heap =
      logChain none (c.log y) + (c.apartFrom y + m) := by
    rw [Contents.view, c.heap_eq_log y, add_assoc]
  have hroot : { (c.links c.counters).setBufferHead y none with
      logCount := UInt64.ofNat (c.log y.flipped).length } =
        (c.setLog y []).links (c.setLog y []).counters := (c.root_setLog_nil y).symm
  have hleft : (c.setLog y []).heap + m = c.apartFrom y + m := by
    simp [Contents.heap_eq_log _ y, logChain]
  have hclear : Yields E
      ⟨room, c.links c.counters, logChain none (c.log y) + (c.apartFrom y + m)⟩
      (clear (firstOf (logNodes (c.log y)) none)) (UInt64.ofNat (c.log y).length)
      ⟨room, { (c.links c.counters).setBufferHead (inRole (c.links c.counters) role) none with
        logCount := UInt64.ofNat (c.log y.flipped).length }, c.apartFrom y + m⟩ :=
    yields_clear_threaded (threaded_logChain none (c.log y)) (hsum ▸ hlen)
      (congrArg UInt64.ofNat hsum) role (by rw [hinRole, c.bufferHead_links])
      fun h => (c.bufferHead_links c.active c.counters).symm ▸ hrole h
  rw [hinRole, hroot] at hclear
  exact hclear.congr (View.ext rfl rfl hheap) (View.ext rfl rfl hleft)

/-- Two buffers with the same head are empty. -/
theorem log_eq_nil (hn : c.handles.Nodup) {y : Buffer}
    (hy : firstOf (logNodes (c.log y)) none = firstOf (logNodes (c.log y.flipped)) none) :
    c.log y = [] ∧ c.log y.flipped = [] := by
  have hne := (List.nodup_append.1 (c.nodup_logNodes hn y)).2.2
  -- Only two empty buffers are left, since nodes of different buffers differ.
  cases hleft : c.log y with
  | nil =>
    cases hright : c.log y.flipped with
    | nil => exact ⟨rfl, rfl⟩
    | cons z zs => simp [hleft, hright] at hy
  | cons x xs =>
    cases hright : c.log y.flipped with
    | nil => simp [hleft, hright] at hy
    | cons z zs =>
      have hxz : x.node = z.node := by simpa [hleft, hright] using hy
      exact absurd hxz (hne _ (by simp [hleft]) _ (by simp [hright]))

/-- **Every command of a buffer is freed.** -/
theorem yields_clear (y : Buffer) :
    Yields E (c.view room c.counters m) (clear (firstOf (logNodes (c.log y)) none))
      (UInt64.ofNat (c.log y).length)
      ((c.setLog y []).view room (c.setLog y []).counters m) := by
  refine Triple.of_nodup_handles fun hn => ?_
  have hcurrent : Yields E (c.view room c.counters m)
      (clear (firstOf (logNodes (c.log c.active)) none)) (UInt64.ofNat (c.log c.active).length)
      ((c.setLog c.active []).view room (c.setLog c.active []).counters m) := by
    exact yields_clear_role .current rfl (by simp)
  by_cases hy : y = c.active
  · exact hy ▸ hcurrent
  · obtain rfl := Buffer.eq_flipped_of_ne hy
    -- With equal heads it is the active buffer that is cleared; both are empty then.
    by_cases hsame : firstOf (logNodes (c.log c.active)) none =
        firstOf (logNodes (c.log c.active.flipped)) none
    · obtain ⟨hleft, hright⟩ := log_eq_nil hn hsame
      rw [c.setLog_self _ _ hleft, hleft] at hcurrent
      rw [c.setLog_self _ _ hright, hright]
      exact hcurrent
    · exact yields_clear_role .other rfl fun _ => hsame

/-- A handle that is the head of neither buffer clears nothing. -/
theorem fails_clear (hE : Lenient E) {head : Option Handle}
    (hh : ∀ y, head ≠ firstOf (logNodes (c.log y)) none) :
    Fails E (c.view room R m) (clear head) := by
  refine Triple.get fun s hs => Triple.require (fun _ => hE _ ?_) fun hor => ?_
  · cases head <;> simp [notAHead]
  · exact (hor.elim (fun h => hh _ (h.trans (head_eq hs.root .current)))
      fun h => hh _ (h.trans (head_eq hs.root .other))).elim

end Operations

/-- The nodes of both buffers, those of the current one first, and newest first in each. -/
def waiting (p : Pool) : List Handle := nodes p (currentHead p) ++ nodes p (otherHead p)

end LogBuffer

namespace Contents

/-- The nodes of the commands that are logged. -/
def waiting (c : Contents) : List Handle :=
  logNodes (c.log c.active) ++ logNodes (c.log c.active.flipped)

theorem mem_waiting {c : Contents} {h : Handle} :
    h ∈ c.waiting ↔ ∃ y, h ∈ logNodes (c.log y) := by
  rw [waiting, List.mem_append]
  constructor
  · rintro (hm | hm) <;> exact ⟨_, hm⟩
  · rintro ⟨y, hm⟩
    by_cases hy : y = c.active
    · exact .inl (hy ▸ hm)
    · exact .inr (Buffer.eq_flipped_of_ne hy ▸ hm)

end Contents

namespace Pool.Holds

variable {p : Pool} {c : Contents}

theorem waiting_eq (hp : p.Holds c) : LogBuffer.waiting p = c.waiting := by
  have hhead := fun role => LogBuffer.head_eq (R := c.counters) hp.root role
  rw [LogBuffer.waiting, LogBuffer.currentHead, LogBuffer.otherHead, hhead, hhead, hp.nodes_log_eq,
    hp.nodes_log_eq]
  rfl

/-- The commands of both buffers, oldest first, if the one out of service is the older one. -/
theorem payloads_waiting (hp : p.Holds c) :
    (LogBuffer.waiting p).reverse.map (LogBuffer.payload? p) =
      ((c.log c.active.flipped).reverse.map Logged.command ++
        (c.log c.active).reverse.map Logged.command).map some := by
  have hread : ∀ y, (logNodes (c.log y)).reverse.map (LogBuffer.payload? p) =
      ((c.log y).reverse.map Logged.command).map some := by
    intro y
    rw [← List.map_reverse, List.map_map, List.map_map]
    exact List.map_congr_left fun z hz =>
      (hp.recites_log y).payload?_eq (List.mem_reverse.1 hz)
  rw [hp.waiting_eq, Contents.waiting, List.reverse_append, List.map_append, hread, hread,
    List.map_append]

/-- **The commands of the buffer in a role**, newest first. -/
theorem payloads_eq (hp : p.Holds c) (role : BufferRole) :
    LogBuffer.payloads p (LogBuffer.head p role) =
      (c.log (LogBuffer.roleIn c role)).map Logged.command := by
  rw [LogBuffer.head_eq (R := c.counters) hp.root]
  exact (hp.recites_log _).payloads_eq (hp.length_log_le _)

theorem nodup_waiting (hp : p.Holds c) : (LogBuffer.waiting p).Nodup :=
  hp.waiting_eq ▸ c.nodup_logNodes hp.nodup_handles c.active

end Pool.Holds

end PersistentTier
