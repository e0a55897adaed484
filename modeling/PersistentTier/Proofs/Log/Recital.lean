import PersistentTier.Proofs.Chain.Contents

/-!
# Reading a log buffer that may be corrupt

A log buffer is read by following the links from its head and taking the command of each node. In a
pool that may be corrupt in any way there are two ways in which this ends: at the end of the buffer,
or at a node that blocks it, because the node or its command cannot be read or because there have
been as many commands as may be taken. The strict walk complains about such a node. The lazy one
stops there, or passes over a command that cannot be read; up to there the two have seen the same.

## Main definitions

* `Pool.Recites`: the commands that are read, if they are read to the end of their buffer
* `Pool.RecitesTo`: the commands that are read up to some place
* `Pool.Blocks`, `Pool.Blocked`: why a reading does not go on at a node

## Main results

* `Pool.exists_recites_or_blocks`: the two ways in which a reading ends
* `Pool.RecitesTo.pendingFrom_append`, `Pool.RecitesTo.nodesFrom_append`: both walks go on where a
  reading has come to
* `LogBuffer.pending_eq_ok_iff`, `Pool.Blocked.pending_eq`: when the strict walk succeeds, and what it
  complains about
* `LogBuffer.payloads_of_pending`: the lazy walk yields the same commands
-/

namespace PersistentTier

/-- **Commands that are read one after another**, newest first, to the end of their buffer. -/
inductive Pool.Recites (p : Pool) : (cursor : Option Handle) → List Logged → Prop
  | nil : Recites p none []
  | cons {h : Handle} {n : LogNode} {command : Bytes} {xs : List Logged}
      (node : p.logNode h = .ok n) (payload : p.bytes n.command = .ok command)
      (rest : Recites p n.next xs) : Recites p (some h) (⟨h, n.command, command⟩ :: xs)

/-- **Commands that are read one after another**, newest first, up to the place `after`. -/
inductive Pool.RecitesTo (p : Pool) :
    (cursor : Option Handle) → List Logged → (after : Option Handle) → Prop
  | nil {cursor : Option Handle} : RecitesTo p cursor [] cursor
  | cons {h : Handle} {n : LogNode} {command : Bytes} {xs : List Logged} {after : Option Handle}
      (node : p.logNode h = .ok n) (payload : p.bytes n.command = .ok command)
      (rest : RecitesTo p n.next xs after) :
      RecitesTo p (some h) (⟨h, n.command, command⟩ :: xs) after

/-- **Why a reading does not go on at a node**, where it may take `room` more commands. -/
inductive Pool.Blocks (p : Pool) (h : Handle) : (room : Nat) → Corruption → Prop
  | full : Blocks p h 0 (.logTooLong p.root.logCount)
  | node {room : Nat} {reason : Unreadable} (node : p.logNode h = .error reason) :
      Blocks p h (room + 1) (.logNodeUnreadable h reason)
  | command {room : Nat} {n : LogNode} {reason : Unreadable} (node : p.logNode h = .ok n)
      (payload : p.bytes n.command = .error reason) :
      Blocks p h (room + 1) (.commandUnreadable h reason)

/-- **A buffer that cannot be read to its end** within the recorded number of commands, and why. -/
def Pool.Blocked (p : Pool) (head : Option Handle) (corruption : Corruption) : Prop :=
  ∃ xs h room, p.RecitesTo head xs (some h) ∧ p.root.logCount.toNat = xs.length + room ∧
    p.Blocks h room corruption

open LogBuffer

variable {p : Pool} {cursor after : Option Handle} {xs : List Logged} {budget room : Nat}
  {commands : List Bytes} {corruption : Corruption} {h : Handle}

namespace Pool

/-! ## How far a reading goes -/

/-- A reading that comes to the end is one to the end. -/
theorem recitesTo_none_iff : p.RecitesTo cursor xs none ↔ p.Recites cursor xs := by
  constructor
  · generalize hend : none = after
    intro hxs
    induction hxs with
    | nil =>
      subst hend
      exact .nil
    | cons node payload _ ih => exact .cons node payload (ih hend)
  · intro hxs
    induction hxs with
    | nil => exact .nil
    | cons node payload _ ih => exact .cons node payload ih

/-- **The two ways in which a reading ends**: with the buffer, or at a node that blocks it. -/
theorem exists_recites_or_blocks (p : Pool) (budget : Nat) (cursor : Option Handle) :
    (∃ xs, p.Recites cursor xs ∧ xs.length ≤ budget) ∨
      ∃ xs h room corruption, p.RecitesTo cursor xs (some h) ∧ budget = xs.length + room ∧
        p.Blocks h room corruption := by
  -- Induction on what may be taken. A node takes up some of it only if it can be read.
  induction budget generalizing cursor with
  | zero =>
    cases cursor with
    | none => exact .inl ⟨[], .nil, Nat.le_refl 0⟩
    | some h => exact .inr ⟨[], h, 0, _, .nil, rfl, .full⟩
  | succ budget ih =>
    cases cursor with
    | none => exact .inl ⟨[], .nil, Nat.zero_le _⟩
    | some h =>
      cases hnode : p.logNode h with
      | error reason =>
        exact .inr ⟨[], h, budget + 1, _, .nil, (Nat.zero_add _).symm, .node hnode⟩
      | ok n =>
        cases hpayload : p.bytes n.command with
        | error reason =>
          exact .inr ⟨[], h, budget + 1, _, .nil, (Nat.zero_add _).symm, .command hnode hpayload⟩
        | ok command =>
          rcases ih n.next with ⟨xs, hxs, hlength⟩ | ⟨xs, g, room, corruption, hxs, hbudget, hg⟩
          · exact .inl ⟨_, .cons hnode hpayload hxs, Nat.succ_le_succ hlength⟩
          · refine .inr ⟨_, g, room, corruption, .cons hnode hpayload hxs, ?_, hg⟩
            rw [hbudget, List.length_cons, Nat.add_right_comm]

/-- A buffer is read to its end within the recorded number of commands, or it is blocked. -/
theorem exists_recites_or_blocked (p : Pool) (head : Option Handle) :
    (∃ xs, p.Recites head xs ∧ xs.length ≤ p.root.logCount.toNat) ∨
      ∃ corruption, p.Blocked head corruption := by
  rcases p.exists_recites_or_blocks p.root.logCount.toNat head with
    hend | ⟨xs, h, room, corruption, hxs, hcount, hblocks⟩
  · exact .inl hend
  · exact .inr ⟨corruption, xs, h, room, hxs, hcount, hblocks⟩

namespace RecitesTo

/-- **The strict walk** goes on where a reading has come to. -/
theorem pendingFrom_append (hxs : p.RecitesTo cursor xs after) (room : Nat) :
    pendingFrom p (xs.length + room) cursor =
      (pendingFrom p room after).map (xs.map Logged.command ++ ·) := by
  induction hxs with
  | nil =>
    rw [List.length_nil, Nat.zero_add]
    cases pendingFrom p room _ <;> rfl
  | @cons h n command xs after node payload _ ih =>
    rw [List.length_cons, Nat.add_right_comm]
    simp only [pendingFrom, node, payload, ih]
    cases pendingFrom p room after <;> rfl

/-- **The lazy walk** goes on where a reading has come to. -/
theorem nodesFrom_append (hxs : p.RecitesTo cursor xs after) (room : Nat) :
    nodesFrom p (xs.length + room) cursor = logNodes xs ++ nodesFrom p room after := by
  induction hxs with
  | nil => rw [List.length_nil, Nat.zero_add, logNodes, List.map_nil, List.nil_append]
  | cons node _ _ ih =>
    rw [List.length_cons, Nat.add_right_comm]
    simp only [nodesFrom, node, ih, List.map_cons, List.cons_append]

/-- The command of a node that has been read. -/
theorem payload?_eq (hxs : p.RecitesTo cursor xs after) {x : Logged} (hx : x ∈ xs) :
    payload? p x.node = some x.command := by
  induction hxs with
  | nil => cases hx
  | cons node payload _ ih =>
    rcases List.mem_cons.1 hx with rfl | hrest
    · simp only [payload?, node, payload, bind, Except.bind, Except.toOption]
    · exact ih hrest

end RecitesTo

/-- The strict walk complains about a node that blocks it. -/
theorem Blocks.pendingFrom_eq (hblocks : p.Blocks h room corruption) :
    pendingFrom p room (some h) = .error corruption := by
  cases hblocks with
  | full => rfl
  | node node => simp only [pendingFrom, node]
  | command node payload => simp only [pendingFrom, node, payload]

/-- **The strict walk complains** about a blocked buffer, and says what is in its way. -/
theorem Blocked.pending_eq (hblocked : p.Blocked cursor corruption) :
    pending p cursor = .error corruption := by
  obtain ⟨xs, h, room, hxs, hcount, hblocks⟩ := hblocked
  rw [pending, hcount, hxs.pendingFrom_append, hblocks.pendingFrom_eq]
  rfl

/-! ## Reading to the end -/

namespace Recites

/-- The cursor is at the first node. -/
theorem cursor_eq (hxs : p.Recites cursor xs) : cursor = firstOf (logNodes xs) none := by
  cases hxs <;> rfl

/-- The strict walk comes to the end of a buffer that is read to its end. -/
theorem pendingFrom_eq (hxs : p.Recites cursor xs) (hbudget : xs.length ≤ budget) :
    pendingFrom p budget cursor = .ok (xs.map Logged.command) := by
  obtain ⟨room, rfl⟩ := Nat.exists_eq_add_of_le hbudget
  rw [(recitesTo_none_iff.2 hxs).pendingFrom_append, pendingFrom_none]
  exact congrArg Except.ok (List.append_nil _)

/-- **The strict walk** yields the commands of a buffer that is read to its end, oldest first. -/
theorem pending_eq (hxs : p.Recites cursor xs) (hcount : xs.length ≤ p.root.logCount.toNat) :
    pending p cursor = .ok (xs.reverse.map Logged.command) := by
  rw [pending, hxs.pendingFrom_eq hcount, List.map_reverse]
  rfl

/-- The lazy walk comes there too, and has yielded the nodes. -/
theorem nodesFrom_eq (hxs : p.Recites cursor xs) (hbudget : xs.length ≤ budget) :
    nodesFrom p budget cursor = logNodes xs := by
  obtain ⟨room, rfl⟩ := Nat.exists_eq_add_of_le hbudget
  rw [(recitesTo_none_iff.2 hxs).nodesFrom_append, nodesFrom_none, List.append_nil]

theorem payload?_eq (hxs : p.Recites cursor xs) {x : Logged} (hx : x ∈ xs) :
    payload? p x.node = some x.command :=
  (recitesTo_none_iff.2 hxs).payload?_eq hx

/-- **The lazy walk** yields the same commands, newest first. -/
theorem payloads_eq (hxs : p.Recites cursor xs) (hcount : xs.length ≤ p.root.logCount.toNat) :
    payloads p cursor = xs.map Logged.command := by
  rw [payloads, LogBuffer.nodes, hxs.nodesFrom_eq hcount, logNodes, List.filterMap_map,
    ← List.filterMap_eq_map]
  exact List.filterMap_congr fun x hx => hxs.payload?_eq hx

end Recites

end Pool

namespace LogBuffer

open Pool

/-- **Commands are pending** where there are no more of them than the counter says. -/
theorem pending_eq_ok_iff : pending p cursor = .ok commands ↔
    ∃ xs, p.Recites cursor xs ∧ xs.length ≤ p.root.logCount.toNat ∧
      commands = xs.reverse.map Logged.command := by
  constructor
  · intro hpending
    rcases p.exists_recites_or_blocked cursor with ⟨xs, hxs, hcount⟩ | ⟨corruption, hblocked⟩
    · exact ⟨xs, hxs, hcount, Except.ok.inj (hpending.symm.trans (hxs.pending_eq hcount))⟩
    · cases hpending.symm.trans hblocked.pending_eq
  · rintro ⟨xs, hxs, hcount, rfl⟩
    exact hxs.pending_eq hcount

/-- **The lazy walk yields the pending commands**, the other way round. -/
theorem payloads_of_pending (hpending : pending p cursor = .ok commands) :
    payloads p cursor = commands.reverse := by
  obtain ⟨xs, hxs, hcount, rfl⟩ := pending_eq_ok_iff.1 hpending
  rw [hxs.payloads_eq hcount, List.map_reverse, List.reverse_reverse]

end LogBuffer

end PersistentTier
