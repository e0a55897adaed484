import PersistentTier.Proofs.Chain.Formed
import PersistentTier.Proofs.Log.Recital

/-!
# Lazy walks and strict walks

A lazy walk yields one handle after the other. It stops at the end of its chain, at a node that cannot
be read, and when it has yielded as many handles as are recorded. So it ends in every pool, also in
one whose links go round in circles. The lazy walks serve inspection and eviction, the strict ones
serve draining and startup. The two see the same wherever the strict walk finds nothing to object to.

## Main definitions

* `Walker`, `Walker.next?`: a lazy walk on its way, and its next step
* `Walker.Visits`: the handles that a walk yields until it stops
* `Pool.walker`, `LogBuffer.walker`: the walks along a chain and along a log buffer

## Main results

* `Walker.Visits.length_le`, `Walker.Visits.unique`: a walk is short, and there is one at most
* `Walker.visits_iff_eq`: a function that takes the steps of a walk yields what the walk yields
* `Pool.walks_agree`: all walks end, and the lazy ones agree with the strict ones
-/

namespace PersistentTier

/-- **A lazy walk on its way.** -/
structure Walker where
  /-- Where the walk is, unless it has come to the end of its chain. -/
  cursor : Option Handle
  /-- How many handles it may still yield. -/
  remaining : Nat

namespace Walker

/-- **The next step** along links that may be unreadable: the handle that is yielded, and the walk
from there. -/
def next? (link : Handle → Except Unreadable (Option Handle)) : Walker → Option (Handle × Walker)
  | ⟨_, 0⟩ => none
  | ⟨none, _ + 1⟩ => none
  | ⟨some h, remaining + 1⟩ =>
    match link h with
    | .ok cursor => some (h, ⟨cursor, remaining⟩)
    | .error _ => none

/-- **The handles that a walk yields** until it stops. -/
inductive Visits (link : Handle → Except Unreadable (Option Handle)) : Walker → List Handle → Prop
  | stop {w : Walker} (next : w.next? link = none) : Visits link w []
  | step {w w' : Walker} {h : Handle} {hs : List Handle} (next : w.next? link = some (h, w'))
      (rest : Visits link w' hs) : Visits link w (h :: hs)

variable {link : Handle → Except Unreadable (Option Handle)} {w w' : Walker} {h : Handle}
  {hs hs' : List Handle}

/-- A step uses up one of the handles that may be yielded. -/
theorem remaining_eq_of_next? (hnext : w.next? link = some (h, w')) :
    w.remaining = w'.remaining + 1 := by
  rcases w with ⟨cursor, _ | remaining⟩
  · cases hnext
  · cases cursor with
    | none => cases hnext
    | some g =>
      simp only [next?] at hnext
      split at hnext
      · cases hnext
        rfl
      · cases hnext

/-- **A walk yields no more handles** than it may. -/
theorem Visits.length_le (hw : w.Visits link hs) : hs.length ≤ w.remaining := by
  induction hw with
  | stop => exact Nat.zero_le _
  | step next _ ih =>
    rw [remaining_eq_of_next? next]
    exact Nat.succ_le_succ ih

/-- **What a walk yields is determined** by the links. -/
theorem Visits.unique (hw : w.Visits link hs) (hw' : w.Visits link hs') : hs' = hs := by
  -- Both walks are where they were at first, so one of them stops only if the other one does.
  induction hw generalizing hs' with
  | stop next =>
    cases hw' with
    | stop => rfl
    | step next' => cases next.symm.trans next'
  | step next _ ih =>
    cases hw' with
    | stop next' => cases next.symm.trans next'
    | step next' rest' =>
      cases next.symm.trans next'
      rw [ih rest']

/-- **A function that takes the steps of a walk** yields what the walk yields, and ends as it does. -/
theorem visits_iff_eq (walk : Walker → List Handle)
    (hwalk : ∀ w, walk w = (w.next? link).elim [] fun next => next.1 :: walk next.2) :
    w.Visits link hs ↔ hs = walk w := by
  have hvisits : w.Visits link (walk w) := by
    -- Induction on the handles that may still be yielded, of which each step uses up one.
    induction hremaining : w.remaining using Nat.strongRecOn generalizing w with
    | ind remaining ih =>
      rw [hwalk]
      cases hnext : w.next? link with
      | none => exact .stop hnext
      | some next =>
        have hless : next.2.remaining < remaining := by
          rw [← hremaining, remaining_eq_of_next? hnext]
          exact Nat.lt_succ_self _
        exact .step hnext (ih _ hless rfl)
  constructor
  · intro hw
    exact hvisits.unique hw
  · rintro rfl
    exact hvisits

end Walker

/-! ## The lazy walks of a pool -/

namespace Pool

variable (p : Pool)

/-- Where a node of a chain leads to. -/
def entryLink (direction : Direction) (h : Handle) : Except Unreadable (Option Handle) :=
  (p.entry h).map fun node => node.after direction

/-- Where a log node leads to. -/
def logLink (h : Handle) : Except Unreadable (Option Handle) := (p.logNode h).map LogNode.next

/-- **The walk along a chain**, at the end that it starts from. -/
def walker (kind : ChainKind) (direction : Direction) : Walker where
  cursor := match direction with
    | .forward => p.root.first kind
    | .backward => p.root.last kind
  remaining := (p.root.recordedLength kind).toNat

variable {p}

/-- **The lazy walk along a chain** takes one step after the other. -/
theorem visits_walk_iff {kind : ChainKind} {direction : Direction} {hs : List Handle} :
    (p.walker kind direction).Visits (p.entryLink direction) hs ↔ hs = p.walk kind direction := by
  refine Walker.visits_iff_eq (fun w => p.walkFrom direction w.remaining w.cursor) fun w => ?_
  rcases w with ⟨cursor, _ | remaining⟩
  · rfl
  · cases cursor with
    | none => rfl
    | some h =>
      simp only [Walker.next?, walkFrom, entryLink]
      cases p.entry h <;> rfl

end Pool

namespace LogBuffer

/-- **The walk along a log buffer** from a given head on. -/
def walker (p : Pool) (head : Option Handle) : Walker where
  cursor := head
  remaining := p.root.logCount.toNat

/-- **The lazy walk along a log buffer** takes one step after the other. -/
theorem visits_nodes_iff {p : Pool} {head : Option Handle} {hs : List Handle} :
    (walker p head).Visits p.logLink hs ↔ hs = LogBuffer.nodes p head := by
  refine Walker.visits_iff_eq (fun w => nodesFrom p w.remaining w.cursor) fun w => ?_
  rcases w with ⟨cursor, _ | remaining⟩
  · rfl
  · cases cursor with
    | none => rfl
    | some h =>
      simp only [Walker.next?, nodesFrom, Pool.logLink]
      cases p.logNode h <;> rfl

end LogBuffer

/-! ## Lazy and strict -/

namespace Pool

open LogBuffer

/-- **All walks end, and the lazy ones agree with the strict ones**, in every pool. A lazy walk takes
its steps until it stops, and it yields no more handles than recorded. Where the strict walk along a
chain yields nodes, the lazy ones yield them too. Where the commands of a log buffer are pending, the
lazy walk yields them the other way round. They are pending exactly if the buffer can be read to its
end within the recorded number of commands, and otherwise the buffer is corrupt. -/
theorem walks_agree (p : Pool) :
    (∀ kind direction,
      (∀ hs, (p.walker kind direction).Visits (p.entryLink direction) hs ↔
        hs = p.walk kind direction) ∧
      (p.walk kind direction).length ≤ (p.root.recordedLength kind).toNat) ∧
    (∀ head,
      (∀ hs, (LogBuffer.walker p head).Visits p.logLink hs ↔ hs = LogBuffer.nodes p head) ∧
      (LogBuffer.nodes p head).length ≤ p.root.logCount.toNat) ∧
    (∀ kind hs, p.strictWalk kind = .ok hs →
      p.walk kind .forward = hs ∧ (kind = .entries → p.walk kind .backward = hs.reverse)) ∧
    (∀ head commands, pending p head = .ok commands → payloads p head = commands.reverse) ∧
    ∀ head,
      (∀ commands, pending p head = .ok commands ↔ ∃ xs, p.Recites head xs ∧
        xs.length ≤ p.root.logCount.toNat ∧ commands = xs.reverse.map Logged.command) ∧
      ((∀ xs, p.Recites head xs → p.root.logCount.toNat < xs.length) →
        ∃ corruption, pending p head = .error corruption ∧ p.Blocked head corruption) := by
  refine ⟨fun kind direction => ⟨fun hs => visits_walk_iff, ?_⟩,
    fun head => ⟨fun hs => visits_nodes_iff, ?_⟩, fun kind hs hwalk => ?_,
    fun head commands => payloads_of_pending, fun head => ⟨fun commands => pending_eq_ok_iff, ?_⟩⟩
  case refine_1 => exact (visits_walk_iff.2 rfl).length_le
  case refine_2 => exact (visits_nodes_iff.2 rfl).length_le
  case refine_3 =>
    -- The links have been checked in both directions, so that the lazy walks cannot go astray.
    have hformed : p.Formed kind hs := strictWalk_eq_ok_iff.1 hwalk
    refine ⟨hformed.walk_forward, ?_⟩
    rintro rfl
    exact hformed.walk_backward
  case refine_4 =>
    intro hlong
    rcases p.exists_recites_or_blocked head with ⟨xs, hxs, hcount⟩ | ⟨corruption, hblocked⟩
    · exact absurd (hlong xs hxs) (Nat.not_lt.2 hcount)
    · exact ⟨corruption, hblocked.pending_eq, hblocked⟩

/-- Two entries, two victims that lead to each other, two commands in one log buffer, and a command
in the other one that leads to itself. -/
def tangled : Pool where
  id := 9
  root := {
    entryFirst := some ⟨9, 1⟩, entryLast := some ⟨9, 2⟩, entryCount := 2
    victimFirst := some ⟨9, 3⟩, victimCount := 3
    logBufferA := some ⟨9, 7⟩, logBufferB := some ⟨9, 9⟩, logCount := 3 }
  slots := #[
    some (.entry ⟨⟨9, 5⟩, ⟨9, 6⟩, some ⟨9, 2⟩, none, .entries⟩),
    some (.entry ⟨⟨9, 5⟩, ⟨9, 6⟩, none, some ⟨9, 1⟩, .entries⟩),
    some (.entry ⟨⟨9, 5⟩, ⟨9, 6⟩, some ⟨9, 4⟩, none, .victims⟩),
    some (.entry ⟨⟨9, 5⟩, ⟨9, 6⟩, some ⟨9, 3⟩, some ⟨9, 3⟩, .victims⟩),
    some (.payload [1]), some (.payload [10]),
    some (.log ⟨⟨9, 5⟩, some ⟨9, 8⟩, none⟩), some (.log ⟨⟨9, 6⟩, none, some ⟨9, 7⟩⟩),
    some (.log ⟨⟨9, 5⟩, some ⟨9, 9⟩, none⟩)]

theorem walks_agree_tangled :
    tangled.strictWalk .entries = .ok [⟨9, 1⟩, ⟨9, 2⟩] ∧
    tangled.walk .entries .forward = [⟨9, 1⟩, ⟨9, 2⟩] ∧
    tangled.walk .entries .backward = [⟨9, 2⟩, ⟨9, 1⟩] ∧
    (tangled.walk .victims .forward).length ≤ 3 ∧
    pending tangled (some ⟨9, 7⟩) = .ok [[10], [1]] ∧
    payloads tangled (some ⟨9, 7⟩) = [[1], [10]] ∧
    (∀ xs, tangled.Recites (some ⟨9, 9⟩) xs → 3 < xs.length) ∧
    ∃ corruption, pending tangled (some ⟨9, 9⟩) = .error corruption := by
  obtain ⟨hchain, -, hstrict, hlazy, hpending⟩ := walks_agree tangled
  have hwalk : tangled.strictWalk .entries = .ok [⟨9, 1⟩, ⟨9, 2⟩] := by rfl
  have hread : pending tangled (some ⟨9, 7⟩) = .ok [[10], [1]] := by rfl
  obtain ⟨hforward, hbackward⟩ := hstrict .entries _ hwalk
  obtain ⟨hok, herror⟩ := hpending (some ⟨9, 9⟩)
  have hlong : ∀ xs, tangled.Recites (some ⟨9, 9⟩) xs → 3 < xs.length := by
    intro xs hxs
    by_contra hle
    cases (hok _).2 ⟨xs, hxs, Nat.not_lt.1 hle, rfl⟩
  obtain ⟨corruption, hcorrupt, -⟩ := herror hlong
  exact ⟨hwalk, hforward, hbackward rfl, (hchain .victims .forward).2, hread, hlazy _ _ hread, hlong,
    corruption, hcorrupt⟩

end Pool

end PersistentTier
