import PersistentTier.Proofs.Tier.Site

/-!
# The order of the log

The log is read one buffer after the other, the one that is out of service first, so it is in the
order in which its commands were appended if that buffer is the older one. Appending, emptying a
buffer and draining all keep the order. So does a switch while one of the buffers is empty; a switch
while neither of them is turns the order round.

## Main definitions

* `LogCall`: what is done with the log of a tier
* `Chronicle`: a tier, and the nodes that have been appended to its log
* `Chronological`, `Chronicle.InOrder`: nodes in the order in which they were appended

## Main results

* `LogCall.triple`: what a call makes of the log
* `Chronicle.Run.sound`: runs whose switches are timely keep the log in order
* `Chronicle.Sound.inOrder_switch`: a switch keeps the order if and only if it is timely
* `Site.pending_inOrder`: the same of every site
-/

namespace PersistentTier

open Ledger

/-! ## Orders -/

/-- **Nodes in the order of a history**, which has the latest node first. A node that has been used
again counts from its last use on. -/
def Chronological (history waiting : List Handle) : Prop :=
  waiting.Pairwise fun newer older => history.idxOf newer < history.idxOf older

instance (history waiting : List Handle) : Decidable (Chronological history waiting) :=
  inferInstanceAs (Decidable (waiting.Pairwise _))

namespace Chronological

variable {history waiting waiting' appended : List Handle} {h : Handle}

/-- One more node has been appended. -/
theorem cons (hw : Chronological history waiting) (hnew : h ∉ waiting) :
    Chronological (h :: history) (h :: waiting) := by
  have hlater : ∀ x ∈ waiting, (h :: history).idxOf x = history.idxOf x + 1 := fun x hx =>
    List.idxOf_cons_ne _ fun he => hnew (he ▸ hx)
  refine List.pairwise_cons.2 ⟨fun x hx => ?_, ?_⟩
  · rw [List.idxOf_cons_self, hlater x hx]
    exact Nat.succ_pos _
  · refine hw.imp_of_mem fun hx hy hlt => ?_
    rw [hlater _ hx, hlater _ hy]
    exact Nat.succ_lt_succ hlt

/-- Nodes have been appended, and others may have been freed. -/
theorem append (hw : Chronological history waiting) (hsub : waiting'.Sublist waiting)
    (hn : (appended ++ waiting').Nodup) :
    Chronological (appended ++ history) (appended ++ waiting') := by
  induction appended with
  | nil => exact List.Pairwise.sublist hsub hw
  | cons h appended ih =>
    obtain ⟨hnew, hn⟩ := List.nodup_cons.1 hn
    exact (ih hn).cons hnew

/-- Two parts are in order both ways round only if one of them is empty. -/
theorem append_comm_iff {l r : List Handle} (hw : Chronological history (l ++ r)) :
    Chronological history (r ++ l) ↔ l = [] ∨ r = [] := by
  constructor
  · intro hturned
    by_contra hne
    obtain ⟨hl, hr⟩ := not_or.1 hne
    obtain ⟨a, ha⟩ := List.exists_mem_of_ne_nil l hl
    obtain ⟨b, hb⟩ := List.exists_mem_of_ne_nil r hr
    have hab := (List.pairwise_append.1 hw).2.2 a ha b hb
    have hba := (List.pairwise_append.1 hturned).2.2 b hb a ha
    omega
  · rintro (rfl | rfl)
    · simpa using hw
    · simpa using hw

end Chronological

/-! ## Calls -/

/-- **What is done with the log** of a tier. -/
inductive LogCall
  | append (cmd : Command)
  | switch
  /-- The buffer in a role is emptied. -/
  | clear (role : BufferRole)
  | beginDrain
  /-- The drain at a position is completed. -/
  | completeDrain (i : Nat)
  | flushLog

/-- **A tier, the drains that are held, and the nodes that have been appended** to its log, the latest
one first. -/
structure Chronicle where
  tier : Tier
  drains : List LogDrain := []
  history : List Handle := []

namespace LogCall

/-- The call of the tier, given the drains that are held. Returns the drains that have begun, and the
nodes that have been appended. -/
def call (drains : List LogDrain) : LogCall → TierM (List LogDrain × List Handle)
  | .append cmd => do
    let node ← Tier.appendCommand cmd
    return ([], [node])
  | .switch => do
    let _ ← Tier.switchBuffers
    return ([], [])
  | .clear role => do
    let _ ← Tier.inTransaction do LogBuffer.clear (LogBuffer.head (← get).pool role)
    return ([], [])
  | .beginDrain => do
    let drain ← Tier.beginDrain
    return ([drain], [])
  | .completeDrain i =>
    match drains[i]? with
    | none => return ([], [])
    | some drain => do
      let _ ← Tier.completeDrain drain
      return ([], [])
  | .flushLog => do
    let _ ← Tier.flushLog
    return ([], [])

/-- The drains that are left, of those that were held. -/
def rest (drains : List LogDrain) : LogCall → List LogDrain
  | .completeDrain i => drains.eraseIdx i
  | _ => drains

/-- The chronicle after a call. A failed one leaves the tier as far as it got. -/
def perform (r : Chronicle) (c : LogCall) : Chronicle :=
  match (c.call r.drains).run r.tier with
  | .ok (begun, appended) t => ⟨t, begun ++ c.rest r.drains, appended ++ r.history⟩
  | .error _ t => ⟨t, c.rest r.drains, r.history⟩

/-- The commands of a call are short enough to be stored. -/
def Fits : LogCall → Prop
  | .append cmd => cmd.Fits
  | _ => True

/-- **A switch is timely** while one of the buffers is empty. -/
def Timely (p : Pool) : LogCall → Prop
  | .switch => LogBuffer.currentHead p = none ∨ LogBuffer.otherHead p = none
  | _ => True

end LogCall

namespace Contents

/-- **Nodes have been appended** to those that wait, and some of these may have been freed. -/
def Passed (appended : List Handle) (c c' : Contents) : Prop :=
  ∃ kept, kept.Sublist c.waiting ∧ c'.waiting = appended ++ kept

variable {c c' c'' : Contents}

theorem Passed.refl (c : Contents) : c.Passed [] c := ⟨_, .refl _, rfl⟩

theorem Passed.trans (h : c.Passed [] c') (h' : c'.Passed [] c'') : c.Passed [] c'' := by
  obtain ⟨kept, hkept, hw⟩ := h
  obtain ⟨kept', hkept', hw'⟩ := h'
  exact ⟨kept', hkept'.trans (hw ▸ hkept), hw'⟩

theorem waiting_switched (c : Contents) : c.switched.waiting =
    logNodes (c.log c.active.flipped) ++ logNodes (c.log c.active) := by
  have hleft : c.switched.waiting = logNodes (c.log c.active.flipped) ++
      logNodes (c.log c.active.flipped.flipped) := rfl
  rw [hleft, Buffer.flipped_flipped]

/-- The buffers exchange their roles while one of them is empty. -/
theorem passed_switched (h : c.log c.active = [] ∨ c.log c.active.flipped = []) :
    c.Passed [] c.switched := by
  refine ⟨c.waiting, .refl _, ?_⟩
  rw [waiting_switched, waiting]
  rcases h with h | h <;> simp [h]

theorem passed_setLog (c : Contents) (y : Buffer) : c.Passed [] (c.setLog y []) := by
  have hlog : ∀ z, (logNodes ((c.setLog y []).log z)).Sublist (logNodes (c.log z)) := by
    intro z
    by_cases hz : z = y
    · rw [hz, c.log_setLog]
      exact List.nil_sublist _
    · rw [show (c.setLog y []).log z = c.log z from Function.update_of_ne hz _ _]
  exact ⟨_, (hlog _).append (hlog _), rfl⟩

theorem passed_append (c : Contents) (z : Logged) : c.Passed [z.node] (c.append z) := by
  refine ⟨_, .refl _, ?_⟩
  have hother : (c.append z).log c.active.flipped = c.log c.active.flipped :=
    c.log_flipped_setLog _ _
  have hcurrent : (c.append z).log c.active = z :: c.log c.active := c.log_setLog _ _
  have hactive : (c.append z).active = c.active := rfl
  rw [waiting, hactive, hother, hcurrent]
  rfl

end Contents

namespace LogCall

open Tier

variable {m : Mode} {L : Ledger} {drains : List LogDrain} {c : LogCall}

theorem mem_of_mem_rest {drain : LogDrain} (h : drain ∈ c.rest drains) : drain ∈ drains := by
  cases c with
  | completeDrain i => exact List.mem_of_mem_eraseIdx h
  | _ => exact h

/-- **What a call makes of the log.** An append puts its node in front of those that wait; any other
call may free some of them, and leaves the others in their order. -/
theorem triple (hm : m.Faulty) (hL : L.Agrees) (hfits : c.Fits)
    (hdrains : ∀ drain ∈ drains, drain.Encoded)
    (htimely : c = .switch →
      L.contents.log L.contents.active = [] ∨ L.contents.outOfService = []) :
    Triple m (Moves (Contents.Passed []) L) 0 L (c.call drains) fun made L' =>
      Moves (Contents.Passed made.2) L L' ∧ ∀ drain ∈ made.1, drain.Encoded := by
  have hhand : ∀ L L', Handover L L' → Moves (Contents.Passed []) L L' := by
    intro L L' h
    refine h.moves ?_
    cases h with
    | switch drained => exact Contents.passed_switched (.inr drained)
    | file => exact .refl _
    | free => exact Contents.passed_setLog _ _
  have hclear : ∀ {L : Ledger} (y : Buffer), Moves (Contents.Passed []) L
      { L with contents := L.contents.setLog y [] } := fun {L} y =>
    Loose.moves (.clear y) (L.contents.passed_setLog y)
  have hplain : ∀ {α : Type} {act : TierM α} {Q : α → Ledger → Prop},
      Leads m (Moves (Contents.Passed [])) 0 L act Q →
      Triple m (Moves (Contents.Passed []) L) 0 L (do let _ ← act; return ([], []))
        fun (made : List LogDrain × List Handle) L' =>
          Moves (Contents.Passed made.2) L L' ∧ ∀ drain ∈ made.1, drain.Encoded := by
    intro _ act _ hact
    refine (Leads.bind hact fun _ _ _ _ => Leads.pure (Q := fun made _ => made = ([], [])) rfl).moves
      .refl (fun _ _ _ => .trans) |>.mono (fun _ h => h) ?_
    rintro _ _ ⟨h, rfl⟩
    exact ⟨h, by simp⟩
  -- An append is the only call that adds a node, and a drain that begins the only one that is held.
  cases c with
  | append cmd =>
    refine Triple.bind (Q := fun node L' => Moves (Contents.Passed [node]) L L')
      (fun t ht => ?_) fun node L' h => Triple.pure ⟨h, by simp⟩
    refine Triple.mono (triple_appendCommand (X := fun L' => Moves (Contents.Passed []) L L')
      ⟨id, .refl _⟩ cmd) (fun _ h => h) ?_ t (ht.of_faulty hm 2)
    rintro _ _ ⟨z, rfl, hz, rfl⟩
    exact Loose.moves (.log ⟨cmd, hfits, hz⟩) (L.contents.passed_append z)
  | switch =>
    exact hplain (leads_switch (Loose.moves .switch (Contents.passed_switched (htimely rfl))))
  | clear role => exact hplain (leads_clearRole role (hclear _))
  | beginDrain =>
    refine Triple.bind (((leads_beginDrain m hL).embed hhand).moves .refl fun _ _ _ => .trans) ?_
    rintro drain L' ⟨h, hdrain, -⟩
    refine Triple.pure ⟨h, ?_⟩
    rintro _ (_ | ⟨_, ⟨⟩⟩)
    exact hdrain.encoded (h.agrees hL).regular
  | completeDrain i =>
    simp only [call]
    split
    · exact Triple.pure ⟨⟨id, .refl _⟩, by simp⟩
    · rename_i drain hi
      obtain ⟨cmds, hcmds, hcommands⟩ := hdrains drain (List.mem_of_getElem? hi)
      exact hplain (leads_completeDrain hcommands (.inl hm)
        (fun _ => Loose.moves (.file hcmds) (.refl _)) fun _ => hclear _)
  | flushLog => exact hplain ((leads_flushLog m hL).embed hhand)

end LogCall

/-! ## Runs -/

namespace Chronicle

open Tier

/-- **The log is in order**: its nodes wait in the order in which they were appended. -/
def InOrder (r : Chronicle) : Prop := Chronological r.history (LogBuffer.waiting r.tier.pool)

instance (r : Chronicle) : Decidable r.InOrder :=
  inferInstanceAs (Decidable (Chronological _ _))

/-- **The chronicles that timely calls lead to** from a tier in whose log nothing waits. -/
inductive Run (t : Tier) : Chronicle → Prop
  | begin : Run t ⟨t, [], []⟩
  | call {r : Chronicle} {c : LogCall} (before : Run t r) (fits : c.Fits)
      (timely : c.Timely r.tier.pool) : Run t (c.perform r)

/-- **A chronicle in which nothing has been mistaken**: it is in order, and its tier shows a ledger. -/
structure Sound (m : Mode) (r : Chronicle) : Prop where
  inOrder : r.InOrder
  shows : ∃ L, r.tier.Shows m 0 L ∧ L.Agrees
  drains : ∀ drain ∈ r.drains, drain.Encoded

variable {m : Mode} {t : Tier} {r : Chronicle} {c : LogCall} {L : Ledger}

theorem timely_iff (ht : t.Shows m 0 L) : LogCall.switch.Timely t.pool ↔
    L.contents.log L.contents.active = [] ∨ L.contents.outOfService = [] := by
  rw [LogCall.Timely, currentHead_eq ht.pool.holds, otherHead_eq ht.pool.holds,
    firstOf_logNodes_eq_none, firstOf_logNodes_eq_none]

/-- **Timely calls keep the log in order.** -/
theorem Sound.perform (hm : m.Faulty) (hr : r.Sound m) (hfits : c.Fits)
    (htimely : c.Timely r.tier.pool) : (c.perform r).Sound m := by
  obtain ⟨horder, ⟨L, hshows, hL⟩, hdrains⟩ := hr
  have hcall := LogCall.triple hm hL hfits hdrains (fun hswitch => by
    rw [← timely_iff hshows, ← hswitch]
    exact htimely) r.tier hshows
  -- Either way some nodes have been appended, and those that still wait keep their order.
  have hkept : ∀ {t' : Tier} {L' : Ledger} {appended : List Handle}, t'.Shows m 0 L' →
      L.contents.Passed appended L'.contents →
      Chronological (appended ++ r.history) (LogBuffer.waiting t'.pool) := by
    rintro t' L' appended ht' ⟨kept, hsub, hw⟩
    rw [InOrder, hshows.pool.holds.waiting_eq] at horder
    have hn := ht'.pool.holds.nodup_waiting
    rw [ht'.pool.holds.waiting_eq, hw] at hn ⊢
    exact horder.append hsub hn
  simp only [LogCall.perform]
  split at hcall
  · rename_i made t' hrun
    obtain ⟨begun, appended⟩ := made
    obtain ⟨L', ht', hmoves, hbegun⟩ := hcall
    simp only [hrun]
    refine ⟨hkept ht' hmoves.contents, ⟨L', ht', hmoves.agrees hL⟩, fun drain hdrain => ?_⟩
    exact (List.mem_append.1 hdrain).elim (hbegun drain) fun h =>
      hdrains drain (LogCall.mem_of_mem_rest h)
  · rename_i e t' hrun
    obtain ⟨-, L', ht', hmoves⟩ := hcall
    simp only [hrun]
    exact ⟨hkept ht' hmoves.contents, ⟨L', ht', hmoves.agrees hL⟩, fun drain hdrain =>
      hdrains drain (LogCall.mem_of_mem_rest hdrain)⟩

/-- A timely run. -/
theorem Run.sound (hm : m.Faulty) (ht : t.Shows m 0 L) (hL : L.Agrees)
    (hempty : LogBuffer.waiting t.pool = []) (hr : Run t r) : r.Sound m := by
  induction hr with
  | begin =>
    refine ⟨?_, ⟨L, ht, hL⟩, by simp⟩
    rw [InOrder, hempty]
    exact List.Pairwise.nil
  | call before fits timely ih => exact ih.perform hm fits timely

/-- **A switch that is not timely turns the order round.** -/
theorem Sound.inOrder_switch (hr : r.Sound m) (hbudget : r.tier.pool.writeBudget = none) :
    (LogCall.switch.perform r).InOrder ↔ LogCall.switch.Timely r.tier.pool := by
  obtain ⟨horder, ⟨L, hshows, -⟩, -⟩ := hr
  obtain ⟨_, t', _, hrun, ht', -, -, rfl⟩ := hshows.exists_ok hbudget fun m =>
    leads_switch (m := m) (L := L) (S := fun _ _ => True) trivial
  have hperform : LogCall.switch.perform r = ⟨t', r.drains, r.history⟩ := by
    have hcall : (LogCall.switch.call r.drains).run r.tier = .ok ([], []) t' := by
      simp only [LogCall.call, EStateM.run_bind, switchBuffers, hrun]
      rfl
    simp only [LogCall.perform, hcall]
    rfl
  rw [InOrder, hshows.pool.holds.waiting_eq, Contents.waiting] at horder
  rw [hperform, InOrder, ht'.pool.holds.waiting_eq, Contents.waiting_switched, timely_iff hshows,
    horder.append_comm_iff, List.map_eq_nil_iff, List.map_eq_nil_iff]
  rfl

end Chronicle

/-- **The log is read in the order in which its commands were appended**, if the buffers are only
switched while one of them is empty, whatever else is done with them and wherever that fails: the
commands out of service come first, then the current ones. Any other switch breaks the order. -/
theorem Site.pending_inOrder {s : Site} {t : Tier} {r : Chronicle}
    (hs : s.Reachable fun _ a => a.Fits) (ht : s.tier = some t)
    (hempty : LogBuffer.waiting t.pool = []) (hr : Chronicle.Run t r) :
    let p := r.tier.pool
    r.InOrder ∧
      (∃ older newer, LogBuffer.pending p (LogBuffer.otherHead p) = .ok older ∧
        LogBuffer.pending p (LogBuffer.currentHead p) = .ok newer ∧
        (LogBuffer.waiting p).reverse.map (LogBuffer.payload? p) = (older ++ newer).map some) ∧
      (p.writeBudget = none →
        ((LogCall.switch.perform r).InOrder ↔ LogCall.switch.Timely p)) := by
  intro p
  obtain ⟨settings, L, hshows, hL⟩ := (hs.sound fun _ _ h => h).tier t ht
  have hsound := hr.sound (Settings.faulty_mode _ _) hshows hL hempty
  obtain ⟨L', hshows', -⟩ := hsound.shows
  have hholds := hshows'.pool.holds
  refine ⟨hsound.inOrder, ⟨_, _, ?_, ?_, hholds.payloads_waiting⟩, hsound.inOrder_switch⟩
  · rw [Tier.otherHead_eq hholds]
    exact hholds.pending_eq _
  · rw [Tier.currentHead_eq hholds]
    exact hholds.pending_eq _

/-- One command is out of service and another one is current, so the next switch is not timely. -/
theorem Site.pending_inOrder_switched :
    let s := (Action.restart {} 1 0).perform {}
    ∃ t r, s.tier = some t ∧ Chronicle.Run t r ∧ r.InOrder ∧
      LogBuffer.waiting r.tier.pool = [⟨1, 4⟩, ⟨1, 2⟩] ∧ r.history = [⟨1, 4⟩, ⟨1, 2⟩] ∧
      ¬ (LogCall.switch.perform r).InOrder := by
  intro s
  let first := Command.set [1] [10]
  let second := Command.set [1] [20]
  have hfirst : first.Fits := by decide
  have hsecond : second.Fits := by decide
  have hs : s.Reachable fun _ a => a.Fits := .step .blank trivial (by decide +kernel)
  let r₁ (t : Tier) : Chronicle := (LogCall.append first).perform ⟨t, [], []⟩
  let r₂ (t : Tier) : Chronicle := LogCall.switch.perform (r₁ t)
  let r₃ (t : Tier) : Chronicle := (LogCall.append second).perform (r₂ t)
  have hfacts : s.tier.map (fun t => (LogBuffer.waiting t.pool,
      LogBuffer.otherHead (r₁ t).tier.pool, (r₃ t).tier.pool.writeBudget,
      LogBuffer.currentHead (r₃ t).tier.pool, LogBuffer.otherHead (r₃ t).tier.pool,
      LogBuffer.waiting (r₃ t).tier.pool, (r₃ t).history)) =
      some ([], none, none, some ⟨1, 4⟩, some ⟨1, 2⟩, [⟨1, 4⟩, ⟨1, 2⟩], [⟨1, 4⟩, ⟨1, 2⟩]) := by
    unfold r₃ r₂ r₁ s second first
    rfl
  obtain ⟨t, ht, hfacts⟩ := Option.map_eq_some_iff.1 hfacts
  simp only [Prod.mk.injEq] at hfacts
  obtain ⟨hempty, htimely, hbudget, hcurrent, hother, hwaiting, hhistory⟩ := hfacts
  have hrun : Chronicle.Run t (r₃ t) :=
    .call (.call (.call .begin hfirst trivial) trivial (.inr htimely)) hsecond trivial
  obtain ⟨horder, -, hswitch⟩ := Site.pending_inOrder hs ht hempty hrun
  refine ⟨t, r₃ t, ht, hrun, horder, hwaiting, hhistory, fun h => ?_⟩
  rcases (hswitch hbudget).1 h with hnone | hnone
  · rw [hcurrent] at hnone
    cases hnone
  · rw [hother] at hnone
    cases hnone

/-- A command is appended, the buffers are switched, another command is appended, and the buffers are
switched again: the second command is read before the first one. -/
theorem Chronicle.not_inOrder_switched :
    let first := Command.set [1] [10]
    let second := Command.set [1] [20]
    let s := (Action.restart {} 1 0).perform {}
    ∃ t, s.tier = some t ∧ LogBuffer.waiting t.pool = [] ∧
      let r := [LogCall.append first, .switch, .append second, .switch].foldl
        (fun r c => c.perform r) ⟨t, [], []⟩
      r.history.map (LogBuffer.payload? r.tier.pool) = [some second.encode, some first.encode] ∧
        LogBuffer.pending r.tier.pool (LogBuffer.otherHead r.tier.pool) = .ok [second.encode] ∧
        LogBuffer.pending r.tier.pool (LogBuffer.currentHead r.tier.pool) = .ok [first.encode] ∧
        ¬ r.InOrder := by
  intro first second s
  let r (t : Tier) : Chronicle := [LogCall.append first, .switch, .append second, .switch].foldl
    (fun r c => c.perform r) ⟨t, [], []⟩
  have hfacts : s.tier.map (fun t => (LogBuffer.waiting t.pool,
      (r t).history.map (LogBuffer.payload? (r t).tier.pool),
      LogBuffer.pending (r t).tier.pool (LogBuffer.otherHead (r t).tier.pool),
      LogBuffer.pending (r t).tier.pool (LogBuffer.currentHead (r t).tier.pool),
      decide (r t).InOrder)) = some ([], [some second.encode, some first.encode],
        .ok [second.encode], .ok [first.encode], false) := by
    unfold r s second first
    rfl
  obtain ⟨t, ht, hfacts⟩ := Option.map_eq_some_iff.1 hfacts
  simp only [Prod.mk.injEq, decide_eq_false_iff_not] at hfacts
  exact ⟨t, ht, hfacts⟩

end PersistentTier
