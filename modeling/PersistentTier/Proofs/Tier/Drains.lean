import PersistentTier.Proofs.Tier.Evictions

/-!
# Drains

A drain takes a log generation out of service, tells the file of its commands and frees it. Drained
in this order, nothing newer is lost to something older. Callers may also use the log buffers as they
like; what they do is then said of the lists alone.

## Main definitions

* `LogDrain.Matches`: a drain of the generation that is out of service
* `Ledger.Passes`: commands have passed from the log to the file

## Main results

* `leads_beginDrain`, `leads_completeDrain`, `leads_flushLog`: ordered drains
* `leads_appendCommand`, `leads_switch`, `leads_clearRole`: free use of the buffers
-/

namespace PersistentTier

open Tx Ledger

/-- **A drain of the generation that is out of service.** -/
structure LogDrain.Matches (drain : LogDrain) (c : Contents) : Prop where
  head : drain.head = firstOf (logNodes c.outOfService) none
  commands : drain.commands = (c.generation c.active.flipped).map Command.encode

/-- A buffer without a head is empty. -/
theorem firstOf_logNodes_eq_none {zs : List Logged} : firstOf (logNodes zs) none = none ↔ zs = [] := by
  cases zs <;> simp

/-- A drain without a head has no commands. -/
theorem LogDrain.Matches.commands_nil {drain : LogDrain} {c : Contents} (hdrain : drain.Matches c)
    (hnone : drain.head = none) : drain.commands = [] := by
  have hempty : c.log c.active.flipped = [] :=
    firstOf_logNodes_eq_none.1 (hdrain.head.symm.trans hnone)
  rw [hdrain.commands, Contents.generation, hempty]
  rfl

/-- **Commands have passed from the log to the file.** Read one after the other, the two say what they
said; and nothing else has changed. -/
structure Ledger.Passes (L L' : Ledger) : Prop where
  entries : L'.contents.entries = L.contents.entries
  victims : L'.contents.victims = L.contents.victims
  index : L'.index = L.index
  told : L'.filed ++ L'.contents.logged = L.filed ++ L.contents.logged

namespace Ledger.Passes

variable {L L' L'' : Ledger}

theorem refl (L : Ledger) : L.Passes L := ⟨rfl, rfl, rfl, rfl⟩

theorem trans (h : L.Passes L') (h' : L'.Passes L'') : L.Passes L'' :=
  ⟨h'.entries.trans h.entries, h'.victims.trans h.victims, h'.index.trans h.index,
    h'.told.trans h.told⟩

/-- A generation that is taken out of service stays the older one. -/
theorem switched (hout : L.contents.outOfService = []) :
    L.Passes { L with contents := L.contents.switched } :=
  ⟨rfl, rfl, rfl, congrArg (L.filed ++ ·) (L.contents.logged_switched hout)⟩

/-- The generation that is out of service goes to the file. -/
theorem drained (L : Ledger) : L.Passes { L with
    contents := L.contents.drained
    filed := L.filed ++ L.contents.generation L.contents.active.flipped } := by
  refine ⟨rfl, rfl, rfl, ?_⟩
  rw [L.contents.logged_drained, List.append_assoc]
  rfl

end Ledger.Passes

namespace Tier

variable {m : Mode} {S : Ledger → Ledger → Prop} {L : Ledger}

section Buffers

variable {p : Pool} {c : Contents}

theorem otherHead_eq (hp : p.Holds c) :
    LogBuffer.otherHead p = firstOf (logNodes c.outOfService) none :=
  LogBuffer.head_eq (R := c.counters) hp.root .other

theorem currentHead_eq (hp : p.Holds c) :
    LogBuffer.currentHead p = firstOf (logNodes (c.log c.active)) none :=
  LogBuffer.head_eq (R := c.counters) hp.root .current

/-- The generation that is out of service is read. -/
theorem pending_otherHead (hp : p.Holds c) : LogBuffer.pending p (LogBuffer.otherHead p) =
    .ok (c.outOfService.reverse.map Logged.command) := by
  rw [otherHead_eq hp]
  exact hp.pending_eq _

/-- The current generation is read. -/
theorem pending_currentHead (hp : p.Holds c) : LogBuffer.pending p (LogBuffer.currentHead p) =
    .ok ((c.log c.active).reverse.map Logged.command) := by
  rw [currentHead_eq hp]
  exact hp.pending_eq _

end Buffers

/-! ## The use of the buffers -/

/-- The buffers exchange their roles. -/
theorem leads_switch (hstep : S L { L with contents := L.contents.switched }) :
    Leads m S 0 L (inTransaction LogBuffer.switch) fun _ L' =>
      L' = { L with contents := L.contents.switched } := by
  refine (Leads.inTransaction (P := fun _ c => c = L.contents.switched)
    LogBuffer.stepwise_switch ?_ ?_).mono ?_
  · exact LogBuffer.yields_switch.mono fun _ _ hs => ⟨_, 0, rfl, hs.2⟩
  · rintro _ _ rfl
    exact .single hstep
  · rintro _ _ - ⟨_, rfl, rfl⟩
    rfl

/-- A log buffer is emptied. -/
theorem leads_clear (y : Buffer) (hstep : S L { L with contents := L.contents.setLog y [] }) :
    Leads m S 0 L
      (inTransaction (LogBuffer.clear (firstOf (logNodes (L.contents.log y)) none)))
      fun _ L' => L' = { L with contents := L.contents.setLog y [] } := by
  refine (Leads.inTransaction (P := fun _ c => c = L.contents.setLog y [])
    (LogBuffer.stepwise_clear _) ?_ ?_).mono ?_
  · exact (LogBuffer.yields_clear y).mono fun _ _ hs => ⟨_, 0, rfl, hs.2⟩
  · rintro _ _ rfl
    exact .single hstep
  · rintro _ _ - ⟨_, rfl, rfl⟩
    rfl

/-- The log buffer in a role is emptied. -/
theorem leads_clearRole (role : BufferRole) (hstep : S L { L with
      contents := L.contents.setLog (LogBuffer.roleIn L.contents role) [] }) :
    Leads m S 0 L (inTransaction do LogBuffer.clear (LogBuffer.head (← get).pool role))
      fun _ L' => L' = { L with
        contents := L.contents.setLog (LogBuffer.roleIn L.contents role) [] } := by
  intro t ht
  have hrun : (inTransaction do LogBuffer.clear (LogBuffer.head (← get).pool role)).run t =
      (inTransaction (LogBuffer.clear
        (firstOf (logNodes (L.contents.log (LogBuffer.roleIn L.contents role))) none))).run t := by
    rw [← LogBuffer.head_eq (R := L.contents.counters) ht.pool.holds.root role]
    rfl
  rw [hrun]
  exact leads_clear _ hstep t ht

/-- A command is logged that is not carried out, or nothing changes. -/
theorem triple_appendCommand {X : Ledger → Prop} (hX : X L) (cmd : Command) :
    Triple m X 2 L (appendCommand cmd) fun h L' => ∃ z : Logged, z.node = h ∧
      z.command = cmd.encode ∧ L' = { L with contents := L.contents.append z } := by
  refine (Triple.inTransaction (P := fun h c => ∃ z : Logged, z.node = h ∧
    z.command = cmd.encode ∧ c = L.contents.append z) (LogBuffer.stepwise_append _) ?_ hX).mono
    (fun _ h => h) ?_
  · refine (LogBuffer.triple_append cmd.encode).mono ?_
    rintro _ _ ⟨z, hnode, hz, hs⟩
    exact ⟨_, 0, ⟨z, hnode, hz, rfl⟩, hs⟩
  · rintro _ _ ⟨_, ⟨z, hnode, hz, rfl⟩, rfl⟩
    exact ⟨z, hnode, hz, rfl⟩

theorem leads_appendCommand {cmd : Command} (hstep : ∀ z : Logged, z.command = cmd.encode →
      S L { L with contents := L.contents.append z }) :
    Leads m S 2 L (appendCommand cmd) fun _ _ => True := by
  refine (triple_appendCommand .refl cmd).mono (fun _ h => h) ?_
  rintro _ _ ⟨z, -, hz, rfl⟩
  exact ⟨.single (hstep z hz), trivial⟩

/-! ## The parts of a drain -/

/-- **A generation is taken out of service**, unless one is. -/
theorem leads_takeOut (m : Mode) (L : Ledger) :
    Leads m Handover 0 L takeOut fun _ L' => (L.contents.outOfService ≠ [] → L' = L) ∧
      (L.contents.outOfService = [] → L' = { L with contents := L.contents.switched }) := by
  refine Leads.get fun t ht => ?_
  rw [otherHead_eq ht.pool.holds]
  by_cases hempty : L.contents.outOfService = []
  · rw [if_pos (firstOf_logNodes_eq_none.2 hempty)]
    refine (leads_switch (.switch hempty)).bind ?_
    rintro _ _ - rfl
    exact Leads.pure ⟨fun h => absurd hempty h, fun _ => rfl⟩
  · rw [if_neg (firstOf_logNodes_eq_none.not.2 hempty)]
    exact Leads.pure ⟨fun _ => rfl, fun h => absurd h hempty⟩

/-- **A drain begins** with the generation that is out of service. -/
theorem leads_beginDrain (m : Mode) (hL : L.Agrees) :
    Leads m Handover 0 L beginDrain fun drain L' => drain.Matches L'.contents ∧
      (L.contents.outOfService ≠ [] → L' = L) ∧
      (L.contents.outOfService = [] → L' = { L with contents := L.contents.switched }) := by
  refine (leads_takeOut m L).bind fun _ L' hsteps hout => Leads.get fun t ht => ?_
  have hregular := (hL.handovers hsteps).regular
  have hpending : LogBuffer.pending t.pool (LogBuffer.otherHead t.pool) =
      .ok ((L'.contents.generation L'.contents.active.flipped).map Command.encode) :=
    (pending_otherHead ht.pool.holds).trans (congrArg Except.ok (hregular.encoded _))
  simp only [hpending]
  exact Leads.pure ⟨⟨otherHead_eq ht.pool.holds, rfl⟩, hout⟩

/-- **A drain is completed**: the file is told of its commands, and the generation is freed. A drain
of another generation is refused. -/
theorem leads_completeDrain {drain : LogDrain} {cmds : List Command}
    (hdrain : drain.commands = cmds.map Command.encode)
    (hcurrent : m.Faulty ∨ drain.head = firstOf (logNodes L.contents.outOfService) none)
    (hfile : drain.head = firstOf (logNodes L.contents.outOfService) none →
      S L { L with filed := L.filed ++ cmds })
    (hfree : drain.head = firstOf (logNodes L.contents.outOfService) none →
      S { L with filed := L.filed ++ cmds }
        { L with contents := L.contents.drained, filed := L.filed ++ cmds }) :
    Leads m S 0 L (completeDrain drain) fun count L' => count = cmds.length ∧
      L' = { L with contents := L.contents.drained, filed := L.filed ++ cmds } := by
  refine Leads.get fun t ht => ?_
  rw [otherHead_eq ht.pool.holds]
  by_cases hhead : drain.head = firstOf (logNodes L.contents.outOfService) none
  · rw [if_pos hhead, hdrain, hhead]
    refine (Leads.onFile (FileOp.yields_fileEncoded _ _) (hfile hhead)).bind ?_
    rintro _ _ - rfl
    -- Between the two steps the generation is both in the file and in the pool.
    let L₁ : Ledger := { L with filed := L.filed ++ cmds }
    have hclear : Leads m S 0 L₁
        (inTransaction (LogBuffer.clear (firstOf (logNodes L.contents.outOfService) none)))
        fun _ L' => L' = { L₁ with contents := L.contents.drained } :=
      leads_clear (L := L₁) L.contents.active.flipped (hfree hhead)
    refine hclear.bind ?_
    rintro _ _ - rfl
    exact Leads.pure ⟨List.length_map _, rfl⟩
  · rw [if_neg hhead]
    exact Triple.throw (hcurrent.resolve_right hhead _) .refl

/-- A drain of the generation that is out of service hands it over. -/
theorem leads_completeDrain_of_matches (m : Mode) {drain : LogDrain}
    (hdrain : drain.Matches L.contents) :
    Leads m Handover 0 L (completeDrain drain) fun count L' =>
      count = (L.contents.generation L.contents.active.flipped).length ∧ L' = { L with
        contents := L.contents.drained
        filed := L.filed ++ L.contents.generation L.contents.active.flipped } :=
  leads_completeDrain hdrain.commands (.inr hdrain.head) (fun _ => .file) fun _ => .free

/-! ## Flushing the log -/

/-- **One generation is drained**: the one that is out of service, or else the current one. -/
theorem leads_drainOnce (m : Mode) (hL : L.Agrees) :
    Leads m Handover 0 L drainOnce fun _ L' => L.Passes L' ∧ L'.contents.outOfService = [] ∧
      (L.contents.outOfService = [] → ∀ y, L'.contents.log y = []) := by
  refine Leads.get fun t ht => ?_
  by_cases hcount : t.pool.root.logCount = 0
  -- The counter is zero, so there is nothing to drain.
  · rw [if_pos hcount]
    have hempty := ht.pool.holds.log_eq_nil hcount
    exact Leads.pure ⟨.refl L, hempty _, fun _ => hempty⟩
  · rw [if_neg hcount]
    refine (leads_beginDrain m hL).bind fun drain L₁ hsteps hdrain => ?_
    obtain ⟨hmatches, hkept, hswitched⟩ := hdrain
    have hpasses : L.Passes L₁ := by
      by_cases hempty : L.contents.outOfService = []
      · exact hswitched hempty ▸ .switched hempty
      · exact hkept hempty ▸ .refl L
    refine (leads_completeDrain_of_matches m hmatches).mono ?_
    rintro _ _ - ⟨-, rfl⟩
    have hout : L₁.contents.drained.outOfService = [] := Contents.log_setLog ..
    refine ⟨hpasses.trans (.drained L₁), hout, fun hempty y => ?_⟩
    obtain rfl := hswitched hempty
    -- The generation that was current has been drained, and the other buffer was empty before.
    by_cases hy : y = L.contents.active.flipped
    · subst hy
      refine (Function.update_of_ne (fun h => ?_) _ _).trans hempty
      cases hactive : L.contents.active <;> simp_all [Contents.switched, Buffer.flipped]
    · obtain rfl := Buffer.eq_flipped_of_ne hy
      exact hout

/-- **The log is flushed**: everything in it passes to the file. -/
theorem leads_flushLog (m : Mode) (hL : L.Agrees) :
    Leads m Handover 0 L flushLog fun _ L' => L.Passes L' ∧ ∀ y, L'.contents.log y = [] := by
  refine (leads_drainOnce m hL).bind fun _ L₁ hsteps hfirst => ?_
  -- The first round empties the generation out of service, the second one the other.
  refine (leads_drainOnce m (hL.handovers hsteps)).bind fun _ L₂ _ hsecond => ?_
  exact Leads.pure ⟨hfirst.1.trans hsecond.1, hsecond.2.2 hfirst.2.1⟩

end Tier

end PersistentTier
