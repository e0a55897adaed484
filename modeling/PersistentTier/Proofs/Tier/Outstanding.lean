import PersistentTier.Proofs.Tier.Site

/-!
# Outstanding drains

A drain knows its generation by the node at the head of it. It may be outstanding while the buffers
are used for other things, and its generation may have been freed by then. A generation only grows at
its head or is freed as a whole, so long as the head of a drain is logged the commands behind it are
those of the drain. The node of a freed command may be used again, though, and then a drain takes a
later command for the head of its own generation.

## Main definitions

* `Contents.Grows`, `Contents.Sheds`: what an operation does to the log buffers
* `LogDrain.Tracks`: the commands behind the head of a drain are its own
* `Action.SparesHeads`: no node is used again that a drain is known by

## Main results

* `Operation.triple_moves`: an operation lets the buffers grow, or empties some
* `Site.completeDrain_exact`: a drain is completed exactly, or refused
-/

namespace PersistentTier

open Ledger

/-! ## What happens to the log buffers -/

namespace Contents

variable {c c' c'' : Contents}

/-- **Every buffer has grown** at its head, or stayed as it was. -/
def Grows (c c' : Contents) : Prop := ∀ y, ∃ newer, c'.log y = newer ++ c.log y

/-- **Every buffer has been emptied**, or stayed as it was. -/
def Sheds (c c' : Contents) : Prop := ∀ y, c'.log y = c.log y ∨ c'.log y = []

theorem Grows.refl (c : Contents) : c.Grows c := fun _ => ⟨[], rfl⟩

theorem Grows.trans (h : c.Grows c') (h' : c'.Grows c'') : c.Grows c'' := fun y => by
  obtain ⟨newer, hnewer⟩ := h y
  obtain ⟨newest, hnewest⟩ := h' y
  exact ⟨newest ++ newer, by rw [hnewest, hnewer, List.append_assoc]⟩

theorem Sheds.refl (c : Contents) : c.Sheds c := fun _ => .inl rfl

theorem Sheds.trans (h : c.Sheds c') (h' : c'.Sheds c'') : c.Sheds c'' := fun y => by
  rcases h' y with hsame | hempty
  · rw [hsame]
    exact h y
  · exact .inr hempty

theorem sheds_setLog (c : Contents) (y : Buffer) : c.Sheds (c.setLog y []) := fun z => by
  by_cases hz : z = y
  · exact .inr (hz ▸ c.log_setLog y [])
  · exact .inl (Function.update_of_ne hz _ _)

theorem grows_append (c : Contents) (z : Logged) : c.Grows (c.append z) := fun y => by
  by_cases hy : y = c.active
  · exact ⟨[z], hy ▸ c.log_setLog _ _⟩
  · exact ⟨[], Function.update_of_ne hy _ _⟩

end Contents

namespace Ledger

variable {L L' : Ledger}

/-- A change lets the current buffer grow. -/
theorem Change.grows {key : Bytes} (h : Change key L L') : Moves Contents.Grows L L' := by
  refine (Step.change (d := .quiet) h).moves fun y => ?_
  obtain ⟨-, hother, hcurrent⟩ := h.log_eq
  by_cases hy : y = L.contents.active
  · exact hy ▸ hcurrent
  · exact ⟨[], Buffer.eq_flipped_of_ne hy ▸ hother⟩

/-- A handover empties the buffer out of service, if any. -/
theorem Handover.sheds (h : Handover L L') : Moves Contents.Sheds L L' := by
  refine h.moves ?_
  cases h with
  | switch | file => exact .refl _
  | free => exact Contents.sheds_setLog _ _

end Ledger

namespace Operation

open Tier

variable {m : Mode} {L : Ledger} {drains : List LogDrain} {op : Operation}

/-- An operation that lets the buffers grow begins no drain. -/
theorem triple_of_grows {act : TierM (List LogDrain)}
    (hact : Leads m (Moves Contents.Grows) 0 L act fun begun _ => begun = []) :
    Triple m (fun L' => Moves Contents.Grows L L' ∨ Moves Contents.Sheds L L') 0 L act
      fun begun L' => (Moves Contents.Grows L L' ∨ Moves Contents.Sheds L L') ∧
        ∀ drain ∈ begun, drain.Matches L'.contents := by
  refine (hact.moves .refl fun _ _ _ => .trans).mono (fun _ => .inl) ?_
  rintro _ L' ⟨h, rfl⟩
  exact ⟨.inl h, by simp⟩

theorem triple_of_sheds {act : TierM (List LogDrain)}
    (hact : Leads m (Moves Contents.Sheds) 0 L act
      fun begun L' => ∀ drain ∈ begun, drain.Matches L'.contents) :
    Triple m (fun L' => Moves Contents.Grows L L' ∨ Moves Contents.Sheds L L') 0 L act
      fun begun L' => (Moves Contents.Grows L L' ∨ Moves Contents.Sheds L L') ∧
        ∀ drain ∈ begun, drain.Matches L'.contents :=
  (hact.moves .refl fun _ _ _ => .trans).mono (fun _ => .inr) fun _ _ h => ⟨.inr h.1, h.2⟩

/-- **An operation lets the buffers grow, or empties some**, never both. A drain that begins is of
the generation that is out of service. -/
theorem triple_moves (hm : m.Faulty) (hL : L.Agrees) (hfits : op.Fits)
    (hdrains : ∀ drain ∈ drains, drain.Encoded) :
    Triple m (fun L' => Moves Contents.Grows L L' ∨ Moves Contents.Sheds L L') 0 L
      (op.call drains) fun begun L' =>
        (Moves Contents.Grows L L' ∨ Moves Contents.Sheds L L') ∧
          ∀ drain ∈ begun, drain.Matches L'.contents := by
  have hplain : ∀ {α : Type} {act : TierM α} {Q : α → Ledger → Prop},
      Leads m (Moves Contents.Sheds) 0 L act Q →
      Leads m (Moves Contents.Sheds) 0 L (do let _ ← act; return []) fun begun L' =>
        ∀ drain ∈ (begun : List LogDrain), drain.Matches L'.contents :=
    fun hact => (leads_plain hm hact).mono fun _ _ _ he => by simp [he]
  -- The buffers are emptied without regard to what is in them.
  have hclear : ∀ {L : Ledger} (y : Buffer), Moves Contents.Sheds L
      { L with contents := L.contents.setLog y [] } := fun {L} y =>
    Loose.moves (.clear y) (L.contents.sheds_setLog y)
  by_cases hquiet : op.isQuiet = true
  · exact triple_of_grows (leads_of_quiet hm hL hfits hquiet
      (fun L L' h => (Change.shift h : Change [] L L').grows) fun _ _ _ _ h => h.grows)
  cases op with
  | append cmd =>
    exact triple_of_grows (leads_plain hm (leads_appendCommand fun z hz =>
      Loose.moves (.log ⟨cmd, hfits, hz⟩) (L.contents.grows_append z)))
  | switch => exact triple_of_sheds (hplain (leads_switch (Loose.moves .switch (.refl _))))
  | clear => exact triple_of_sheds (hplain (leads_clearRole .current (hclear _)))
  | beginDrain =>
    refine triple_of_sheds (((leads_beginDrain m hL).embed fun _ _ h => h.sheds).bind
      fun drain L' _ hdrain => Leads.pure ?_)
    rintro _ (_ | ⟨_, ⟨⟩⟩)
    exact hdrain.1
  | completeDrain i =>
    refine triple_of_sheds ?_
    simp only [call]
    split
    · exact Leads.pure (by simp)
    · rename_i drain hi
      obtain ⟨cmds, hcmds, hcommands⟩ := hdrains drain (List.mem_of_getElem? hi)
      exact hplain (leads_completeDrain hcommands (.inl hm)
        (fun _ => Loose.moves (.file hcmds) (.refl _)) fun _ => hclear _)
  | flushLog => exact triple_of_sheds (hplain ((leads_flushLog m hL).embed fun _ _ h => h.sheds))
  | compact =>
    exact triple_of_sheds (hplain (leads_compact m hL (fun _ _ h => h.sheds) fun _ hempty =>
      Step.moves (.compact (d := .ordered) (by simp) hempty) (.refl _)))
  | _ => exact absurd rfl hquiet

end Operation

/-! ## Drains and their generations -/

/-- **A drain keeps track of its generation**: so long as its head is logged, the commands from there
on are its own. -/
def LogDrain.Tracks (drain : LogDrain) (c : Contents) : Prop :=
  ∀ h ∈ drain.head, ∀ y, h ∈ logNodes (c.log y) → ∃ newer older, c.log y = newer ++ older ∧
    firstOf (logNodes older) none = some h ∧ drain.commands = older.reverse.map Logged.command

section Tracking

variable {drain : LogDrain} {c c' : Contents}

/-- What a drain keeps track of stays so while the buffers grow, unless its head is used again. -/
theorem LogDrain.Tracks.grows (hdrain : drain.Tracks c) (hgrows : c.Grows c')
    (hn : c'.handles.Nodup) (hspared : ∀ h ∈ drain.head, h ∈ c'.waiting → h ∈ c.waiting) :
    drain.Tracks c' := by
  intro h hhead y hm
  -- The head was logged before, and no node is in two buffers.
  obtain ⟨z, hz⟩ := Contents.mem_waiting.1 (hspared h hhead (Contents.mem_waiting.2 ⟨y, hm⟩))
  obtain ⟨newest, hnewest⟩ := hgrows z
  have hz' : h ∈ logNodes (c'.log z) := by
    rw [hnewest, logNodes, List.map_append]
    exact List.mem_append_right _ hz
  obtain rfl := Contents.eq_of_mem_logNodes hn hm hz'
  obtain ⟨newer, older, hlog, hfirst, hcommands⟩ := hdrain h hhead y hz
  exact ⟨newest ++ newer, older, by rw [hnewest, hlog, List.append_assoc], hfirst, hcommands⟩

theorem LogDrain.Tracks.sheds (hdrain : drain.Tracks c) (hsheds : c.Sheds c') :
    drain.Tracks c' := by
  intro h hhead y hm
  rcases hsheds y with hsame | hempty
  · rw [hsame] at hm ⊢
    exact hdrain h hhead y hm
  · simp [hempty] at hm

/-- A drain keeps track of its generation from its beginning on. -/
theorem LogDrain.Matches.tracks (hdrain : drain.Matches c) (hc : c.Regular)
    (hn : c.handles.Nodup) : drain.Tracks c := by
  intro h hhead y hm
  have hfirst : firstOf (logNodes c.outOfService) none = some h := hdrain.head.symm.trans hhead
  have hout : h ∈ logNodes (c.log c.active.flipped) := by
    rw [firstOf_none] at hfirst
    exact List.mem_of_head? hfirst
  obtain rfl := Contents.eq_of_mem_logNodes hn hm hout
  exact ⟨[], _, rfl, hfirst, by rw [hdrain.commands, hc.encoded]⟩

/-- **A drain whose head is that of the generation out of service** is a drain of that generation. -/
theorem LogDrain.Tracks.matches (hdrain : drain.Tracks c) (hc : c.Regular) (hn : c.handles.Nodup)
    (hnil : drain.head = none → drain.commands = [])
    (hhead : drain.head = firstOf (logNodes c.outOfService) none) : drain.Matches c := by
  refine ⟨hhead, ?_⟩
  rw [← hc.encoded]
  cases hlog : c.log c.active.flipped with
  | nil =>
    refine hnil (hhead.trans ?_)
    rw [Contents.outOfService, hlog]
    rfl
  | cons x xs =>
    have hx : drain.head = some x.node := by
      rw [hhead, Contents.outOfService, hlog]
      rfl
    obtain ⟨newer, older, hsplit, hfirst, hcommands⟩ :=
      hdrain x.node hx c.active.flipped (by simp [hlog])
    -- The head of the whole generation is not among the newer ones as well.
    have hnewer : newer = [] := by
      cases newer with
      | nil => rfl
      | cons z newer =>
        have hnodup := (List.nodup_append.1 (c.nodup_logNodes hn c.active.flipped)).1
        obtain rfl : x = z := (List.cons.inj (hlog.symm.trans hsplit)).1
        have hm : x.node ∈ logNodes older := by
          rw [firstOf_none] at hfirst
          exact List.mem_of_head? hfirst
        rw [hsplit, logNodes, List.cons_append, List.map_cons, List.nodup_cons, List.map_append]
          at hnodup
        exact absurd (List.mem_append_right _ hm) hnodup.1
    rw [hcommands, ← hlog, hsplit, hnewer]
    rfl

end Tracking

/-! ## Sites with outstanding drains -/

/-- The nodes of the commands that are logged. -/
def Site.waiting (s : Site) : List Handle :=
  match s.tier with
  | some t => LogBuffer.waiting t.pool
  | none => []

/-- **An action spares the heads** of the drains that are held: it does not use the node of a freed
command again if a drain is known by it. -/
def Action.SparesHeads (s : Site) (a : Action) : Prop :=
  ∀ drain ∈ s.drains, ∀ h ∈ drain.head, h ∈ (a.perform s).waiting → h ∈ s.waiting

instance (s : Site) (a : Action) : Decidable (a.SparesHeads s) :=
  inferInstanceAs (Decidable (∀ drain ∈ s.drains, ∀ h ∈ drain.head, _ → _))

namespace Site

open Operation

variable {s : Site} {t : Tier} {m : Tier.Mode} {L : Ledger} {drain : LogDrain}

theorem waiting_eq (ht : s.tier = some t) (hshows : t.Shows m 0 L) :
    s.waiting = L.contents.waiting := by
  rw [← hshows.pool.holds.waiting_eq, waiting, ht]

/-- **Every drain is kept track of.** A drain without a head has no commands. -/
structure Tracked (s : Site) : Prop where
  commands_nil : ∀ drain ∈ s.drains, drain.head = none → drain.commands = []
  tier : ∀ t, s.tier = some t → ∃ settings L, t.Shows (Settings.mode settings s.volume) 0 L ∧
    L.Agrees ∧ ∀ drain ∈ s.drains, drain.Tracks L.contents

/-- **Operations keep track of drains** whose heads they spare. -/
theorem Tracked.operate {op : Operation} (hs : s.Tracked) (hfits : op.Fits)
    (hencoded : ∀ drain ∈ s.drains, drain.Encoded)
    (hspares : (Action.operate op).SparesHeads s) : (s.operate op).Tracked := by
  cases ht : s.tier with
  | none => rwa [operate_of_none ht]
  | some t =>
    obtain ⟨settings, L, hshows, hL, htracks⟩ := hs.tier t ht
    obtain ⟨t', drains', L', heq, ht', hend⟩ := operate_of_triple ht hshows
      (triple_moves (Settings.faulty_mode _ _) hL hfits hencoded)
    obtain ⟨begun, hmoves, hbegun, hdrains⟩ : ∃ begun : List LogDrain,
        (Moves Contents.Grows L L' ∨ Moves Contents.Sheds L L') ∧
          (∀ drain ∈ begun, drain.Matches L'.contents) ∧ drains' = begun ++ op.rest s.drains := by
      rcases hend with ⟨begun, ⟨hmoves, hbegun⟩, rfl⟩ | ⟨hmoves, rfl⟩
      · exact ⟨begun, hmoves, hbegun, rfl⟩
      · exact ⟨[], hmoves, by simp, rfl⟩
    have hL' : L'.Agrees := hmoves.elim (fun h => h.agrees hL) fun h => h.agrees hL
    have hn := ht'.pool.holds.nodup_handles
    -- By assumption no node that comes in has the handle of a head.
    have hspared : ∀ drain ∈ s.drains, ∀ h ∈ drain.head,
        h ∈ L'.contents.waiting → h ∈ L.contents.waiting := by
      have hwaiting : (s.operate op).waiting = L'.contents.waiting := by
        rw [heq]
        exact waiting_eq rfl ht'
      intro drain hdrain h hhead hm
      rw [← waiting_eq ht hshows]
      exact hspares drain hdrain h hhead (hwaiting ▸ hm)
    have hkept : ∀ drain ∈ op.rest s.drains, drain.Tracks L'.contents := by
      intro drain hdrain
      have hmem := mem_of_mem_rest hdrain
      rcases hmoves with hgrows | hsheds
      · exact (htracks drain hmem).grows hgrows.contents hn (hspared drain hmem)
      · exact (htracks drain hmem).sheds hsheds.contents
    rw [heq]
    refine ⟨fun drain hdrain hnone => ?_, ?_⟩
    · rcases List.mem_append.1 (hdrains ▸ hdrain) with h | h
      · exact (hbegun drain h).commands_nil hnone
      · exact hs.commands_nil drain (mem_of_mem_rest h) hnone
    · rintro _ ⟨⟩
      refine ⟨settings, L', ht', hL', fun drain hdrain => ?_⟩
      rcases List.mem_append.1 (hdrains ▸ hdrain) with h | h
      · exact (hbegun drain h).tracks hL'.regular hn
      · exact hkept drain h

/-- A restart leaves nothing in the log that a drain could be mistaken for. -/
theorem Tracked.restart (hs : s.Tracked) (hsound : s.Sound) (hsmall : s.Small)
    (settings : Settings) (fresh seed : UInt64) : (s.restart settings fresh seed).Tracked := by
  cases hvalid : settings.validate with
  | error fault =>
    rw [restart_invalid hvalid]
    exact ⟨hs.commands_nil, by simp⟩
  | ok =>
    obtain ⟨t, c, filed, heq, ht, hL⟩ := hsound.exists_restart hsmall hvalid fresh seed
    rw [heq]
    refine ⟨hs.commands_nil, ?_⟩
    rintro _ ⟨⟩
    refine ⟨settings, restarted c filed, ht, hL, ?_⟩
    exact fun drain _ h _ y hm => absurd hm List.not_mem_nil

/-- **Every drain is kept track of** so long as the heads are spared. -/
theorem Reachable.tracked (hs : s.Reachable fun s a => a.Fits ∧ a.SparesHeads s) :
    s.Tracked := by
  induction hs with
  | blank => exact ⟨by simp, by simp⟩
  | @step s a before ok small ih =>
    have hsound := before.sound fun _ _ h => h.1
    cases a with
    | operate op => exact ih.operate ok.1 hsound.drains ok.2
    | restart settings fresh seed => exact ih.restart hsound before.small settings fresh seed

/-- **A drain is completed exactly, or refused**, whatever else has been done since it began and
however many drains are outstanding, so long as no node is used again that a drain is known by. If its
head is that of the generation out of service, it has the commands of that generation; the file is
told of them, oldest first, and they are freed. Otherwise nothing changes. -/
theorem completeDrain_exact (hs : s.Reachable fun s a => a.Fits ∧ a.SparesHeads s)
    (ht : s.tier = some t) (hdrain : drain ∈ s.drains) (hbudget : t.pool.writeBudget = none) :
    (drain.head ≠ LogBuffer.otherHead t.pool →
      (Tier.completeDrain drain).run t = .error (.cause (.corrupt .drainOutdated)) t) ∧
    (drain.head = LogBuffer.otherHead t.pool →
      LogBuffer.pending t.pool drain.head = .ok drain.commands ∧
      ∃ settings L t', t.Shows (Settings.mode settings s.volume) 0 L ∧
        drain.commands = (L.contents.generation L.contents.active.flipped).map Command.encode ∧
        (Tier.completeDrain drain).run t = .ok drain.commands.length t' ∧
        t'.Shows (Settings.mode settings s.volume) 0 { L with
          contents := L.contents.drained
          filed := L.filed ++ L.contents.generation L.contents.active.flipped }) := by
  obtain ⟨settings, L, hshows, hL, htracks⟩ := hs.tracked.tier t ht
  refine ⟨fun hhead => ?_, fun hhead => ?_⟩
  · simp only [Tier.completeDrain, EStateM.run_bind, EStateM.run_get, if_neg hhead]
    rfl
  · have hhead' := hhead.trans (Tier.otherHead_eq hshows.pool.holds)
    have hmatches := (htracks drain hdrain).matches hL.regular hshows.pool.holds.nodup_handles
      (hs.tracked.commands_nil drain hdrain) hhead'
    obtain ⟨_, t', _, hrun, ht', -, -, rfl, rfl⟩ := hshows.exists_ok hbudget
      fun m => Tier.leads_completeDrain_of_matches m hmatches
    have hpending := hshows.pool.holds.pending_eq L.contents.active.flipped
    rw [hL.regular.encoded, ← hmatches.commands] at hpending
    refine ⟨hhead' ▸ hpending, settings, L, t', hshows, hmatches.commands, ?_, ht'⟩
    rw [hrun, hmatches.commands, List.length_map]

/-- Of two drains the later one is completed, and the earlier one refused. -/
theorem completeDrain_exact_later :
    let settings : Settings := { filePath := some "f" }
    let s₁ := (Action.restart settings 1 0).perform {}
    let s₂ := (Action.operate (.append (.set [1] [10]))).perform s₁
    let s₃ := (Action.operate .beginDrain).perform s₂
    let s₄ := (Action.operate .flushLog).perform s₃
    let s₅ := (Action.operate (.append (.set [2] [20]))).perform s₄
    let s₆ := (Action.operate .beginDrain).perform s₅
    ∃ t later earlier, s₆.tier = some t ∧ s₆.drains = [later, earlier] ∧
      later.commands = [(Command.set [2] [20]).encode] ∧
      (∃ t', (Tier.completeDrain later).run t = .ok later.commands.length t') ∧
      (Tier.completeDrain earlier).run t = .error (.cause (.corrupt .drainOutdated)) t := by
  intro settings s₁ s₂ s₃ s₄ s₅ s₆
  have hfirst : (Command.set [1] [10]).Fits := by decide
  have hsecond : (Command.set [2] [20]).Fits := by decide
  have hs₁ : s₁.Reachable fun s a => a.Fits ∧ a.SparesHeads s :=
    .step .blank ⟨trivial, by decide +kernel⟩ (by decide +kernel)
  have hs₂ : s₂.Reachable fun s a => a.Fits ∧ a.SparesHeads s :=
    .step hs₁ ⟨hfirst, by decide +kernel⟩ (by decide +kernel)
  have hs₃ : s₃.Reachable fun s a => a.Fits ∧ a.SparesHeads s :=
    .step hs₂ ⟨trivial, by decide +kernel⟩ (by decide +kernel)
  have hs₄ : s₄.Reachable fun s a => a.Fits ∧ a.SparesHeads s :=
    .step hs₃ ⟨trivial, by decide +kernel⟩ (by decide +kernel)
  have hs₅ : s₅.Reachable fun s a => a.Fits ∧ a.SparesHeads s :=
    .step hs₄ ⟨hsecond, by decide +kernel⟩ (by decide +kernel)
  have hs₆ : s₆.Reachable fun s a => a.Fits ∧ a.SparesHeads s :=
    .step hs₅ ⟨trivial, by decide +kernel⟩ (by decide +kernel)
  let later : LogDrain := ⟨some ⟨1, 1⟩, [(Command.set [2] [20]).encode]⟩
  let earlier : LogDrain := ⟨some ⟨1, 2⟩, [(Command.set [1] [10]).encode]⟩
  have hdrains : s₆.drains = [later, earlier] := by decide +kernel
  have hfacts : s₆.tier.map (fun t => (t.pool.writeBudget, LogBuffer.otherHead t.pool)) =
      some (none, later.head) := by decide +kernel
  obtain ⟨t, ht, hfacts⟩ := Option.map_eq_some_iff.1 hfacts
  obtain ⟨hbudget, hhead⟩ := Prod.mk.inj hfacts
  have hheld : later ∈ s₆.drains ∧ earlier ∈ s₆.drains := by simp [hdrains]
  have hlater := completeDrain_exact hs₆ ht hheld.1 hbudget
  have hearlier := completeDrain_exact hs₆ ht hheld.2 hbudget
  obtain ⟨-, _, _, t', -, -, hrun, -⟩ := hlater.2 hhead.symm
  refine ⟨t, later, earlier, ht, hdrains, rfl, ⟨t', hrun⟩, hearlier.1 ?_⟩
  rw [hhead]
  decide

/-- A drain is completed after its generation has been flushed, since the node at its head has been
used for a command that is newer than what the file ends with. That command is lost, and the drain's
own one is written again. -/
theorem completeDrain_reused :
    let settings : Settings := { filePath := some "f" }
    let first := Command.set [1] [10]
    let second := Command.set [1] [20]
    let third := Command.set [1] [30]
    let s := [Operation.append first, .beginDrain, .flushLog, .append second, .flushLog,
      .append third, .switch].foldl Site.operate ((Action.restart settings 1 0).perform {})
    ∃ t drain t', s.tier = some t ∧ s.drains = [drain] ∧
      t.pool.writeBudget = none ∧ t.file.readAll = .ok [first, second] ∧
      LogBuffer.pending t.pool drain.head = .ok [third.encode] ∧
      (Tier.completeDrain drain).run t = .ok 1 t' ∧
      t'.file.readAll = .ok [first, second, first] ∧ LogBuffer.waiting t'.pool = [] := by
  intro settings first second third s
  let drain : LogDrain := ⟨some ⟨1, 2⟩, [first.encode]⟩
  have hdrains : s.drains = [drain] := by decide +kernel
  have hrun : s.tier.bind (fun t => match (Tier.completeDrain drain).run t with
      | .ok count t' => some (t.pool.writeBudget, t.file.readAll,
          LogBuffer.pending t.pool drain.head, count, t'.file.readAll, LogBuffer.waiting t'.pool)
      | .error _ _ => none) = some (none, .ok [first, second], .ok [third.encode], 1,
        .ok [first, second, first], []) := by
    unfold s third second first settings
    set_option synthInstance.maxSize 512 in decide +kernel
  obtain ⟨t, ht, hrun⟩ := Option.bind_eq_some_iff.1 hrun
  split at hrun
  · rename_i count t' hcomplete
    simp only [Option.some.injEq, Prod.mk.injEq] at hrun
    obtain ⟨hbudget, hbefore, hpending, rfl, hafter, hwaiting⟩ := hrun
    exact ⟨t, drain, t', ht, hdrains, hbudget, hbefore, hpending, hcomplete, hafter, hwaiting⟩
  · cases hrun

end Site

end PersistentTier
