import PersistentTier.Proofs.Tier.Site

/-!
# Restarts

Under durable settings a restart recovers the values of the index, provided that the log has been
drained in order: a drain that is held is completed or given up before another one begins, and the
log buffers are not used for anything else. The operations may have failed anywhere.

## Main definitions

* `Operation.InOrder`, `Action.InOrder`: what is permitted
* `LogDrain.Held`: what is known of a drain while it is held
* `Site.Restorable`: what holds of every site at which things are done in order

## Main results

* `Operation.triple_inOrder`: operations in order lead through ordered steps
* `Site.exists_reopened`: a restart recovers the values
-/

namespace PersistentTier

open Ledger

/-- **Operations in order.** No drain begins while another one is held, and the log buffers are used
for drains only. -/
def Operation.InOrder (drains : List LogDrain) : Operation → Prop
  | .append _ | .switch | .clear => False
  | .beginDrain | .flushLog | .compact => drains = []
  | _ => True

/-- **Actions in order**: operations in order, and restarts with durable settings. -/
def Action.InOrder (s : Site) : Action → Prop
  | .operate op => op.InOrder s.drains
  | .restart settings _ _ => settings.Durable

/-! ## Drains that are held -/

/-- **A drain that is held.** If it is of the generation that is out of service, it has the commands
of that generation. The generation of a drain may be gone after a restart. -/
structure LogDrain.Held (drain : LogDrain) (c : Contents) : Prop where
  encoded : drain.Encoded
  commands_nil : drain.head = none → drain.commands = []
  commands : drain.head = firstOf (logNodes c.outOfService) none →
    drain.commands = (c.generation c.active.flipped).map Command.encode

/-- At most one drain is held. -/
structure Contents.Holding (c : Contents) (drains : List LogDrain) : Prop where
  length_le : drains.length ≤ 1
  held : ∀ drain ∈ drains, drain.Held c

namespace Contents

variable {c c' : Contents} {drain : LogDrain} {drains : List LogDrain}

theorem holding_nil (c : Contents) : c.Holding [] := ⟨Nat.zero_le _, by simp⟩

/-- A drain is held as soon as it has begun. -/
theorem holding_singleton (hdrain : drain.Matches c) (hc : c.Regular) : c.Holding [drain] := by
  refine ⟨Nat.le_refl _, ?_⟩
  rintro _ (_ | ⟨_, ⟨⟩⟩)
  exact ⟨hdrain.encoded hc, hdrain.commands_nil, fun _ => hdrain.commands⟩

/-- Drains stay as they are so long as the generation out of service is left alone. -/
theorem Holding.of_eq (h : c.Holding drains) (hactive : c'.active = c.active)
    (hlog : c'.log c.active.flipped = c.log c.active.flipped) : c'.Holding drains := by
  refine ⟨h.length_le, fun drain hdrain => ?_⟩
  obtain ⟨hencoded, hnil, hcommands⟩ := h.held drain hdrain
  have hout : c'.outOfService = c.outOfService := by rw [outOfService, hactive, hlog, outOfService]
  have hgeneration : c'.generation c'.active.flipped = c.generation c.active.flipped := by
    rw [generation, hactive, hlog, generation]
  exact ⟨hencoded, hnil, by rwa [hout, hgeneration]⟩

/-- Without a generation out of service there is nothing to drain. -/
theorem Holding.of_nil (h : c.Holding drains) (hlog : c'.outOfService = []) :
    c'.Holding drains := by
  refine ⟨h.length_le, fun drain hdrain => ?_⟩
  obtain ⟨hencoded, hnil, -⟩ := h.held drain hdrain
  have hempty : c'.log c'.active.flipped = [] := hlog
  refine ⟨hencoded, hnil, fun hhead => ?_⟩
  rw [hnil (hhead.trans (firstOf_logNodes_eq_none.2 hlog)), generation, hempty]
  rfl

/-- Drains may be given up. -/
theorem Holding.eraseIdx (h : c.Holding drains) (i : Nat) : c.Holding (drains.eraseIdx i) :=
  ⟨(List.length_eraseIdx_le drains i).trans h.length_le,
    fun drain hdrain => h.held drain (List.mem_of_mem_eraseIdx hdrain)⟩

/-- The only drain is given up. -/
theorem Holding.eraseIdx_eq_nil (h : c.Holding drains) {i : Nat} (hi : drains[i]? = some drain) :
    drains.eraseIdx i = [] := by
  have hlt : i < drains.length := (List.getElem?_eq_some_iff.1 hi).1
  have hlength := h.length_le
  refine List.eq_nil_of_length_eq_zero ?_
  rw [List.length_eraseIdx_of_lt hlt]
  omega

end Contents

/-! ## Operations in order -/

namespace Operation

open Tier

variable {m : Mode} {L : Ledger} {drains : List LogDrain} {op : Operation}

theorem holding_rest {c : Contents} (h : c.Holding drains) : c.Holding (op.rest drains) := by
  cases op with
  | completeDrain i | forgetDrain i => exact h.eraseIdx i
  | _ => exact h

/-- **A drain that is held is completed** in ordered steps, or it is refused. -/
theorem leads_completeDrain_of_held (hm : m.Faulty) {drain : LogDrain}
    (hdrain : drain.Held L.contents) :
    Leads m Handover 0 L (Tier.completeDrain drain) fun _ _ => True := by
  by_cases hhead : drain.head = firstOf (logNodes L.contents.outOfService) none
  · exact (leads_completeDrain_of_matches m ⟨hhead, hdrain.commands hhead⟩).mono
      fun _ _ _ _ => trivial
  · -- The generation is gone, so the commands do not reach the file.
    obtain ⟨cmds, -, heq⟩ := hdrain.encoded
    exact (leads_completeDrain heq (.inl hm) (fun h => absurd h hhead)
      fun h => absurd h hhead).mono fun _ _ _ _ => trivial

/-- **Operations in order** lead through ordered steps, and what is known of a drain stays so. -/
theorem triple_inOrder (hm : m.Faulty) (hL : L.Agrees) (hfits : op.Fits)
    (horder : op.InOrder drains) (hheld : L.contents.Holding drains) :
    Triple m (fun L' => Steps .ordered L L' ∧ L'.contents.Holding (op.rest drains)) 0 L
      (op.call drains) fun begun L' =>
        Steps .ordered L L' ∧ L'.contents.Holding (begun ++ op.rest drains) := by
  have hhand : ∀ L L', Handover L L' → Step .ordered L L' := fun _ _ h => .handOver (by simp) h
  by_cases hquiet : op.isQuiet = true
  · have hkept : ∀ L', Steps .quiet L L' →
        Steps .ordered L L' ∧ L'.contents.Holding (op.rest drains) := fun L' hsteps =>
      ⟨hsteps.of_quiet _, (holding_rest hheld).of_eq hsteps.setAside.1 hsteps.setAside.2⟩
    refine Triple.mono (steps_of_quiet hm .quiet hL hfits hquiet) hkept ?_
    rintro _ L' ⟨hsteps, rfl⟩
    exact hkept L' hsteps
  -- What is left needs that no drain is held, but for the completion of one.
  have hnone : ∀ {act : TierM (List LogDrain)}, drains = [] →
      Leads m (Step .ordered) 0 L act (fun begun L' => L'.contents.Holding begun) →
      Triple m (fun L' => Steps .ordered L L' ∧ L'.contents.Holding drains) 0 L act
        fun begun L' => Steps .ordered L L' ∧ L'.contents.Holding (begun ++ drains) := by
    rintro act rfl hact
    refine Triple.mono hact (fun L' h => ⟨h, L'.contents.holding_nil⟩) fun begun L' h => ?_
    rwa [List.append_nil]
  have hplain : ∀ {α : Type} {act : TierM α} {Q : α → Ledger → Prop},
      Leads m (Step .ordered) 0 L act Q → Leads m (Step .ordered) 0 L (do let _ ← act; return [])
        fun (begun : List LogDrain) L' => L'.contents.Holding begun :=
    fun hact => (leads_plain hm hact).mono fun _ L' _ he => he ▸ L'.contents.holding_nil
  cases op with
  | beginDrain =>
    have hbegin := (leads_beginDrain m hL).embed hhand
    refine hnone horder (hbegin.bind fun drain L' hsteps hdrain => ?_)
    exact Leads.pure (Contents.holding_singleton hdrain.1 (hL.steps hsteps).regular)
  | flushLog => exact hnone horder (hplain ((leads_flushLog m hL).embed hhand))
  | compact =>
    exact hnone horder (hplain (leads_compact m hL hhand fun _ h => .compact (by simp) h))
  | completeDrain i =>
    simp only [call, rest]
    cases hi : drains[i]? with
    | none =>
      rw [List.eraseIdx_of_length_le (List.getElem?_eq_none_iff.1 hi)]
      exact Triple.pure ⟨.refl, hheld⟩
    | some drain =>
      have hdrain := hheld.held drain (List.mem_of_getElem? hi)
      have hcomplete := (leads_completeDrain_of_held hm hdrain).embed hhand
      rw [hheld.eraseIdx_eq_nil hi]
      refine Triple.mono (hplain hcomplete) (fun L' h => ⟨h, L'.contents.holding_nil⟩) ?_
      exact fun _ _ h => by rwa [List.append_nil]
  | append | switch | clear => exact horder.elim
  | _ => exact absurd rfl hquiet

end Operation

/-! ## Sites in order -/

namespace Site

open Operation

variable {s : Site} {op : Operation} {settings : Settings}

/-- **A site whose values can be recovered**: nothing has been opened yet, or the tier that is open
shows a ledger with recoverable values. -/
inductive Restorable : Site → Prop
  | blank : Restorable {}
  | opened {s : Site} {t : Tier} {settings : Settings} {L : Ledger} (tier : s.tier = some t)
      (durable : settings.Durable) (shows : t.Shows (settings.mode s.volume) 0 L)
      (agrees : L.Agrees) (recoverable : L.Recoverable) (held : L.contents.Holding s.drains) :
      Restorable s

/-- **Operations in order keep the values recoverable.** -/
theorem Restorable.operate (hs : s.Restorable) (hfits : op.Fits) (horder : op.InOrder s.drains) :
    (s.operate op).Restorable := by
  cases hs with
  | blank => exact .blank
  | @opened _ t settings L tier durable shows agrees recoverable held =>
    obtain ⟨t', drains', L', heq, ht', hend⟩ := operate_of_triple tier shows
      (triple_inOrder (Settings.faulty_mode _ _) agrees hfits horder held)
    have hends : Steps .ordered L L' ∧ L'.contents.Holding drains' := by
      rcases hend with ⟨begun, h, rfl⟩ | ⟨h, rfl⟩
      · exact h
      · exact h
    rw [heq]
    exact .opened rfl durable ht' (agrees.steps hends.1)
      (recoverable.steps agrees (by simp) hends.1) hends.2

/-- Under durable settings, closing leaves what the tier shows. -/
theorem Restorable.closed {t : Tier} {L : Ledger} (ht : s.tier = some t)
    (hdurable : settings.Durable) (hshows : t.Shows (settings.mode s.volume) 0 L) (hL : L.Agrees) :
    s.closed.Keeps t.pool.slots.size (fun c => c = L.contents) L.filed := by
  have hclosed : s.closed = t.close s.volume := by simp only [Site.closed, ht]
  have hlive : (settings.mode s.volume).live = true := by
    simp [Settings.mode, hdurable.file, hdurable.sync]
  rw [hclosed]
  exact hshows.close hL hlive ⟨hdurable.image, hdurable.sync⟩ s.volume

/-- **Durable settings find what a volume keeps.** -/
theorem exists_restarted {volume : Volume} {bound : Nat} {c : Contents} {cmds : List Command}
    (hvolume : volume.Keeps bound (fun c' => c' = c) cmds) (hbound : bound < 2 ^ 32)
    (hc : c.Regular) (hcmds : ∀ cmd ∈ cmds, cmd.Fits) (hdurable : settings.Durable)
    (fresh seed : UInt64) : ∃ t, Tier.open settings volume fresh seed = (.ok t, volume) ∧
      t.Shows (settings.mode volume) 0 (restarted c cmds) := by
  obtain ⟨t, c', filed, hopen, ht, -, -, -, hsame⟩ :=
    hvolume.exists_open hbound (fun _ h => h ▸ hc) hcmds hdurable.valid fresh seed
  obtain ⟨rfl, rfl⟩ := hsame hdurable
  exact ⟨t, hopen, ht⟩

/-- **Restarts keep the values recoverable.** -/
theorem Restorable.restart (hs : s.Restorable) (hsmall : s.Small) (hdurable : settings.Durable)
    (fresh seed : UInt64) : (s.restart settings fresh seed).Restorable := by
  -- All that counts of the site is what its volume keeps once it is closed.
  have hkept : ∀ {bound : Nat} {c : Contents} {cmds : List Command},
      s.closed.Keeps bound (fun c' => c' = c) cmds → bound < 2 ^ 32 → c.Regular →
      (∀ cmd ∈ cmds, cmd.Fits) → c.Holding s.drains →
      (s.restart settings fresh seed).Restorable := by
    intro bound c cmds hvolume hbound hc hcmds hheld
    obtain ⟨t, hopen, ht⟩ := exists_restarted hvolume hbound hc hcmds hdurable fresh seed
    simp only [Site.restart, hopen]
    exact .opened rfl hdurable ht (agrees_restarted hc hcmds) (recoverable_restarted c cmds)
      (hheld.of_nil rfl)
  cases hs with
  | blank =>
    exact hkept (Volume.keeps_blank rfl) (by decide) Contents.regular_empty (by simp)
      (Contents.holding_nil _)
  | @opened _ t settings' L tier durable shows agrees recoverable held =>
    obtain ⟨himage, -⟩ := shows.imaged ⟨durable.image, durable.sync⟩
    exact hkept (closed tier durable shows agrees) (hsmall t tier himage) agrees.regular
      agrees.filed held

/-- **Every site at which things are done in order is restorable.** -/
theorem Reachable.restorable (hs : s.Reachable fun s a => a.Fits ∧ a.InOrder s) : s.Restorable := by
  induction hs with
  | blank => exact .blank
  | @step s a before ok small ih =>
    cases a with
    | operate op => exact ih.operate ok.1 ok.2
    | restart settings fresh seed => exact ih.restart before.small ok.2 fresh seed

/-- A restart of a site whose values can be recovered recovers them. -/
theorem Restorable.exists_recovered {t : Tier} (hs : s.Restorable) (ht : s.tier = some t)
    (hsmall : t.Small) (hdurable : settings.Durable) (fresh seed : UInt64) :
    ∃ t', Tier.open settings (t.close s.volume) fresh seed = (.ok t', t.close s.volume) ∧
      ∀ key, t'.index.value? key = t.index.value? key := by
  have hclosed : s.closed = t.close s.volume := by simp only [Site.closed, ht]
  -- The invariant names the contents and the commands that closing leaves on the volume.
  cases hs with
  | blank => cases ht
  | @opened _ t₀ settings' L tier durable shows agrees recoverable held =>
    obtain rfl : t₀ = t := Option.some.inj (tier.symm.trans ht)
    obtain ⟨himage, -⟩ := shows.imaged ⟨durable.image, durable.sync⟩
    obtain ⟨t', hopen, ht'⟩ := exists_restarted (Restorable.closed tier durable shows agrees)
      (hsmall himage) agrees.regular agrees.filed hdurable fresh seed
    rw [hclosed] at hopen
    refine ⟨t', hopen, fun key => ?_⟩
    rw [ht'.index, shows.index]
    exact value?_restarted recoverable agrees key

/-- **A restart recovers the values.** Whatever has been done in order, and wherever operations have
failed: closing the tier and opening one with durable settings succeeds, and every key has the value
that it had. -/
theorem exists_reopened {t : Tier} (hs : s.Reachable fun s a => a.Fits ∧ a.InOrder s)
    (ht : s.tier = some t) (hdurable : settings.Durable) (fresh seed : UInt64) :
    ∃ t', Tier.open settings (t.close s.volume) fresh seed = (.ok t', t.close s.volume) ∧
      ∀ key, t'.index.value? key = t.index.value? key :=
  hs.restorable.exists_recovered ht (hs.small t ht) hdurable fresh seed

/-- A key is evicted while the drain of an earlier write is held. -/
theorem exists_reopened_draining :
    let settings : Settings := { poolPath := some "p", filePath := some "f", maxEntries := some 1 }
    let s₁ := (Action.restart settings 1 0).perform {}
    let s₂ := (Action.operate (.insert [1] [10])).perform s₁
    let s₃ := (Action.operate .beginDrain).perform s₂
    let s₄ := (Action.operate (.insert [2] [20])).perform s₃
    ∃ t t', s₄.tier = some t ∧ t.index.pairs = [([1], [10]), ([2], [20])] ∧
      Tier.open settings (t.close s₄.volume) 3 0 = (.ok t', t.close s₄.volume) ∧
      ∀ key, t'.index.value? key = t.index.value? key := by
  intro settings s₁ s₂ s₃ s₄
  have hvalid : settings.validate = .ok () :=
    Settings.validate_of_differ PathName.same_p_f rfl
  have hdurable : settings.Durable := ⟨hvalid, rfl, rfl, rfl⟩
  have hfirst : (Command.set [1] [10]).Fits := by decide
  have hsecond : (Command.set [2] [20]).Fits := by decide
  have hdrains : s₂.drains = [] := by
    unfold s₂ s₁
    simp only [Action.perform, restart, Tier.open, hvalid]
    unfold settings
    decide +kernel
  have hsmall : [s₁, s₂, s₃, s₄].all (fun s => decide s.Small) = true := by
    unfold s₄ s₃ s₂ s₁
    simp only [Action.perform, restart, Tier.open, hvalid]
    unfold settings
    decide +kernel
  have hpairs : s₄.tier.map (fun t => t.index.pairs) = some [([1], [10]), ([2], [20])] := by
    unfold s₄ s₃ s₂ s₁
    simp only [Action.perform, restart, Tier.open, hvalid]
    unfold settings
    decide +kernel
  simp only [List.all_cons, List.all_nil, Bool.and_true, Bool.and_eq_true, decide_eq_true_eq]
    at hsmall
  obtain ⟨hsmall₁, hsmall₂, hsmall₃, hsmall₄⟩ := hsmall
  have hs₁ : s₁.Reachable fun s a => a.Fits ∧ a.InOrder s :=
    .step .blank ⟨trivial, hdurable⟩ hsmall₁
  have hs₂ : s₂.Reachable fun s a => a.Fits ∧ a.InOrder s :=
    .step hs₁ ⟨hfirst, trivial⟩ hsmall₂
  have hs₃ : s₃.Reachable fun s a => a.Fits ∧ a.InOrder s :=
    .step hs₂ ⟨trivial, hdrains⟩ hsmall₃
  have hs₄ : s₄.Reachable fun s a => a.Fits ∧ a.InOrder s :=
    .step hs₃ ⟨hsecond, trivial⟩ hsmall₄
  obtain ⟨t, ht, hpairs⟩ := Option.map_eq_some_iff.1 hpairs
  obtain ⟨t', hopen, hvalues⟩ := exists_reopened hs₄ ht hdurable 3 0
  exact ⟨t, t', ht, hpairs, hopen, hvalues⟩

end Site

end PersistentTier
