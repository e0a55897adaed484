import PersistentTier.Proofs.Tier.Forecast

/-!
# Compaction

Compaction replaces the file by the index. A restart then finds the values of the index, whatever
has been logged before. Without compaction it finds what the log and the file say, which need not be
the same: a command that is only logged has no effect on the index, so compaction loses it. A key is
settled if nothing like this is outstanding for it, and then it makes no difference to a restart
whether the tier has been compacted.

## Main definitions

* `Ledger.Settled`: the index has the value that is to be expected of a key
* `Operation.Carries`: operations that carry out what they log about a key
* `Site.Settled`: the history of a key about which nothing is outstanding

## Main results

* `Ledger.Settled.step`: every ordered step keeps a key settled
* `Site.exists_reopened_compacted`: what a restart finds with and without compaction
* `Site.forgets_compacted`: a command that is only logged is lost
-/

namespace PersistentTier

open Command

/-! ## Settled keys -/

namespace Ledger

variable {L L' : Ledger} {key key' : Bytes} {cmd : Command}

/-- **A key is settled** if the index has the value that is to be expected from a restart. -/
def Settled (L : Ledger) (key : Bytes) : Prop := L.forecast key = L.index.value? key

/-- A command that is carried out settles its key. -/
theorem settled_of_carriedOut (cmd : Command) (h : Tier.CarriedOut cmd L) : L.Settled cmd.key := by
  obtain ⟨hlogged, hvalue⟩ := h
  rw [Settled, forecast, hlogged, hvalue]
  rfl

theorem Settled.shift (hs : L.Settled key) (hL : L.Agrees) (h : Shift L L') : L'.Settled key := by
  rw [Settled, forecast_shift hL h, h.value?_eq]
  exact hs

/-- A change of a key settles it, and leaves other keys as they are. -/
theorem Settled.change (hs : L.Settled key) (hL : L.Agrees) (h : Change key' L L') :
    L'.Settled key := by
  have hvalue : key' ≠ key → L'.index.value? key = L.index.value? key := by
    intro hne
    cases h with
    | write fits named => exact (Index.value?_insert ..).trans (if_neg (named ▸ hne))
    | remove => exact (Index.value?_erase ..).trans (if_neg hne)
    | shift shifted => exact shifted.value?_eq key
  by_cases hkey : key' = key
  · subst hkey
    cases h with
    | @write c c' index filed x z fits named encoded result =>
      subst named
      refine settled_of_carriedOut (.set x.key x.value) ⟨?_, ?_⟩
      · rw [result.logged, c.logged_append fits encoded]
        simp [Command.key]
      · simp [Command.key, Command.outcome]
    | @remove c c' index filed z fits encoded result =>
      refine settled_of_carriedOut (.del key') ⟨?_, ?_⟩
      · rw [result.logged, c.logged_append fits encoded]
        simp [Command.key]
      · simp [Command.key, Command.outcome]
    | shift shifted => exact hs.shift hL shifted
  · rw [Settled, forecast_change hL h hkey, hvalue hkey]
    exact hs

/-- What a node stores is the value that the index has. -/
theorem value?_of_stored? {index : Index} {value : Bytes} (h : index.stored? key = some value) :
    index.value? key = some value := by
  obtain ⟨entry, hentry, hnode⟩ := Option.bind_eq_some_iff.1 h
  obtain ⟨node, -, rfl⟩ := Option.map_eq_some_iff.1 hnode
  rw [Index.value?, hentry]
  rfl

/-- **A handover keeps a key settled.** A command that passes to the file gives way to the node of its
key, but then the node stores what the command says. -/
theorem Settled.handover (hs : L.Settled key) (h : Handover L L') : L'.Settled key := by
  cases h with
  | @switch c index filed drained =>
    simp only [Settled, forecast, c.logged_switched drained]
    exact hs
  | @file c index filed =>
    simp only [Settled, forecast, Contents.logged, verdict_append] at hs ⊢
    -- The commands are still in the log, so they count as they did.
    cases ho : verdict key (c.generation c.active.flipped) with
    | none => rwa [ho] at hs
    | some outcome =>
      rw [ho] at hs
      cases hc : verdict key (c.generation c.active) with
      | none | some => rwa [hc] at hs
  | @free c index filed =>
    simp only [Settled, forecast, c.logged_drained]
    simp only [Settled, forecast, Contents.logged, verdict_append] at hs ⊢
    cases hc : verdict key (c.generation c.active) with
    | some => rwa [hc] at hs
    | none =>
      rw [hc] at hs
      cases ho : verdict key (c.generation c.active.flipped) with
      | none => rwa [ho] at hs
      | some outcome =>
        rw [ho] at hs
        obtain rfl : outcome = index.value? key := hs
        cases hstored : index.stored? key with
        | none => rfl
        | some value => exact (value?_of_stored? hstored).symm

/-- **Compaction settles every key.** -/
theorem settled_compact {c : Contents} {index : Index} (drained : ∀ y, c.log y = []) :
    Settled ⟨c, index, index.pairs.map fun pair => .set pair.1 pair.2⟩ key := by
  have hempty : c.logged = [] := by simp [Contents.logged, Contents.generation, drained]
  simp only [Settled, forecast, hempty, verdict_nil, Index.verdict_pairs, Option.getD_none]
  cases hstored : index.stored? key with
  | some value => exact (value?_of_stored? hstored).symm
  | none => cases index.value? key <;> rfl

/-- **Every ordered step keeps a key settled.** -/
theorem Settled.step {d : Discipline} (hs : L.Settled key) (hL : L.Agrees) (hd : d ≠ .free)
    (h : Step d L L') : L'.Settled key := by
  cases h with
  | change changed => exact hs.change hL changed
  | handOver loud handed => exact hs.handover handed
  | loosely free => exact absurd free hd
  | compact loud drained => exact settled_compact drained

theorem Settled.steps {d : Discipline} (hs : L.Settled key) (hL : L.Agrees) (hd : d ≠ .free)
    (h : Steps d L L') : L'.Settled key := by
  induction h with
  | refl => exact hs
  | tail hsteps hstep ih => exact ih.step (hL.steps hsteps) hd hstep

/-- A restart settles every key. -/
theorem settled_restarted {c : Contents} {filed : List Command} (hc : c.Regular)
    (hfiled : ∀ cmd ∈ filed, cmd.Fits) : (restarted c filed).Settled key := by
  have hagrees := agrees_restarted hc hfiled
  have hlogged : (restarted c filed).contents.logged = [] := rfl
  rw [Settled, forecast, hlogged, verdict_nil, Option.getD_none]
  by_cases hkey : key ∈ (restarted c filed).contents.pairs.map Resident.key
  · obtain ⟨x, hx, rfl⟩ := List.mem_map.1 hkey
    rw [hagrees.stored?_eq hx, hagrees.tallies.value?_eq hx]
    rfl
  · rw [hagrees.stored?_eq_none hkey, Option.none_or]
    refine (value?_restarted_of_not_mem fun hm => hkey ?_).symm
    simpa [restarted, Contents.pairs] using hm

/-- **A restart finds the value of a key that is settled.** -/
theorem Settled.value?_restarted (hs : L.Settled key) (hL : L.Agrees) :
    (restarted L.contents L.filed).index.value? key = L.index.value? key := by
  by_cases hkey : key ∈ L.contents.entries.map Resident.key
  · obtain ⟨x, hx, rfl⟩ := List.mem_map.1 hkey
    rw [hL.tallies.value?_eq (List.mem_append_left _ hx), Index.value?, restarted,
      get?_indexed_of_mem (nodup_entries hL.regular) hx]
    rfl
  · exact (forecast_restarted hL hkey).1.trans hs

end Ledger

/-! ## Operations that keep a key settled -/

/-- **Operations that carry out what they log about a key.** The log buffers are used for drains of
everything in them, and a command that is only logged is about another key. -/
def Operation.Carries (key : Bytes) (op : Operation) : Prop :=
  op.isQuiet = true ∨ op = .beginDrain ∨ op = .flushLog ∨ op = .compact ∨
    ∃ cmd, op = .append cmd ∧ cmd.key ≠ key

namespace Operation

open Ledger Tier

variable {m : Mode} {L : Ledger} {drains : List LogDrain} {op : Operation} {key : Bytes}

/-- **Operations that carry out what they log** keep a key settled, also if they fail. -/
theorem triple_carries (hm : m.Faulty) (hL : L.Agrees) (hs : L.Settled key) (hfits : op.Fits)
    (hcarries : op.Carries key) :
    Triple m (fun L' => L'.Agrees ∧ L'.Settled key) 0 L (op.call drains)
      fun _ L' => L'.Agrees ∧ L'.Settled key := by
  have hsteps : ∀ {L'}, Steps .ordered L L' → L'.Agrees ∧ L'.Settled key := fun h =>
    ⟨hL.steps h, hs.steps hL (by simp) h⟩
  have hordered : ∀ {Q : List LogDrain → Ledger → Prop},
      Leads m (Step .ordered) 0 L (op.call drains) Q →
      Triple m (fun L' => L'.Agrees ∧ L'.Settled key) 0 L (op.call drains)
        fun _ L' => L'.Agrees ∧ L'.Settled key := fun h =>
    Triple.mono h (fun _ => hsteps) fun _ _ h => hsteps h.1
  have hhand : ∀ L L', Handover L L' → Step .ordered L L' := fun _ _ h => .handOver (by simp) h
  -- Only an append logs what it does not carry out, and it is of another key.
  rcases hcarries with hquiet | rfl | rfl | rfl | ⟨cmd, rfl, hne⟩
  · exact hordered (steps_of_quiet hm .ordered hL hfits hquiet)
  · exact hordered (((leads_beginDrain m hL).embed hhand).bind fun _ _ _ _ =>
      Leads.pure (Q := fun _ _ => True) trivial)
  · exact hordered (leads_plain hm ((leads_flushLog m hL).embed hhand))
  · exact hordered (leads_plain hm
      (leads_compact m hL hhand fun _ h => .compact (by simp) h))
  · refine Triple.bind (Q := fun _ L' => L'.Agrees ∧ L'.Settled key) (fun t ht => ?_)
      fun _ L' h => Triple.pure h
    refine (triple_appendCommand (X := fun L' => L'.Agrees ∧ L'.Settled key)
      ⟨hL, hs⟩ cmd).mono (fun _ h => h) ?_ t (ht.of_faulty hm 2)
    rintro _ _ ⟨z, -, hz, rfl⟩
    refine ⟨hL.step (d := .free) (.loosely rfl (.log ⟨cmd, hfits, hz⟩)), ?_⟩
    rw [Settled, forecast_append L hfits hz, if_neg hne]
    exact hs

end Operation

/-! ## Sites -/

namespace Site

open Operation Ledger

variable {s : Site} {t t' : Tier} {key : Bytes} {settings : Settings}

/-- **The history of a key about which nothing is outstanding.** Since the last restart, or since a
write or a removal of the key, no command about it has been logged without being carried out. -/
inductive Settled (key : Bytes) : Site → Prop
  /-- The tier is opened. -/
  | opened {s : Site} {settings : Settings} {fresh seed : UInt64}
      (before : s.Reachable fun _ a => a.Fits ∧ a.Durable) (durable : settings.Durable) :
      Settled key (s.restart settings fresh seed)
  /-- A value is stored under the key. -/
  | written {s : Site} {t t' : Tier} {value : Bytes}
      (before : s.Reachable fun _ a => a.Fits ∧ a.Durable) (ht : s.tier = some t)
      (fits : (Command.set key value).Fits) (run : (Tier.insert key value).run t = .ok () t') :
      Settled key { s with tier := some t' }
  /-- The key, being there, is removed. -/
  | removed {s : Site} {t t' : Tier}
      (before : s.Reachable fun _ a => a.Fits ∧ a.Durable) (ht : s.tier = some t)
      (fits : (Command.del key).Fits) (run : (Tier.erase key).run t = .ok true t') :
      Settled key { s with tier := some t' }
  /-- Something is done that carries out what it logs about the key, whether it fails or not. -/
  | carried {s : Site} {op : Operation} (before : Settled key s) (fits : op.Fits)
      (carries : op.Carries key) : Settled key (s.operate op)

/-- A tier with a settled key shows a ledger in which the key is settled. -/
theorem Settled.exists_shows (hs : s.Settled key) : ∃ t settings L, s.tier = some t ∧
    settings.Durable ∧ t.Shows (Settings.mode settings s.volume) 0 L ∧ L.Agrees ∧
      L.Settled key := by
  -- Induction on how the key has been settled: by a restart, by a call that succeeds, or before that.
  induction hs with
  | @opened s settings fresh seed before durable =>
    have hsound := before.sound fun _ _ h => h.1
    obtain ⟨bound, cmds, hkeeps, hbound, hcmds⟩ := hsound.closed before.small
    obtain ⟨t, c, filed, hopen, ht, -, hc, hfiled, -⟩ :=
      hkeeps.exists_open hbound (fun _ h => h) hcmds durable.valid fresh seed
    simp only [Site.restart, hopen]
    exact ⟨t, settings, restarted c filed, rfl, durable, ht, agrees_restarted hc hfiled,
      settled_restarted hc hfiled⟩
  | @written s t t' value before ht fits run =>
    obtain ⟨settings, L, hdurable, hshows, hL⟩ := before.exists_durable ht
    have h := Tier.leads_insert _ hL fits t (hshows.of_faulty (Settings.faulty_mode _ _) 5)
    rw [run] at h
    obtain ⟨L', ht', hsteps, hcarried⟩ := h
    exact ⟨t', settings, L', rfl, hdurable, ht', hL.steps (Change.steps .quiet hsteps),
      settled_of_carriedOut _ hcarried⟩
  | @removed s t t' before ht fits run =>
    obtain ⟨settings, L, hdurable, hshows, hL⟩ := before.exists_durable ht
    have h := Tier.leads_erase _ hL fits t (hshows.of_faulty (Settings.faulty_mode _ _) 2)
    rw [run] at h
    obtain ⟨L', ht', hsteps, hcarried⟩ := h
    exact ⟨t', settings, L', rfl, hdurable, ht', hL.steps (Change.steps .quiet hsteps),
      settled_of_carriedOut _ (hcarried rfl)⟩
  | @carried s op before fits carries ih =>
    obtain ⟨t, settings, L, ht, hdurable, hshows, hL, hsettled⟩ := ih
    obtain ⟨t', drains', L', heq, ht', hend⟩ := operate_of_triple ht hshows
      (triple_carries (Settings.faulty_mode _ _) hL hsettled fits carries)
    have hkept : L'.Agrees ∧ L'.Settled key := by
      rcases hend with ⟨-, hkept, -⟩ | ⟨hkept, -⟩
      · exact hkept
      · exact hkept
    rw [heq]
    exact ⟨t', settings, L', rfl, hdurable, ht', hkept⟩

/-- **What a restart finds with and without compaction.** Compacted, every key has the value of the
index; and for a key about which nothing is outstanding this is what is found without compaction. -/
theorem exists_reopened_compacted {count : Nat}
    (hs : s.Reachable fun _ a => a.Fits ∧ a.Durable) (ht : s.tier = some t)
    (hrun : Tier.compact.run t = .ok count t') (hsmall : t'.Small) (hdurable : settings.Durable)
    (fresh seed : UInt64) :
    ∃ u u', Tier.open settings (t.close s.volume) fresh seed = (.ok u, t.close s.volume) ∧
      Tier.open settings (t'.close s.volume) fresh seed = (.ok u', t'.close s.volume) ∧
      ∀ key, u'.index.value? key = t.index.value? key ∧
        (s.Settled key → u.index.value? key = u'.index.value? key) := by
  obtain ⟨settings', L, hdurable', hshows, hL⟩ := hs.exists_durable ht
  have hcompact := Tier.leads_compact (Settings.mode settings' s.volume) (S := Step .ordered) hL
    (fun _ _ h => .handOver (by simp) h) (fun _ h => .compact (by simp) h) t hshows
  rw [hrun] at hcompact
  obtain ⟨_, hshows', hsteps, L₁, hpasses, hempty, rfl⟩ := hcompact
  have hL' := hL.steps hsteps
  -- Both tiers leave a volume from which a tier can be opened.
  have hreopens : ∀ {settings' : Settings} {t : Tier} {L : Ledger}, settings'.Durable →
      t.Shows (Settings.mode settings' s.volume) 0 L → L.Agrees → t.Small → ∃ u,
        Tier.open settings (t.close s.volume) fresh seed = (.ok u, t.close s.volume) ∧
          u.index = (restarted L.contents L.filed).index := by
    intro settings' t L hdurable' hshows hL hsmall
    obtain ⟨himage, -⟩ := hshows.imaged ⟨hdurable'.image, hdurable'.sync⟩
    obtain ⟨u, hopen, hu⟩ := exists_restarted
      (Restorable.closed (s := { s with tier := some t }) rfl hdurable' hshows hL)
      (hsmall himage) hL.regular hL.filed hdurable fresh seed
    exact ⟨u, hopen, hu.index⟩
  obtain ⟨u, hopen, -⟩ := hreopens hdurable' hshows hL (hs.small t ht)
  obtain ⟨u', hopen', hu'⟩ := hreopens hdurable' hshows' hL' hsmall
  have hvalue' : ∀ key, u'.index.value? key = t.index.value? key := fun key => by
    rw [hu', (settled_compact hempty).value?_restarted hL', hshows.index, ← hpasses.index]
  refine ⟨u, u', hopen, hopen', fun key => ⟨hvalue' key, fun hsettled => ?_⟩⟩
  -- The history of the key leads to a ledger of the same tier in which the key is settled.
  obtain ⟨t₂, settings₂, L₂, ht₂, hdurable₂, hshows₂, hL₂, hsettled₂⟩ := hsettled.exists_shows
  obtain rfl := Option.some.inj (ht.symm.trans ht₂)
  obtain ⟨u₂, hopen₂, hu₂⟩ := hreopens hdurable₂ hshows₂ hL₂ (hs.small t ht)
  obtain rfl : u = u₂ := Except.ok.inj (Prod.mk.inj (hopen.symm.trans hopen₂)).1
  rw [hvalue', hu₂, hsettled₂.value?_restarted hL₂, hshows₂.index]

/-- A command that is only logged is overtaken by a write before the tier is compacted. -/
theorem exists_reopened_compacted_overtaken :
    let settings : Settings := { poolPath := some "p", filePath := some "f" }
    let s₁ := (Action.restart settings 1 0).perform {}
    let s₂ := (Action.operate (.append (.set [1] [20]))).perform s₁
    let s₃ := (Action.operate (.insert [1] [30])).perform s₂
    s₃.Settled [1] ∧ ∃ t count t' u u', s₃.tier = some t ∧ Tier.compact.run t = .ok count t' ∧
      Tier.open settings (t.close s₃.volume) 2 0 = (.ok u, t.close s₃.volume) ∧
      Tier.open settings (t'.close s₃.volume) 2 0 = (.ok u', t'.close s₃.volume) ∧
      u.index.value? [1] = some [30] ∧ u'.index.value? [1] = some [30] := by
  intro settings s₁ s₂ s₃
  have hvalid : settings.validate = .ok () :=
    Settings.validate_of_differ PathName.same_p_f rfl
  have hdurable : settings.Durable := ⟨hvalid, rfl, rfl, rfl⟩
  have happend : (Command.set [1] [20]).Fits := by decide
  have hinsert : (Command.set [1] [30]).Fits := by decide
  have hfacts : ([s₁, s₂, s₃, s₃.operate .compact].all (fun s => decide s.Small),
      s₂.tier.bind (Tier.insert [1] [30]).run', s₃.tier.bind Tier.compact.run',
      s₃.tier.map fun t => t.index.value? [1]) = (true, some (), some 1, some (some [30])) := by
    unfold s₃ s₂ s₁
    simp only [Action.perform, restart, Tier.open, hvalid]
    unfold settings
    decide +kernel
  simp only [Prod.mk.injEq, List.all_cons, List.all_nil, Bool.and_true, Bool.and_eq_true,
    decide_eq_true_eq] at hfacts
  obtain ⟨hsmall, hinserted, hcompacted, hindexed⟩ := hfacts
  obtain ⟨hsmall₁, hsmall₂, hsmall₃, hsmall₄⟩ := hsmall
  have hs₂ : s₂.Reachable fun _ a => a.Fits ∧ a.Durable :=
    .step (.step .blank ⟨trivial, hdurable⟩ hsmall₁) ⟨happend, trivial⟩ hsmall₂
  have hs₃ : s₃.Reachable fun _ a => a.Fits ∧ a.Durable :=
    .step hs₂ ⟨hinsert, trivial⟩ hsmall₃
  have hsettled : s₃.Settled [1] := by
    obtain ⟨t, t', ht, hrun⟩ := exists_run hinserted
    have heq : s₃ = { s₂ with tier := some t' } :=
      operate_of_run (.insert [1] [30]) ht rfl rfl hrun
    exact heq ▸ .written hs₂ ht hinsert hrun
  obtain ⟨t, t', ht, hrun⟩ := exists_run hcompacted
  have hsmall : t'.Small := by
    rw [operate_of_run .compact ht rfl rfl hrun] at hsmall₄
    exact hsmall₄ t' rfl
  have hvalue : t.index.value? [1] = some [30] := by simpa [ht] using hindexed
  obtain ⟨u, u', hopen, hopen', hvalues⟩ :=
    exists_reopened_compacted hs₃ ht hrun hsmall hdurable 2 0
  obtain ⟨hfound, hsame⟩ := hvalues [1]
  refine ⟨hsettled, t, 1, t', u, u', ht, hrun, hopen, hopen', ?_, hfound.trans hvalue⟩
  exact (hsame hsettled).trans (hfound.trans hvalue)

/-- **Compaction loses a command that is only logged.** The command has reached the file, and without
compaction a restart carries it out. -/
theorem forgets_compacted :
    let settings : Settings := { poolPath := some "p", filePath := some "f" }
    let s := [Operation.append (.set [1] [20]), .flushLog].foldl Site.operate
      ((Action.restart settings 1 0).perform {})
    settings.Durable ∧ s.Small ∧ (s.operate .compact).Small ∧
      (∃ t count t', s.tier = some t ∧ Tier.compact.run t = .ok count t' ∧
        (s.operate .compact).tier = some t') ∧
      (∃ u, (s.restart settings 2 0).tier = some u ∧ u.index.value? [1] = some [20]) ∧
      ∃ u', ((s.operate .compact).restart settings 2 0).tier = some u' ∧
        u'.index.value? [1] = none := by
  intro settings s
  have hvalid : settings.validate = .ok () :=
    Settings.validate_of_differ PathName.same_p_f rfl
  have hfacts : (decide s.Small, decide (s.operate .compact).Small,
      s.tier.bind Tier.compact.run', (s.restart settings 2 0).tier.map fun u => u.index.value? [1],
      ((s.operate .compact).restart settings 2 0).tier.map fun u => u.index.value? [1]) =
      (true, true, some 0, some (some [20]), some none) := by
    unfold s
    simp only [Action.perform, restart, Tier.open, hvalid]
    unfold settings
    set_option synthInstance.maxSize 512 in decide +kernel
  simp only [Prod.mk.injEq, decide_eq_true_eq] at hfacts
  obtain ⟨hsmall, hsmall', hcompacted, hkept, hlost⟩ := hfacts
  refine ⟨⟨hvalid, rfl, rfl, rfl⟩, hsmall, hsmall', ?_, Option.map_eq_some_iff.1 hkept,
    Option.map_eq_some_iff.1 hlost⟩
  obtain ⟨t, t', ht, hrun⟩ := exists_run hcompacted
  exact ⟨t, 0, t', ht, hrun, by rw [operate_of_run .compact ht rfl rfl hrun]⟩

end Site

end PersistentTier
