import PersistentTier.Proofs.Tier.Restart

/-!
# What becomes of a logged command

A command that is logged without being carried out takes effect at the next start, since the log is
read after everything else. If the log is flushed before that, the command goes to the file, and there
a victim that is flushed later comes behind it. So the outcome that is to be expected of a key is the
last one that is logged; or else what its node stores, if it has one; or else what the file says. Of
all the operations that leave a key alone only a flush of the log can change this, and only if the key
has a node.

## Main definitions

* `Ledger.forecast`: the outcome that is to be expected of a key
* `Site.Expects`: what is expected once a command has been logged
* `Site.Reopens`: a restart with durable settings

## Main results

* `Ledger.forecast_change`, `forecast_passes`, `forecast_restarted`: what steps make of the forecast
* `Site.outcome_reopened`: the key has the outcome after any number of restarts
-/

namespace PersistentTier

open Command

/-- The value that the node of a key stores. -/
def Index.stored? (index : Index) (key : Bytes) : Option Bytes :=
  (index.get? key).bind fun entry => entry.node.map fun _ => entry.value

namespace Ledger

/-- **The outcome that is to be expected of a key** from a restart, if the entry store does not have
it by then. -/
def forecast (L : Ledger) (key : Bytes) : Option Bytes :=
  (verdict key L.contents.logged).getD ((L.index.stored? key).or (verdict key L.filed).join)

section Forecasts

variable {L L' : Ledger} {key : Bytes} {x : Resident}

theorem Agrees.stored?_eq (hL : L.Agrees) (hx : x ∈ L.contents.pairs) :
    L.index.stored? x.key = some x.value := by
  rw [Index.stored?, (hL.resident x.key x.value x.node).2 ⟨x, hx, rfl, rfl, rfl⟩]
  rfl

theorem Agrees.stored?_eq_none (hL : L.Agrees) (hkey : key ∉ L.contents.pairs.map Resident.key) :
    L.index.stored? key = none := by
  have hnode := hL.tallies.node_eq_none hkey
  rw [Index.stored?]
  cases hindex : L.index.get? key with
  | none => rfl
  | some entry =>
    have hnone : entry.node = none := by simpa [hindex] using hnode
    simp [hnone]

/-- A command that is logged is what is expected of its key, and of no other one. -/
theorem forecast_append (L : Ledger) {cmd : Command} {z : Logged} (hcmd : cmd.Fits)
    (hz : z.command = cmd.encode) (key : Bytes) :
    ({ L with contents := L.contents.append z } : Ledger).forecast key =
      if cmd.key = key then cmd.outcome else L.forecast key := by
  simp only [forecast, L.contents.logged_append hcmd hz, verdict_append, verdict_singleton]
  split <;> rfl

/-- **Shifts leave every forecast as it is.** -/
theorem forecast_shift (hL : L.Agrees) (h : Shift L L') : L'.forecast key = L.forecast key := by
  cases h with
  | rearrange result => simp only [forecast, result.logged]
  | @tell c index filed cmds fits resident =>
    simp only [forecast, verdict_append]
    by_cases hkey : key ∈ c.pairs.map Resident.key
    -- What the file says of a key does not count while the key has a node.
    · obtain ⟨x, hx, rfl⟩ := List.mem_map.1 hkey
      have hstored : index.stored? x.key = some x.value := hL.stored?_eq hx
      rw [hstored]
      rfl
    · have hnone : verdict key cmds = none := verdict_eq_none.2 fun cmd hcmd he =>
        hkey (he ▸ resident cmd hcmd)
      rw [hnone, Option.none_or]
  | @reclaim c index filed told =>
    have hL' := hL.shift (.reclaim told)
    simp only [forecast]
    congr 1
    by_cases hvictim : key ∈ c.victims.map Resident.key
    -- The file says of a victim what its node stored.
    · obtain ⟨x, hx, rfl⟩ := List.mem_map.1 hvictim
      have hstored : index.stored? x.key = some x.value :=
        hL.stored?_eq (List.mem_append_right _ hx)
      have hgone : (cleared index c.victims).stored? x.key = none := hL'.stored?_eq_none fun hm =>
        (Contents.mem_keys_pairs _).1 hm |>.elim (fun h => hL.regular.not_victim h hvictim)
          List.not_mem_nil
      rw [hstored, hgone, told x hx]
      rfl
    · by_cases hentry : key ∈ c.entries.map Resident.key
      · obtain ⟨x, hx, rfl⟩ := List.mem_map.1 hentry
        have hbefore : index.stored? x.key = some x.value :=
          hL.stored?_eq (List.mem_append_left _ hx)
        have hafter : (cleared index c.victims).stored? x.key = some x.value :=
          hL'.stored?_eq (List.mem_append_left _ hx)
        rw [hbefore, hafter]
      · have hbefore : index.stored? key = none := hL.stored?_eq_none fun hm =>
          (c.mem_keys_pairs.1 hm).elim hentry hvictim
        have hafter : (cleared index c.victims).stored? key = none := hL'.stored?_eq_none fun hm =>
          (Contents.mem_keys_pairs _).1 hm |>.elim hentry List.not_mem_nil
        rw [hbefore, hafter]

/-- **A change leaves the forecasts of other keys as they are.** -/
theorem forecast_change {key' : Bytes} (hL : L.Agrees) (h : Change key' L L') (hne : key' ≠ key) :
    L'.forecast key = L.forecast key := by
  cases h with
  | @write c c' index filed x z fits named encoded result =>
    have hlogged := result.logged.trans (c.logged_append fits encoded)
    have hkey : x.key ≠ key := named ▸ hne
    have hother : (Command.set x.key x.value).key ≠ key := hkey
    simp only [forecast, hlogged, verdict_append, verdict_singleton, if_neg hother, Option.none_or,
      Index.stored?, Index.get?_insert, if_neg hkey]
  | @remove c c' index filed z fits encoded result =>
    have hlogged := result.logged.trans (c.logged_append fits encoded)
    have hother : (Command.del key').key ≠ key := hne
    simp only [forecast, hlogged, verdict_append, verdict_singleton, if_neg hother, Option.none_or,
      Index.stored?, Index.get?_erase, if_neg hne]
  | shift shifted => exact forecast_shift hL shifted

/-- **Once the log has passed to the file, a node comes before it.** -/
theorem forecast_passes (h : L.Passes L') (hempty : ∀ y, L'.contents.log y = []) :
    L'.forecast key = (L.index.stored? key).or (L.forecast key) := by
  have hlogged : L'.contents.logged = [] := by simp [Contents.logged, Contents.generation, hempty]
  have hfiled : L'.filed = L.filed ++ L.contents.logged := by
    rw [← h.told, hlogged, List.append_nil]
  simp only [forecast, hlogged, hfiled, h.index, verdict_append, verdict_nil, Option.getD_none]
  cases L.index.stored? key with
  | some value => rfl
  | none => cases verdict key L.contents.logged <;> rfl

/-- **A restart fulfils the forecast** of a key that is not in the entry store, and leaves it as it
is. -/
theorem forecast_restarted (hL : L.Agrees) (hkey : key ∉ L.contents.entries.map Resident.key) :
    (restarted L.contents L.filed).index.value? key = L.forecast key ∧
      (restarted L.contents L.filed).forecast key = L.forecast key := by
  have hfulfilled : (verdict key (L.filed ++ handedOver L.contents)).join = L.forecast key := by
    obtain ⟨hvictim, hother⟩ := verdict_victims hL.regular key
    rw [handedOver, ← List.append_assoc, verdict_append, verdict_append, forecast]
    cases verdict key L.contents.logged with
    | some outcome => rfl
    | none =>
      by_cases hm : key ∈ L.contents.victims.map Resident.key
      · obtain ⟨x, hx, rfl⟩ := List.mem_map.1 hm
        rw [hvictim x hx rfl, hL.stored?_eq (List.mem_append_right _ hx)]
        rfl
      · have hnone : L.index.stored? key = none := hL.stored?_eq_none fun h =>
          (L.contents.mem_keys_pairs.1 h).elim hkey hm
        rw [hother hm, hnone]
        rfl
  refine ⟨(value?_restarted_of_not_mem hkey).trans hfulfilled, ?_⟩
  have hagrees := agrees_restarted hL.regular hL.filed
  have hnone : (restarted L.contents L.filed).index.stored? key = none :=
    hagrees.stored?_eq_none fun h => hkey (by simpa [restarted, Contents.pairs] using h)
  have hlogged : (restarted L.contents L.filed).contents.logged = [] := rfl
  rw [forecast, hlogged, hnone]
  exact hfulfilled

end Forecasts

end Ledger

/-! ## Sites -/

/-- The entry store has a key. -/
def Tier.Stores (t : Tier) (key : Bytes) : Prop :=
  ∃ node ∈ t.pool.walk .entries .forward, ∃ value, t.pool.pair node = .ok (key, value)

theorem Tier.Shows.stores_iff {m : Mode} {t : Tier} {L : Ledger} (ht : t.Shows m 0 L)
    (key : Bytes) : t.Stores key ↔ key ∈ L.contents.entries.map Resident.key := by
  have hwalk : t.pool.walk .entries .forward = nodes L.contents.entries :=
    ht.pool.holds.walk_forward .entries
  have hpair : ∀ x ∈ L.contents.entries, t.pool.pair x.node = .ok (x.key, x.value) :=
    fun x hx => ht.pool.holds.pair_eq (List.mem_append_left _ hx)
  rw [Stores, hwalk]
  constructor
  · rintro ⟨node, hnode, value, hread⟩
    obtain ⟨x, hx, rfl⟩ := List.mem_map.1 hnode
    obtain ⟨rfl, rfl⟩ := Prod.mk.inj (Except.ok.inj ((hpair x hx).symm.trans hread))
    exact List.mem_map_of_mem hx
  · intro hm
    obtain ⟨x, hx, rfl⟩ := List.mem_map.1 hm
    exact ⟨x.node, List.mem_map_of_mem hx, x.value, hpair x hx⟩

/-- **An operation spares a key**: it leaves the log generations alone, and what it writes or logs is
about another key. -/
def Operation.Spares (key : Bytes) (op : Operation) : Prop :=
  (op.isQuiet = true ∧ key ∉ op.written) ∨ ∃ cmd, op = .append cmd ∧ cmd.key ≠ key

/-- Restarts are done with durable settings. -/
def Action.Durable : Action → Prop
  | .operate _ => True
  | .restart settings _ _ => settings.Durable

namespace Operation

open Ledger Tier

variable {m : Mode} {L : Ledger} {drains : List LogDrain} {op : Operation} {key : Bytes}

/-- **An operation that spares a key** leaves its forecast as it is, also one that fails. -/
theorem triple_spares (hm : m.Faulty) (hL : L.Agrees) (hfits : op.Fits) (hspares : op.Spares key) :
    Triple m (fun L' => L'.Agrees ∧ L'.forecast key = L.forecast key) 0 L (op.call drains)
      fun begun L' => begun = [] ∧ L'.Agrees ∧ L'.forecast key = L.forecast key := by
  rcases hspares with ⟨hquiet, hkey⟩ | ⟨cmd, rfl, hne⟩
  · have hleads : Leads m (fun L L' => L.Agrees → L'.Agrees ∧ L'.forecast key = L.forecast key) 0 L
        (op.call drains) fun begun _ => begun = [] :=
      leads_of_quiet hm hL hfits hquiet (fun _ _ h hL => ⟨hL.shift h, forecast_shift hL h⟩)
        fun _ hkey' _ _ h hL => ⟨hL.step (d := .quiet) (.change h),
          forecast_change hL h fun he => hkey (he ▸ hkey')⟩
    refine (hleads.triple (fun _ hL => ⟨hL, rfl⟩) fun _ _ _ h h' hL => ?_).mono
      (fun _ h => h hL) fun _ _ h => ⟨h.2, h.1 hL⟩
    exact ⟨(h' (h hL).1).1, (h' (h hL).1).2.trans (h hL).2⟩
  · refine Triple.bind (Q := fun _ L' => L'.Agrees ∧ L'.forecast key = L.forecast key)
      (fun t ht => ?_) fun _ L' h => Triple.pure ⟨rfl, h⟩
    refine (triple_appendCommand (X := fun L' => L'.Agrees ∧ L'.forecast key = L.forecast key)
      ⟨hL, rfl⟩ cmd).mono (fun _ h => h) ?_ t (ht.of_faulty hm 2)
    rintro _ _ ⟨z, -, hz, rfl⟩
    refine ⟨hL.step (d := .free) (.loosely rfl (.log ⟨cmd, hfits, hz⟩)), ?_⟩
    rw [forecast_append L hfits hz, if_neg hne]

end Operation

namespace Site

open Operation Ledger

variable {s s' : Site} {t : Tier} {key : Bytes} {outcome : Option Bytes} {settings : Settings}

/-- **What is expected of a key** once a command about it has been logged that is not carried out:
the outcome of that command, or what the node of the key stores when the log is flushed. Nothing else
is done about the key, and no write is limited while the command is logged or the log flushed. -/
inductive Expects (key : Bytes) : Site → Option Bytes → Prop
  /-- A command about the key is logged. -/
  | logged {s : Site} {t t' : Tier} {cmd : Command} {node : Handle}
      (before : s.Reachable fun _ a => a.Fits ∧ a.Durable) (ht : s.tier = some t)
      (named : cmd.key = key) (fits : cmd.Fits)
      (run : (Tier.appendCommand cmd).run t = .ok node t') :
      Expects key { s with tier := some t' } cmd.outcome
  /-- Something is done that spares the key. -/
  | spared {s : Site} {outcome : Option Bytes} {op : Operation} (before : Expects key s outcome)
      (fits : op.Fits) (spares : op.Spares key) : Expects key (s.operate op) outcome
  /-- The log is flushed. -/
  | flushed {s : Site} {t : Tier} {outcome : Option Bytes} (before : Expects key s outcome)
      (ht : s.tier = some t) (unlimited : t.pool.writeBudget = none) :
      Expects key (s.operate .flushLog) ((t.index.stored? key).or outcome)

/-- **A restart** with durable settings, of a site whose pool is small enough. -/
def Reopens (s s' : Site) : Prop :=
  s.Small ∧ ∃ settings fresh seed, settings.Durable ∧ s' = s.restart settings fresh seed

/-- **A site that foretells the outcome of a key**: the tier that is open shows a ledger with this
forecast. -/
def Foretells (s : Site) (key : Bytes) (outcome : Option Bytes) : Prop :=
  ∃ t settings L, s.tier = some t ∧ settings.Durable ∧ t.Shows (Settings.mode settings s.volume) 0 L ∧
    L.Agrees ∧ L.forecast key = outcome

/-- Every site that has only been restarted with durable settings shows a ledger of such settings. -/
theorem Reachable.exists_durable (hs : s.Reachable fun _ a => a.Fits ∧ a.Durable)
    (ht : s.tier = some t) : ∃ settings L, settings.Durable ∧
      t.Shows (Settings.mode settings s.volume) 0 L ∧ L.Agrees := by
  -- Induction on the run: an operation keeps the settings, and a restart brings its own.
  induction hs generalizing t with
  | blank => cases ht
  | @step s a before ok small ih =>
    have hsound := before.sound fun _ _ h => h.1
    cases a with
    | operate op =>
      cases htier : s.tier with
      | none =>
        rw [Action.perform, operate_of_none htier, htier] at ht
        cases ht
      | some t₀ =>
        obtain ⟨settings, L, hdurable, hshows, hL⟩ := ih htier
        obtain ⟨t', drains', L', heq, ht', hL', -⟩ :=
          exists_operate htier hshows hL ok.1 hsound.drains
        simp only [Action.perform, heq] at ht ⊢
        cases ht
        exact ⟨settings, L', hdurable, ht', hL'⟩
    | restart settings fresh seed =>
      obtain ⟨t', c, filed, heq, ht', hL⟩ :=
        hsound.exists_restart before.small ok.2.valid fresh seed
      simp only [Action.perform, heq] at ht ⊢
      cases ht
      exact ⟨settings, restarted c filed, ok.2, ht', hL⟩

theorem Foretells.operate {op : Operation} (hs : s.Foretells key outcome) (hfits : op.Fits)
    (hspares : op.Spares key) : (s.operate op).Foretells key outcome := by
  obtain ⟨t, settings, L, ht, hdurable, hshows, hL, rfl⟩ := hs
  obtain ⟨t', drains', L', heq, ht', hend⟩ := operate_of_triple ht hshows
    (triple_spares (Settings.faulty_mode _ _) hL hfits hspares)
  have hkept : L'.Agrees ∧ L'.forecast key = L.forecast key :=
    hend.elim (fun ⟨_, h, _⟩ => h.2) And.left
  rw [heq]
  exact ⟨t', settings, L', rfl, hdurable, ht', hkept⟩

/-- **A flush of the log** puts the node of the key before the command. -/
theorem Foretells.flushLog (hs : s.Foretells key outcome) (ht : s.tier = some t)
    (hbudget : t.pool.writeBudget = none) :
    (s.operate .flushLog).Foretells key ((t.index.stored? key).or outcome) := by
  obtain ⟨_, settings, L, ht', hdurable, hshows, hL, rfl⟩ := hs
  obtain rfl := Option.some.inj (ht.symm.trans ht')
  obtain ⟨count, t', L', hrun, hshows', -, hsteps, hpasses, hempty⟩ :=
    hshows.exists_ok hbudget fun m => Tier.leads_flushLog m hL
  have hcall : (Operation.flushLog.call s.drains).run t = .ok [] t' := by
    simp only [call, EStateM.run_bind, hrun]
    rfl
  simp only [Site.operate, ht, hcall]
  refine ⟨t', settings, L', rfl, hdurable, hshows', hL.handovers hsteps, ?_⟩
  rw [forecast_passes hpasses hempty, hshows.index]

/-- What is expected of a key is foretold. -/
theorem Expects.foretells (hs : s.Expects key outcome) : s.Foretells key outcome := by
  induction hs with
  | @logged s t t' cmd node before ht named fits run =>
    obtain ⟨settings, L, hdurable, hshows, hL⟩ := before.exists_durable ht
    have h := Tier.triple_appendCommand (X := fun _ => True) trivial cmd t
      (hshows.of_faulty (Settings.faulty_mode _ _) 2)
    rw [run] at h
    obtain ⟨_, ht', z, -, hz, rfl⟩ := h
    refine ⟨t', settings, _, rfl, hdurable, ht', ?_, ?_⟩
    · exact hL.step (d := .free) (.loosely rfl (.log ⟨cmd, fits, hz⟩))
    · rw [forecast_append L fits hz, if_pos named]
  | spared before fits spares ih => exact ih.operate fits spares
  | flushed before ht unlimited ih => exact ih.flushLog ht unlimited

/-- **A restart fulfils what is foretold** of a key that the entry store does not have, and it stays
foretold. -/
theorem Foretells.restart (hs : s.Foretells key outcome)
    (habsent : ∀ t, s.tier = some t → ¬ t.Stores key) (hreopens : s.Reopens s') :
    s'.Foretells key outcome ∧ ∃ t', s'.tier = some t' ∧ ¬ t'.Stores key ∧
      t'.index.value? key = outcome := by
  obtain ⟨t, settings, L, ht, hdurable, hshows, hL, rfl⟩ := hs
  obtain ⟨hsmall, settings', fresh, seed, hdurable', rfl⟩ := hreopens
  obtain ⟨himage, -⟩ := hshows.imaged ⟨hdurable.image, hdurable.sync⟩
  obtain ⟨t', hopen, ht'⟩ := exists_restarted (Restorable.closed ht hdurable hshows hL)
    (hsmall t ht himage) hL.regular hL.filed hdurable' fresh seed
  have hkey : key ∉ L.contents.entries.map Resident.key :=
    (hshows.stores_iff key).not.1 (habsent t ht)
  obtain ⟨hvalue, hforecast⟩ := forecast_restarted hL hkey
  simp only [Site.restart, hopen]
  refine ⟨⟨t', settings', _, rfl, hdurable', ht', agrees_restarted hL.regular hL.filed, hforecast⟩,
    t', rfl, (ht'.stores_iff key).not.2 hkey, ?_⟩
  rw [ht'.index, hvalue]

/-- **What is expected of a key comes true**, after one restart and after any number of them, if the
entry store does not have the key by then. -/
theorem outcome_reopened (hs : s.Expects key outcome) (ht : s.tier = some t)
    (habsent : ¬ t.Stores key) (hreopens : Relation.TransGen Reopens s s') :
    ∃ t', s'.tier = some t' ∧ t'.index.value? key = outcome := by
  have hfulfilled : s'.Foretells key outcome ∧ ∃ t', s'.tier = some t' ∧ ¬ t'.Stores key ∧
      t'.index.value? key = outcome := by
    -- A restart does not put the key into the entry store, so the next one finds it the same.
    induction hreopens with
    | single h =>
      refine hs.foretells.restart ?_ h
      rintro t' ht'
      obtain rfl := Option.some.inj (ht.symm.trans ht')
      exact habsent
    | tail _ h ih =>
      obtain ⟨hforetells, t', ht', habsent', -⟩ := ih
      refine hforetells.restart ?_ h
      rintro t'' ht''
      obtain rfl := Option.some.inj (ht'.symm.trans ht'')
      exact habsent'
  obtain ⟨-, t', ht', -, hvalue⟩ := hfulfilled
  exact ⟨t', ht', hvalue⟩

/-- A victim is flushed before the log, and the command about it holds. -/
theorem outcome_reopened_flushed :
    let settings : Settings := { poolPath := some "p", filePath := some "f" }
    let s₁ := (Action.restart settings 1 0).perform {}
    let s₂ := (Action.operate (.insert [1] [10])).perform s₁
    let s₃ := (Action.operate .evictOne).perform s₂
    let s₄ := (Action.operate (.append (.set [1] [20]))).perform s₃
    let s₅ := (Action.operate .flushVictims).perform s₄
    let s₆ := (Action.operate .flushLog).perform s₅
    s₆.Expects [1] (some [20]) ∧
      ∃ t, (s₆.restart settings 2 0).tier = some t ∧ t.index.value? [1] = some [20] := by
  intro settings s₁ s₂ s₃ s₄ s₅ s₆
  have hvalid : settings.validate = .ok () :=
    Settings.validate_of_differ PathName.same_p_f rfl
  have hdurable : settings.Durable := ⟨hvalid, rfl, rfl, rfl⟩
  have hinsert : (Command.set [1] [10]).Fits := by decide
  have happend : (Command.set [1] [20]).Fits := by decide
  have hfacts : ([s₁, s₂, s₃, s₆].all (fun s => decide s.Small),
      s₃.tier.bind (Tier.appendCommand (.set [1] [20])).run',
      s₅.tier.map (fun t => (t.pool.writeBudget, t.index.stored? [1])),
      s₆.tier.map (fun t => t.pool.walk .entries .forward)) =
      (true, some ⟨1, 7⟩, some (none, none), some []) := by
    unfold s₆ s₅ s₄ s₃ s₂ s₁
    simp only [Action.perform, restart, Tier.open, hvalid]
    unfold settings
    set_option synthInstance.maxSize 512 in decide +kernel
  simp only [Prod.mk.injEq, List.all_cons, List.all_nil, Bool.and_true, Bool.and_eq_true,
    decide_eq_true_eq] at hfacts
  obtain ⟨⟨hsmall₁, hsmall₂, hsmall₃, hsmall₆⟩, hlogged, hflushed, hentries⟩ := hfacts
  have hs₃ : s₃.Reachable fun _ a => a.Fits ∧ a.Durable :=
    .step (.step (.step .blank ⟨trivial, hdurable⟩ hsmall₁) ⟨hinsert, trivial⟩ hsmall₂)
      ⟨trivial, trivial⟩ hsmall₃
  have hs₄ : s₄.Expects [1] (some [20]) := by
    obtain ⟨t, t', ht, hrun⟩ := exists_run hlogged
    have heq : s₄ = { s₃ with tier := some t' } :=
      operate_of_run (.append (.set [1] [20])) ht rfl rfl hrun
    exact heq ▸ .logged hs₃ ht rfl happend hrun
  obtain ⟨t₅, ht₅, hfacts⟩ := Option.map_eq_some_iff.1 hflushed
  obtain ⟨hbudget, hstored⟩ := Prod.mk.inj hfacts
  have hs₆ : s₆.Expects [1] (some [20]) := by
    have hs₅ : s₅.Expects [1] (some [20]) :=
      .spared hs₄ trivial (.inl ⟨rfl, by simp [written]⟩)
    have := Expects.flushed hs₅ ht₅ hbudget
    rwa [hstored] at this
  obtain ⟨t₆, ht₆, hwalk⟩ := Option.map_eq_some_iff.1 hentries
  have habsent : ¬ t₆.Stores [1] := by
    rintro ⟨node, hnode, -⟩
    simp [hwalk] at hnode
  exact ⟨hs₆, outcome_reopened hs₆ ht₆ habsent (.single ⟨hsmall₆, settings, 2, 0, hdurable, rfl⟩)⟩

/-- A victim is flushed after the log, and then its old value comes behind the command about it. -/
theorem outcome_reopened_overtaken :
    let settings : Settings := { poolPath := some "p", filePath := some "f" }
    let s := [Operation.insert [1] [10], .evictOne, .append (.set [1] [20]), .flushLog,
      .flushVictims].foldl Site.operate ((Action.restart settings 1 0).perform {})
    settings.Durable ∧ s.Small ∧
      (∃ t, s.tier = some t ∧ t.pool.walk .entries .forward = [] ∧
        t.file.readAll = .ok [.set [1] [10], .set [1] [20], .set [1] [10]]) ∧
      ∃ t, (s.restart settings 2 0).tier = some t ∧ t.index.value? [1] = some [10] := by
  intro settings s
  have hvalid : settings.validate = .ok () :=
    Settings.validate_of_differ PathName.same_p_f rfl
  have hfacts : (decide s.Small, s.tier.map fun t => (t.pool.walk .entries .forward, t.file.readAll),
      (s.restart settings 2 0).tier.map fun t => t.index.value? [1]) =
      (true, some ([], .ok [.set [1] [10], .set [1] [20], .set [1] [10]]), some (some [10])) := by
    unfold s
    simp only [Action.perform, restart, Tier.open, hvalid]
    unfold settings
    set_option synthInstance.maxSize 512 in decide +kernel
  simp only [Prod.mk.injEq, decide_eq_true_eq] at hfacts
  obtain ⟨hsmall, hbefore, hafter⟩ := hfacts
  obtain ⟨t, ht, hfacts⟩ := Option.map_eq_some_iff.1 hbefore
  obtain ⟨hwalk, hfile⟩ := Prod.mk.inj hfacts
  exact ⟨⟨hvalid, rfl, rfl, rfl⟩, hsmall, ⟨t, ht, hwalk, hfile⟩,
    Option.map_eq_some_iff.1 hafter⟩

end Site

end PersistentTier
