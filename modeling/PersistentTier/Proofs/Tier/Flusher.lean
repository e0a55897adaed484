import PersistentTier.Proofs.Tier.Calls
import PersistentTier.Proofs.Tier.Restart

/-!
# The flusher

The log is flushed in the background, between any two calls of the clients. They cannot tell: whenever
it happens, their calls have the same answers, and if the tier is closed and opened again, every key has
the same value. What does depend on it are the handles of objects and the order of commands in the file.

## Main definitions

* `Call.isClient`, `Call.Fits`: the calls of clients, with commands that can be stored
* `Call.operation?`: a call as an operation at a site

## Main results

* `Call.answers_filter`, `Call.afterAll_filter`: on a cache, flushing the log makes no difference
* `Site.Restorable.runAll`: calls of clients keep the values recoverable
* `Site.exists_answers_flushed`: flushing the log makes no difference to clients
-/

namespace PersistentTier

namespace Call

/-- Calls of clients: all but those that use the log alone. -/
def isClient : Call → Bool
  | .flushLog | .append _ | .switch => false
  | _ => true

/-- The command of a call is short enough to be stored. -/
def Fits : Call → Prop
  | .set key value => (Command.set key value).Fits
  | .del key => (Command.del key).Fits
  | .append cmd => cmd.Fits
  | _ => True

/-- On a cache, flushing the log has no answer. -/
theorem answers_filter (calls : List Call) (c : Cache) :
    answers (calls.filter (· ≠ .flushLog)) c = answers calls c := by
  induction calls generalizing c with
  | nil => rfl
  | cons call calls ih =>
    by_cases hflush : call = .flushLog
    · subst hflush
      exact ih c
    · rw [List.filter_cons_of_pos (by simpa using hflush), answers, answers, ih]

/-- **On a cache, flushing the log makes no difference.** -/
theorem afterAll_filter (calls : List Call) (c : Cache) :
    afterAll (calls.filter (· ≠ .flushLog)) c = afterAll calls c := by
  induction calls generalizing c with
  | nil => rfl
  | cons call calls ih =>
    by_cases hflush : call = .flushLog
    · subst hflush
      exact ih c
    · rw [List.filter_cons_of_pos (by simpa using hflush)]
      exact ih (call.after c)

end Call

/-! ## Calls at a site -/

namespace Site

open Tier

variable {s : Site} {t t' : Tier}

/-- An operation that begins no drain and fails. -/
theorem operate_of_error (op : Operation) {α : Type} {act : TierM α} {e : Failure}
    (ht : s.tier = some t) (hcall : op.call s.drains = do let _ ← act; return [])
    (hrest : op.rest s.drains = s.drains) (hrun : act.run t = .error e t') :
    s.operate op = { s with tier := some t' } := by
  simp only [operate, ht, hcall, EStateM.run_bind, hrun, hrest]

theorem run_answering (act : TierM (Option Answer)) (t : Tier) :
    (Tier.answering act).run t = match act.run t with
      | .error (.crash crash) t => .error (.crash crash) t
      | .error failure t => .ok (some (.failed failure)) t
      | .ok a t => .ok a t := rfl

/-- An operation that begins no drain and answers, whether it succeeds or fails. -/
theorem operate_of_answering (op : Operation) {α : Type} {act : TierM α} {answer : α → Option Answer}
    {a : Option Answer} (ht : s.tier = some t) (hcall : op.call s.drains = do let _ ← act; return [])
    (hrest : op.rest s.drains = s.drains)
    (hrun : (Tier.answering do return answer (← act)).run t = .ok a t') :
    s.operate op = { s with tier := some t' } := by
  rw [run_answering, EStateM.run_bind] at hrun
  cases hact : act.run t with
  | ok x t₁ =>
    rw [hact] at hrun
    cases hrun
    exact operate_of_run op ht hcall hrest hact
  | error e t₁ =>
    rw [hact] at hrun
    cases e with
    | crash => cases hrun
    | cause | aborted =>
      cases hrun
      exact operate_of_error op ht hcall hrest hact

/-- A call that only looks leaves the tier as it is. -/
theorem Restorable.tier_eq_of_reads (hs : s.Restorable) (ht : s.tier = some t) {α : Type}
    {act : TierM α} {answer : α → Answer} {a : Option Answer}
    (hact : ∀ (S : Snapshot) (c : Cache), S.Realizes c → ∃ b, Tier.Reads S.contents S.index act b)
    (hrun : (Tier.answering do return some (answer (← act))).run t = .ok a t') : t' = t := by
  cases hs with
  | blank => cases ht
  | @opened _ t₀ settings L tier durable shows agrees =>
    obtain rfl : t₀ = t := Option.some.inj (tier.symm.trans ht)
    obtain ⟨c, hc⟩ := shows.exists_realizes agrees
    obtain ⟨b, hreads⟩ := hact _ c hc
    have hb : act.run t₀ = .ok b t₀ := hreads t₀ shows.pool.holds rfl
    rw [run_answering, EStateM.run_bind, hb] at hrun
    cases hrun
    rfl

/-- **Calls of clients are operations in order**, or change nothing; and so is flushing the log. -/
theorem Restorable.run (hs : s.Restorable) (ht : s.tier = some t) (hdrains : s.drains = [])
    {call : Call} (hcall : call.isClient = true ∨ call = .flushLog) (hfits : call.Fits)
    {a : Option Answer} (hrun : call.run.run t = .ok a t') :
    Restorable { s with tier := some t' } := by
  -- What changes a tier is an operation; the other calls only look.
  cases call with
  | set key value =>
    rw [← operate_of_answering (.insert key value) ht rfl rfl hrun]
    exact hs.operate hfits trivial
  | get key =>
    rw [← operate_of_answering (.get key) ht rfl rfl hrun]
    exact hs.operate trivial trivial
  | del key =>
    rw [← operate_of_answering (.erase key) ht rfl rfl hrun]
    exact hs.operate hfits trivial
  | evictOne =>
    rw [← operate_of_answering .evictOne ht rfl rfl hrun]
    exact hs.operate trivial trivial
  | evictBatch count =>
    rw [← operate_of_answering (.evictBatch count) ht rfl rfl hrun]
    exact hs.operate trivial trivial
  | flushVictims =>
    rw [← operate_of_answering .flushVictims ht rfl rfl hrun]
    exact hs.operate trivial trivial
  | compact =>
    rw [← operate_of_answering .compact ht rfl rfl hrun]
    exact hs.operate trivial hdrains
  | flushLog =>
    rw [← operate_of_answering .flushLog ht rfl rfl hrun]
    exact hs.operate trivial hdrains
  | append | switch => simp [Call.isClient] at hcall
  | entries direction =>
    have hsame := hs.tier_eq_of_reads ht (fun S c hS => ⟨_, reads_entries hS direction⟩) hrun
    rwa [hsame, ← ht]
  | victimKeys =>
    have hsame := hs.tier_eq_of_reads ht (fun _ _ _ => ⟨_, reads_victimKeys _ _⟩) hrun
    rwa [hsame, ← ht]
  | dump =>
    obtain rfl : t' = t := by
      rw [Call.run, run_answering] at hrun
      cases hrun
      rfl
    rwa [← ht]

/-- **Calls of clients keep the values recoverable**, however the log is flushed in between. -/
theorem Restorable.runAll (hs : s.Restorable) (ht : s.tier = some t) (hdrains : s.drains = [])
    {calls : List Call} (hcalls : ∀ call ∈ calls, call.isClient = true ∨ call = .flushLog)
    (hfits : ∀ call ∈ calls, call.Fits) {as : List Answer}
    (hrun : (Call.runAll calls).run t = .ok as t') : Restorable { s with tier := some t' } := by
  induction calls generalizing s t as with
  | nil =>
    cases hrun
    rwa [← ht]
  | cons call calls ih =>
    -- A run that has come to its end has gone through the first call and through the others.
    rw [Call.runAll, EStateM.run_bind] at hrun
    cases hcall : call.run.run t with
    | error e t₁ =>
      rw [hcall] at hrun
      cases hrun
    | ok a t₁ =>
      rw [hcall] at hrun
      dsimp only at hrun
      rw [EStateM.run_bind] at hrun
      have hs₁ := hs.run ht hdrains (hcalls _ List.mem_cons_self) (hfits _ List.mem_cons_self) hcall
      cases hrest : (Call.runAll calls).run t₁ with
      | error e t₂ =>
        rw [hrest] at hrun
        cases hrun
      | ok as' t₂ =>
        rw [hrest] at hrun
        cases hrun
        exact ih (s := { s with tier := some t₁ }) hs₁ rfl hdrains
          (fun _ h => hcalls _ (List.mem_cons_of_mem _ h))
          (fun _ h => hfits _ (List.mem_cons_of_mem _ h)) hrest

/-- A random policy goes on with the picks that it is given. -/
theorem operate_repick (t : Tier) (picks : Picks) :
    operate { tier := some t } (.repick picks) = { tier := some { t with
      policy := match t.policy with
        | .lru => .lru
        | .random _ => .random picks } } := by
  obtain ⟨settings, pool, index, file, policy, report⟩ := t
  cases policy <;> rfl

/-- **Blank sites open a tier**, of which a random policy goes on with any picks. -/
theorem exists_repicked {settings : Settings} (hvalid : settings.validate = .ok ())
    (fresh seed : UInt64) (picks : Picks) : ∃ t c,
      (Site.restart {} settings fresh seed).operate (.repick picks) = { tier := some t } ∧
        t.Appears (fun _ => False) 0 c := by
  have hkeeps : Volume.Keeps {} 0 Contents.Regular [] := Volume.keeps_blank Contents.regular_empty
  obtain ⟨t, c₀, filed, hopen, hshows, hbudget, hc, hfiled, -⟩ :=
    hkeeps.exists_open (by decide) (fun _ h => h) (fun _ h => absurd h List.not_mem_nil) hvalid fresh seed
  have hrestart : Site.restart {} settings fresh seed = { tier := some t } := by
    have hclosed : Site.closed {} = {} := rfl
    simp only [Site.restart, hclosed, hopen]
  have hL := Ledger.agrees_restarted hc hfiled
  rw [hrestart, operate_repick]
  let policy : Policy := match t.policy with
    | .lru => .lru
    | .random _ => .random picks
  have hpolicy : policy.supportsBatches = t.policy.supportsBatches := by
    simp only [policy]
    cases t.policy <;> rfl
  have hshows' : Tier.Shows (settings.mode {}) 0 _ { t with policy := policy } :=
    { hshows with batches := hpolicy.trans hshows.batches }
  obtain ⟨c, ht⟩ := hshows'.exists_appears hL hbudget
  exact ⟨_, c, rfl, ht⟩

/-- **Flushing the log makes no difference to clients.** A tier is opened where nothing has been
written, and a random policy goes on with any picks. Calls of clients have the same answers however the
log is flushed between them, as long as there is memory; and if everything is on disk, the tier has the
same pairs after it has been closed and opened again. -/
theorem exists_answers_flushed {settings : Settings} (hvalid : settings.validate = .ok ())
    (fresh seed : UInt64) (picks : Picks) {calls : List Call}
    (hclient : ∀ call ∈ calls, call.isClient = true) (hfits : ∀ call ∈ calls, call.Fits) :
    ∃ t answers pairs,
      (Site.restart {} settings fresh seed).operate (.repick picks) = { tier := some t } ∧
        ∀ flushed : List Call, flushed.filter (· ≠ .flushLog) = calls →
          (∃ t', (Call.runAll flushed).run t = .ok answers t' ∧
            (settings.Durable → t'.Small → ∀ fresh' seed', ∃ u,
              Tier.open settings (t'.close {}) fresh' seed' = (.ok u, t'.close {}) ∧
                u.index.pairs = pairs)) ∨
          ∃ t', (Call.runAll flushed).run t = .error (.crash .outOfMemory) t' ∧
            maxSlots < t'.pool.slots.size + 5 := by
  obtain ⟨t, c, ht, hc⟩ := exists_repicked hvalid fresh seed picks
  refine ⟨t, Call.answers calls c, (Call.afterAll calls c).index.pairs, ht, ?_⟩
  rintro flushed rfl
  -- Both sides are told from the cache, where flushing makes no difference.
  rw [Call.answers_filter, Call.afterAll_filter]
  refine (hc.runAll flushed).imp_left ?_
  rintro ⟨t', hrun, hc'⟩
  refine ⟨t', hrun, fun hdurable hsmall fresh' seed' => ?_⟩
  have hmem : ∀ call ∈ flushed, call ≠ .flushLog → call ∈ flushed.filter (· ≠ .flushLog) :=
    fun call hm hne => List.mem_filter.2 ⟨hm, decide_eq_true hne⟩
  have hstart : Restorable { tier := some t } := by
    rw [← ht]
    exact (Restorable.blank.restart (by decide) hdurable fresh seed).operate trivial trivial
  have hend := hstart.runAll rfl rfl (fun call hm => ?_) (fun call hm => ?_) hrun
  · obtain ⟨u, hopen, hvalues⟩ := hend.exists_recovered rfl hsmall hdurable fresh' seed'
    exact ⟨u, hopen, (Index.pairs_congr hvalues).trans hc'.pairs_index⟩
  · by_cases hflush : call = .flushLog
    · exact .inr hflush
    · exact .inl (hclient call (hmem call hm hflush))
  · by_cases hflush : call = .flushLog
    · rw [hflush]
      trivial
    · exact hfits call (hmem call hm hflush)

/-- A key is evicted at random, before or after the write of it has reached the file. -/
theorem exists_answers_flushed_random :
    let settings : Settings :=
      { poolPath := some "p", filePath := some "f", policy := .random, maxEntries := some 1 }
    let calls : List Call := [.set [1] [10], .set [2] [20], .victimKeys]
    let flushed : List Call := [.set [1] [10], .flushLog, .set [2] [20], .victimKeys]
    ∃ t t₁ t₂ u₁ u₂ answers,
      (Site.restart {} settings 1 0).operate (.repick ⟨fun _ => 0, 0⟩) = { tier := some t } ∧
        (Call.runAll calls).run t = .ok answers t₁ ∧ (Call.runAll flushed).run t = .ok answers t₂ ∧
          Tier.open settings (t₁.close {}) 2 0 = (.ok u₁, t₁.close {}) ∧
            Tier.open settings (t₂.close {}) 2 0 = (.ok u₂, t₂.close {}) ∧
              u₁.index.pairs = u₂.index.pairs := by
  intro settings calls flushed
  have hvalid : settings.validate = .ok () :=
    Settings.validate_of_differ PathName.same_p_f rfl
  have hdurable : settings.Durable := ⟨hvalid, rfl, rfl, rfl⟩
  have hfirst : (Command.set [1] [10]).Fits := by decide
  have hsecond : (Command.set [2] [20]).Fits := by decide
  have hclient : ∀ call ∈ calls, call.isClient = true := by decide
  have hfits : ∀ call ∈ calls, call.Fits := by
    simp only [calls, List.forall_mem_cons]
    exact ⟨hfirst, hsecond, trivial, fun _ h => absurd h List.not_mem_nil⟩
  obtain ⟨t, answers, pairs, ht, hflushed⟩ :=
    Site.exists_answers_flushed hdurable.valid 1 0 ⟨fun _ => 0, 0⟩ hclient hfits
  have hsmall : ((Site.restart {} settings 1 0).operate (.repick ⟨fun _ => 0, 0⟩)).tier.map (fun t =>
      [calls, flushed].map fun run =>
        (do let _ ← Call.runAll run; return decide (← get).Small : TierM Bool).run' t) =
      some [some true, some true] := by
    unfold calls flushed
    simp only [Site.restart, Tier.open, hvalid]
    unfold settings
    decide +kernel
  rw [ht] at hsmall
  simp only [Option.map_some, List.map_cons, List.map_nil, Option.some.injEq, List.cons.injEq,
    and_true] at hsmall
  have hends : ∀ run : List Call, run.filter (· ≠ .flushLog) = calls →
      (do let _ ← Call.runAll run; return decide (← get).Small : TierM Bool).run' t = some true →
      ∃ t' u, (Call.runAll run).run t = .ok answers t' ∧
        Tier.open settings (t'.close {}) 2 0 = (.ok u, t'.close {}) ∧ u.index.pairs = pairs := by
    intro run hrun hsmall
    unfold EStateM.run' at hsmall
    rw [EStateM.run_bind] at hsmall
    obtain ⟨t', hok, hreopened⟩ | ⟨t', herror, -⟩ := hflushed run hrun
    · simp only [hok, EStateM.run_bind, EStateM.run_get, EStateM.run_pure, Option.some.injEq,
        decide_eq_true_iff] at hsmall
      obtain ⟨u, hopen, hpairs⟩ := hreopened hdurable hsmall 2 0
      exact ⟨t', u, hok, hopen, hpairs⟩
    · simp [herror] at hsmall
  obtain ⟨t₁, u₁, hrun₁, hopen₁, hpairs₁⟩ := hends calls (by decide) hsmall.1
  obtain ⟨t₂, u₂, hrun₂, hopen₂, hpairs₂⟩ := hends flushed (by decide) hsmall.2
  exact ⟨t, t₁, t₂, u₁, u₂, answers, ht, hrun₁, hrun₂, hopen₁, hopen₂, hpairs₁.trans hpairs₂.symm⟩

end Site

end PersistentTier
