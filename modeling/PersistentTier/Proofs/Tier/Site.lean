import PersistentTier.Proofs.Chain.Integrity
import PersistentTier.Proofs.Tier.Commands
import PersistentTier.Proofs.Tier.Opening

/-!
# Sites

A site is a volume, the tier that is open on it and the drains that its users have begun. Users
restart the tier with whatever settings, call its operations in any order, and complete or give up
their drains; at any time the writes of the pool may be limited, so that operations fail anywhere.

## Main definitions

* `Site`, `Operation`, `Action`: what users see of a tier, and what they do
* `Site.Reachable`: the sites that permitted actions lead to
* `Site.Sound`: what holds of every site
* `Tier.Indexes`, `Tier.Succeeds`: an index that matches the pool, and operations that do not fail

## Main results

* `Operation.leads`: every operation leads through steps
* `Site.Sound.operate`, `Site.Sound.restart`: every action keeps a site sound
* `Site.indexed_iff_resident`: index and pool agree
-/

namespace PersistentTier

open Ledger

/-- **A site**: a volume, the tier that is open on it, if one is, and the drains that are held. -/
structure Site where
  volume : Volume := {}
  tier : Option Tier := none
  drains : List LogDrain := []

/-- **What is done with an open tier.** -/
inductive Operation
  | insert (key value : Bytes)
  | get (key : Bytes)
  | erase (key : Bytes)
  | append (cmd : Command)
  | switch
  | clear
  | beginDrain
  /-- The drain at a position is completed. -/
  | completeDrain (i : Nat)
  /-- The drain at a position is given up. -/
  | forgetDrain (i : Nat)
  | flushLog
  | evictOne
  | evictBatch (count : Nat)
  | flushVictims
  | compact
  | checkpoint
  /-- From now on so many writes succeed before one fails, or none fails. -/
  | limit (budget : Option Nat)
  /-- The random policy goes on with other picks. -/
  | repick (picks : Picks)

/-- **What is done at a site.** -/
inductive Action
  | operate (op : Operation)
  /-- The tier is closed, if one is open, and opened again. -/
  | restart (settings : Settings) (fresh seed : UInt64)

/-! ## Operations -/

namespace Operation

/-- The call of the tier that an operation is, given the drains that are held. Returns the drains
that have begun. -/
def call (drains : List LogDrain) : Operation → TierM (List LogDrain)
  | .insert key value => do
    Tier.insert key value
    return []
  | .get key => do
    let _ ← Tier.get? key
    return []
  | .erase key => do
    let _ ← Tier.erase key
    return []
  | .append cmd => do
    let _ ← Tier.appendCommand cmd
    return []
  | .switch => do
    let _ ← Tier.switchBuffers
    return []
  | .clear => do
    let _ ← Tier.clearCurrentBuffer
    return []
  | .beginDrain => return [← Tier.beginDrain]
  | .completeDrain i =>
    match drains[i]? with
    | none => return []
    | some drain => do
      let _ ← Tier.completeDrain drain
      return []
  | .forgetDrain _ => return []
  | .flushLog => do
    let _ ← Tier.flushLog
    return []
  | .evictOne => do
    let _ ← Tier.evictOne
    return []
  | .evictBatch count => do
    let _ ← Tier.evictBatch count
    return []
  | .flushVictims => do
    let _ ← Tier.flushVictims
    return []
  | .compact => do
    let _ ← Tier.compact
    return []
  | .checkpoint => do
    Tier.checkpoint
    return []
  | .limit budget => do
    modify fun t => { t with pool := { t.pool with writeBudget := budget } }
    return []
  | .repick picks => do
    let t ← MonadState.get
    match t.policy with
    | .lru => return []
    | .random _ => do
      set { t with policy := .random picks }
      return []

/-- The drains that are left, of those that were held. A drain can be completed only once. -/
def rest (drains : List LogDrain) : Operation → List LogDrain
  | .completeDrain i | .forgetDrain i => drains.eraseIdx i
  | _ => drains

/-- The commands of an operation are short enough to be stored. -/
def Fits : Operation → Prop
  | .insert key value => (Command.set key value).Fits
  | .erase key => (Command.del key).Fits
  | .append cmd => cmd.Fits
  | _ => True

/-- Whether an operation leaves the log generations alone but for appending to the current one. -/
def isQuiet : Operation → Bool
  | .append _ | .switch | .clear | .beginDrain | .completeDrain _ | .flushLog | .compact => false
  | _ => true

/-- The key that an operation writes or removes. -/
def written : Operation → Option Bytes
  | .insert key _ | .erase key => some key
  | _ => none

end Operation

/-! ## Actions -/

namespace Site

/-- The volume after the tier has been closed. -/
def closed (s : Site) : Volume :=
  match s.tier with
  | some t => t.close s.volume
  | none => s.volume

/-- The site after a restart. -/
def restart (s : Site) (settings : Settings) (fresh seed : UInt64) : Site :=
  match Tier.open settings s.closed fresh seed with
  | (.ok t, volume) => { s with volume := volume, tier := some t }
  | (.error _, volume) => { s with volume := volume, tier := none }

/-- The site after an operation. A failed one leaves the tier as far as it got. -/
def operate (s : Site) (op : Operation) : Site :=
  match s.tier with
  | none => s
  | some t =>
    match (op.call s.drains).run t with
    | .ok begun t => { s with tier := some t, drains := begun ++ op.rest s.drains }
    | .error _ t => { s with tier := some t, drains := op.rest s.drains }

/-- The pool is small enough for its image to be read back. -/
def Small (s : Site) : Prop := ∀ t ∈ s.tier, t.Small

instance (s : Site) : Decidable s.Small := inferInstanceAs (Decidable (∀ t ∈ s.tier, t.Small))

end Site

/-- The site after an action. -/
def Action.perform (s : Site) : Action → Site
  | .operate op => s.operate op
  | .restart settings fresh seed => s.restart settings fresh seed

/-- The commands of an action are short enough to be stored. -/
def Action.Fits : Action → Prop
  | .operate op => op.Fits
  | .restart .. => True

/-- **The sites that permitted actions lead to**, from a blank one on, so long as pools are small. -/
inductive Site.Reachable (permitted : Site → Action → Prop) : Site → Prop
  | blank : Site.Reachable permitted {}
  | step {s : Site} {a : Action} (before : s.Reachable permitted) (ok : permitted s a)
      (small : (a.perform s).Small) : Site.Reachable permitted (a.perform s)

theorem Site.Reachable.small {permitted : Site → Action → Prop} {s : Site}
    (hs : s.Reachable permitted) : s.Small := by
  cases hs with
  | blank => exact fun t ht => by cases ht
  | step before ok small => exact small

/-! ## What operations make of a ledger -/

/-- A drain of commands that are short enough to be stored. -/
def LogDrain.Encoded (drain : LogDrain) : Prop :=
  ∃ cmds : List Command, (∀ cmd ∈ cmds, cmd.Fits) ∧ drain.commands = cmds.map Command.encode

theorem LogDrain.Matches.encoded {drain : LogDrain} {c : Contents} (hdrain : drain.Matches c)
    (hc : c.Regular) : drain.Encoded := ⟨_, fun _ hcmd => hc.fits_of_mem hcmd, hdrain.commands⟩

/-- A pool whose writes are limited keeps what it kept. -/
theorem Pool.Keeps.limit {p : Pool} {c : Contents} (hp : p.Keeps c) (budget : Option Nat) :
    Pool.Keeps { p with writeBudget := budget } c where
  holds := ⟨hp.holds.root, hp.holds.heap, hp.holds.vacant.of_slots fun _ _ => rfl⟩
  stored := hp.stored

namespace Operation

open Tier

variable {α : Type} {m : Mode} {S : Ledger → Ledger → Prop} {room : Nat} {L : Ledger}
  {drains : List LogDrain} {op : Operation}

/-- A call that begins no drain. -/
theorem leads_plain {act : TierM α} {Q : α → Ledger → Prop} (hm : m.Faulty)
    (hact : Leads m S room L act Q) :
    Leads m S 0 L (do let _ ← act; return []) fun (begun : List LogDrain) _ => begun = [] :=
  (hact.of_faulty hm).bind fun _ _ _ _ => Leads.pure rfl

/-- **Quiet operations** shift pairs, and change the key that they write. -/
theorem leads_of_quiet (hm : m.Faulty) (hL : L.Agrees) (hfits : op.Fits)
    (hquiet : op.isQuiet = true) (hshift : ∀ L L', Shift L L' → S L L')
    (hchange : ∀ key ∈ op.written, ∀ L L', Change key L L' → S L L') :
    Leads m S 0 L (op.call drains) fun begun _ => begun = [] := by
  -- The operations that are not quiet are excluded at the end.
  cases op with
  | insert key value => exact leads_plain hm ((leads_insert m hL hfits).embed (hchange key rfl))
  | get key => exact leads_plain hm ((leads_get? m hL key).embed hshift)
  | erase key => exact leads_plain hm ((leads_erase m hL hfits).embed (hchange key rfl))
  | forgetDrain i => exact Leads.pure rfl
  | evictOne => exact leads_plain hm ((leads_evictOne m L).embed hshift)
  | evictBatch count => exact leads_plain hm ((leads_evictBatch (.inr hm) L count).embed hshift)
  | flushVictims => exact leads_plain hm ((leads_flushVictims m hL).embed hshift)
  | checkpoint => exact leads_plain hm (leads_checkpoint m hL)
  | limit budget =>
    have hable : ∀ q : Pool, q.Able m.fails 0 := fun _ => ⟨.inl (hm _), .inl (hm _)⟩
    exact fun t ht => ⟨L, { ht with pool := ht.pool.limit budget, able := hable _ }, .refl, rfl⟩
  | repick picks =>
    refine Leads.get fun t ht => ?_
    cases hpolicy : t.policy with
    | lru => exact Leads.pure rfl
    | random _ =>
      have hbatches : (Policy.random picks).supportsBatches = m.batches := by
        rw [← ht.batches, hpolicy]
        rfl
      exact fun _ _ => ⟨L, { ht with batches := hbatches }, .refl, rfl⟩
  | append | switch | clear | beginDrain | completeDrain | flushLog | compact => cases hquiet

/-- Quiet operations lead through steps of any discipline. -/
theorem steps_of_quiet (hm : m.Faulty) (d : Discipline) (hL : L.Agrees) (hfits : op.Fits)
    (hquiet : op.isQuiet = true) :
    Leads m (Step d) 0 L (op.call drains) fun begun _ => begun = [] :=
  leads_of_quiet hm hL hfits hquiet (fun _ _ h => h.step d) fun _ _ _ _ h => .change h

/-- **Every operation leads through steps**, whatever drains are held. -/
theorem leads (hm : m.Faulty) (hL : L.Agrees) (hfits : op.Fits)
    (hdrains : ∀ drain ∈ drains, drain.Encoded) :
    Leads m (Step .free) 0 L (op.call drains) fun begun _ => ∀ drain ∈ begun, drain.Encoded := by
  have hhand : ∀ L L', Handover L L' → Step .free L L' := fun _ _ h => .handOver (by simp) h
  have hplain : ∀ {act : TierM (List LogDrain)},
      Leads m (Step .free) 0 L act (fun begun _ => begun = []) →
      Leads m (Step .free) 0 L act fun begun _ => ∀ drain ∈ begun, drain.Encoded :=
    fun hact => hact.mono fun _ _ _ he => by simp [he]
  by_cases hquiet : op.isQuiet = true
  · exact hplain (steps_of_quiet hm .free hL hfits hquiet)
  -- What is left touches the log or the file, and it may begin a drain.
  cases op with
  | append cmd =>
    exact hplain (leads_plain hm (leads_appendCommand fun z hz =>
      .loosely rfl (.log ⟨cmd, hfits, hz⟩)))
  | switch => exact hplain (leads_plain hm (leads_switch (.loosely rfl .switch)))
  | clear => exact hplain (leads_plain hm (leads_clearRole .current (.loosely rfl (.clear _))))
  | beginDrain =>
    refine ((leads_beginDrain m hL).embed hhand).bind fun drain L' hsteps hdrain => Leads.pure ?_
    rintro _ (_ | ⟨_, ⟨⟩⟩)
    exact hdrain.1.encoded (hL.steps hsteps).regular
  | completeDrain i =>
    refine hplain ?_
    simp only [call]
    split
    · exact Leads.pure rfl
    · rename_i drain hi
      obtain ⟨cmds, hcmds, hcommands⟩ := hdrains drain (List.mem_of_getElem? hi)
      exact leads_plain hm (leads_completeDrain hcommands (.inl hm)
        (fun _ => .loosely rfl (.file hcmds)) fun _ => .loosely rfl (.clear _))
  | flushLog => exact hplain (leads_plain hm ((leads_flushLog m hL).embed hhand))
  | compact =>
    exact hplain (leads_plain hm (leads_compact m hL hhand fun _ h => .compact (by simp) h))
  | _ => exact absurd rfl hquiet

theorem mem_of_mem_rest {drain : LogDrain} (h : drain ∈ op.rest drains) : drain ∈ drains := by
  cases op with
  | completeDrain i | forgetDrain i => exact List.mem_of_mem_eraseIdx h
  | _ => exact h

end Operation

/-! ## What actions make of a site -/

namespace Site

open Operation

variable {s : Site} {t : Tier} {m : Tier.Mode} {L : Ledger} {X : Ledger → Prop}
  {Q : List LogDrain → Ledger → Prop} {op : Operation}

/-- Without a tier nothing is done. -/
theorem operate_of_none (ht : s.tier = none) (op : Operation) : s.operate op = s := by
  simp only [operate, ht]

/-- A call that returns something has been run on the tier that is open. -/
theorem exists_run {α : Type} {act : TierM α} {a : α} (h : s.tier.bind act.run' = some a) :
    ∃ t t', s.tier = some t ∧ act.run t = .ok a t' := by
  obtain ⟨t, ht, hreturned⟩ := Option.bind_eq_some_iff.1 h
  unfold EStateM.run' at hreturned
  cases hrun : act.run t with
  | ok b t' =>
    simp only [hrun, Option.some.injEq] at hreturned
    exact ⟨t, t', ht, hreturned ▸ hrun⟩
  | error e t' => simp [hrun] at hreturned

/-- An operation that begins no drain and succeeds. -/
theorem operate_of_run (op : Operation) {α : Type} {act : TierM α} {a : α} {t' : Tier}
    (ht : s.tier = some t) (hcall : op.call s.drains = do let _ ← act; return [])
    (hrest : op.rest s.drains = s.drains) (hrun : act.run t = .ok a t') :
    s.operate op = { s with tier := some t' } := by
  simp only [operate, ht, hcall, EStateM.run_bind, hrun, EStateM.run_pure, hrest, List.nil_append]

/-- **An operation with a triple** leaves a tier that shows a ledger, and the drains that are held. -/
theorem operate_of_triple (ht : s.tier = some t) (hshows : t.Shows m 0 L)
    (hcall : Tier.Triple m X 0 L (op.call s.drains) Q) :
    ∃ t' drains' L', s.operate op = { s with tier := some t', drains := drains' } ∧
      t'.Shows m 0 L' ∧ ((∃ begun, Q begun L' ∧ drains' = begun ++ op.rest s.drains) ∨
        (X L' ∧ drains' = op.rest s.drains)) := by
  have h := hcall t hshows
  simp only [operate, ht]
  split at h
  · rename_i begun t' hrun
    obtain ⟨L', ht', hQ⟩ := h
    simp only [hrun]
    exact ⟨t', _, L', rfl, ht', .inl ⟨begun, hQ, rfl⟩⟩
  · rename_i e t' hrun
    obtain ⟨-, L', ht', hX⟩ := h
    simp only [hrun]
    exact ⟨t', _, L', rfl, ht', .inr ⟨hX, rfl⟩⟩

/-- **A sound site**: a tier can be opened on its volume, and the one that is open shows a ledger in
which index and pool agree. -/
structure Sound (s : Site) : Prop where
  volume : s.volume.Sound
  tier : ∀ t, s.tier = some t → ∃ settings L,
    t.Shows (Settings.mode settings s.volume) 0 L ∧ L.Agrees
  drains : ∀ drain ∈ s.drains, drain.Encoded

theorem sound_blank : Sound {} :=
  ⟨Volume.sound_blank, by simp, by simp⟩

/-- **An operation leaves a tier** that shows a ledger in which index and pool agree, and drains of
commands. -/
theorem exists_operate {settings : Settings} (ht : s.tier = some t)
    (hshows : t.Shows (settings.mode s.volume) 0 L) (hL : L.Agrees) (hfits : op.Fits)
    (hdrains : ∀ drain ∈ s.drains, drain.Encoded) :
    ∃ t' drains' L', s.operate op = { s with tier := some t', drains := drains' } ∧
      t'.Shows (settings.mode s.volume) 0 L' ∧ L'.Agrees ∧ ∀ drain ∈ drains', drain.Encoded := by
  obtain ⟨t', drains', L', heq, ht', hend⟩ :=
    operate_of_triple ht hshows (leads (Settings.faulty_mode _ _) hL hfits hdrains)
  have hrest : ∀ drain ∈ op.rest s.drains, drain.Encoded := fun drain h =>
    hdrains drain (mem_of_mem_rest h)
  have hsteps : Steps .free L L' := hend.elim (fun ⟨_, h, _⟩ => h.1) And.left
  refine ⟨t', drains', L', heq, ht', hL.steps hsteps, fun drain hdrain => ?_⟩
  rcases hend with ⟨begun, ⟨-, hbegun⟩, rfl⟩ | ⟨-, rfl⟩
  · exact (List.mem_append.1 hdrain).elim (hbegun drain) (hrest drain)
  · exact hrest drain hdrain

/-- **Every operation keeps a site sound.** -/
theorem Sound.operate (hs : s.Sound) (hfits : op.Fits) : (s.operate op).Sound := by
  cases ht : s.tier with
  | none => rwa [operate_of_none ht]
  | some t =>
    obtain ⟨settings, L, hshows, hL⟩ := hs.tier t ht
    obtain ⟨t', drains', L', heq, ht', hL', hdrains⟩ := exists_operate ht hshows hL hfits hs.drains
    rw [heq]
    refine ⟨hs.volume, ?_, hdrains⟩
    rintro _ ⟨⟩
    exact ⟨settings, L', ht', hL'⟩

/-- A sound site leaves a sound volume when it is closed. -/
theorem Sound.closed (hs : s.Sound) (hsmall : s.Small) : s.closed.Sound := by
  unfold Site.closed
  split
  · rename_i t ht
    obtain ⟨settings, L, hshows, hL⟩ := hs.tier t ht
    exact hshows.sound_close hL hs.volume (hsmall t ht)
  · exact hs.volume

/-- Settings that are refused leave no tier open. -/
theorem restart_invalid {settings : Settings} {fault : SettingsFault}
    (hinvalid : settings.validate = .error fault) (fresh seed : UInt64) :
    s.restart settings fresh seed = { s with volume := s.closed, tier := none } := by
  simp only [restart, Tier.open, hinvalid]

/-- **Settings that are accepted** open a tier, which shows the ledger of a restart. -/
theorem Sound.exists_restart (hs : s.Sound) (hsmall : s.Small) {settings : Settings}
    (hvalid : settings.validate = .ok ()) (fresh seed : UInt64) : ∃ t c filed,
      s.restart settings fresh seed = { s with volume := s.closed, tier := some t } ∧
      t.Shows (settings.mode s.closed) 0 (restarted c filed) ∧ (restarted c filed).Agrees := by
  obtain ⟨bound, cmds, hkeeps, hbound, hcmds⟩ := hs.closed hsmall
  obtain ⟨t, c, filed, hopen, ht, -, hc, hfiled, -⟩ :=
    hkeeps.exists_open hbound (fun _ h => h) hcmds hvalid fresh seed
  exact ⟨t, c, filed, by simp only [restart, hopen], ht, agrees_restarted hc hfiled⟩

/-- **Every restart keeps a site sound**, also one that is refused. -/
theorem Sound.restart (hs : s.Sound) (hsmall : s.Small) (settings : Settings)
    (fresh seed : UInt64) : (s.restart settings fresh seed).Sound := by
  have hclosed := hs.closed hsmall
  cases hvalid : settings.validate with
  | error fault =>
    rw [restart_invalid hvalid]
    exact ⟨hclosed, by simp, hs.drains⟩
  | ok =>
    obtain ⟨t, c, filed, heq, ht, hL⟩ := hs.exists_restart hsmall hvalid fresh seed
    rw [heq]
    refine ⟨hclosed, ?_, hs.drains⟩
    rintro _ ⟨⟩
    exact ⟨settings, restarted c filed, ht, hL⟩

/-- **Every site is sound.** -/
theorem Reachable.sound {permitted : Site → Action → Prop}
    (hpermitted : ∀ s a, permitted s a → a.Fits) (hs : s.Reachable permitted) : s.Sound := by
  -- Every action keeps a site sound, one that fails as well.
  induction hs with
  | blank => exact sound_blank
  | @step s a before ok small ih =>
    cases a with
    | operate op => exact ih.operate (hpermitted s _ ok)
    | restart settings fresh seed => exact ih.restart before.small settings fresh seed

end Site

/-! ## Agreement of index and pool -/

namespace Tier

/-- **The index matches the nodes** that are resident: it holds a value and a node for a key if and
only if the node is resident and stores that key with that value. -/
structure Indexes (t : Tier) (resident : List Handle) : Prop where
  iff_resident : ∀ key value node, t.index.get? key = some { value, node := some node } ↔
    node ∈ resident ∧ t.pool.pair node = .ok (key, value)
  /-- Every node is indexed. -/
  exists_indexed : ∀ node ∈ resident, ∃ key value,
    t.index.get? key = some { value, node := some node }
  /-- No key is stored in two nodes. -/
  unique : ∀ node ∈ resident, ∀ node' ∈ resident, ∀ key value value',
    t.pool.pair node = .ok (key, value) → t.pool.pair node' = .ok (key, value') → node = node'

/-- **An operation succeeds**, unless it needs `room` slots that there is no memory for. Then the
process crashes, and no error is returned. -/
def Completes {α : Type} (t : Tier) (room : Nat) (act : TierM α) : Prop :=
  (∃ a t', act.run t = .ok a t') ∨
    (maxSlots < t.pool.slots.size + room ∧ ∃ t', act.run t = .error (.crash .outOfMemory) t')

/-- **The operations on a key and an eviction succeed**, and a key is looked up in the index. -/
structure Succeeds (t : Tier) : Prop where
  insert : ∀ key value, (Command.set key value).Fits → t.Completes 5 (insert key value)
  get? : ∀ key, ∃ t', (get? key).run t = .ok (t.index.value? key) t'
  erase : ∀ key, (Command.del key).Fits → t.Completes 2 (erase key)
  evictOne : ∃ key t', evictOne.run t = .ok key t'

variable {t : Tier} {m : Mode} {L : Ledger}

/-- A tier that shows a ledger in which index and pool agree. -/
theorem Shows.indexes (ht : t.Shows m 0 L) (hL : L.Agrees) :
    t.Indexes (nodes L.contents.entries ++ nodes L.contents.victims) := by
  have hmem : ∀ node, node ∈ nodes L.contents.entries ++ nodes L.contents.victims ↔
      ∃ x ∈ L.contents.pairs, x.node = node := by
    intro node
    rw [← List.map_append]
    exact List.mem_map
  have hpair : ∀ x ∈ L.contents.pairs, t.pool.pair x.node = .ok (x.key, x.value) :=
    fun x hx => ht.pool.holds.pair_eq hx
  -- An entry of the index and its node determine each other, since each node has one pair.
  have hindexed : ∀ key value node, t.index.get? key = some { value, node := some node } ↔
      node ∈ nodes L.contents.entries ++ nodes L.contents.victims ∧
        t.pool.pair node = .ok (key, value) := by
    intro key value node
    rw [ht.index, hL.resident, hmem]
    constructor
    · rintro ⟨x, hx, rfl, rfl, rfl⟩
      exact ⟨⟨x, hx, rfl⟩, hpair x hx⟩
    · rintro ⟨⟨x, hx, rfl⟩, h⟩
      obtain ⟨rfl, rfl⟩ := Prod.mk.inj (Except.ok.inj ((hpair x hx).symm.trans h))
      exact ⟨x, hx, rfl, rfl, rfl⟩
  refine ⟨hindexed, fun node hnode => ?_, ?_⟩
  · obtain ⟨x, hx, rfl⟩ := (hmem node).1 hnode
    exact ⟨x.key, x.value, (hindexed _ _ _).2 ⟨hnode, hpair x hx⟩⟩
  · intro node hnode node' hnode' key value value' h h'
    have hget := (hindexed key value node).2 ⟨hnode, h⟩
    have hget' := (hindexed key value' node').2 ⟨hnode', h'⟩
    rw [hget, Option.some.injEq, IndexEntry.mk.injEq, Option.some.injEq] at hget'
    exact hget'.2

/-- A tier whose writes are not limited, in a mode that permits other failures. -/
theorem Shows.withFails (ht : t.Shows m 0 L) (hbudget : t.pool.writeBudget = none)
    {fails : Failure → Prop} {room : Nat}
    (hroom : fails (.crash .outOfMemory) ∨ t.pool.slots.size + room ≤ maxSlots) :
    t.Shows { m with fails := fails } room L :=
  ⟨⟨ht.pool, ht.index, ht.file, ht.place, ht.imaged⟩, ht.batches, .inr hbudget, hroom⟩

/-- **What needs no room succeeds** if writes are not limited. -/
theorem Shows.exists_ok {α : Type} {act : TierM α} {S : Ledger → Ledger → Prop}
    {Q : α → Ledger → Prop} (ht : t.Shows m 0 L) (hbudget : t.pool.writeBudget = none)
    (hact : ∀ m : Mode, Leads m S 0 L act Q) :
    ∃ a t' L', act.run t = .ok a t' ∧ t'.Shows m 0 L' ∧ t'.pool.writeBudget = none ∧
      Relation.ReflTransGen S L L' ∧ Q a L' := by
  have hshows : t.Shows { m with fails := fun _ => False } 0 L :=
    ht.withFails hbudget (.inr t.pool.size_le)
  have h := hact _ t hshows
  split at h
  · rename_i a t' hrun
    obtain ⟨L', ht', hsteps, hQ⟩ := h
    have hbudget' := ht'.able.unlimited.resolve_left id
    exact ⟨a, t', L', hrun, ht'.withFails hbudget' (.inr t'.pool.size_le), hbudget', hsteps, hQ⟩
  · exact h.1.elim

/-- What leads through steps succeeds if writes are not limited and there is room. -/
theorem Shows.completes {α : Type} {act : TierM α} {Q : α → Ledger → Prop} {room : Nat}
    (ht : t.Shows m 0 L) (hbudget : t.pool.writeBudget = none)
    {S : Ledger → Ledger → Prop} (hact : ∀ m : Mode, Leads m S room L act Q) :
    t.Completes room act := by
  by_cases hroom : t.pool.slots.size + room ≤ maxSlots
  · have hshows : t.Shows { m with fails := fun _ => False } room L :=
      ht.withFails hbudget (.inr hroom)
    rcases (hact _).ok_or_error hshows with ⟨a, t', -, hrun, -⟩ | ⟨_, _, -, hfalse⟩
    · exact .inl ⟨a, t', hrun⟩
    · exact hfalse.elim
  · -- Without room, the only failure is that memory runs out.
    have hshows : t.Shows { m with fails := (· = .crash .outOfMemory) } room L :=
      ht.withFails hbudget (.inl rfl)
    rcases (hact _).ok_or_error hshows with ⟨a, t', -, hrun, -⟩ | ⟨_, t', hrun, rfl⟩
    · exact .inl ⟨a, t', hrun⟩
    · exact .inr ⟨Nat.lt_of_not_le hroom, t', hrun⟩

/-- A tier whose writes are not limited. -/
theorem Shows.succeeds (ht : t.Shows m 0 L) (hL : L.Agrees)
    (hbudget : t.pool.writeBudget = none) : t.Succeeds := by
  refine ⟨fun key value hfits => ?_, fun key => ?_, fun key hfits => ?_, ?_⟩
  · exact ht.completes hbudget fun m => leads_insert m hL hfits
  · obtain ⟨_, t', _, hrun, -, -, -, rfl⟩ := ht.exists_ok hbudget fun m => leads_get? m hL key
    exact ⟨t', by rw [hrun, ht.index]⟩
  · exact ht.completes hbudget fun m => leads_erase m hL hfits
  · obtain ⟨key, t', _, hrun, -⟩ := ht.exists_ok hbudget fun m => leads_evictOne m L
    exact ⟨key, t', hrun⟩

end Tier

/-- **Index and pool agree**, whatever has happened at a site: the index matches the nodes of the
entry store and of the victim pipeline. While writes are not limited, the operations on a key and an
eviction succeed. -/
theorem Site.indexed_iff_resident {s : Site} {t : Tier} (hs : s.Reachable fun _ a => a.Fits)
    (ht : s.tier = some t) :
    (∃ entries victims a b, t.pool.Intact entries victims a b ∧ t.Indexes (entries ++ victims)) ∧
      (t.pool.writeBudget = none → t.Succeeds) := by
  obtain ⟨settings, L, hshows, hL⟩ := (hs.sound fun _ _ h => h).tier t ht
  exact ⟨⟨_, _, _, _, hshows.pool.holds.intact, hshows.indexes hL⟩, hshows.succeeds hL⟩

/-- One key is evicted for another, and a third write is aborted. -/
theorem Site.indexed_iff_resident_aborted :
    let s₁ := (Action.restart { maxEntries := some 1 } 1 0).perform {}
    let s₂ := (Action.operate (.insert [1] [10])).perform s₁
    let s₃ := (Action.operate (.insert [2] [20])).perform s₂
    let s₄ := (Action.operate (.limit (some 3))).perform s₃
    let s₅ := (Action.operate (.insert [3] [30])).perform s₄
    ∃ t, s₅.tier = some t ∧ t.index.pairs = [([1], [10]), ([2], [20])] ∧
      (∃ entries victims a b,
        t.pool.Intact entries victims a b ∧ t.Indexes (entries ++ victims)) ∧ t.Succeeds := by
  intro s₁ s₂ s₃ s₄ s₅
  have hfirst : (Command.set [1] [10]).Fits := by decide
  have hsecond : (Command.set [2] [20]).Fits := by decide
  have hthird : (Command.set [3] [30]).Fits := by decide
  have hs₂ : s₂.Reachable fun _ a => a.Fits :=
    .step (.step .blank trivial (by decide +kernel)) hfirst (by decide +kernel)
  have hs₄ : s₄.Reachable fun _ a => a.Fits :=
    .step (.step hs₂ hsecond (by decide +kernel)) trivial (by decide +kernel)
  have hs₅ : s₅.Reachable fun _ a => a.Fits := .step hs₄ hthird (by decide +kernel)
  have hfacts : s₅.tier.map (fun t => (t.index.pairs, t.pool.writeBudget)) =
      some ([([1], [10]), ([2], [20])], none) := by decide +kernel
  obtain ⟨t, ht, hfacts⟩ := Option.map_eq_some_iff.1 hfacts
  obtain ⟨hpairs, hbudget⟩ := Prod.mk.inj hfacts
  obtain ⟨hagree, hsucceeds⟩ := Site.indexed_iff_resident hs₅ ht
  exact ⟨t, ht, hpairs, hagree, hsucceeds hbudget⟩

end PersistentTier
