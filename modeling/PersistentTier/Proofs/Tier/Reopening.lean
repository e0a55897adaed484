import PersistentTier.Proofs.AppendFile.Frames
import PersistentTier.Proofs.Pool.Durable
import PersistentTier.Proofs.Startup.Reconstruction
import PersistentTier.Proofs.Tier.Opening

/-!
# Opening twice

The first opening of a tier moves the victims and the log from the pool to the end of the file. The
next one finds them there, in the order in which they took effect before, and ends with the same
index. Whatever keys the four sources share, and whatever is logged, this is a matter of reading
records one after another: the records that were handed over count as if they had been in the file
from the beginning.

The records are taken as they are. One that is read as a command need not be its written form.

## Main definitions

* `Readable`, `Index.replay`: records, and what they do to an index
* `Contents.handed`: the records that a startup adds to the file
* `Volume.Stands`: a volume with the image of a pool that is in order and a file of records

## Main results

* `Volume.Stands.exists_open`: what opening does to such a volume
* `Volume.Stands.exists_opened_twice`: opening is idempotent
-/

namespace PersistentTier

open Replayer

/-! ## Records -/

/-- **A record that is read as a command**, and is short enough for a frame. -/
def Readable (record : Bytes) : Prop :=
  record.length < 2 ^ 32 ∧ ∃ cmd, Command.decode record = .ok cmd

theorem Command.Fits.readable {cmd : Command} (hcmd : cmd.Fits) : Readable cmd.encode :=
  ⟨hcmd, cmd, Command.decode_encode hcmd⟩

/-- What a record does to an index if it is read as a command. -/
def Index.replay (index : Index) (record : Bytes) : Index :=
  match Command.decode record with
  | .ok cmd => index.apply cmd
  | .error _ => index

theorem Index.replay_eq {record : Bytes} {cmd : Command} (h : Command.decode record = .ok cmd)
    (index : Index) : index.replay record = index.apply cmd := by
  rw [Index.replay, h]

/-- **A file of readable records** is loaded by replaying them. -/
theorem exists_readFrames {records : List Bytes} (hrecords : ∀ r ∈ records, Readable r) :
    ∃ cmds, readFrames (records.flatMap frame) = .ok cmds ∧
      ∀ index, cmds.foldl Index.apply index = records.foldl Index.replay index := by
  rw [readFrames_records fun r hr => (hrecords r hr).1]
  induction records with
  | nil => exact ⟨[], rfl, fun _ => rfl⟩
  | cons r records ih =>
    obtain ⟨-, cmd, hcmd⟩ := hrecords r List.mem_cons_self
    obtain ⟨cmds, hcmds, hfold⟩ := ih fun r' hr' => hrecords r' (List.mem_cons_of_mem _ hr')
    refine ⟨cmd :: cmds, ?_, fun index => ?_⟩
    · rw [List.mapM_cons, hcmd, hcmds]
      rfl
    · rw [List.foldl_cons, List.foldl_cons, hfold, Index.replay_eq hcmd]

/-- Victims that are laid over an index are records that are replayed. -/
theorem overlaid_eq_foldl_replay {xs : List Resident} (hxs : ∀ x ∈ xs, x.Fits) (index : Index) :
    overlaid (fun _ => none) index xs =
      (xs.map fun x => (Command.set x.key x.value).encode).foldl Index.replay index := by
  induction xs generalizing index with
  | nil => rfl
  | cons x xs ih =>
    have hx : Command.decode (Command.set x.key x.value).encode = .ok (.set x.key x.value) :=
      Command.decode_encode (hxs x List.mem_cons_self)
    rw [List.map_cons, List.foldl_cons, Index.replay_eq hx]
    exact ih (fun y hy => hxs y (List.mem_cons_of_mem _ hy)) _

/-! ## Calls that write to the file -/

namespace Replayer.Call

/-- The records that a call adds to the file. -/
def records : Call → List Bytes
  | .replay record => [record]
  | .persist key value => [(Command.set key value).encode]
  | .sync => []

/-- What a call does to the index. -/
def effect (index : Index) : Call → Index
  | .replay record => index.replay record
  | .persist _ _ | .sync => index

/-- A call whose command, if it hands one over, is read as one. -/
def IsReadable : Call → Prop
  | .replay record => Readable record
  | .persist _ _ | .sync => True

end Replayer.Call

namespace Replayer

variable (index : Index) (content pending : Bytes) (aside : Standing) (durability : Durability)
  (n : Nat)

/-- An operation on the file that succeeds leaves the index alone. -/
theorem run_aside_liftFailure {act : FileOp Unit} {f f' : AppendFile} (h : act.run f = .ok () f') :
    (Replayer.aside (liftFailure act)).run (index, f) = .ok () (index, f') := by
  simp only [Replayer.aside, liftFailure, EStateM.run] at h ⊢
  rw [h]

/-- A sync writes out what is in the buffer. -/
theorem run_sync_file : (fileReplayer.perform .sync).run
      (index, AppendFile.opened content pending aside durability n) =
    .ok () (index, AppendFile.opened (content ++ pending) [] aside durability n) :=
  run_aside_liftFailure index (AppendFile.run_sync content pending aside durability n)

/-- **A call of the replayer** adds its records to the file. -/
theorem exists_perform_file (call : Call) (hcall : call.IsReadable) : ∃ content' pending',
    content' ++ pending' = content ++ pending ++ call.records.flatMap frame ∧
      (fileReplayer.perform call).run
          (index, AppendFile.opened content pending aside durability n) =
        .ok () (call.effect index, AppendFile.opened content' pending' aside durability
          (n + call.records.length)) := by
  cases call with
  | replay record =>
    obtain ⟨-, cmd, hcmd⟩ := hcall
    obtain ⟨content', pending', -, hsame, hrun⟩ :=
      AppendFile.run_appendEncoded content pending aside durability n record
    refine ⟨content', pending', by rw [hsame]; simp [Call.records], ?_⟩
    change fileReplayer.replay record _ = _
    simp only [fileReplayer, hcmd, liftFailure, EStateM.run] at hrun ⊢
    rw [hrun, Call.effect, Index.replay_eq hcmd]
    rfl
  | persist key value =>
    obtain ⟨content', pending', -, hsame, hrun⟩ :=
      AppendFile.run_append content pending aside durability n (.set key value)
    exact ⟨content', pending', by rw [hsame]; simp [Call.records],
      run_aside_liftFailure index hrun⟩
  | sync =>
    exact ⟨content ++ pending, [], by simp [Call.records],
      run_sync_file index content pending aside durability n⟩

/-- Calls one after another. -/
theorem exists_carryOut_file {calls : List Call} (hcalls : ∀ call ∈ calls, call.IsReadable) :
    ∃ content' pending',
      content' ++ pending' = content ++ pending ++ (calls.flatMap Call.records).flatMap frame ∧
        (fileReplayer.carryOut calls).run
            (index, AppendFile.opened content pending aside durability n) =
          .ok () (calls.foldl Call.effect index, AppendFile.opened content' pending' aside durability
            (n + (calls.flatMap Call.records).length)) := by
  induction calls generalizing index content pending n with
  | nil => exact ⟨content, pending, (List.append_nil _).symm, rfl⟩
  | cons call calls ih =>
    obtain ⟨content₁, pending₁, hsame₁, hrun₁⟩ := exists_perform_file index content pending aside
      durability n call (hcalls call List.mem_cons_self)
    obtain ⟨content', pending', hsame, hrun⟩ := ih (call.effect index) content₁ pending₁
      (n + call.records.length) fun call' hcall' => hcalls call' (List.mem_cons_of_mem _ hcall')
    refine ⟨content', pending', ?_, ?_⟩
    · rw [hsame, hsame₁, List.flatMap_cons, List.flatMap_append, List.append_assoc]
    · change (fileReplayer.perform call >>= fun _ => fileReplayer.carryOut calls).run _ = _
      rw [EStateM.run_bind, hrun₁, List.flatMap_cons, List.length_append, ← Nat.add_assoc]
      exact hrun

end Replayer

/-! ## What a startup hands over -/

namespace Contents

/-- **The records that a startup adds to the file**, in their order. -/
def handed (c : Contents) : List Bytes :=
  c.victims.reverse.map (fun x => (Command.set x.key x.value).encode) ++
    ((c.log c.active.flipped).reverse ++ (c.log c.active).reverse).map Logged.command

/-- **Contents that can be handed over**: the victims as records, and the log as commands. -/
structure Handable (c : Contents) : Prop where
  victims : ∀ x ∈ c.victims, x.Fits
  log : ∀ y, ∀ z ∈ c.log y, Readable z.command

variable {c : Contents}

/-- What is left in a drained pool is handed over at once: there is nothing. -/
theorem handed_drained (c : Contents) : (Startup.drained c).handed = [] := rfl

theorem handable_drained (c : Contents) : (Startup.drained c).Handable :=
  ⟨fun _ h => absurd h List.not_mem_nil, fun _ _ h => absurd h List.not_mem_nil⟩

theorem Handable.log_of_mem (hc : c.Handable) {z : Logged}
    (hz : z ∈ (c.log c.active.flipped).reverse ++ (c.log c.active).reverse) :
    Readable z.command := by
  rcases List.mem_append.1 hz with hz | hz
  · exact hc.log _ z (List.mem_reverse.1 hz)
  · exact hc.log _ z (List.mem_reverse.1 hz)

/-- What is handed over can be read again. -/
theorem Handable.readable (hc : c.Handable) : ∀ r ∈ c.handed, Readable r := by
  intro r hr
  rcases List.mem_append.1 hr with hr | hr
  · obtain ⟨x, hx, rfl⟩ := List.mem_map.1 hr
    exact (hc.victims x (List.mem_reverse.1 hx)).readable
  · obtain ⟨z, hz, rfl⟩ := List.mem_map.1 hr
    exact hc.log_of_mem hz

/-- The calls that hand over the victims leave the index alone. -/
theorem handOver_victims (c : Contents) : (∀ call ∈ c.victimCalls, call.IsReadable) ∧
    c.victimCalls.flatMap Call.records =
      c.victims.reverse.map (fun x => (Command.set x.key x.value).encode) ∧
    ∀ index, c.victimCalls.foldl Call.effect index = index := by
  let persist : Resident → Call := fun x => .persist x.key x.value
  have hrecords : ∀ xs : List Resident, (xs.map persist).flatMap Call.records =
      xs.map fun x => (Command.set x.key x.value).encode := fun xs => by
    rw [List.flatMap_map, List.map_eq_flatMap]
    rfl
  have heffect : ∀ (xs : List Resident) (index : Index),
      (xs.map persist).foldl Call.effect index = index := fun xs index => by
    rw [List.foldl_map]
    exact List.foldl_fixed xs
  unfold victimCalls
  cases c.victims with
  | nil => exact ⟨fun _ h => absurd h List.not_mem_nil, rfl, fun _ => rfl⟩
  | cons x xs =>
    refine ⟨fun call hcall => ?_, ?_, fun index => ?_⟩
    · rcases List.mem_append.1 hcall with hcall | hcall
      · obtain ⟨y, -, rfl⟩ := List.mem_map.1 hcall
        trivial
      · obtain rfl := List.mem_singleton.1 hcall
        trivial
    · rw [List.flatMap_append, hrecords]
      exact List.append_nil _
    · rw [List.foldl_append, heffect]
      rfl

/-- **The calls of a startup**: those that a sync comes after, and the sync. -/
theorem Handable.exists_handOver_eq (hc : c.Handable) : ∃ calls, c.handOver = calls ++ [.sync] ∧
    (∀ call ∈ calls, call.IsReadable) ∧ calls.flatMap Call.records = c.handed ∧
      ∀ index, calls.foldl Call.effect (overlaid (fun _ => none) index c.victims.reverse) =
        c.handed.foldl Index.replay index := by
  let logged := (c.log c.active.flipped).reverse ++ (c.log c.active).reverse
  let replay : Logged → Call := fun z => .replay z.command
  have hreplay : ∀ index : Index, (logged.map replay).foldl Call.effect index =
      (logged.map Logged.command).foldl Index.replay index := fun index => by
    rw [List.foldl_map, List.foldl_map]
    rfl
  obtain ⟨hreadable, hrecords, heffect⟩ := c.handOver_victims
  refine ⟨c.victimCalls ++ logged.map replay, (List.append_assoc _ _ _).symm, fun call hcall => ?_,
    ?_, fun index => ?_⟩
  · rcases List.mem_append.1 hcall with hcall | hcall
    · exact hreadable call hcall
    · obtain ⟨z, hz, rfl⟩ := List.mem_map.1 hcall
      exact hc.log_of_mem hz
  · rw [List.flatMap_append, hrecords, List.flatMap_map]
    exact congrArg (_ ++ ·) List.map_eq_flatMap.symm
  · have hvictims : ∀ x ∈ c.victims.reverse, x.Fits := fun x hx =>
      hc.victims x (List.mem_reverse.1 hx)
    rw [List.foldl_append, heffect, overlaid_eq_foldl_replay hvictims, handed, List.foldl_append,
      hreplay]

/-- **Everything is handed over** to the file, and counts as if it had been there before. -/
theorem Handable.run_carryOut (hc : c.Handable) (index : Index) (content : Bytes)
    (aside : Standing) (durability : Durability) (n : Nat) :
    (fileReplayer.carryOut c.handOver).run
        (overlaid (fun _ => none) index c.victims.reverse,
          AppendFile.opened content [] aside durability n) =
      .ok () (c.handed.foldl Index.replay index, AppendFile.opened
        (content ++ c.handed.flatMap frame) [] aside durability (n + c.handed.length)) := by
  obtain ⟨calls, hcalls, hreadable, hrecords, heffect⟩ := hc.exists_handOver_eq
  obtain ⟨content₁, pending₁, hsame, hrun⟩ := exists_carryOut_file
    (overlaid (fun _ => none) index c.victims.reverse) content [] aside durability n hreadable
  rw [List.append_nil, hrecords] at hsame
  rw [heffect, hrecords] at hrun
  rw [hcalls, carryOut_append, EStateM.run_bind, hrun, carryOut_singleton, ← hsame]
  exact run_sync_file _ content₁ pending₁ aside durability _

end Contents

/-! ## Volumes -/

/-- **The place of an image** from which a pool is read. Nothing stands in its way. -/
structure Location.Images (place : Location) (p : Pool) : Prop where
  clear : place.obstacles = []
  image : ∃ bytes, place.standing = .file bytes ∧ Image.decode bytes = .ok p.toImage

/-- **The place of a file of complete records**, or of none yet. Nothing stands in its way. -/
structure Location.Records (place : Location) (records : List Bytes) : Prop where
  clear : place.obstacles = []
  content : place.standing = .file (records.flatMap frame) ∨
    (place.standing = .absent ∧ records = [])

/-- **A volume with the image of a pool that is in order** and a file of readable records. What the
pool hands over can be read as well, and the free list stays short enough to be stored once everything
has been freed. A free list that names empty slots only does so in any image that can be read. -/
structure Volume.Stands (volume : Volume) (p : Pool) (c : Contents) (records : List Bytes) :
    Prop where
  image : volume.image.Images p
  file : volume.file.Records records
  valid : p.Valid c
  room : p.stats.liveObjects + p.stats.freeSlots < 2 ^ 32
  handable : c.Handable
  readable : ∀ r ∈ records, Readable r

section Opening

variable {place : Location} {p q : Pool} {c : Contents} {records : List Bytes}
  {settings settings' : Settings} {volume : Volume}

/-- The pool is opened from its image. -/
theorem Location.Images.open_eq (hplace : place.Images p) {options : PoolOptions}
    (hd : options.durability ≠ .none) (fresh : UInt64) :
    Pool.open place options fresh = .ok (p.loaded place options) := by
  obtain ⟨bytes, hstanding, hdecode⟩ := hplace.image
  exact Pool.open_of_load (Image.load_eq hplace.clear hstanding hdecode) hd fresh

/-- Nothing stands in the way of the pool that is opened. -/
theorem Location.Images.unhindered (hplace : place.Images p) (options : PoolOptions) :
    (p.loaded place options).Unhindered := by
  obtain ⟨bytes, hstanding, -⟩ := hplace.image
  refine ⟨rfl, ?_, ?_⟩
  · rintro _ ⟨⟩
    exact hplace.clear
  · rintro _ ⟨⟩
    simp [hstanding]

/-- A file of records is opened, or created if there are none. -/
theorem Location.Records.open_eq (hplace : place.Records records) {durability : Durability}
    (hd : durability ≠ .none) : AppendFile.open place durability =
      .ok (AppendFile.opened (records.flatMap frame) [] place.aside durability 0) := by
  obtain ⟨standing, aside, obstacles⟩ := place
  obtain rfl : obstacles = [] := hplace.clear
  rcases hplace.content with h | ⟨h, rfl⟩
  · obtain rfl : standing = .file (records.flatMap frame) := h
    exact AppendFile.open_opened _ aside hd
  · obtain rfl : standing = .absent := h
    exact AppendFile.open_absent aside hd

/-- What is left of a pool that has been drained is part of it. -/
theorem Pool.Valid.heap_le_of_drained (hp : p.Valid c) (hq : q.Valid (Startup.drained c)) :
    q.heap ≤ p.heap := by
  obtain ⟨t, ht, hheap⟩ := hq.exists_heap_eq
  have hnone : ∀ y, t y = 0 := fun y => Multiset.card_eq_zero.1 (ht y).card_eq
  have hentries : q.heap = chain .entries none c.entries none := by
    rw [hheap, Contents.threadedHeap, hnone, hnone]
    simp [Startup.drained, chain]
  rw [hentries]
  exact hp.chain_le .entries

/-- What can be stored still can be once the pool has been drained. -/
theorem Pool.Valid.storable_of_drained (hp : p.Valid c) (hq : q.Valid (Startup.drained c))
    (hpq : p.Drained q) (hstorable : p.toImage.Storable)
    (hroom : p.stats.liveObjects + p.stats.freeSlots < 2 ^ 32) : q.toImage.Storable := by
  have hobjects : ∀ z ∈ p.heap, z.2.Storable := fun z hz => by
    obtain ⟨j, hj, -⟩ := mem_slotsHeap.1 hz
    exact hstorable.objects z.2 (List.mem_of_getElem? hj)
  have htally := hpq.tally
  rw [p.card_heap] at htally
  refine Pool.storable_toImage ?_ ?_ fun z hz =>
    hobjects z (Multiset.mem_of_le (hp.heap_le_of_drained hq) hz)
  · have hslots := hstorable.slots
    simpa [Pool.toImage, hpq.size] using hslots
  · simp only [Pool.stats] at hroom
    omega

/-- A pool that has been written is closed with its image in place. -/
theorem Pool.Unhindered.images_close (hq : q.Unhindered) (hsync : q.options.durability = .sync)
    (himage : q.image.isSome) (hwritten : q.image = q.written) (hstorable : q.toImage.Storable) :
    ∃ place, q.close = some place ∧ place.Images q := by
  obtain ⟨place, hplace⟩ := Option.isSome_iff_exists.1 himage
  refine ⟨place, by simp only [Pool.close, hsync, hplace], hq.clear place hplace, ?_⟩
  rw [Pool.written, hplace, Option.map_some, Option.some.injEq] at hwritten
  exact ⟨_, congrArg Location.standing hwritten, Image.decode_encode rfl hstorable⟩

/-- Where a pool was opened from does not matter for what is in it. -/
theorem Pool.Valid.loaded (hp : p.Valid c) (place : Location) (options : PoolOptions) :
    (p.loaded place options).Valid c :=
  ⟨hp.root, hp.node, hp.payloads, hp.logNode, hp.command, hp.owned, hp.live⟩

namespace Volume.Stands

/-- The pool of a volume is opened from its image. -/
theorem openPool_eq (hv : volume.Stands p c records) (hs : settings.Durable) (fresh : UInt64) :
    Tier.openPool settings volume fresh = .ok (p.loaded volume.image settings.poolOptions) := by
  obtain ⟨path, hpath⟩ := Option.isSome_iff_exists.1 hs.image
  have hd : settings.poolOptions.durability ≠ .none := by
    rw [show settings.poolOptions.durability = .sync from hs.sync]
    decide
  simp only [Tier.openPool, hpath]
  exact hv.image.open_eq hd fresh

/-- The file of a volume is opened, and nothing has been written to it. -/
theorem openFile_eq (hv : volume.Stands p c records) (hs : settings.Durable) :
    Tier.openFile settings volume =
      .ok (AppendFile.opened (records.flatMap frame) [] volume.file.aside .sync 0) := by
  obtain ⟨path, hpath⟩ := Option.isSome_iff_exists.1 hs.file
  simp only [Tier.openFile, hpath, hs.sync, hv.file.open_eq (by decide : Durability.sync ≠ .none)]
  rfl

/-- **What is left when a tier is closed** that has drained the pool of the volume and has written
what the pool handed over. -/
theorem close (hv : volume.Stands p c records) {t : Tier} {n : Nat} {place : Location}
    {options : PoolOptions} (hsync : options.durability = .sync)
    (hvalid : t.pool.Valid (Startup.drained c)) (hdrained : (p.loaded place options).Drained t.pool)
    (hwritten : t.pool.image = t.pool.written)
    (hfile : t.file =
      AppendFile.opened ((records ++ c.handed).flatMap frame) [] volume.file.aside .sync n) :
    (t.close volume).Stands t.pool (Startup.drained c) (records ++ c.handed) := by
  obtain ⟨bytes, -, hdecode⟩ := hv.image.image
  -- Draining only frees, so what could be stored before can be stored now.
  have hstorable : t.pool.toImage.Storable :=
    (hv.valid.loaded place options).storable_of_drained hvalid hdrained
      (Image.storable_of_decode hdecode) hv.room
  obtain ⟨place', hclose, hplace'⟩ := hdrained.unhindered.images_close
    (hdrained.options.symm ▸ hsync) hdrained.image hwritten hstorable
  have hclosed : t.file.close =
      some ⟨.file ((records ++ c.handed).flatMap frame), volume.file.aside, []⟩ := by
    rw [hfile, AppendFile.close_opened, List.append_nil]
  constructor
  · simp only [Tier.close, Tier.release, Option.bind_some, hclose, Option.getD_some]
    exact hplace'
  · simp only [Tier.close, Tier.release, Option.bind_some, hclosed]
    exact ⟨rfl, .inl rfl⟩
  · exact hvalid
  · have htally := hdrained.tally
    rw [Pool.card_heap, Pool.card_heap] at htally
    exact htally.trans_lt hv.room
  · exact c.handable_drained
  · intro r hr
    exact (List.mem_append.1 hr).elim (hv.readable r) (hv.handable.readable r)

/-- **Opening a volume.** The records that are handed over end up in the file and in the index, and
the volume that is left when the tier is closed has nothing more to hand over. -/
theorem exists_open (hv : volume.Stands p c records) (hs : settings.Durable)
    (fresh seed : UInt64) :
    ∃ t, Tier.open settings volume fresh seed = (.ok t, volume) ∧
      t.index = overlaid (fun x => some x.node)
        ((records ++ c.handed).foldl Index.replay Index.empty) c.entries ∧
      t.report =
        ⟨p.root.entryCount.toNat, p.root.victimCount.toNat, p.root.logCount.toNat⟩ ∧
      t.file = AppendFile.opened ((records ++ c.handed).flatMap frame) [] volume.file.aside .sync
        c.handed.length ∧
      (t.close volume).Stands t.pool (Startup.drained c) (records ++ c.handed) := by
  obtain ⟨cmds, hcmds, hindex⟩ := exists_readFrames hv.readable
  have hread : (AppendFile.opened (records.flatMap frame) [] volume.file.aside .sync 0).readAll =
      .ok cmds := (AppendFile.readAll_opened _ _ (by decide) 0).trans hcmds
  -- What is handed over counts as if it had been in the file from the beginning.
  have hreplayed : c.handed.foldl Index.replay (cmds.foldl Index.apply Index.empty) =
      (records ++ c.handed).foldl Index.replay Index.empty := by
    rw [List.foldl_append, ← hindex]
  have hcalls := hv.handable.run_carryOut (cmds.foldl Index.apply Index.empty)
    (records.flatMap frame) volume.file.aside .sync 0
  rw [← List.flatMap_append, Nat.zero_add, hreplayed] at hcalls
  obtain ⟨q, hrun, hq, hdrained, hwritten⟩ := Startup.exists_everything
    (s := ⟨p.loaded volume.image settings.poolOptions, _, _⟩) (hv.valid.loaded _ _)
    (hv.image.unhindered settings.poolOptions) hcalls
  exact ⟨_, Tier.open_eq hs.valid (hv.openPool_eq hs fresh) (hv.openFile_eq hs) hread hrun seed, rfl,
    rfl, rfl, hv.close hs.sync hq hdrained (hwritten hs.sync) rfl⟩

end Volume.Stands

/-- **Opening is idempotent.** Whatever was pending in the pool, and however its keys overlap with
those of the entry store and of the file, the second opening ends with the index of the first one. It
finds the same entries and nothing that is pending, and appends nothing to the file. -/
theorem Volume.Stands.exists_opened_twice (hv : volume.Stands p c records) (hs : settings.Durable)
    (hs' : settings'.Durable) (fresh seed fresh' seed' : UInt64) :
    ∃ t t', Tier.open settings volume fresh seed = (.ok t, volume) ∧
      Tier.open settings' (t.close volume) fresh' seed' = (.ok t', t.close volume) ∧
      t'.index = t.index ∧
      t.report =
        ⟨p.root.entryCount.toNat, p.root.victimCount.toNat, p.root.logCount.toNat⟩ ∧
      t'.report = { entries := t.report.entries, victims := 0, replayed := 0 } ∧
      t'.file = ⟨some (t.close volume).file, some {}, .sync, 0⟩ ∧
      (t'.close (t.close volume)).file = (t.close volume).file := by
  obtain ⟨t, hopen, hindex, hreport, hfile, hclosed⟩ := hv.exists_open hs fresh seed
  obtain ⟨t', hopen', hindex', hreport', hfile', -⟩ := hclosed.exists_open hs' fresh' seed'
  rw [Contents.handed_drained, List.append_nil] at hindex' hfile'
  have hplace : (t.close volume).file =
      ⟨.file ((records ++ c.handed).flatMap frame), volume.file.aside, []⟩ := by
    simp only [Tier.close, Tier.release, Option.bind_some, hfile, AppendFile.close_opened,
      List.append_nil, Option.getD_some]
  have hunwritten : t'.file = ⟨some (t.close volume).file, some {}, .sync, 0⟩ := by
    rw [hfile', hplace]
    rfl
  refine ⟨t, t', hopen, hopen', hindex'.trans hindex.symm, hreport, ?_, hunwritten, ?_⟩
  · have hentries : t.pool.root.entryCount.toNat = p.root.entryCount.toNat :=
      (hclosed.valid.recordedLength_eq .entries).trans (hv.valid.recordedLength_eq .entries).symm
    have hvictims : t.pool.root.victimCount.toNat = 0 := hclosed.valid.recordedLength_eq .victims
    have hlogged : t.pool.root.logCount.toNat = 0 := hclosed.valid.logCount_eq
    rw [hreport', hreport, hentries, hvictims, hlogged]
  · simp only [Tier.close, Tier.release, Option.bind_some, hunwritten]
    rfl

end Opening

/-! ### A volume whose sources overlap -/

/-- One pair in each chain, with a command about the victim in the older log buffer and one about the
entry in the newer. -/
def overlapping : Pool where
  id := 9
  root := {
    entryFirst := some ⟨9, 1⟩
    entryLast := some ⟨9, 1⟩
    victimFirst := some ⟨9, 4⟩
    logBufferA := some ⟨9, 7⟩
    logBufferB := some ⟨9, 9⟩
    entryCount := 1
    victimCount := 1
    logCount := 2 }
  slots := #[
    some (.entry { key := ⟨9, 2⟩, value := ⟨9, 3⟩ }), some (.payload [1]), some (.payload [10]),
    some (.entry { key := ⟨9, 5⟩, value := ⟨9, 6⟩, chain := .victims }), some (.payload [2]),
      some (.payload [20]),
    some (.log { command := ⟨9, 8⟩ }), some (.payload (Command.del [1]).encode),
    some (.log { command := ⟨9, 10⟩ }), some (.payload (Command.set [2] [21]).encode)]

/-- The lists of the pool. -/
def overlappingContents : Contents where
  entries := [⟨⟨9, 1⟩, ⟨9, 2⟩, ⟨9, 3⟩, [1], [10]⟩]
  victims := [⟨⟨9, 4⟩, ⟨9, 5⟩, ⟨9, 6⟩, [2], [20]⟩]
  log
    | .a => [⟨⟨9, 7⟩, ⟨9, 8⟩, (Command.del [1]).encode⟩]
    | .b => [⟨⟨9, 9⟩, ⟨9, 10⟩, (Command.set [2] [21]).encode⟩]

/-- A file with a command about each key, and one about a key that is nowhere else. -/
def overlappingRecords : List Bytes :=
  [Command.set [1] [11], .set [2] [22], .set [3] [33]].map Command.encode

/-- The files of the pool and of the records. -/
def overlappingVolume : Volume where
  image := { standing := .file overlapping.toImage.encode }
  file := { standing := .file (overlappingRecords.flatMap frame) }

theorem stands_overlapping :
    overlappingVolume.Stands overlapping overlappingContents overlappingRecords := by
  have hdel : (Command.del [1]).Fits := by decide
  have hset : (Command.set [2] [21]).Fits := by decide
  have hvictim : (Command.set [2] [20]).Fits := by decide
  have hfile : ∀ cmd ∈ [Command.set [1] [11], .set [2] [22], .set [3] [33]], cmd.Fits := by decide
  have hobjects : ∀ x ∈ overlapping.toImage.slots, ∀ a ∈ x, a.Storable := by decide
  have hstorable : overlapping.toImage.Storable :=
    ⟨by decide, by decide, fun a ha => hobjects _ ha a rfl⟩
  constructor
  · exact ⟨rfl, _, rfl, Image.decode_encode rfl hstorable⟩
  · exact ⟨rfl, .inl rfl⟩
  · exact Pool.valid_of_heap_eq rfl (fun y => threaded_logChain none _) rfl
  · decide
  · refine ⟨fun x hx => ?_, fun y z hz => ?_⟩
    · obtain rfl := List.mem_singleton.1 hx
      exact hvictim
    · cases y with
      | a =>
        obtain rfl := List.mem_singleton.1 hz
        exact hdel.readable
      | b =>
        obtain rfl := List.mem_singleton.1 hz
        exact hset.readable
  · intro r hr
    obtain ⟨cmd, hcmd, rfl⟩ := List.mem_map.1 hr
    exact (hfile cmd hcmd).readable

/-- The pair of the first key stays resident, and the second start changes nothing. -/
theorem exists_opened_twice_overlapping :
    let settings : Settings := { poolPath := some "p", filePath := some "f" }
    overlappingVolume.Stands overlapping overlappingContents overlappingRecords ∧
      settings.Durable ∧ ∃ t t',
        Tier.open settings overlappingVolume 1 0 = (.ok t, overlappingVolume) ∧
        Tier.open settings (t.close overlappingVolume) 2 0 = (.ok t', t.close overlappingVolume) ∧
        t'.index = t.index ∧ t.report = ⟨1, 1, 2⟩ ∧ t'.report = ⟨1, 0, 0⟩ ∧
        (t'.close (t.close overlappingVolume)).file = (t.close overlappingVolume).file := by
  intro settings
  have hvalid : settings.validate = .ok () :=
    Settings.validate_of_differ PathName.same_p_f rfl
  have hdurable : settings.Durable := ⟨hvalid, rfl, rfl, rfl⟩
  obtain ⟨t, t', hopen, hopen', hindex, hreport, hreport', -, hfile⟩ :=
    stands_overlapping.exists_opened_twice hdurable hdurable 1 0 2 0
  exact ⟨stands_overlapping, hdurable, t, t', hopen, hopen', hindex, hreport,
    hreport'.trans (by rw [hreport]; rfl), hfile⟩

end PersistentTier
