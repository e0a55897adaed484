import PersistentTier.AppendFile
import PersistentTier.Proofs.Object.Stored

/-!
# The append-only file as a list of commands

What counts of the file is the list of commands whose frames it holds, those that still wait in the
writer's buffer included. Appending puts a command at the end of the list, syncing and closing leave
it alone, and replacing the file replaces it. A file without a writer swallows everything.

Nothing stands in the way of file access here: no step of it fails.

## Main definitions

* `frames`: the content of a file with given commands
* `AppendFile.Carries`: a file that holds given commands, or one that holds nothing
* `AppendFile.Gains`: a file to which commands have been appended
* `FileOp.Yields`: what an operation makes of the list of commands

## Main results

* `readFrames_append`, `readFrames_records`: frames are read one by one
* `yields_append`, `yields_sync`, `yields_compactTo`: the operations on the list
* `AppendFile.Carries.close`: what is left when the file is closed
* `AppendFile.Gains.readAll`: what a file has gained is read behind what it held
-/

namespace PersistentTier

/-! ## Frames -/

theorem ofLittleEndian_littleEndian {width n : Nat} (hn : n < 256 ^ width) :
    ofLittleEndian (littleEndian width n) = n := by
  induction width generalizing n with
  | zero => simp at hn; simp [littleEndian, ofLittleEndian, hn]
  | succ width ih =>
    have hdiv : n / 256 < 256 ^ width := by
      rw [pow_succ] at hn
      exact Nat.div_lt_of_lt_mul (by omega)
    rw [littleEndian, ofLittleEndian, ih hdiv, UInt8.toNat_ofNat']
    change n % 256 + 256 * (n / 256) = n
    exact Nat.mod_add_div n 256

/-- The content of a file with given commands. -/
def frames (cmds : List Command) : Bytes := cmds.flatMap fun c => frame c.encode

theorem frames_append (cmds more : List Command) :
    frames (cmds ++ more) = frames cmds ++ frames more := List.flatMap_append

theorem length_frame (encoded : Bytes) : (frame encoded).length = 4 + encoded.length := by
  simp [frame]

/-- More fuel than there are bytes makes no difference. -/
theorem readFramesWithin_eq {fuel fuel' : Nat} {bytes : Bytes} (h : bytes.length < fuel)
    (h' : bytes.length < fuel') : readFramesWithin fuel bytes = readFramesWithin fuel' bytes := by
  -- Each frame takes at least its length off the bytes, so both fuels outlast them.
  induction fuel generalizing fuel' bytes with
  | zero => omega
  | succ fuel ih =>
    cases fuel' with
    | zero => omega
    | succ fuel' =>
      simp only [readFramesWithin]
      cases hl : bytes.front? 4 with
      | none => rfl
      | some front =>
        obtain ⟨length, rest⟩ := front
        dsimp only
        cases hb : rest.front? (ofLittleEndian length) with
        | none => rfl
        | some body =>
          obtain ⟨encoded, rest'⟩ := body
          obtain ⟨hfour, rfl⟩ := Bytes.front?_eq_some_iff.1 hl
          obtain ⟨-, rfl⟩ := Bytes.front?_eq_some_iff.1 hb
          simp only [List.length_append] at h h'
          simp only [ih (show rest'.length < fuel by omega) (show rest'.length < fuel' by omega)]

/-- A frame at the front is read, whatever it holds. -/
theorem readFrames_frame {encoded : Bytes} (hlength : encoded.length < 2 ^ 32) (rest : Bytes) :
    readFrames (frame encoded ++ rest) =
      Command.decode encoded >>= fun c => (readFrames rest).map (c :: ·) := by
  have hwidth : ofLittleEndian (littleEndian 4 encoded.length) = encoded.length :=
    ofLittleEndian_littleEndian (by simpa using hlength)
  have hfront : (frame encoded ++ rest).front? 4 =
      some (littleEndian 4 encoded.length, encoded ++ rest) :=
    Bytes.front?_eq_some_iff.2 ⟨length_littleEndian 4 _, by simp [frame]⟩
  have hbody : (encoded ++ rest).front? encoded.length = some (encoded, rest) :=
    Bytes.front?_eq_some_iff.2 ⟨rfl, rfl⟩
  have hfuel : readFramesWithin (frame encoded ++ rest).length rest = readFrames rest :=
    readFramesWithin_eq (by simp [length_frame]) (Nat.lt_succ_self _)
  rw [readFrames, readFramesWithin]
  simp only [hfront, hwidth, hbody, hfuel]
  cases Command.decode encoded <;> cases readFrames rest <;> rfl

/-- **A file of complete records** is read by decoding each of them. -/
theorem readFrames_records {records : List Bytes} (hrecords : ∀ r ∈ records, r.length < 2 ^ 32) :
    readFrames (records.flatMap frame) = records.mapM Command.decode := by
  induction records with
  | nil => rfl
  | cons r records ih =>
    have hrest := ih fun r' hr' => hrecords r' (List.mem_cons_of_mem _ hr')
    rw [List.flatMap_cons, readFrames_frame (hrecords r List.mem_cons_self), hrest, List.mapM_cons]
    cases Command.decode r <;> cases records.mapM Command.decode <;> rfl

/-- **Frames are read one by one**, whatever comes after them. -/
theorem readFrames_append {cmds : List Command} (hcmds : ∀ c ∈ cmds, c.Fits) (rest : Bytes) :
    readFrames (frames cmds ++ rest) = (readFrames rest).map (cmds ++ ·) := by
  induction cmds with
  | nil => cases h : readFrames rest <;> simp [frames, h, Except.map]
  | cons c cmds ih =>
    have hrest := ih fun c' hc' => hcmds c' (List.mem_cons_of_mem _ hc')
    change readFrames ((frame c.encode ++ frames cmds) ++ rest) = _
    have hc := hcmds c List.mem_cons_self
    rw [List.append_assoc, readFrames_frame hc, Command.decode_encode hc, hrest]
    cases readFrames rest <;> rfl

theorem readFrames_frames {cmds : List Command} (hcmds : ∀ c ∈ cmds, c.Fits) :
    readFrames (frames cmds) = .ok cmds := by
  have := readFrames_append hcmds []
  rw [List.append_nil] at this
  rw [this]
  simp [readFrames, readFramesWithin, Bytes.front?, Except.map]

/-! ## Files -/

/-- **A place for a file** at which nothing stands in the way: a file of commands, or none yet. -/
def Location.FileReady (place : Location) (cmds : List Command) : Prop :=
  place.obstacles = [] ∧ (place.standing = .file (frames cmds) ∨
    (place.standing = .absent ∧ cmds = []))

namespace AppendFile

/-- **A file that holds commands**: those at its path, then those in the writer's buffer. A file
that is not `live` has no writer and is not read either. -/
inductive Carries : (live : Bool) → List Command → AppendFile → Prop
  | idle {place : Option Location} {durability : Durability} (cmds : List Command) (n : Nat)
      (off : place = none ∨ durability = .none) :
      Carries false cmds ⟨place, none, durability, n⟩
  | live {content pending : Bytes} {durability : Durability} {cmds : List Command}
      (aside : Standing) (n : Nat) (on : durability ≠ .none)
      (holds : content ++ pending = frames cmds) :
      Carries true cmds ⟨some ⟨.file content, aside, []⟩, some ⟨.atPath, pending⟩, durability, n⟩

end AppendFile

/-- **What an operation makes of the commands** of a file. It succeeds. -/
def FileOp.Yields {α : Type} (live : Bool) (cmds : List Command) (act : FileOp α) (a : α)
    (cmds' : List Command) : Prop :=
  ∀ f, f.Carries live cmds → ∃ f', act.run f = .ok a f' ∧ f'.Carries live cmds' ∧
    f'.durability = f.durability ∧ (live = false → f'.place = f.place)

namespace AppendFile

section Operations

variable {live : Bool} {cmds : List Command}

/-- The file of a writer, with nothing in its way. -/
abbrev opened (content pending : Bytes) (aside : Standing) (durability : Durability) (n : Nat) :
    AppendFile := ⟨some ⟨.file content, aside, []⟩, some ⟨.atPath, pending⟩, durability, n⟩

variable (content pending bytes : Bytes) (aside : Standing) (durability : Durability) (n : Nat)
  (step : FileStep)

theorem run_writeThrough :
    (writeThrough step bytes).run (opened content pending aside durability n) =
      .ok () (opened (content ++ bytes) pending aside durability n) := rfl

/-- The buffer reaches the file. -/
theorem run_flushBuffer :
    (flushBuffer step).run (opened content pending aside durability n) =
      .ok () (opened (content ++ pending) [] aside durability n) := by
  simp only [flushBuffer, EStateM.run_bind, EStateM.run_get]
  cases pending with
  | nil => simp
  | cons b pending =>
    simp only [List.isEmpty_cons, Bool.false_eq_true, if_false, EStateM.run_bind, run_writeThrough]
    rfl

/-- What is written comes after what is in the file and in the buffer. The file grows at its end
only. -/
theorem run_put : ∃ content' pending', content <+: content' ∧
    content' ++ pending' = content ++ pending ++ bytes ∧
    (put bytes).run (opened content pending aside durability n) =
      .ok () (opened content' pending' aside durability n) := by
  -- Room is made first: the buffer reaches the file if the bytes do not fit behind it.
  have hroom : ∃ content' pending', content <+: content' ∧
      content' ++ pending' = content ++ pending ∧
      (bytes.length ≥ bufferCapacity → pending' = []) ∧
      (makeRoom bytes).run (opened content pending aside durability n) =
        .ok () (opened content' pending' aside durability n) := by
    simp only [makeRoom, EStateM.run_bind, EStateM.run_get]
    split
    · exact ⟨_, _, List.prefix_append content pending, by simp, fun _ => rfl, run_flushBuffer ..⟩
    · rename_i hfits
      exact ⟨content, pending, List.prefix_rfl, rfl,
        fun h => List.eq_nil_of_length_eq_zero (by omega), rfl⟩
  obtain ⟨content', pending', hgrown, hsame, hempty, hrun⟩ := hroom
  simp only [put, EStateM.run_bind, hrun]
  split
  -- What is longer than the buffer goes straight to the file, behind an empty buffer.
  · rename_i hlong
    obtain rfl := hempty hlong
    have hlonger : content <+: content' ++ bytes := hgrown.trans (List.prefix_append content' bytes)
    exact ⟨content' ++ bytes, [], hlonger, by rw [← hsame]; simp, rfl⟩
  · exact ⟨content', pending' ++ bytes, hgrown, by rw [← List.append_assoc, hsame], rfl⟩

/-- A record that is appended comes after what is in the file and in the buffer. -/
theorem run_appendEncoded (record : Bytes) : ∃ content' pending', content <+: content' ∧
    content' ++ pending' = content ++ pending ++ frame record ∧
      (appendEncoded record).run (opened content pending aside durability n) =
        .ok () (opened content' pending' aside durability (n + 1)) := by
  -- A frame is put in two parts, its length and the record.
  obtain ⟨content₁, pending₁, hgrown₁, h₁, hput₁⟩ :=
    run_put content pending (littleEndian 4 record.length) aside durability n
  obtain ⟨content₂, pending₂, hgrown₂, h₂, hput₂⟩ :=
    run_put content₁ pending₁ record aside durability n
  have henabled : (opened content pending aside durability n).isEnabled = true := rfl
  refine ⟨content₂, pending₂, hgrown₁.trans hgrown₂, by rw [h₂, h₁, List.append_assoc]; rfl, ?_⟩
  simp only [appendEncoded, EStateM.run_bind, EStateM.run_get, henabled, if_true, hput₁, hput₂]
  rfl

/-- A command that is appended comes after what is in the file and in the buffer. -/
theorem run_append (c : Command) : ∃ content' pending', content <+: content' ∧
    content' ++ pending' = content ++ pending ++ frame c.encode ∧
      (append c).run (opened content pending aside durability n) =
        .ok () (opened content' pending' aside durability (n + 1)) :=
  run_appendEncoded content pending aside durability n c.encode

variable {live : Bool} {cmds cmds' : List Command}

/-- **A command is appended.** -/
theorem yields_append (c : Command) :
    FileOp.Yields live cmds (append c) () (cmds ++ [c]) := by
  rintro f hf
  cases hf with
  | idle _ n off => exact ⟨_, rfl, .idle _ n off, rfl, fun _ => rfl⟩
  | @live content pending durability cmds aside n on holds =>
    obtain ⟨content', pending', -, hsame, hrun⟩ := run_append content pending aside durability n c
    refine ⟨_, hrun, .live aside (n + 1) on ?_, rfl, by simp⟩
    rw [hsame, holds, frames_append]
    simp [frames]

theorem run_sync : sync.run (opened content pending aside durability n) =
    .ok () (opened (content ++ pending) [] aside durability n) := by
  have henabled : (opened content pending aside durability n).isEnabled = true := rfl
  simp only [sync, EStateM.run_bind, EStateM.run_get, henabled, if_true, run_flushBuffer]
  cases durability <;> rfl

/-- **Records that are appended and synced** come after what is in the file and in the buffer. -/
theorem run_appendRecords (records : List Bytes) :
    (do records.forM appendEncoded; sync : FileOp Unit).run
        (opened content pending aside durability n) =
      .ok () (opened (content ++ pending ++ records.flatMap frame) [] aside durability
        (n + records.length)) := by
  induction records generalizing content pending n with
  | nil =>
    rw [List.flatMap_nil, List.append_nil]
    exact run_sync content pending aside durability n
  | cons record records ih =>
    obtain ⟨content', pending', -, hsame, hrun⟩ :=
      run_appendEncoded content pending aside durability n record
    have hcons : (do (record :: records).forM appendEncoded; sync : FileOp Unit) =
        appendEncoded record >>= fun _ => (do records.forM appendEncoded; sync) :=
      bind_assoc (appendEncoded record) _ _
    rw [hcons, EStateM.run_bind, hrun]
    refine (ih content' pending' (n + 1)).trans ?_
    rw [hsame, List.flatMap_cons, List.append_assoc _ (frame record), List.length_cons,
      Nat.add_right_comm, Nat.add_assoc n]

/-- **The file is synced**, and holds what it held. -/
theorem yields_sync : FileOp.Yields live cmds sync () cmds := by
  rintro f hf
  cases hf with
  | idle _ n off => exact ⟨_, rfl, .idle _ n off, rfl, fun _ => rfl⟩
  | @live content pending durability cmds aside n on holds =>
    exact ⟨_, run_sync content pending aside durability n, .live aside n on (by simpa), rfl, by simp⟩

/-- **The file is replaced.** -/
theorem yields_compactTo (cmds' : List Command) :
    FileOp.Yields live cmds (compactTo cmds') (if live then cmds'.length else 0) cmds' := by
  rintro f hf
  cases hf with
  | @idle place durability _ n off =>
    cases place with
    | none => exact ⟨_, rfl, .idle _ n off, rfl, fun _ => rfl⟩
    | some place =>
      obtain rfl : durability = .none := off.resolve_left (by simp)
      exact ⟨_, rfl, .idle _ n off, rfl, fun _ => rfl⟩
  | @live content pending durability cmds aside n on holds =>
    refine ⟨opened (frames cmds') [] aside durability 0, ?_, .live aside 0 on (by simp), rfl, by simp⟩
    simp only [compactTo, EStateM.run_bind, EStateM.run_get, if_neg on, run_sync]
    rfl

end Operations

/-! ## Opening and closing -/

section Closing

variable {f : AppendFile} {cmds : List Command} {place : Location}

/-- What is read at a path that nothing obstructs. The writer's buffer does not count. -/
theorem readAll_opened (content : Bytes) {pending : Bytes} (aside : Standing)
    {durability : Durability} (hd : durability ≠ .none) (n : Nat) :
    (opened content pending aside durability n).readAll = readFrames content := by
  simp [readAll, hd, Location.attempt, bind, Except.bind]

theorem open_opened (content : Bytes) (aside : Standing) {durability : Durability}
    (hd : durability ≠ .none) : AppendFile.open ⟨.file content, aside, []⟩ durability =
      .ok (opened content [] aside durability 0) := by
  cases durability <;> first | rfl | exact absurd rfl hd

/-- A file that is not there is created. -/
theorem open_absent (aside : Standing) {durability : Durability} (hd : durability ≠ .none) :
    AppendFile.open ⟨.absent, aside, []⟩ durability = .ok (opened [] [] aside durability 0) := by
  cases durability <;> first | rfl | exact absurd rfl hd

/-- A file that is closed has what was in the buffer. -/
theorem close_opened (content pending : Bytes) (aside : Standing) (durability : Durability)
    (n : Nat) : (opened content pending aside durability n).close =
      some ⟨.file (content ++ pending), aside, []⟩ := by
  simp only [AppendFile.close, run_flushBuffer]

/-- **Closing leaves the commands** in the file. -/
theorem Carries.close (hf : f.Carries true cmds) :
    ∃ place, f.close = some place ∧ place.FileReady cmds := by
  cases hf with
  | @live content pending durability cmds aside n on holds =>
    exact ⟨_, close_opened content pending aside durability n, rfl,
      .inl (congrArg Standing.file holds)⟩

theorem Carries.close_idle (hf : f.Carries false cmds) : f.close = f.place := by
  cases hf with
  | idle _ n off => rfl

theorem carries_disabled (cmds : List Command) : disabled.Carries false cmds := .idle cmds 0 (.inl rfl)

theorem readAll_idle (hf : f.Carries false cmds) : f.readAll = .ok [] := by
  cases hf with
  | @idle place durability _ n off =>
    rcases off with rfl | rfl
    · rfl
    · cases place <;> rfl

/-- A file that is opened without durability is idle. -/
theorem open_none (hp : place.FileReady cmds) (more : List Command) :
    ∃ f, AppendFile.open place .none = .ok f ∧ f.Carries false more ∧ f.durability = .none ∧
      f.place = some place := by
  refine ⟨⟨some place, none, .none, 0⟩, ?_, .idle more 0 (.inr rfl), rfl, rfl⟩
  simp [AppendFile.open, Location.attempt, hp.1, bind, Except.bind, pure, Except.pure]

/-- **Opening finds the commands** of the file. -/
theorem open_live (hp : place.FileReady cmds) (hcmds : ∀ c ∈ cmds, c.Fits)
    {durability : Durability} (hd : durability ≠ .none) :
    ∃ f, AppendFile.open place durability = .ok f ∧ f.Carries true cmds ∧
      f.durability = durability ∧ f.readAll = .ok cmds := by
  obtain ⟨hclear, hstanding⟩ := hp
  obtain ⟨standing, aside, obstacles⟩ := place
  obtain rfl : obstacles = [] := hclear
  refine ⟨opened (frames cmds) [] aside durability 0, ?_, .live aside 0 hd (by simp), rfl, ?_⟩
  · rcases hstanding with rfl | ⟨rfl, rfl⟩
    · exact open_opened _ aside hd
    · exact open_absent aside hd
  · exact (readAll_opened _ aside hd 0).trans (readFrames_frames hcmds)

end Closing

/-! ## Files that gain commands -/

/-- **A file that has gained commands.** They come after everything that was written to it before, the
file has been synced, and it is the same otherwise. Without commands it has not changed. -/
def Gains (f : AppendFile) (cmds : List Command) (f' : AppendFile) : Prop :=
  if cmds = [] then f' = f
  else ∃ content pending aside durability n, f = opened content pending aside durability n ∧
    f' = opened (content ++ pending ++ frames cmds) [] aside durability (n + cmds.length)

section Gaining

variable {f f' f'' : AppendFile} {live : Bool} {filed cmds cmds' : List Command}

theorem gains_nil (f : AppendFile) : f.Gains [] f := by
  rw [Gains, if_pos rfl]

/-- **A file that is written gains** what is appended to it before it is synced. -/
theorem Carries.gains (hf : f.Carries true filed) (hne : cmds ≠ [])
    (hrun : (do (cmds.map Command.encode).forM appendEncoded; sync : FileOp Unit).run f = .ok () f') :
    f.Gains cmds f' := by
  rw [Gains, if_neg hne]
  cases hf with
  | @live content pending durability _ aside n _ _ =>
    refine ⟨content, pending, aside, durability, n, rfl, ?_⟩
    have hgained := run_appendRecords content pending aside durability n (cmds.map Command.encode)
    rw [List.flatMap_map, List.length_map] at hgained
    obtain ⟨-, rfl⟩ := EStateM.Result.ok.inj (hrun.symm.trans hgained)
    rfl

namespace Gains

/-- Commands are gained in two parts. -/
theorem trans (h : f.Gains cmds f') (h' : f'.Gains cmds' f'') : f.Gains (cmds ++ cmds') f'' := by
  unfold Gains at h h' ⊢
  -- Without commands in one of the parts, the file is the same before and after it.
  by_cases hnone : cmds = []
  · rw [if_pos hnone] at h
    obtain rfl := h
    rwa [hnone, List.nil_append]
  by_cases hnone' : cmds' = []
  · rw [if_pos hnone'] at h'
    obtain rfl := h'
    rwa [hnone', List.append_nil]
  rw [if_neg hnone] at h
  rw [if_neg hnone'] at h'
  obtain ⟨content, pending, aside, durability, n, rfl, rfl⟩ := h
  -- The first part has been synced, so the second one finds the writer's buffer empty.
  obtain ⟨_, _, _, _, _, ⟨⟩, rfl⟩ := h'
  rw [if_neg (by simp [hnone])]
  refine ⟨content, pending, aside, durability, n, rfl, ?_⟩
  simp only [List.append_nil, frames_append, List.append_assoc, List.length_append, Nat.add_assoc]

/-- **What a file has gained is read** behind what it held. -/
theorem readAll (h : f.Gains cmds f') (hne : cmds ≠ []) (hf : f.Carries live filed)
    (hfits : ∀ cmd ∈ filed ++ cmds, cmd.Fits) : f'.readAll = .ok (filed ++ cmds) := by
  rw [Gains, if_neg hne] at h
  obtain ⟨_, _, aside, _, n, rfl, rfl⟩ := h
  cases hf with
  | live _ _ on holds =>
    rw [readAll_opened _ aside on, holds, ← frames_append]
    exact readFrames_frames hfits

end Gains

/-- A file that is enabled is written. -/
theorem Carries.of_isEnabled (hf : f.Carries live filed) (henabled : f.isEnabled = true) :
    f.Carries true filed := by
  cases hf with
  | idle => cases henabled
  | live aside n on holds => exact .live aside n on holds

end Gaining

end AppendFile

namespace FileOp.Yields

variable {α β : Type} {live : Bool} {cmds cmds' cmds'' : List Command} {act : FileOp α}
  {next : α → FileOp β} {a : α} {b : β}

theorem pure (a : α) : FileOp.Yields live cmds (Pure.pure a) a cmds :=
  fun f hf => ⟨f, rfl, hf, rfl, fun _ => rfl⟩

/-- Operations one after another. -/
theorem bind (hact : FileOp.Yields live cmds act a cmds')
    (hnext : FileOp.Yields live cmds' (next a) b cmds'') :
    FileOp.Yields live cmds (act >>= next) b cmds'' := by
  intro f hf
  obtain ⟨f', hrun, hf', hd', hp'⟩ := hact f hf
  obtain ⟨f'', hrun', hf'', hd'', hp''⟩ := hnext f' hf'
  refine ⟨f'', by rw [EStateM.run_bind, hrun]; exact hrun', hf'', hd''.trans hd', fun hl => ?_⟩
  exact (hp'' hl).trans (hp' hl)

/-- Commands are appended one after another. -/
theorem forM {σ τ : Type} {write : τ → FileOp Unit} {name : σ → τ} {command : σ → Command}
    {cmds : List Command} (items : List σ)
    (hwrite : ∀ x ∈ items, write (name x) = AppendFile.append (command x)) :
    FileOp.Yields live cmds ((items.map name).forM write) () (cmds ++ items.map command) := by
  induction items generalizing cmds with
  | nil =>
    rw [List.map_nil, List.map_nil, List.append_nil]
    exact FileOp.Yields.pure ()
  | cons x items ih =>
    have hfirst : FileOp.Yields live cmds (write (name x)) () (cmds ++ [command x]) := by
      rw [hwrite x List.mem_cons_self]
      exact AppendFile.yields_append (command x)
    have hrest : FileOp.Yields live (cmds ++ [command x]) ((items.map name).forM write) ()
        (cmds ++ [command x] ++ items.map command) :=
      ih fun y hy => hwrite y (List.mem_cons_of_mem _ hy)
    rw [List.append_assoc] at hrest
    exact hfirst.bind hrest

end FileOp.Yields

end PersistentTier
