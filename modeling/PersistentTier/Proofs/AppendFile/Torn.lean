import PersistentTier.Proofs.AppendFile.Frames

/-!
# Torn files

A crash in the middle of an append leaves part of a frame at the end of the file. Reading finds every
command before that part and stops there. Opening does not cut the part off, however, so that later
frames come behind it, and their bytes are taken for the rest of the torn frame.

## Main definitions

* `Torn`: part of a frame
* `AppendFile.appendAll`: appends commands and syncs the file

## Main results

* `Torn.readFrames_eq`, `Torn.readFrames_unfilled`: a torn frame is passed over until it is filled
* `exists_whole_of_prefix`: a file cut off anywhere is whole frames and part of the next
* `AppendFile.exists_readAll_cut`: a file cut off anywhere reads as a beginning of its commands
* `AppendFile.readAll_behind_torn`: what is read once commands have been appended to a torn file
-/

namespace PersistentTier

/-- **Part of a frame**, which ends too early. -/
structure Torn (c : Command) (torn : Bytes) : Prop where
  fits : c.Fits
  part : torn <+: frame c.encode
  short : torn.length < (frame c.encode).length

/-! ## Reading what is torn -/

section Reading

variable {c : Command} {torn later : Bytes} {cs ds : List Command}

/-- A length is read from four bytes. -/
theorem readFrames_of_length_lt {bytes : Bytes} (h : bytes.length < 4) : readFrames bytes = .ok [] := by
  have hnone : bytes.front? 4 = none := Bytes.front?_eq_none_iff.2 h
  rw [readFrames, readFramesWithin]
  simp only [hnone]

/-- A frame that is announced longer than the file ends the reading. -/
theorem readFrames_of_announced {n : Nat} (hn : n < 2 ^ 32) (h : later.length < n) :
    readFrames (littleEndian 4 n ++ later) = .ok [] := by
  have hwidth : ofLittleEndian (littleEndian 4 n) = n := ofLittleEndian_littleEndian (by simpa using hn)
  have hfront : (littleEndian 4 n ++ later).front? 4 = some (littleEndian 4 n, later) :=
    Bytes.front?_eq_some_iff.2 ⟨length_littleEndian 4 n, rfl⟩
  have hnone : later.front? n = none := Bytes.front?_eq_none_iff.2 h
  rw [readFrames, readFramesWithin]
  simp only [hfront, hwidth, hnone]

/-- A part of four bytes or more begins with the length of its frame. -/
theorem Torn.announces (h : Torn c torn) (hfour : 4 ≤ torn.length) :
    ∃ part, torn = littleEndian 4 c.encode.length ++ part := by
  have hwidth : (littleEndian 4 c.encode.length).length ≤ torn.length := by simpa using hfour
  obtain ⟨part, hpart⟩ := List.prefix_of_prefix_length_le (List.prefix_append _ c.encode) h.part hwidth
  exact ⟨part, hpart.symm⟩

/-- **A torn frame is passed over until it is filled.** Whatever comes behind it is lost up to
there. -/
theorem Torn.readFrames_unfilled (h : Torn c torn) (hfour : 4 ≤ torn.length)
    (hlater : (torn ++ later).length < (frame c.encode).length) :
    readFrames (torn ++ later) = .ok [] := by
  obtain ⟨part, rfl⟩ := h.announces hfour
  rw [List.append_assoc]
  refine readFrames_of_announced h.fits ?_
  simp only [List.length_append, length_littleEndian, length_frame] at hlater ⊢
  omega

/-- **A torn frame at the end is passed over.** -/
theorem Torn.readFrames_eq (h : Torn c torn) : readFrames torn = .ok [] := by
  by_cases hfour : 4 ≤ torn.length
  · have hpassed : readFrames (torn ++ []) = .ok [] :=
      h.readFrames_unfilled hfour (by simpa using h.short)
    rwa [List.append_nil] at hpassed
  · exact readFrames_of_length_lt (Nat.lt_of_not_le hfour)

/-- **Frames that are cut off anywhere** are whole frames and part of the next one. The whole ones are
read. -/
theorem exists_whole_of_prefix {content : Bytes} (hcs : ∀ c ∈ cs, c.Fits)
    (h : content <+: frames cs) : ∃ whole rest torn, cs = whole ++ rest ∧
      content = frames whole ++ torn ∧ (torn = [] ∨ ∃ c ∈ rest.head?, Torn c torn) ∧
      readFrames content = .ok whole := by
  induction cs generalizing content with
  | nil =>
    obtain rfl : content = [] := List.prefix_nil.1 h
    exact ⟨[], [], [], rfl, rfl, .inl rfl, rfl⟩
  | cons c cs ih =>
    have hc : c.Fits := hcs c List.mem_cons_self
    have hframes : frames (c :: cs) = frame c.encode ++ frames cs := rfl
    rw [hframes] at h
    -- The cut lies within the first frame or behind it.
    by_cases hshort : content.length < (frame c.encode).length
    · have hpart : content <+: frame c.encode :=
        List.prefix_of_prefix_length_le h (List.prefix_append _ _) hshort.le
      have htorn : Torn c content := ⟨hc, hpart, hshort⟩
      exact ⟨[], c :: cs, content, rfl, rfl, .inr ⟨c, rfl, htorn⟩, htorn.readFrames_eq⟩
    · obtain ⟨later, rfl⟩ : frame c.encode <+: content :=
        List.prefix_of_prefix_length_le (List.prefix_append _ _) h (Nat.le_of_not_lt hshort)
      have hlater : later <+: frames cs := (List.prefix_append_right_inj _).1 h
      obtain ⟨whole, rest, torn, rfl, rfl, htorn, hread⟩ :=
        ih (fun c' hc' => hcs c' (List.mem_cons_of_mem _ hc')) hlater
      refine ⟨c :: whole, rest, torn, rfl, ?_, htorn, ?_⟩
      · rw [← List.append_assoc]
        rfl
      · rw [readFrames_frame hc, Command.decode_encode hc, hread]
        rfl

theorem length_frames_le_of_prefix (h : cs <+: ds) : (frames cs).length ≤ (frames ds).length := by
  obtain ⟨more, rfl⟩ := h
  rw [frames_append, List.length_append]
  exact Nat.le_add_right _ _

/-- **Frames that are cut off behind `n` bytes.** Just those commands are read whose frames end there
or before. -/
theorem exists_readFrames_take (hcs : ∀ c ∈ cs, c.Fits) (n : Nat) :
    ∃ k ≤ cs.length, readFrames ((frames cs).take n) = .ok (cs.take k) ∧
      ∀ i < cs.length, i < k ↔ (frames (cs.take (i + 1))).length ≤ n := by
  obtain ⟨whole, rest, torn, rfl, hcontent, htorn, hread⟩ :=
    exists_whole_of_prefix hcs (List.take_prefix n (frames cs))
  have hlength : min n (frames (whole ++ rest)).length = (frames whole).length + torn.length := by
    rw [← List.length_take, hcontent, List.length_append]
  refine ⟨whole.length, by simp, by rw [List.take_left]; exact hread, fun i hi => ⟨fun hk => ?_, ?_⟩⟩
  -- A command that is read: its frame is among the whole ones.
  · have hamong : (whole ++ rest).take (i + 1) <+: whole := by
      rw [List.take_append_of_le_length hk]
      exact List.take_prefix (i + 1) whole
    have hle := length_frames_le_of_prefix hamong
    omega
  -- Any other frame ends behind the torn one.
  · intro hle
    by_contra hk
    obtain ⟨c, rest, rfl⟩ : ∃ c rest', rest = c :: rest' :=
      List.exists_cons_of_length_pos (by rw [List.length_append] at hi; omega)
    have hshort : torn.length < (frame c.encode).length := by
      rcases htorn with rfl | ⟨c', hc', htorn⟩
      · rw [length_frame]
        exact Nat.add_pos_left (by decide) _
      · obtain rfl : c = c' := Option.some.inj hc'
        exact htorn.short
    have hbehind : whole ++ [c] <+: (whole ++ c :: rest).take (i + 1) := by
      rw [List.prefix_take_iff]
      exact ⟨⟨rest, by simp⟩, by simp; omega⟩
    have hnext := length_frames_le_of_prefix hbehind
    have hall := length_frames_le_of_prefix (List.take_prefix (i + 1) (whole ++ c :: rest))
    rw [frames_append, List.length_append, show frames [c] = frame c.encode from by simp [frames]] at hnext
    omega

end Reading

/-! ## Files that are cut off -/

namespace AppendFile

/-- **A file that is cut off anywhere** is opened, and reads as a beginning of its commands: just those
whose frames lie within the bytes that are left. -/
theorem exists_readAll_cut {place : Location} {durability : Durability} {cs : List Command} {n : Nat}
    (hclear : place.obstacles = []) (hplace : place.standing = .file ((frames cs).take n))
    (hd : durability ≠ .none) (hcs : ∀ c ∈ cs, c.Fits) :
    ∃ f, ∃ k ≤ cs.length, AppendFile.open place durability = .ok f ∧ f.readAll = .ok (cs.take k) ∧
      ∀ i < cs.length, i < k ↔ (frames (cs.take (i + 1))).length ≤ n := by
  obtain ⟨standing, aside, obstacles⟩ := place
  obtain rfl : obstacles = [] := hclear
  obtain rfl : standing = .file ((frames cs).take n) := hplace
  obtain ⟨k, hk, hread, hiff⟩ := exists_readFrames_take hcs n
  exact ⟨_, k, hk, open_opened _ aside hd, (readAll_opened _ aside hd 0).trans hread, hiff⟩

/-- A file that is cut off within the second of its commands. -/
theorem exists_readAll_cut_within :
    let cs : List Command := [.set [1] [10], .del [200], .set [3] []]
    let place : Location := { standing := .file ((frames cs).take 20) }
    (∀ c ∈ cs, c.Fits) ∧ (frames (cs.take 1)).length = 14 ∧ (frames (cs.take 2)).length = 27 ∧
      ∃ f, AppendFile.open place .async = .ok f ∧ f.readAll = .ok [.set [1] [10]] := by
  intro cs place
  have hcs : ∀ c ∈ cs, c.Fits := by decide
  have hfirst : (frames (cs.take 1)).length = 14 := by decide
  have hsecond : (frames (cs.take 2)).length = 27 := by decide
  have hasync : Durability.async ≠ .none := by decide
  have hplace : place.standing = .file ((frames cs).take 20) := rfl
  obtain ⟨f, k, -, hopen, hread, hiff⟩ := exists_readAll_cut rfl hplace hasync hcs
  obtain rfl : k = 1 := by
    have hread : 0 < k := (hiff 0 (by decide)).2 (hfirst.trans_le (by decide))
    have hcut : ¬ 1 < k := fun hk =>
      absurd (hsecond.symm.trans_le ((hiff 1 (by decide)).1 hk)) (by decide)
    omega
  exact ⟨hcs, hfirst, hsecond, f, hopen, hread⟩

end AppendFile

/-! ## Appending to a torn file -/

namespace AppendFile

variable {c : Command} {torn : Bytes} {cs ds : List Command} {place : Location}
  {durability : Durability}

/-- Appends commands one after another and syncs the file. -/
def appendAll (cmds : List Command) : FileOp Unit := do
  cmds.forM append
  sync

/-- Commands that are appended reach the file, whatever it holds. -/
theorem run_appendAll (cmds : List Command) (content pending : Bytes) (aside : Standing)
    (durability : Durability) (n : Nat) :
    (appendAll cmds).run (opened content pending aside durability n) =
      .ok () (opened (content ++ pending ++ frames cmds) [] aside durability (n + cmds.length)) := by
  have hforM : cmds.forM append = (cmds.map Command.encode).forM appendEncoded :=
    (List.forM_map (f := appendEncoded) (g := Command.encode) (l := cmds)).symm
  have hencoded : appendAll cmds = (do (cmds.map Command.encode).forM appendEncoded; sync) :=
    congrArg (· >>= fun _ => sync) hforM
  rw [hencoded, run_appendRecords, List.flatMap_map, List.length_map]
  rfl

/-- **Appending to a torn file.** The new frames come behind the torn one. The commands before it are
read, and the new ones if and only if they are read with the torn frame in front of them: so it is if
there is no torn frame or no new one, but so long as the new frames do not fill the torn one, they
are lost. -/
theorem readAll_behind_torn (hclear : place.obstacles = [])
    (hplace : place.standing = .file (frames cs ++ torn)) (hd : durability ≠ .none)
    (hcs : ∀ c ∈ cs, c.Fits) (hds : ∀ c ∈ ds, c.Fits) (htorn : Torn c torn) :
    ∃ f f' place', AppendFile.open place durability = .ok f ∧
      (appendAll ds).run f = .ok () f' ∧ f'.place = some place' ∧
      (∀ d ≠ .none, ∃ f'', AppendFile.open place' d = .ok f'' ∧ f''.readAll = f'.readAll) ∧
      f'.readAll = (readFrames (torn ++ frames ds)).map (cs ++ ·) ∧
      (f'.readAll = .ok (cs ++ ds) ↔ readFrames (torn ++ frames ds) = .ok ds) ∧
      (torn = [] ∨ ds = [] → f'.readAll = .ok (cs ++ ds)) ∧
      (4 ≤ torn.length → (torn ++ frames ds).length < (frame c.encode).length →
        f'.readAll = .ok cs) := by
  obtain ⟨standing, aside, obstacles⟩ := place
  obtain rfl : obstacles = [] := hclear
  obtain rfl : standing = .file (frames cs ++ torn) := hplace
  have hrun := run_appendAll ds (frames cs ++ torn) [] aside durability 0
  rw [List.append_nil] at hrun
  -- Whoever opens the file then reads the same.
  have hread : ∀ d ≠ Durability.none, ∀ n,
      (opened (frames cs ++ torn ++ frames ds) [] aside d n).readAll =
        (readFrames (torn ++ frames ds)).map (cs ++ ·) := by
    intro d hd' n
    rw [readAll_opened _ aside hd', List.append_assoc]
    exact readFrames_append hcs _
  refine ⟨_, _, _, open_opened _ aside hd, hrun, rfl, fun d hd' => ?_, hread _ hd _, ?_, ?_,
    fun hfour hlength => ?_⟩
  · exact ⟨_, open_opened _ aside hd', (hread d hd' 0).trans (hread _ hd _).symm⟩
  · rw [hread _ hd]
    cases hlater : readFrames (torn ++ frames ds) <;> simp [Except.map]
  · rw [hread _ hd]
    rintro (rfl | rfl)
    · rw [List.nil_append, readFrames_frames hds]
      rfl
    · rw [show frames [] = [] from rfl, List.append_nil, htorn.readFrames_eq]
      rfl
  · rw [hread _ hd, htorn.readFrames_unfilled hfour hlength]
    exact congrArg Except.ok (List.append_nil cs)

/-- A command is lost behind the length of a longer frame. -/
theorem readAll_behind_length :
    let lost := Command.set [2] (List.replicate 20 0)
    let torn := littleEndian 4 lost.encode.length
    let place : Location := { standing := .file (frames [.set [1] [10]] ++ torn) }
    ∃ f f', AppendFile.open place .sync = .ok f ∧
      (appendAll [.set [3] [30]]).run f = .ok () f' ∧ f'.readAll = .ok [.set [1] [10]] ∧
      Torn lost torn := by
  intro lost torn place
  have htorn : Torn lost torn := ⟨by decide, by decide, by decide⟩
  have hplace : place.standing = .file (frames [.set [1] [10]] ++ torn) := rfl
  have hsync : Durability.sync ≠ .none := by decide
  have hlater : ∀ c ∈ [Command.set [3] [30]], c.Fits := by decide
  obtain ⟨f, f', -, hopen, hrun, -, -, -, -, -, hlost⟩ :=
    readAll_behind_torn rfl hplace hsync (by decide) hlater htorn
  exact ⟨f, f', hopen, hrun, hlost (by decide) (by decide), htorn⟩

/-- One byte of a frame is enough to lose the command that is appended behind it. -/
theorem readAll_behind_byte :
    let place : Location := { standing := .file (frames [.set [1] [10]] ++ [10]) }
    Torn (.set [2] [20]) [10] ∧
      ∃ f f', AppendFile.open place .sync = .ok f ∧
        (appendAll [.set [3] [30]]).run f = .ok () f' ∧
        f'.readAll = .ok [.set [1] [10]] ∧ f'.readAll ≠ .ok [.set [1] [10], .set [3] [30]] := by
  intro place
  have hbyte : Torn (.set [2] [20]) [10] := ⟨by decide, by decide, by decide⟩
  have hfound : readFrames (frames [.set [1] [10]] ++ [10] ++ frames [.set [3] [30]]) =
      .ok [.set [1] [10]] := rfl
  exact ⟨hbyte, _, _, rfl, rfl, hfound, fun h => absurd (hfound.symm.trans h) (by decide)⟩

end AppendFile

end PersistentTier
