import PersistentTier.Command
import PersistentTier.Pool.Image
import PersistentTier.Proofs.MessagePack.Extent
import PersistentTier.Proofs.MessagePack.Truncated

/-!
# Stored objects, images and commands are read back

Every record, object, image and command is read back from its stored form, provided its byte strings
and lists have lengths below `2 ^ 32`, which is what an array header can say.

## Main definitions

* `Object.Storable`, `Command.Storable`, `Image.Storable`: what is short enough to be stored

## Main results

* `Object.writes`, `Root.writes`: objects and roots
* `Image.decode_encode`: an image is read back from its stored form
* `Image.storable_of_decode`: an image that is read can be stored again
* `Command.decode_encode`: a command is read back from its encoded form
-/

namespace PersistentTier

open MessagePack

/-! ## Objects -/

theorem Handle.writes (h : Handle) : Writes 1 Handle.decoder h.encode h := by
  have hbody : ∀ room, 0 ≤ room → Runs ((List.range 2).foldlM Handle.schema.step ⟨0, 0⟩) room
      (writeWord h.pool ++ writeWord h.offset) h := by
    intro room hr
    refine .field (fun w => ⟨w, 0⟩) rfl ((writes_word h.pool).runs hr) ?_
    exact .lastField (fun w => ⟨h.pool, w⟩) rfl ((writes_word h.offset).runs hr) rfl
  have := writes_record rfl (by decide) hbody
  rwa [← List.append_assoc] at this

theorem runs_optionHandle (h : Option Handle) {room : Nat} (hr : 1 ≤ room) :
    Runs (read (option Handle.decoder)) room (writeOption Handle.encode h) h :=
  runs_option (fun h _ => h.writes) hr

theorem Buffer.writes (x : Buffer) : Writes 0 Buffer.decoder x.encode x := by
  have hposition : ∃ i, Writes 0 (unitVariant Buffer.names) x.encode i ∧
      (if i = 0 then Buffer.a else Buffer.b) = x := by
    cases x with
    | a => exact ⟨0, writes_unitVariant (by decide) rfl, rfl⟩
    | b => exact ⟨1, writes_unitVariant (by decide) rfl, rfl⟩
  obtain ⟨i, ⟨h, tail, hne, hh, hd⟩, hx⟩ := hposition
  exact ⟨h, tail, hne, hh, fun room hr => hx ▸ (hd room hr).map _⟩

theorem ChainKind.writes (x : ChainKind) : Writes 0 ChainKind.decoder x.encode x := by
  have hposition : ∃ i, Writes 0 (unitVariant ChainKind.names) x.encode i ∧
      (if i = 0 then ChainKind.entries else ChainKind.victims) = x := by
    cases x with
    | entries => exact ⟨0, writes_unitVariant (by decide) rfl, rfl⟩
    | victims => exact ⟨1, writes_unitVariant (by decide) rfl, rfl⟩
  obtain ⟨i, ⟨h, tail, hne, hh, hd⟩, hx⟩ := hposition
  exact ⟨h, tail, hne, hh, fun room hr => hx ▸ (hd room hr).map _⟩

theorem Root.writes (r : Root) : Writes 2 Root.decoder r.encode r := by
  have hbody : ∀ room, 1 ≤ room → Runs ((List.range 9).foldlM Root.schema.step {}) room
      (writeOption Handle.encode r.entryFirst ++ (writeOption Handle.encode r.entryLast ++
        (writeOption Handle.encode r.victimFirst ++ (writeOption Handle.encode r.logBufferA ++
          (writeOption Handle.encode r.logBufferB ++ (r.activeBuffer.encode ++
            (writeWord r.entryCount ++ (writeWord r.victimCount ++ writeWord r.logCount)))))))) r := by
    -- Field by field: what has been read so far, and the blank record for the rest.
    intro room hr
    have hword : ∀ w, Runs (read word) room (writeWord w) w :=
      fun w => (writes_word w).runs (Nat.zero_le _)
    refine .field (fun x => { entryFirst := x }) rfl (runs_optionHandle r.entryFirst hr) ?_
    refine .field (fun x => { entryFirst := r.entryFirst, entryLast := x }) rfl
      (runs_optionHandle r.entryLast hr) ?_
    refine .field (fun x => { entryFirst := r.entryFirst, entryLast := r.entryLast,
                              victimFirst := x }) rfl (runs_optionHandle r.victimFirst hr) ?_
    refine .field (fun x => { r with logBufferA := x, logBufferB := none, activeBuffer := .a,
                                     entryCount := 0, victimCount := 0, logCount := 0 }) rfl
      (runs_optionHandle r.logBufferA hr) ?_
    refine .field (fun x => { r with logBufferB := x, activeBuffer := .a, entryCount := 0,
                                     victimCount := 0, logCount := 0 }) rfl
      (runs_optionHandle r.logBufferB hr) ?_
    refine .field (fun x => { r with activeBuffer := x, entryCount := 0, victimCount := 0,
                                     logCount := 0 }) rfl
      (r.activeBuffer.writes.runs (Nat.zero_le _)) ?_
    refine .field (fun x => { r with entryCount := x, victimCount := 0, logCount := 0 }) rfl
      (hword r.entryCount) ?_
    refine .field (fun x => { r with victimCount := x, logCount := 0 }) rfl (hword r.victimCount) ?_
    exact .lastField (fun x => { r with logCount := x }) rfl (hword r.logCount) rfl
  have := writes_record rfl (by decide) hbody
  simp only [← List.append_assoc] at this
  exact this

theorem EntryNode.writes (e : EntryNode) : Writes 2 EntryNode.decoder e.encode e := by
  have hbody : ∀ room, 1 ≤ room →
      Runs ((List.range 5).foldlM EntryNode.schema.step { key := ⟨0, 0⟩, value := ⟨0, 0⟩ }) room
        (e.key.encode ++ (e.value.encode ++ (writeOption Handle.encode e.next ++
          (writeOption Handle.encode e.prev ++ e.chain.encode)))) e := by
    intro room hr
    refine .field (fun x => { key := x, value := ⟨0, 0⟩ }) rfl (e.key.writes.runs hr) ?_
    refine .field (fun x => { key := e.key, value := x }) rfl (e.value.writes.runs hr) ?_
    refine .field (fun x => { key := e.key, value := e.value, next := x }) rfl
      (runs_optionHandle e.next hr) ?_
    refine .field (fun x => { key := e.key, value := e.value, next := e.next, prev := x }) rfl
      (runs_optionHandle e.prev hr) ?_
    exact .lastField (fun x => { e with chain := x }) rfl (e.chain.writes.runs (Nat.zero_le _)) rfl
  have := writes_record rfl (by decide) hbody
  simp only [← List.append_assoc] at this
  exact this

theorem LogNode.writes (n : LogNode) : Writes 2 LogNode.decoder n.encode n := by
  have hbody : ∀ room, 1 ≤ room →
      Runs ((List.range 3).foldlM LogNode.schema.step { command := ⟨0, 0⟩ }) room
        (n.command.encode ++ (writeOption Handle.encode n.next ++
          writeOption Handle.encode n.prev)) n := by
    intro room hr
    refine .field (fun x => { command := x }) rfl (n.command.writes.runs hr) ?_
    refine .field (fun x => { command := n.command, next := x }) rfl
      (runs_optionHandle n.next hr) ?_
    exact .lastField (fun x => { n with prev := x }) rfl (runs_optionHandle n.prev hr) rfl
  have := writes_record rfl (by decide) hbody
  simp only [← List.append_assoc] at this
  exact this

/-- An object whose byte string, if it has one, is short enough to be stored. -/
def Object.Storable : Object → Prop
  | .payload bytes => bytes.length < 2 ^ 32
  | _ => True

instance : DecidablePred Object.Storable
  | .payload bytes => inferInstanceAs (Decidable (bytes.length < 2 ^ 32))
  | .entry _ | .log _ => inferInstanceAs (Decidable True)

/-- What follows the name of an object's kind. -/
def Object.content : Nat → Reader Object
  | 0 => do return .entry (← read EntryNode.decoder)
  | 1 => do return .log (← read LogNode.decoder)
  | _ => do return .payload (← read octets)

theorem Object.decoder_eq : Object.decoder = fun h => (do content (← dataVariant Object.names h)) := by
  funext h
  refine congrArg (dataVariant Object.names h >>= ·) (funext fun i => ?_)
  rcases i with _ | _ | i <;> rfl

/-- **A storable object is read back.** -/
theorem Object.writes {a : Object} (ha : a.Storable) : Writes 2 Object.decoder a.encode a := by
  rw [Object.decoder_eq]
  cases a with
  | entry e => exact writes_tagged (by decide) rfl fun room hr => (e.writes.runs hr).map _
  | log n => exact writes_tagged (by decide) rfl fun room hr => (n.writes.runs hr).map _
  | payload bytes =>
    refine writes_tagged (by decide) rfl fun room hr => ?_
    exact ((writes_octets ha).runs (show 1 ≤ room by omega)).map _

/-- **An object that is read can be stored.** -/
theorem Object.finds (h : Head) : Finds (Object.decoder h) Object.Storable := by
  rw [Object.decoder_eq]
  refine .after fun i => ?_
  rcases i with _ | _ | i
  · exact .after fun _ => .pure trivial
  · exact .after fun _ => .pure trivial
  · have hoctets : Finds (read octets) fun bytes => bytes.length < 2 ^ 32 :=
      finds_read fun _ hh => finds_length_listOf octet hh
    exact hoctets.bind fun _ hlength => .pure hlength

/-! ## Commands -/

/-- A command whose key and value are short enough to be stored. -/
def Command.Storable : Command → Prop
  | .set key value => key.length < 2 ^ 32 ∧ value.length < 2 ^ 32
  | .del key => key.length < 2 ^ 32

instance : DecidablePred Command.Storable
  | .set key value => inferInstanceAs (Decidable (key.length < 2 ^ 32 ∧ value.length < 2 ^ 32))
  | .del key => inferInstanceAs (Decidable (key.length < 2 ^ 32))

/-- What follows the name of a command. -/
def Command.content : Nat → Reader Command
  | 0 => do
    let (key, value) ← read setSchema.decoder
    return .set key value
  | _ => do return .del (← read delSchema.decoder)

theorem Command.decoder_eq :
    Command.decoder = fun h => (do content (← dataVariant Command.names h)) := by
  funext h
  refine congrArg (dataVariant Command.names h >>= ·) (funext fun i => ?_)
  cases i <;> rfl

/-- **A storable command is read back.** -/
theorem Command.writes {c : Command} (hc : c.Storable) : Writes 2 Command.decoder c.encode c := by
  rw [Command.decoder_eq]
  cases c with
  | set key value =>
    have hbody : ∀ room, 1 ≤ room → Runs ((List.range 2).foldlM setSchema.step ([], [])) room
        (writeOctets key ++ writeOctets value) (key, value) := by
      intro room hr
      refine .field (fun x => (x, [])) rfl ((writes_octets hc.1).runs hr) ?_
      exact .lastField (fun x => (key, x)) rfl ((writes_octets hc.2).runs hr) rfl
    have hrecord : Writes 2 setSchema.decoder _ _ := writes_record rfl (by decide) hbody
    rw [← List.append_assoc] at hrecord
    exact writes_tagged (by decide) rfl fun room hr => (hrecord.runs hr).map _
  | del key =>
    have hbody : ∀ room, 1 ≤ room → Runs ((List.range 1).foldlM delSchema.step []) room
        (writeOctets key) key := by
      intro room hr
      have hfield : delSchema.field 0 [] = fun h => octets h >>= pure :=
        funext fun h => (bind_pure _).symm
      exact .lastField (fun x => x) hfield ((writes_octets hc).runs hr) rfl
    have hrecord : Writes 2 delSchema.decoder _ _ := writes_record rfl (by decide) hbody
    exact writes_tagged (by decide) rfl fun room hr => (hrecord.runs hr).map _

/-- A byte string is no longer than its stored form. -/
theorem length_le_writeOctets (bytes : Bytes) : bytes.length ≤ (writeOctets bytes).length := by
  rw [writeOctets, writeArray, List.length_append]
  refine Nat.le_add_left_of_le ?_
  -- Every byte is written as a number, which takes at least one byte.
  induction bytes with
  | nil => exact Nat.le_refl 0
  | cons b bytes ih =>
    have hone : 1 ≤ (writeUnsigned b.toNat).length := by
      unfold writeUnsigned
      split_ifs <;> simp
    rw [List.flatMap_cons, List.length_append, List.length_cons]
    omega

/-- A command whose encoded form is short enough to be stored. -/
def Command.Fits (c : Command) : Prop := c.encode.length < 2 ^ 32

instance (c : Command) : Decidable c.Fits := inferInstanceAs (Decidable (c.encode.length < 2 ^ 32))

/-- The parts of a command that fits are short as well, since its encoded form has them in it. -/
theorem Command.Fits.storable {c : Command} (hc : c.Fits) : c.Storable := by
  cases c with
  | set key value =>
    have hkey := length_le_writeOctets key
    have hvalue := length_le_writeOctets value
    simp only [Fits, encode, writeTagged, List.length_cons, List.length_append] at hc
    exact ⟨by omega, by omega⟩
  | del key =>
    have hkey := length_le_writeOctets key
    simp only [Fits, encode, writeTagged, List.length_cons, List.length_append] at hc
    exact show key.length < _ by omega

/-- Reading a command looks at nothing behind it. -/
theorem Command.steady_decoder (h : Head) : Reader.Steady (Command.decoder h) := by
  rw [Command.decoder_eq]
  refine (steady_dataVariant Command.names h).bind fun i => ?_
  cases i with
  | zero =>
    have hset : ∀ i args h, Reader.Steady (setSchema.field i args h) := by
      intro i args h
      cases i with
      | zero => exact (steady_octets h).map _
      | succ i => exact (steady_octets h).map _
    exact (steady_read (Schema.steady hset)).map _
  | succ i =>
    have hdel : ∀ i args h, Reader.Steady (delSchema.field i args h) := fun _ _ h => steady_octets h
    exact (steady_read (Schema.steady hdel)).map _

/-- **A command is read back whole or not at all.** Whatever comes behind its encoded form makes no
difference, and any part of that form that ends too early is refused. -/
theorem Command.Storable.decode_append_truncated {c : Command} (hc : c.Storable) :
    (∀ junk, Command.decode (c.encode ++ junk) = .ok c) ∧
      ∀ part, part <+: c.encode → part ≠ c.encode →
        Command.decode part = .error (.codec .malformed) := by
  have hwrites := Command.writes hc
  refine ⟨fun junk => ?_, fun part hpart hne => ?_⟩
  · rw [decode, hwrites.decode?_append (by decide) junk]
  · rw [decode, hwrites.decode?_truncated (by decide) Command.steady_decoder hpart hne]

/-- A command with junk behind it, and without its last byte. -/
theorem Command.Storable.decode_append_truncated_long :
    let c := Command.set [107, 200] (List.replicate 20 255)
    c.Storable ∧ Command.decode (c.encode ++ [0xc1, 0]) = .ok c ∧
      Command.decode c.encode.dropLast = .error (.codec .malformed) := by
  intro c
  have hc : c.Storable := by decide
  obtain ⟨hread, hrefused⟩ := hc.decode_append_truncated
  refine ⟨hc, hread [0xc1, 0], hrefused _ c.encode.dropLast_prefix fun he => ?_⟩
  have hlength := congrArg List.length he
  rw [List.length_dropLast] at hlength
  exact absurd hlength (by decide)

/-- **A command is read back** if its encoded form has fewer than `2 ^ 32` bytes. -/
theorem Command.decode_encode {c : Command} (hc : c.Fits) : Command.decode c.encode = .ok c := by
  rw [decode, (Command.writes hc.storable).decode? (by decide)]

/-! ## Images -/

/-- **An image that is short enough to be stored.** -/
structure Image.Storable (image : Image) : Prop where
  slots : image.slots.length < 2 ^ 32
  free : image.free.length < 2 ^ 32
  objects : ∀ a, some a ∈ image.slots → a.Storable

/-- **An image that is read can be stored.** -/
theorem Image.storable_of_decode {bytes : Bytes} {image : Image}
    (h : Image.decode bytes = .ok image) : image.Storable := by
  have hfield : ∀ i (image : Image) (h : Head), image.Storable → h.Short →
      Finds (Image.schema.field i image h) Image.Storable := by
    intro i image h himage hh
    rcases i with _ | _ | _ | _ | i
    · exact .after fun _ => .pure ⟨himage.slots, himage.free, himage.objects⟩
    · exact .after fun _ => .pure ⟨himage.slots, himage.free, himage.objects⟩
    · exact .after fun _ => .pure ⟨himage.slots, himage.free, himage.objects⟩
    · have hslots := finds_listOf (fun _ => finds_option fun h _ => Object.finds h) hh
      exact hslots.bind fun slots hl => .pure ⟨hl.1, himage.free, fun a ha => hl.2 _ ha a rfl⟩
    · exact (finds_length_listOf word hh).bind fun free hl =>
        .pure ⟨himage.slots, hl, himage.objects⟩
  have hblank : Image.Storable { id := 0 } := ⟨by decide, by decide, by simp⟩
  unfold Image.decode at h
  split at h
  · cases h
  · rename_i found hfound
    split at h
    · cases h
      exact of_decode? (fun _ => Schema.finds hblank hfield) hfound
    · cases h

/-- **An image is read back** if it is short enough to be stored. -/
theorem Image.decode_encode {image : Image} (hversion : image.version = formatVersion)
    (himage : image.Storable) : Image.decode image.encode = .ok image := by
  have hbody : ∀ room, 3 ≤ room →
      Runs ((List.range 5).foldlM Image.schema.step { id := 0 }) room
        (writeUnsigned image.version ++ (writeWord image.id ++ (image.root.encode ++
          (writeArray (writeOption Object.encode) image.slots ++
            writeArray writeWord image.free)))) image := by
    intro room hr
    have hone : image.version < 2 ^ 32 := by rw [hversion]; decide
    have hobject : ∀ x ∈ image.slots, ∀ room, 2 ≤ room →
        Runs (read (option Object.decoder)) room (writeOption Object.encode x) x :=
      fun x hx room hr => runs_option (fun a ha => Object.writes (himage.objects a (ha ▸ hx))) hr
    have hword : ∀ w ∈ image.free, ∀ room, 0 ≤ room → Runs (read word) room (writeWord w) w :=
      fun w _ room hr => (writes_word w).runs hr
    refine .field (fun x => { version := x, id := 0 }) rfl
      ((writes_below hone (by omega)).runs (Nat.zero_le _)) ?_
    refine .field (fun x => { version := image.version, id := x }) rfl
      ((writes_word image.id).runs (Nat.zero_le _)) ?_
    refine .field (fun x => { version := image.version, id := image.id, root := x }) rfl
      (image.root.writes.runs (by omega)) ?_
    refine .field (fun x => { image with slots := x, free := [] }) rfl
      ((writes_array himage.slots hobject).runs hr) ?_
    exact .lastField (fun x => { image with free := x }) rfl
      ((writes_array himage.free hword).runs (by omega)) rfl
  have hwrites : Writes 4 Image.schema.decoder image.encode image := by
    have := writes_record rfl (by decide) hbody
    simp only [← List.append_assoc] at this
    exact this
  simp only [decode, hwrites.decode? (by decide), hversion, if_true]

end PersistentTier
