import PersistentTier.Proofs.Object.Stored

/-!
# Images that are too long to be stored

The header of an array says the length of the array only up to multiples of `2 ^ 32`. A pool with more
slots than that, or with a longer byte payload, is written all the same. Its image is not read back
as something else: the reader takes too few items, and refuses what it finds behind them.

## Main definitions

* `Leaves`: a reader takes a value and leaves the rest of the given bytes
* `Refuses`: a reader refuses the given bytes, whatever comes after them

## Main results

* `Image.storable_of_decode_encode`: an image that is read back is short enough to be stored
* `Image.eq_of_decode_encode`: an image that is read back is the one that was written
-/

namespace PersistentTier

namespace MessagePack

variable {α β : Type}

/-- **A reader takes a value** off the front of the given bytes and leaves the rest of them. -/
def Leaves (x : Reader α) (room : Nat) (bytes : Bytes) (a : α) (left : Bytes) : Prop :=
  ∀ rest, x room (bytes ++ rest) = some (a, left ++ rest)

/-- **A reader refuses** the given bytes, whatever comes after them. -/
def Refuses (x : Reader α) (room : Nat) (bytes : Bytes) : Prop :=
  ∀ rest, x room (bytes ++ rest) = none

section Readers

variable {x : Reader α} {f : α → Reader β} {decode : Decoder α} {room : Nat} {a : α} {b : β}
  {h : Head} {bytes more left left' tail : Bytes}

theorem Leaves.append (hx : Leaves x room bytes a left) (more : Bytes) :
    Leaves x room (bytes ++ more) a (left ++ more) := by
  intro rest
  rw [List.append_assoc, List.append_assoc]
  exact hx (more ++ rest)

/-- What comes after the bytes that a reader takes is left. -/
theorem Runs.leaves (hx : Runs x room bytes a) (more : Bytes) :
    Leaves x room (bytes ++ more) a more := by
  intro rest
  rw [List.append_assoc]
  exact hx (more ++ rest)

theorem Scans.append (hh : Scans h bytes tail) (more : Bytes) :
    Scans h (bytes ++ more) (tail ++ more) := by
  intro rest
  rw [List.append_assoc, List.append_assoc]
  exact hh (more ++ rest)

/-- A reader that goes on with what another one leaves. -/
theorem Leaves.bind (hx : Leaves x room bytes a left) (hf : Leaves (f a) room left b left') :
    Leaves (x >>= f) room bytes b left' := by
  intro rest
  change (x room (bytes ++ rest)).bind (fun r => f r.1 room r.2) = some (b, left' ++ rest)
  rw [hx rest]
  exact hf rest

theorem Leaves.read (hh : Scans h bytes tail) (hd : Leaves (decode h) room tail a left) :
    Leaves (MessagePack.read decode) room bytes a left := by
  intro rest
  change (head (bytes ++ rest)).bind (fun r => decode r.1 room r.2) = some (a, left ++ rest)
  rw [hh rest]
  exact hd rest

theorem Refuses.append (hx : Refuses x room bytes) (more : Bytes) :
    Refuses x room (bytes ++ more) := by
  intro rest
  rw [List.append_assoc]
  exact hx (more ++ rest)

theorem refuses_failure (room : Nat) (bytes : Bytes) :
    Refuses (Alternative.failure : Reader α) room bytes := fun _ => rfl

/-- What is refused is refused at once. -/
theorem Refuses.bind (hx : Refuses x room bytes) : Refuses (x >>= f) room bytes := by
  intro rest
  change (x room (bytes ++ rest)).bind (fun r => f r.1 room r.2) = none
  rw [hx rest]
  rfl

/-- What one reader leaves the next one refuses. -/
theorem Leaves.refuses (hx : Leaves x room bytes a left) (hf : Refuses (f a) room left) :
    Refuses (x >>= f) room bytes := by
  intro rest
  change (x room (bytes ++ rest)).bind (fun r => f r.1 room r.2) = none
  rw [hx rest]
  exact hf rest

theorem Refuses.read (hh : Scans h bytes tail) (hd : Refuses (decode h) room tail) :
    Refuses (MessagePack.read decode) room bytes := by
  intro rest
  change (head (bytes ++ rest)).bind (fun r => decode r.1 room r.2) = none
  rw [hh rest]
  exact hd rest

end Readers

/-! ## Byte strings -/

/-- A byte string that is too long is read up to a byte, which is left with those after it. -/
theorem exists_leaves_octets {bytes : Bytes} (hlong : 2 ^ 32 ≤ bytes.length) {room : Nat}
    (hr : 1 ≤ room) : ∃ front, ∃ b : UInt8, ∃ left, Leaves (read octets) room (writeOctets bytes) front
      (writeUnsigned b.toNat ++ left) := by
  -- The header counts the bytes of `front` only.
  set n := bytes.length % 2 ^ 32 with hn
  have hlt : n < bytes.length := by omega
  have hsplit : bytes.take n ++ bytes.drop n = bytes := List.take_append_drop n bytes
  have hfront : (bytes.take n).length = n := by
    rw [List.length_take]
    omega
  obtain ⟨b, left, hleft⟩ : ∃ b left, bytes.drop n = b :: left :=
    List.exists_cons_of_length_pos (by rw [List.length_drop]; omega)
  refine ⟨bytes.take n, b, left.flatMap fun b => writeUnsigned b.toNat, ?_⟩
  have hbytes : bytes.flatMap (fun b => writeUnsigned b.toNat) =
      (bytes.take n).flatMap (fun b => writeUnsigned b.toNat) ++
        (writeUnsigned b.toNat ++ left.flatMap fun b => writeUnsigned b.toNat) := by
    calc bytes.flatMap (fun b => writeUnsigned b.toNat)
        = (bytes.take n ++ bytes.drop n).flatMap fun b => writeUnsigned b.toNat := by rw [hsplit]
      _ = _ := by rw [List.flatMap_append, hleft, List.flatMap_cons]
  refine .read ((scans_arrayHeader_mod bytes.length).append _) ?_
  obtain ⟨room, rfl⟩ : ∃ k, room = k + 1 := ⟨room - 1, by omega⟩
  have hmany : Runs (many octet (bytes.take n).length []) room
      ((bytes.take n).flatMap fun b => writeUnsigned b.toNat) ([].reverse ++ bytes.take n) :=
    runs_many [] fun b _ => (writes_octet b).runs (Nat.zero_le _)
  rw [hfront] at hmany
  intro rest
  rw [List.nil_append, hbytes, List.append_assoc]
  exact hmany _

/-! ## Fields -/

section Fields

variable {schema : Schema α} {decode : Decoder β} {room i : Nat} {is : List Nat}
  {bytes bytes' left : Bytes} {a : α} {value : β}

theorem Schema.step_eq (set : β → α)
    (hset : schema.field i a = fun h => do return set (← decode h)) :
    schema.step a i = do return set (← read decode) := by
  rw [Schema.step, hset, read, bind_assoc]

/-- A field that is read, and fields that are refused. -/
theorem Refuses.field (set : β → α)
    (hset : schema.field i a = fun h => do return set (← decode h))
    (hread : Runs (MessagePack.read decode) room bytes value)
    (hrest : Refuses (is.foldlM schema.step (set value)) room bytes') :
    Refuses ((i :: is).foldlM schema.step a) room (bytes ++ bytes') := by
  rw [List.foldlM_cons]
  exact ((runs_step set hset hread).leaves bytes').refuses hrest

end Fields

end MessagePack

open MessagePack

/-! ## Objects -/

/-- **An object that is too long** is read up to a number that is left. -/
theorem Object.exists_leaves {a : Object} (ha : ¬ a.Storable) {room : Nat} (hr : 1 ≤ room) :
    ∃ a', ∃ b : UInt8, ∃ left, Leaves (read (option Object.decoder)) room
      (writeOption Object.encode (some a)) a' (writeUnsigned b.toNat ++ left) := by
  cases a with
  | entry e => exact absurd trivial ha
  | log n => exact absurd trivial ha
  | payload bytes =>
    obtain ⟨front, b, left, hoctets⟩ := exists_leaves_octets (Nat.le_of_not_lt ha) hr
    refine ⟨some (.payload front), b, left, ?_⟩
    have hname : Leaves (read (position Object.names)) room
        (writeName (Bytes.ascii "Bytes") ++ writeOctets bytes) (some 2) (writeOctets bytes) :=
      Runs.leaves (.read (scans_name (by decide)) (runs_position rfl)) _
    have hvariant : Leaves (dataVariant Object.names (.map 1)) room
        (writeName (Bytes.ascii "Bytes") ++ writeOctets bytes) 2 (writeOctets bytes) :=
      Leaves.bind (hname.bind fun _ => rfl) fun _ => rfl
    have hobject : Leaves (Object.decoder (.map 1)) room
        (writeName (Bytes.ascii "Bytes") ++ writeOctets bytes) (.payload front)
        (writeUnsigned b.toNat ++ left) := by
      rw [Object.decoder_eq]
      exact hvariant.bind (hoctets.bind fun _ => rfl)
    exact .read (scans_tag _) (hobject.bind fun _ => rfl)

/-- No object begins with a number. -/
theorem Object.refuses_unsigned (n room : Nat) (bytes : Bytes) :
    Refuses (option Object.decoder (.unsigned n)) room bytes := by
  have hvariant : Refuses (dataVariant Object.names (.unsigned n)) room bytes := by
    intro rest
    by_cases hn : n < Object.names.length
    · simp [dataVariant, variant, position, hn]
      rfl
    · simp [dataVariant, variant, position, hn]
      rfl
  exact Refuses.bind (Refuses.bind hvariant)

/-! ## Slots -/

/-- **What an array does not begin with**: the absent value, a variant or a number. -/
def Surplus (bytes : Bytes) : Prop :=
  ∃ h tail, Scans h bytes tail ∧ (h = .null ∨ h = .map 1 ∨ ∃ n, h = .unsigned n)

theorem surplus_number (b : UInt8) (left : Bytes) : Surplus (writeUnsigned b.toNat ++ left) := by
  have hb : b.toNat < 2 ^ 64 := b.toNat_lt.trans (by decide)
  exact ⟨_, _, (scans_unsigned hb).append left, .inr (.inr ⟨_, rfl⟩)⟩

theorem surplus_slot (x : Option Object) (left : Bytes) :
    Surplus (writeOption Object.encode x ++ left) := by
  cases x with
  | none => exact ⟨.null, left, fun _ => rfl, .inl rfl⟩
  | some a =>
    have htag : ∃ payload, a.encode = 0x81 :: payload := by
      cases a <;> exact ⟨_, rfl⟩
    obtain ⟨payload, hpayload⟩ := htag
    refine ⟨.map 1, payload ++ left, ?_, .inr (.inl rfl)⟩
    rw [writeOption, hpayload]
    exact scans_tag (payload ++ left)

/-- A list is not read where something else stands. -/
theorem Surplus.refuses_listOf {α : Type} {bytes : Bytes} (hbytes : Surplus bytes) (item : Decoder α)
    (room : Nat) : Refuses (read (listOf item)) room bytes := by
  obtain ⟨h, tail, hh, hfront⟩ := hbytes
  refine .read hh ?_
  rcases hfront with rfl | rfl | ⟨n, rfl⟩
  · exact refuses_failure room tail
  · exact refuses_failure room tail
  · exact refuses_failure room tail

/-- Slots that begin with a number are refused. -/
theorem refuses_many_number (b : UInt8) (left : Bytes) (n room : Nat) (before : List (Option Object)) :
    Refuses (many (option Object.decoder) (n + 1) before) room (writeUnsigned b.toNat ++ left) := by
  have hb : b.toNat < 2 ^ 64 := b.toNat_lt.trans (by decide)
  exact Refuses.bind (.read ((scans_unsigned hb).append left) (Object.refuses_unsigned _ room _))

/-- **Reading too few slots**, or slots that are too long. It fails, or what is left does not begin like
an array. -/
theorem refuses_or_leaves_many {slots : List (Option Object)} {n room : Nat} (hr : 2 ≤ room)
    (before : List (Option Object)) (hn : n ≤ slots.length)
    (hlong : slots.length = n → ∃ a, some a ∈ slots ∧ ¬ Object.Storable a) :
    Refuses (many (option Object.decoder) n before) room
        (slots.flatMap (writeOption Object.encode)) ∨
      ∃ found left, Leaves (many (option Object.decoder) n before) room
        (slots.flatMap (writeOption Object.encode)) found left ∧ Surplus left := by
  induction n generalizing slots before with
  | zero =>
    cases slots with
    | nil =>
      obtain ⟨a, ha, -⟩ := hlong rfl
      exact absurd ha List.not_mem_nil
    | cons x slots =>
      refine .inr ⟨before.reverse, _, fun _ => rfl, ?_⟩
      rw [List.flatMap_cons]
      exact surplus_slot x _
  | succ n ih =>
    cases slots with
    | nil => simp at hn
    | cons x slots =>
      rw [List.flatMap_cons]
      by_cases hx : ∀ a, x = some a → a.Storable
      -- A slot that is short enough is read, and the others after it.
      · have hslot : Leaves (read (option Object.decoder)) room (writeOption Object.encode x ++
            slots.flatMap (writeOption Object.encode)) x (slots.flatMap (writeOption Object.encode)) :=
          Runs.leaves (runs_option (fun a ha => Object.writes (hx a ha)) hr) _
        have hothers : slots.length = n → ∃ a, some a ∈ slots ∧ ¬ a.Storable := by
          intro hlength
          obtain ⟨a, ha, hnot⟩ := hlong (by rw [List.length_cons, hlength])
          rcases List.mem_cons.1 ha with hhead | htail
          · exact absurd (hx a hhead.symm) hnot
          · exact ⟨a, htail, hnot⟩
        rcases ih (x :: before) (Nat.le_of_succ_le_succ hn) hothers with hrefuses | ⟨found, left, hl, hs⟩
        · exact .inl (hslot.refuses hrefuses)
        · exact .inr ⟨found, left, hslot.bind hl, hs⟩
      -- One that is too long leaves a number in front of whatever is read next.
      · obtain ⟨a, rfl, ha⟩ : ∃ a, x = some a ∧ ¬ a.Storable := by simpa using hx
        obtain ⟨a', b, left, hslot⟩ := Object.exists_leaves ha (show 1 ≤ room by omega)
        have hslot' := hslot.append (slots.flatMap (writeOption Object.encode))
        rw [List.append_assoc] at hslot'
        cases n with
        | zero => exact .inr ⟨_, _, hslot'.bind fun _ => rfl, surplus_number b _⟩
        | succ n => exact .inl (hslot'.refuses (refuses_many_number b _ n room _))

/-! ## Images -/

namespace Image

variable {image image' : Image}

/-- The slots of an image that is too long are refused, or else the free list behind them. -/
theorem refuses_slots (image found : Image) {room : Nat} (hr : 2 ≤ room)
    (hfree : image.free.length ≤ image.slots.length) (himage : ¬ image.Storable) :
    Refuses ([3, 4].foldlM schema.step found) (room + 1)
      (writeArray (writeOption Object.encode) image.slots) := by
  have hlong : image.slots.length = image.slots.length % 2 ^ 32 →
      ∃ a, some a ∈ image.slots ∧ ¬ a.Storable := by
    intro hlength
    by_contra hall
    push Not at hall
    exact himage ⟨by omega, by omega, hall⟩
  have hheader := (scans_arrayHeader_mod image.slots.length).append
    (image.slots.flatMap (writeOption Object.encode))
  have hslots : schema.step found 3 =
      do return { found with slots := ← read (listOf (option Object.decoder)) } :=
    Schema.step_eq (fun slots => { found with slots := slots }) rfl
  rw [List.foldlM_cons, hslots, writeArray]
  rcases refuses_or_leaves_many hr [] (Nat.mod_le _ (2 ^ 32)) hlong with hrefuses | ⟨slots, left, hl, hs⟩
  · have hlist : Refuses (read (listOf (option Object.decoder))) (room + 1) _ :=
      .read hheader hrefuses
    exact hlist.bind.bind
  · have hlist : Leaves (read (listOf (option Object.decoder))) (room + 1) _ slots left :=
      .read hheader hl
    refine Leaves.refuses (hlist.bind (b := { found with slots := slots }) fun _ => rfl) ?_
    rw [List.foldlM_cons, Schema.step_eq (fun free => { found with slots := slots, free := free }) rfl]
    exact (hs.refuses_listOf word (room + 1)).bind.bind

/-- **An image that is too long is refused.** -/
theorem refuses_encode (hversion : image.version = formatVersion)
    (hfree : image.free.length ≤ image.slots.length) (himage : ¬ image.Storable) :
    Refuses (read schema.decoder) nestingLimit image.encode := by
  have hone : image.version < UInt32.size := by rw [hversion]; decide
  have hfields : Refuses ((List.range 5).foldlM schema.step schema.blank) 1022
      (writeUnsigned image.version ++ (writeWord image.id ++ (image.root.encode ++
        (writeArray (writeOption Object.encode) image.slots ++
          writeArray writeWord image.free)))) := by
    refine .field (fun x => { version := x, id := 0 }) rfl
      ((writes_below hone (hone.trans (by decide))).runs (Nat.zero_le _)) ?_
    refine .field (fun x => { version := image.version, id := x }) rfl
      ((writes_word image.id).runs (Nat.zero_le _)) ?_
    refine .field (fun x => { version := image.version, id := image.id, root := x }) rfl
      (image.root.writes.runs (by decide)) ?_
    exact (refuses_slots image _ (by decide) hfree himage).append _
  have hheader := (scans_arrayHeader (n := 5) (by decide)).append (writeUnsigned image.version ++
    (writeWord image.id ++ (image.root.encode ++ (writeArray (writeOption Object.encode) image.slots ++
      writeArray writeWord image.free))))
  have hread : Refuses (read schema.decoder) nestingLimit _ := .read hheader hfields
  simp only [← List.append_assoc] at hread
  exact hread

/-- **An image that is read back can be stored**, if it does not list more offsets than it has slots. -/
theorem storable_of_decode_encode (hversion : image.version = formatVersion)
    (hfree : image.free.length ≤ image.slots.length) (hread : decode image.encode = .ok image') :
    image.Storable := by
  by_contra himage
  have hrefused := refuses_encode hversion hfree himage []
  rw [List.append_nil] at hrefused
  simp [decode, decode?, hrefused] at hread

/-- **An image that is read back is the one that was written.** -/
theorem eq_of_decode_encode (hversion : image.version = formatVersion)
    (hfree : image.free.length ≤ image.slots.length) (hread : decode image.encode = .ok image') :
    image' = image := by
  have himage := storable_of_decode_encode hversion hfree hread
  exact (Except.ok.inj ((decode_encode hversion himage).symm.trans hread)).symm

end Image

end PersistentTier
