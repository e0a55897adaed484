import PersistentTier.MessagePack.Record
import PersistentTier.MessagePack.Writer
import Mathlib.Tactic.Ring

/-!
# Reading what was written

A written value is read back, whatever comes after it. The statements are about every continuation
of the bytes, so that they compose: a sequence of values is read value by value.

## Main definitions

* `Runs`: a reader takes exactly the given bytes off the front
* `Writes`: bytes that are the written form of a value, under a number of levels of nesting

## Main results

* `writes_word`, `writes_octets`, `writes_array`, `runs_option`: the kinds of values
* `Runs.bind`, `Runs.field`: sequences and fields of records
-/

namespace PersistentTier

/-! ## Numbers -/

theorem foldl_bigEndian (width n acc : Nat) :
    (bigEndian width n).foldl (fun n b => n * 256 + b.toNat) acc =
      acc * 256 ^ width + n % 256 ^ width := by
  induction width generalizing acc with
  | zero => simp [bigEndian, Nat.mod_one]
  | succ width ih =>
    -- The first digit is the most significant one of those that are left.
    have hmod : n % 256 ^ (width + 1) = n % 256 ^ width + 256 ^ width * (n / 256 ^ width % 256) :=
      Nat.mod_pow_succ
    have hdigit : n >>> (8 * width) = n / 256 ^ width := by
      rw [Nat.shiftRight_eq_div_pow, pow_mul]
      rfl
    rw [bigEndian, List.foldl_cons, ih, UInt8.toNat_ofNat', hdigit, hmod, pow_succ 256]
    change (acc * 256 + n / 256 ^ width % 256) * 256 ^ width + _ = _
    generalize n / 256 ^ width % 256 = digit
    ring

theorem ofBigEndian_bigEndian (width n : Nat) :
    ofBigEndian (bigEndian width n) = n % 256 ^ width := by
  rw [ofBigEndian, foldl_bigEndian, Nat.zero_mul, Nat.zero_add]

namespace MessagePack

variable {α β : Type}

/-- **A reader takes exactly the given bytes** off the front and returns a value. -/
def Runs (x : Reader α) (room : Nat) (bytes : Bytes) (a : α) : Prop :=
  ∀ rest, x room (bytes ++ rest) = some (a, rest)

/-- The head at the front of some bytes, with what is left of them. -/
def Scans (h : Head) (bytes tail : Bytes) : Prop :=
  ∀ rest, head (bytes ++ rest) = some (h, tail ++ rest)

namespace Runs

variable {x : Reader α} {f : α → Reader β} {room : Nat} {bytes bytes' : Bytes} {a : α} {b : β}

theorem pure (a : α) (room : Nat) : Runs (Pure.pure a : Reader α) room [] a := fun _ => rfl

/-- One reader after another. -/
theorem bind (hx : Runs x room bytes a) (hf : Runs (f a) room bytes' b) :
    Runs (x >>= f) room (bytes ++ bytes') b := by
  intro rest
  have h := hx (bytes' ++ rest)
  rw [← List.append_assoc] at h
  change (x room (bytes ++ bytes' ++ rest)).bind (fun r => f r.1 room r.2) = some (b, rest)
  rw [h]
  exact hf rest

/-- What comes after a reader takes nothing. -/
theorem bind_of_nil (hx : Runs x room bytes a) (hf : Runs (f a) room [] b) :
    Runs (x >>= f) room bytes b := by
  have := hx.bind hf
  rwa [List.append_nil] at this

/-- The value read is turned into another. -/
theorem map (hx : Runs x room bytes a) (g : α → β) :
    Runs (do return g (← x)) room bytes (g a) := hx.bind_of_nil fun _ => rfl

end Runs

/-- A whole value is read from its head on. -/
theorem Runs.read {decode : Decoder α} {h : Head} {bytes tail : Bytes} {room : Nat} {a : α}
    (hh : Scans h bytes tail) (hd : Runs (decode h) room tail a) :
    Runs (MessagePack.read decode) room bytes a := by
  intro rest
  change (head (bytes ++ rest)).bind (fun r => decode r.1 room r.2) = some (a, rest)
  rw [hh rest]
  exact hd rest

/-- **The written form of a value**, which nests `depth` levels deep. -/
def Writes (depth : Nat) (decode : Decoder α) (bytes : Bytes) (a : α) : Prop :=
  ∃ h tail, h ≠ .null ∧ Scans h bytes tail ∧ ∀ room, depth ≤ room → Runs (decode h) room tail a

namespace Writes

variable {depth room : Nat} {decode : Decoder α} {bytes : Bytes} {a : α}

theorem runs (hw : Writes depth decode bytes a) (hr : depth ≤ room) :
    Runs (MessagePack.read decode) room bytes a :=
  let ⟨_, _, _, hh, hd⟩ := hw
  .read hh (hd room hr)

end Writes

/-! ## Heads -/

theorem byte_cons (b : UInt8) (rest : Bytes) : byte (b :: rest) = some (b, rest) := rfl

theorem number_bigEndian (width n : Nat) (rest : Bytes) :
    number width (bigEndian width n ++ rest) = some (n % 256 ^ width, rest) := by
  change ((bigEndian width n ++ rest).front? width).bind
    (fun r => some (ofBigEndian r.1, r.2)) = some (n % 256 ^ width, rest)
  rw [Bytes.front?_eq_some_iff.2 ⟨length_bigEndian width n, rfl⟩]
  simp [ofBigEndian_bigEndian]

/-- A head that follows its marker. It says no more of its number than it has room for. -/
theorem scans_marker_mod {m : UInt8} {width n : Nat} {h : Nat → Head}
    (hm : headOf m.toNat = do return h (← number width)) :
    Scans (h (n % 256 ^ width)) (m :: bigEndian width n) [] := by
  intro rest
  change (byte (m :: (bigEndian width n ++ rest))).bind (fun r => headOf r.1.toNat r.2) = _
  rw [byte_cons]
  change headOf m.toNat (bigEndian width n ++ rest) = _
  rw [hm]
  change (number width (bigEndian width n ++ rest)).bind (fun r => some (h r.1, r.2)) = _
  rw [number_bigEndian]
  rfl

/-- A head that follows its marker. -/
theorem scans_marker {m : UInt8} {width n : Nat} {h : Nat → Head} (hn : n < 256 ^ width)
    (hm : headOf m.toNat = do return h (← number width)) :
    Scans (h n) (m :: bigEndian width n) [] := by
  have hscans : Scans (h (n % 256 ^ width)) (m :: bigEndian width n) [] := scans_marker_mod hm
  rwa [Nat.mod_eq_of_lt hn] at hscans

/-- A head that its marker holds. -/
theorem scans_short {m : Nat} {h : Head} (tail : Bytes) (hm : m < 256) (hh : headOf m = pure h) :
    Scans h (UInt8.ofNat m :: tail) tail := by
  intro rest
  change headOf (UInt8.ofNat m).toNat (tail ++ rest) = _
  rw [UInt8.toNat_ofNat', Nat.mod_eq_of_lt hm, hh]
  rfl

theorem scans_unsigned {n : Nat} (hn : n < 2 ^ 64) : Scans (.unsigned n) (writeUnsigned n) [] := by
  -- A number is written in the shortest of five forms.
  unfold writeUnsigned
  split
  · rename_i h
    exact scans_short [] (by omega) (by simp [headOf, h])
  · split
    · rename_i h
      exact scans_marker (by simpa using h) rfl
    · split
      · rename_i h
        exact scans_marker (by simpa using h) rfl
      · split
        · rename_i h
          exact scans_marker (by simpa using h) rfl
        · exact scans_marker (by simpa using hn) rfl

/-- **The header of an array** says its length, but for multiples of `2 ^ 32`. -/
theorem scans_arrayHeader_mod (n : Nat) : Scans (.array (n % 2 ^ 32)) (writeArrayHeader n) [] := by
  unfold writeArrayHeader
  split
  · rename_i h
    rw [Nat.mod_eq_of_lt (by omega)]
    refine scans_short [] (by omega) ?_
    simp only [headOf]
    rw [if_neg (by omega), if_neg (by omega), if_pos (by omega), Nat.add_sub_cancel_left]
  · split
    · rename_i h
      rw [Nat.mod_eq_of_lt (by simp only [UInt16.size] at h; omega)]
      exact scans_marker (by simpa using h) rfl
    · exact scans_marker_mod rfl

theorem scans_arrayHeader {n : Nat} (hn : n < 2 ^ 32) : Scans (.array n) (writeArrayHeader n) [] := by
  have hscans := scans_arrayHeader_mod n
  rwa [Nat.mod_eq_of_lt hn] at hscans

theorem scans_name {text : Bytes} (ht : text.length < 32) :
    Scans (.text text.length) (writeName text) text := by
  refine scans_short text (by omega) ?_
  simp only [headOf]
  rw [if_neg (by omega), if_neg (by omega), if_neg (by omega), if_pos (by omega),
    Nat.add_sub_cancel_left]

theorem scans_tag (payload : Bytes) : Scans (.map 1) (0x81 :: payload) payload := fun _ => rfl

/-! ## Values -/

theorem writes_below {bound n : Nat} (hn : n < bound) (hword : n < 2 ^ 64) :
    Writes 0 (below bound) (writeUnsigned n) n := by
  refine ⟨.unsigned n, [], by simp, scans_unsigned hword, fun room _ rest => ?_⟩
  simp only [below, if_pos hn]
  rfl

theorem writes_word (w : UInt64) : Writes 0 word (writeWord w) w := by
  obtain ⟨h, tail, hne, hh, hd⟩ := writes_below w.toNat_lt w.toNat_lt
  refine ⟨h, tail, hne, hh, fun room hr => ?_⟩
  have := (hd room hr).map UInt64.ofNat
  rwa [UInt64.ofNat_toNat] at this

theorem writes_octet (b : UInt8) : Writes 0 octet (writeUnsigned b.toNat) b := by
  have hb := b.toNat_lt
  have hbelow : Writes 0 (below 256) (writeUnsigned b.toNat) b.toNat := writes_below hb (by omega)
  obtain ⟨h, tail, hne, hh, hd⟩ := hbelow
  refine ⟨h, tail, hne, hh, fun room hr => ?_⟩
  have := (hd room hr).map UInt8.ofNat
  rwa [UInt8.ofNat_toNat] at this

section Sequences

variable {depth room : Nat} {decode : Decoder α} {item : α → Bytes}

/-- Values one after another. -/
theorem runs_many {items : List α} (before : List α)
    (hitems : ∀ a ∈ items, Runs (read decode) room (item a) a) :
    Runs (many decode items.length before) room (items.flatMap item) (before.reverse ++ items) := by
  -- The reader collects the values in reverse, so `before` is generalized.
  induction items generalizing before with
  | nil =>
    rw [List.append_nil]
    exact Runs.pure before.reverse room
  | cons a items ih =>
    have hrest := ih (a :: before) fun b hb => hitems b (List.mem_cons_of_mem _ hb)
    rw [List.reverse_cons, List.append_assoc] at hrest
    rw [List.flatMap_cons]
    exact (hitems a List.mem_cons_self).bind hrest

/-- **An array is read back**, one level further out than its items. -/
theorem writes_array {items : List α} (hlength : items.length < 2 ^ 32)
    (hitems : ∀ a ∈ items, ∀ room, depth ≤ room → Runs (read decode) room (item a) a) :
    Writes (depth + 1) (listOf decode) (writeArray item items) items := by
  refine ⟨.array items.length, items.flatMap item, by simp, fun rest => ?_, fun room hr => ?_⟩
  · have := scans_arrayHeader hlength (items.flatMap item ++ rest)
    rw [writeArray, List.append_assoc]
    exact this
  · cases room with
    | zero => omega
    | succ room => exact runs_many [] fun a ha => hitems a ha room (by omega)

end Sequences

/-- **A byte string is read back.** -/
theorem writes_octets {bytes : Bytes} (hlength : bytes.length < 2 ^ 32) :
    Writes 1 octets (writeOctets bytes) bytes :=
  writes_array hlength fun b _ _ _ => (writes_octet b).runs (Nat.zero_le _)

/-- **A value that may be absent is read back.** -/
theorem runs_option {depth room : Nat} {decode : Decoder α} {item : α → Bytes} {value : Option α}
    (hvalue : ∀ a ∈ value, Writes depth decode (item a) a) (hr : depth ≤ room) :
    Runs (read (option decode)) room (writeOption item value) value := by
  cases value with
  | none => exact fun rest => rfl
  | some a =>
    obtain ⟨h, tail, hne, hh, hd⟩ := hvalue a rfl
    refine .read hh ?_
    have hoption : option decode h = do return some (← decode h) := by
      cases h <;> first | rfl | exact absurd rfl hne
    rw [hoption]
    exact (hd room hr).map some

/-! ## Enumerations -/

/-- The position of a name that is written as text. -/
theorem runs_position {names : List Bytes} {text : Bytes} {i room : Nat}
    (hi : names.idxOf? text = some i) :
    Runs (position names (.text text.length)) room text (some i) := by
  intro rest
  change ((text ++ rest).front? text.length).bind (fun r => some (names.idxOf? r.1, r.2)) = _
  rw [Bytes.front?_eq_some_iff.2 ⟨rfl, rfl⟩]
  simp [hi]

/-- **A variant without data is read back.** -/
theorem writes_unitVariant {names : List Bytes} {text : Bytes} {i : Nat}
    (ht : text.length < 32) (hi : names.idxOf? text = some i) :
    Writes 0 (unitVariant names) (writeName text) i := by
  refine ⟨.text text.length, text, by simp, scans_name ht, fun room _ => ?_⟩
  have hvariant : Runs (variant names (.text text.length)) room text (i, false) := by
    have hname : Runs (position names (.text text.length)) room text (some i) := runs_position hi
    exact hname.bind_of_nil fun _ => rfl
  exact hvariant.bind_of_nil fun _ => rfl

/-- **A variant with data is read back**, provided its data are. -/
theorem writes_tagged {names : List Bytes} {text payload : Bytes} {i depth : Nat} {a : α}
    {next : Nat → Reader α} (ht : text.length < 32) (hi : names.idxOf? text = some i)
    (hnext : ∀ room, depth ≤ room → Runs (next i) room payload a) :
    Writes depth (fun h => do next (← dataVariant names h)) (writeTagged text payload) a := by
  refine ⟨.map 1, writeName text ++ payload, by simp, scans_tag _, fun room hr => ?_⟩
  have hname : Runs (read (position names)) room (writeName text) (some i) :=
    .read (scans_name ht) (runs_position hi)
  have hvariant : Runs (variant names (.map 1)) room (writeName text) (i, true) :=
    hname.bind_of_nil fun _ => rfl
  have hdata : Runs (dataVariant names (.map 1)) room (writeName text) i :=
    hvariant.bind_of_nil fun _ => rfl
  exact hdata.bind (hnext room hr)

/-! ## Records -/

/-- Reads the field at a position. -/
def Schema.step (schema : Schema α) (record : α) (i : Nat) : Reader α := do
  schema.field i record (← head)

section Fields

variable {schema : Schema α} {decode : Decoder β} {room i : Nat} {is : List Nat}
  {bytes bytes' : Bytes} {a c : α} {value : β}

theorem runs_step (set : β → α) (hset : schema.field i a = fun h => do return set (← decode h))
    (hread : Runs (read decode) room bytes value) :
    Runs (schema.step a i) room bytes (set value) := by
  have := hread.map set
  rw [read, bind_assoc] at this
  rwa [Schema.step, hset]

/-- A field that `set` puts into the record, and the fields after it. -/
theorem Runs.field (set : β → α) (hset : schema.field i a = fun h => do return set (← decode h))
    (hread : Runs (MessagePack.read decode) room bytes value)
    (hrest : Runs (is.foldlM schema.step (set value)) room bytes' c) :
    Runs ((i :: is).foldlM schema.step a) room (bytes ++ bytes') c := by
  rw [List.foldlM_cons]
  exact (runs_step set hset hread).bind hrest

/-- The last field. -/
theorem Runs.lastField (set : β → α)
    (hset : schema.field i a = fun h => do return set (← decode h))
    (hread : Runs (MessagePack.read decode) room bytes value) (hc : set value = c) :
    Runs ([i].foldlM schema.step a) room bytes c := by
  rw [List.foldlM_cons]
  simpa [hc] using (runs_step set hset hread).bind (.pure (set value) room)

end Fields

/-- **A record is read back** field by field, one level further out than its fields. -/
theorem writes_record {schema : Schema α} {body : Bytes} {depth n : Nat} {a : α}
    (hn : schema.names.length = n) (hsmall : n < 2 ^ 32)
    (hbody : ∀ room, depth ≤ room →
      Runs ((List.range n).foldlM schema.step schema.blank) room body a) :
    Writes (depth + 1) schema.decoder (writeArrayHeader n ++ body) a := by
  refine ⟨.array n, body, by simp, fun rest => ?_, fun room hr => ?_⟩
  · have := scans_arrayHeader hsmall (body ++ rest)
    rw [List.append_assoc]
    exact this
  · cases room with
    | zero => omega
    | succ room =>
      simp only [Schema.decoder, hn, if_true]
      have := hbody room (by omega)
      rw [← hn] at this
      exact this

/-- **A written value is read back**, whatever comes behind it. -/
theorem Writes.decode?_append {decode : Decoder α} {bytes : Bytes} {depth : Nat} {a : α}
    (hw : Writes depth decode bytes a) (hd : depth ≤ nestingLimit) (more : Bytes) :
    MessagePack.decode? decode (bytes ++ more) = some a := by
  simp only [MessagePack.decode?, hw.runs hd more, Option.map_some]

/-- A whole byte string is read back. -/
theorem Writes.decode? {decode : Decoder α} {bytes : Bytes} {depth : Nat} {a : α}
    (hw : Writes depth decode bytes a) (hd : depth ≤ nestingLimit) :
    MessagePack.decode? decode bytes = some a := by
  simpa using hw.decode?_append hd []

end MessagePack

end PersistentTier
