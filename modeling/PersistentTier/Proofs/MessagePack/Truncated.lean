import PersistentTier.Proofs.MessagePack.RoundTrip

/-!
# Values that are cut short

A reader looks at nothing behind what it takes. What it takes off some bytes, it takes off any longer
ones as well, in whichever of its forms a value is given. So a written value that is cut off anywhere
is refused: a reader that took something off the part would leave the missing bytes behind when it is
given all of them.

## Main definitions

* `Scanner.Steady`, `Reader.Steady`: what is taken does not depend on what comes behind it

## Main results

* `Schema.steady`, `steady_listOf`, `steady_dataVariant`: the kinds of values
* `Writes.decode?_truncated`: a written value that is cut off is refused
-/

namespace PersistentTier.MessagePack

variable {α β : Type}

/-! ## Scanners -/

/-- **A scanner that looks at nothing behind what it takes.** -/
def Scanner.Steady (x : Scanner α) : Prop :=
  ∀ bytes a rest, x bytes = some (a, rest) → ∀ more, x (bytes ++ more) = some (a, rest ++ more)

namespace Scanner.Steady

variable {x : Scanner α} {f : α → Scanner β}

theorem pure (a : α) : Scanner.Steady (Pure.pure a) := by
  rintro bytes a' rest ⟨⟩ more
  rfl

theorem failure : Scanner.Steady (Alternative.failure : Scanner α) := by
  rintro bytes a rest ⟨⟩

/-- One scanner after another. -/
theorem bind (hx : Scanner.Steady x) (hf : ∀ a, Scanner.Steady (f a)) :
    Scanner.Steady (x >>= f) := by
  intro bytes b rest hrun more
  change ((x bytes).bind fun r => f r.1 r.2) = _ at hrun
  obtain ⟨⟨a, left⟩, ha, hb⟩ := Option.bind_eq_some_iff.1 hrun
  change ((x (bytes ++ more)).bind fun r => f r.1 r.2) = _
  rw [hx bytes a left ha more]
  exact hf a left b rest hb more

theorem map (hx : Scanner.Steady x) (g : α → β) : Scanner.Steady (do return g (← x)) :=
  hx.bind fun a => .pure (g a)

theorem ite {c : Prop} [Decidable c] {y : Scanner α} (hx : Scanner.Steady x)
    (hy : Scanner.Steady y) : Scanner.Steady (if c then x else y) := by
  split
  · exact hx
  · exact hy

end Scanner.Steady

theorem steady_take (n : Nat) : Scanner.Steady (take n) := by
  intro bytes front rest h more
  obtain ⟨hlength, rfl⟩ := Bytes.front?_eq_some_iff.1 h
  exact Bytes.front?_eq_some_iff.2 ⟨hlength, List.append_assoc front rest more⟩

theorem steady_byte : Scanner.Steady byte := by
  rintro (_ | ⟨b, bytes⟩) a rest h more
  · cases h
  · cases h
    rfl

theorem steady_number (width : Nat) : Scanner.Steady (number width) :=
  (steady_take width).map ofBigEndian

theorem steady_signedNumber (width : Nat) : Scanner.Steady (signedNumber width) :=
  (steady_number width).bind fun _ => .pure _

theorem steady_headOf (m : Nat) : Scanner.Steady (headOf m) := by
  unfold headOf
  refine .ite (.pure _) (.ite (.pure _) (.ite (.pure _) (.ite (.pure _) (.ite (.pure _) ?_))))
  -- The marker stands alone, or a number of some width follows it.
  split <;> first
    | exact .pure _
    | exact .failure
    | exact (steady_number _).map _
    | exact (steady_signedNumber _).map _
    | exact (steady_take _).bind fun _ => .pure _

theorem steady_head : Scanner.Steady head := steady_byte.bind fun b => steady_headOf b.toNat

theorem Scanner.Steady.repeated {step : Scanner Unit} (hstep : Scanner.Steady step) (n : Nat) :
    Scanner.Steady (repeated step n) := by
  induction n with
  | zero => exact .pure ()
  | succ n ih => exact hstep.bind fun _ => ih

/-- Passing over a value, whatever it is. -/
theorem steady_skipWithin (room : Nat) : Scanner.Steady (skipWithin room) := by
  induction room with
  | zero =>
    unfold skipWithin
    refine steady_head.bind fun h => ?_
    cases h with
    | text n | binary n => exact (steady_take n).bind fun _ => .pure ()
    | extension | array | map => exact .failure
    | unsigned | signed | null | bool | float => exact .pure ()
  | succ room ih =>
    unfold skipWithin
    refine steady_head.bind fun h => ?_
    cases h with
    | text n | binary n => exact (steady_take n).bind fun _ => .pure ()
    | extension n => exact (steady_take (n + 1)).bind fun _ => .pure ()
    | array n => exact ih.repeated n
    -- A map has a key and a value for each entry.
    | map n => exact ih.repeated (2 * n)
    | unsigned | signed | null | bool | float => exact .pure ()

/-! ## Readers -/

/-- **A reader that looks at nothing behind what it takes**, however deep it stands. -/
def Reader.Steady (x : Reader α) : Prop := ∀ room, Scanner.Steady (x room)

namespace Reader.Steady

variable {x : Reader α} {f : α → Reader β}

theorem pure (a : α) : Reader.Steady (Pure.pure a) := fun _ => .pure a

theorem failure : Reader.Steady (Alternative.failure : Reader α) := fun _ => .failure

theorem lift {s : Scanner α} (hs : Scanner.Steady s) : Reader.Steady (liftM s) := fun _ => hs

/-- One reader after another. -/
theorem bind (hx : Reader.Steady x) (hf : ∀ a, Reader.Steady (f a)) : Reader.Steady (x >>= f) :=
  fun room => (hx room).bind fun a => hf a room

theorem map (hx : Reader.Steady x) (g : α → β) : Reader.Steady (do return g (← x)) :=
  hx.bind fun a => .pure (g a)

theorem ite {c : Prop} [Decidable c] {y : Reader α} (hx : Reader.Steady x) (hy : Reader.Steady y) :
    Reader.Steady (if c then x else y) := by
  split
  · exact hx
  · exact hy

theorem nested (hx : Reader.Steady x) : Reader.Steady (nested x) := by
  intro room
  cases room with
  | zero => exact .failure
  | succ room => exact hx room

theorem foldlM {step : α → β → Reader α} (hstep : ∀ a b, Reader.Steady (step a b)) (items : List β)
    (a : α) : Reader.Steady (items.foldlM step a) := by
  induction items generalizing a with
  | nil => exact .pure a
  | cons b items ih => exact (hstep a b).bind fun a' => ih a'

theorem mapM {g : β → Reader α} (hg : ∀ b, Reader.Steady (g b)) (items : List β) :
    Reader.Steady (items.mapM g) := by
  induction items with
  | nil => exact .pure []
  | cons b items ih =>
    rw [List.mapM_cons]
    exact (hg b).bind fun a => ih.bind fun l => .pure (a :: l)

end Reader.Steady

/-! ## Values -/

section Values

variable {decode : Decoder α}

theorem steady_read (hdecode : ∀ h, Reader.Steady (decode h)) : Reader.Steady (read decode) :=
  (Reader.Steady.lift steady_head).bind hdecode

theorem steady_below (bound : Nat) (h : Head) : Reader.Steady (below bound h) := by
  cases h with
  | unsigned n | signed i => exact .ite (.pure _) .failure
  | null | bool | float | text | binary | array | map | extension => exact .failure

theorem steady_octet (h : Head) : Reader.Steady (octet h) := (steady_below 256 h).map _

theorem steady_many (hdecode : ∀ h, Reader.Steady (decode h)) (n : Nat) (before : List α) :
    Reader.Steady (many decode n before) := by
  induction n generalizing before with
  | zero => exact .pure _
  | succ n ih => exact (steady_read hdecode).bind fun a => ih (a :: before)

/-- A list, be it an array or a binary value. -/
theorem steady_listOf (hdecode : ∀ h, Reader.Steady (decode h)) (h : Head) :
    Reader.Steady (listOf decode h) := by
  cases h with
  | array n => exact (steady_many hdecode n []).nested
  | binary n =>
    exact (Reader.Steady.lift (steady_take n)).bind fun taken =>
      .mapM (fun b => hdecode (.unsigned b.toNat)) taken
  | unsigned | signed | null | bool | float | text | map | extension => exact .failure

theorem steady_octets (h : Head) : Reader.Steady (octets h) := steady_listOf steady_octet h

theorem steady_position (names : List Bytes) (h : Head) : Reader.Steady (position names h) := by
  cases h with
  | text n | binary n => exact (Reader.Steady.lift (steady_take n)).map _
  | unsigned k => exact .pure _
  | signed | null | bool | float | array | map | extension => exact .failure

end Values

/-! ## Records and enumerations -/

section Records

variable {schema : Schema α}

theorem Schema.steady_entries (hfield : ∀ i a h, Reader.Steady (schema.field i a h)) (n : Nat)
    (given : List Nat) (a : α) : Reader.Steady (schema.entries n given a) := by
  induction n generalizing given a with
  | zero => exact .pure _
  | succ n ih =>
    refine (steady_read (steady_position schema.names)).bind fun position => ?_
    cases position with
    -- An unknown name: its value is passed over.
    | none => exact Reader.Steady.bind (fun room => steady_skipWithin room) fun _ => ih given a
    | some i =>
      refine .ite .failure ?_
      exact (steady_read (hfield i a)).bind fun a' => ih (i :: given) a'

/-- A record, in whichever form it is given. -/
theorem Schema.steady (hfield : ∀ i a h, Reader.Steady (schema.field i a h)) (h : Head) :
    Reader.Steady (schema.decoder h) := by
  cases h with
  | array n =>
    refine .ite (.nested (.foldlM (fun a i => ?_) _ _)) .failure
    exact (Reader.Steady.lift steady_head).bind fun h => hfield i a h
  -- Each byte is the value of a field.
  | binary n =>
    refine (Reader.Steady.lift (steady_take n)).bind fun taken => .ite .failure (.foldlM ?_ _ _)
    exact fun a b => hfield b.2 a (.unsigned b.1.toNat)
  | map n =>
    refine .nested ((schema.steady_entries hfield n [] schema.blank).bind fun r => ?_)
    exact .ite (.pure _) .failure
  | unsigned | signed | null | bool | float | text | extension => exact .failure

theorem steady_variant (names : List Bytes) (h : Head) : Reader.Steady (variant names h) := by
  cases h with
  | map n =>
    refine .ite .failure ((steady_read (steady_position names)).bind fun i => ?_)
    cases i with
    | none => exact .failure
    | some i => exact .pure (i, true)
  -- The name stands alone.
  | unsigned | signed | null | bool | float | text | binary | array | extension =>
    refine (steady_position names _).bind fun i => ?_
    cases i with
    | none => exact .failure
    | some i => exact .pure (i, false)

theorem steady_dataVariant (names : List Bytes) (h : Head) :
    Reader.Steady (dataVariant names h) :=
  (steady_variant names h).bind fun _ => .ite (.pure _) .failure

end Records

/-! ## Truncated values -/

section Truncated

variable {x : Reader α} {room depth : Nat} {bytes part : Bytes} {a : α} {decode : Decoder α}

/-- **Part of what a reader takes is refused.** -/
theorem Runs.eq_none_of_truncated (hx : Runs x room bytes a) (hsteady : Reader.Steady x)
    (hpart : part <+: bytes) (hne : part ≠ bytes) : x room part = none := by
  obtain ⟨missing, rfl⟩ := hpart
  by_contra hsome
  obtain ⟨⟨b, left⟩, htaken⟩ := Option.ne_none_iff_exists'.1 hsome
  -- All bytes are there: the missing ones are left behind, and yet nothing is left.
  have hleft : x room (part ++ missing) = some (b, left ++ missing) :=
    hsteady room part b left htaken missing
  have hnothing : x room (part ++ missing) = some (a, []) := by simpa using hx []
  have hmissing : left ++ missing = [] :=
    (Prod.mk.inj (Option.some.inj (hleft.symm.trans hnothing))).2
  exact hne (by rw [(List.append_eq_nil_iff.1 hmissing).2, List.append_nil])

/-- **A written value that is cut off is refused.** -/
theorem Writes.decode?_truncated (hw : Writes depth decode bytes a) (hd : depth ≤ nestingLimit)
    (hsteady : ∀ h, Reader.Steady (decode h)) (hpart : part <+: bytes) (hne : part ≠ bytes) :
    MessagePack.decode? decode part = none := by
  have hread := (hw.runs hd).eq_none_of_truncated (steady_read hsteady) hpart hne
  rw [MessagePack.decode?, hread, Option.map_none]

end Truncated

end PersistentTier.MessagePack
