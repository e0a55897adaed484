import PersistentTier.MessagePack.Record
import Mathlib.Tactic.Ring

/-!
# How long what is read can be

A length is read from four bytes at most, so no list that is read has `2 ^ 32` items, whichever of its
forms it is read from. Said of a record, this needs an argument about each of its fields only: what
holds of the blank record and is kept by every field holds of what is read, with the fields in order,
as a map, or from bytes.

## Main definitions

* `Head.Short`: a head that announces fewer than `2 ^ 32` items
* `Finds`: what holds of whatever a reader returns

## Main results

* `finds_read`, `finds_listOf`, `finds_option`: the kinds of values
* `Schema.finds`: records
-/

namespace PersistentTier.MessagePack

variable {α β : Type}

/-! ## Heads -/

/-- **A head that announces fewer than `2 ^ 32` items.** -/
def Head.Short : Head → Prop
  | .array n | .binary n | .map n => n < 2 ^ 32
  | _ => True

theorem ofBigEndian_lt (bytes : Bytes) : ofBigEndian bytes < 256 ^ bytes.length := by
  have hfold : ∀ (bytes : Bytes) (acc : Nat),
      bytes.foldl (fun n b => n * 256 + b.toNat) acc < (acc + 1) * 256 ^ bytes.length := by
    intro bytes
    induction bytes with
    | nil => intro acc; simp
    | cons b bytes ih =>
      intro acc
      have hb : b.toNat < 256 := b.toNat_lt
      calc bytes.foldl (fun n b => n * 256 + b.toNat) (acc * 256 + b.toNat)
          < (acc * 256 + b.toNat + 1) * 256 ^ bytes.length := ih _
        _ ≤ ((acc + 1) * 256) * 256 ^ bytes.length := Nat.mul_le_mul_right _ (by omega)
        _ = (acc + 1) * 256 ^ (b :: bytes).length := by rw [List.length_cons, pow_succ]; ring
  simpa [ofBigEndian] using hfold bytes 0

theorem length_of_take {n : Nat} {bytes taken rest : Bytes} (h : take n bytes = some (taken, rest)) :
    taken.length = n := (Bytes.front?_eq_some_iff.1 h).1

theorem number_lt {width n : Nat} {bytes rest : Bytes} (h : number width bytes = some (n, rest)) :
    n < 256 ^ width := by
  change ((take width bytes).bind fun r => some (ofBigEndian r.1, r.2)) = _ at h
  obtain ⟨⟨taken, rest'⟩, htake, hn⟩ := Option.bind_eq_some_iff.1 h
  obtain ⟨rfl, -⟩ := Prod.mk.inj (Option.some.inj hn)
  exact length_of_take htake ▸ ofBigEndian_lt taken

/-- What a scanner announces is short. -/
def Announces (x : Scanner Head) : Prop := ∀ bytes h rest, x bytes = some (h, rest) → h.Short

theorem announces_pure {h : Head} (hh : h.Short) : Announces (pure h) := by
  rintro bytes h' rest ⟨⟩
  exact hh

theorem announces_bind {x : Scanner α} {f : α → Head}
    (hf : ∀ bytes a rest, x bytes = some (a, rest) → (f a).Short) :
    Announces (do return f (← x)) := by
  intro bytes h rest hrun
  change ((x bytes).bind fun r => some (f r.1, r.2)) = _ at hrun
  obtain ⟨⟨a, rest'⟩, hx, ha⟩ := Option.bind_eq_some_iff.1 hrun
  obtain ⟨rfl, -⟩ := Prod.mk.inj (Option.some.inj ha)
  exact hf bytes a rest' hx

/-- A length of at most four bytes is short. -/
theorem announces_number {width : Nat} {f : Nat → Head} (hwidth : width ≤ 4)
    (hf : ∀ n < 2 ^ 32, (f n).Short) : Announces (do return f (← number width)) := by
  refine announces_bind fun bytes n rest hn => hf n ?_
  calc n < 256 ^ width := number_lt hn
    _ ≤ 256 ^ 4 := Nat.pow_le_pow_right (by decide) hwidth
    _ = 2 ^ 32 := by decide

/-- **Every head is short.** -/
theorem announces_headOf (m : Nat) : Announces (headOf m) := by
  unfold headOf
  split
  · exact announces_pure trivial
  split
  · exact announces_pure (show m - 0x80 < 2 ^ 32 by omega)
  split
  · exact announces_pure (show m - 0x90 < 2 ^ 32 by omega)
  split
  · exact announces_pure trivial
  split
  · exact announces_pure trivial
  -- The marker stands alone, or a number follows it.
  split <;> first
    | exact announces_pure trivial
    | exact announces_number (by decide) fun n hn => hn
    | exact announces_bind fun _ _ _ _ => trivial
    | exact fun _ _ _ h => nomatch h

theorem short_of_head {bytes rest : Bytes} {h : Head} (hh : head bytes = some (h, rest)) :
    h.Short := by
  change ((byte bytes).bind fun r => headOf r.1.toNat r.2) = _ at hh
  obtain ⟨⟨m, rest'⟩, -, hm⟩ := Option.bind_eq_some_iff.1 hh
  exact announces_headOf _ _ _ _ hm

/-! ## Readers -/

/-- **What holds of whatever a reader returns.** -/
def Finds (x : Reader α) (P : α → Prop) : Prop :=
  ∀ room bytes a rest, x room bytes = some (a, rest) → P a

namespace Finds

variable {x : Reader α} {f : α → Reader β} {P : α → Prop} {Q : β → Prop} {a : α}

theorem pure (ha : P a) : Finds (Pure.pure a : Reader α) P := by
  rintro room bytes a' rest ⟨⟩
  exact ha

theorem failure : Finds (Alternative.failure : Reader α) P := by
  rintro room bytes a rest ⟨⟩

theorem mono {P' : α → Prop} (hx : Finds x P) (hP : ∀ a, P a → P' a) : Finds x P' :=
  fun room bytes a rest h => hP a (hx room bytes a rest h)

/-- One reader after another. -/
theorem bind (hx : Finds x P) (hf : ∀ a, P a → Finds (f a) Q) : Finds (x >>= f) Q := by
  intro room bytes b rest hrun
  change ((x room bytes).bind fun r => f r.1 room r.2) = _ at hrun
  obtain ⟨⟨a, rest'⟩, ha, hb⟩ := Option.bind_eq_some_iff.1 hrun
  exact hf a (hx _ _ _ _ ha) _ _ _ _ hb

/-- Whatever comes first. -/
theorem after (hf : ∀ a, Finds (f a) Q) : Finds (x >>= f) Q :=
  bind (P := fun _ => True) (fun _ _ _ _ _ => trivial) fun a _ => hf a

theorem ite {c : Prop} [Decidable c] {y : Reader α} (hx : Finds x P) (hy : Finds y P) :
    Finds (if c then x else y) P := by
  split
  · exact hx
  · exact hy

theorem nested (hx : Finds x P) : Finds (MessagePack.nested x) P := by
  intro room bytes a rest h
  cases room with
  | zero => cases h
  | succ room => exact hx room bytes a rest h

/-- What every step keeps holds at the end. -/
theorem foldlM {step : α → β → Reader α} (hstep : ∀ a b, P a → Finds (step a b) P) (items : List β)
    (ha : P a) : Finds (items.foldlM step a) P := by
  induction items generalizing a with
  | nil => exact pure ha
  | cons b items ih => exact (hstep a b ha).bind fun a' ha' => ih ha'

theorem mapM {g : β → Reader α} (hg : ∀ b, Finds (g b) P) (items : List β) :
    Finds (items.mapM g) fun l => l.length = items.length ∧ ∀ a ∈ l, P a := by
  induction items with
  | nil => exact pure ⟨rfl, by simp⟩
  | cons b items ih =>
    rw [List.mapM_cons]
    refine (hg b).bind fun a ha => ih.bind fun l hl => pure ?_
    exact ⟨by simp [hl.1], List.forall_mem_cons.2 ⟨ha, hl.2⟩⟩

end Finds

theorem finds_head : Finds (liftM head : Reader Head) Head.Short := fun _ _ _ _ h => short_of_head h

theorem finds_take (n : Nat) : Finds (liftM (take n) : Reader Bytes) fun taken => taken.length = n :=
  fun _ _ _ _ h => length_of_take h

section Values

variable {decode : Decoder α} {P : α → Prop}

/-- A whole value is one that is decoded from a short head. -/
theorem finds_read (hdecode : ∀ h : Head, h.Short → Finds (decode h) P) : Finds (read decode) P :=
  finds_head.bind hdecode

/-- What is found at the front of a byte string. -/
theorem of_decode? (hdecode : ∀ h : Head, h.Short → Finds (decode h) P) {bytes : Bytes} {a : α}
    (h : MessagePack.decode? decode bytes = some a) : P a := by
  obtain ⟨⟨a', rest⟩, hread, rfl⟩ := Option.map_eq_some_iff.1 h
  exact finds_read hdecode _ _ _ _ hread

theorem finds_many (hdecode : ∀ h : Head, h.Short → Finds (decode h) P) (n : Nat) {before : List α}
    (hbefore : ∀ a ∈ before, P a) :
    Finds (many decode n before) fun l => l.length = before.length + n ∧ ∀ a ∈ l, P a := by
  induction n generalizing before with
  | zero => exact .pure ⟨List.length_reverse, fun a ha => hbefore a (List.mem_reverse.1 ha)⟩
  | succ n ih =>
    refine (finds_read hdecode).bind fun a ha => (ih (List.forall_mem_cons.2 ⟨ha, hbefore⟩)).mono ?_
    rintro l ⟨hlength, hl⟩
    exact ⟨by rw [hlength, List.length_cons]; omega, hl⟩

/-- **A list that is read** has fewer than `2 ^ 32` items. -/
theorem finds_listOf (hdecode : ∀ h : Head, h.Short → Finds (decode h) P) {h : Head} (hh : h.Short) :
    Finds (listOf decode h) fun l => l.length < 2 ^ 32 ∧ ∀ a ∈ l, P a := by
  cases h with
  | array n =>
    have hmany := finds_many hdecode n (List.forall_mem_nil P)
    refine (hmany.mono ?_).nested
    rintro l ⟨hlength, hl⟩
    exact ⟨by rw [hlength, List.length_nil, Nat.zero_add]; exact hh, hl⟩
  | binary n =>
    refine (finds_take n).bind fun taken htaken =>
      (Finds.mapM (fun b => hdecode (.unsigned b.toNat) trivial) taken).mono ?_
    rintro l ⟨hlength, hl⟩
    exact ⟨by rw [hlength, htaken]; exact hh, hl⟩
  | unsigned | signed | null | bool | float | text | map | extension => exact .failure

theorem finds_length_listOf (decode : Decoder α) {h : Head} (hh : h.Short) :
    Finds (listOf decode h) fun l => l.length < 2 ^ 32 := by
  have hany : ∀ h : Head, h.Short → Finds (decode h) fun _ => True := fun _ _ _ _ _ _ _ => trivial
  exact (finds_listOf hany hh).mono fun _ hl => hl.1

theorem finds_option (hdecode : ∀ h : Head, h.Short → Finds (decode h) P) {h : Head} (hh : h.Short) :
    Finds (option decode h) fun o => ∀ a, o = some a → P a := by
  cases h with
  | null => exact .pure (by simp)
  | array | binary | unsigned | signed | bool | float | text | map | extension =>
    refine (hdecode _ hh).bind fun a ha => .pure ?_
    rintro _ ⟨⟩
    exact ha

end Values

/-! ## Records -/

namespace Schema

variable {schema : Schema α} {P : α → Prop}

theorem finds_entries (hfield : ∀ i a (h : Head), P a → h.Short → Finds (schema.field i a h) P)
    (n : Nat) (given : List Nat) {a : α} (ha : P a) :
    Finds (schema.entries n given a) fun r => P r.2 := by
  induction n generalizing given a with
  | zero => exact .pure ha
  | succ n ih =>
    refine .after fun position => ?_
    cases position with
    | none => exact .after fun _ => ih given ha
    | some i =>
      refine .ite .failure ?_
      exact (finds_read fun h hh => hfield i a h ha hh).bind fun a' ha' => ih (i :: given) ha'

/-- **What every field keeps holds of a record that is read**, in whichever form it is given. -/
theorem finds (hblank : P schema.blank)
    (hfield : ∀ i a (h : Head), P a → h.Short → Finds (schema.field i a h) P) {h : Head}
    (hh : h.Short) : Finds (schema.decoder h) P := by
  cases h with
  | array n =>
    refine .ite (Finds.nested (.foldlM (fun a i ha => ?_) _ hblank)) .failure
    exact finds_head.bind fun h hh => hfield i a h ha hh
  | binary n =>
    refine .after fun taken => .ite .failure (.foldlM (fun a b ha => ?_) _ hblank)
    exact hfield b.2 a (.unsigned b.1.toNat) ha trivial
  | map n =>
    refine Finds.nested ((finds_entries hfield n [] hblank).bind fun r hr => ?_)
    exact .ite (.pure hr) .failure
  | unsigned | signed | null | bool | float | text | extension => exact .failure

end Schema

end PersistentTier.MessagePack
