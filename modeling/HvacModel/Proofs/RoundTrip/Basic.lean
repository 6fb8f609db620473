import HvacModel.Document.Decode
import HvacModel.Document.Encode
import HvacModel.Proofs.Model.Encode
import HvacModel.Proofs.NameMap

/-! # Writing and reading back

An encoder and a decoder make a round trip when what is written comes back as it was, and comes back
at all exactly where it is *kept* (`RoundTrips`).  A double is kept where it is finite, an integer
in the range of its field.  Round trips go through lists (`RoundTrips.mapM`), and where a decoder
reads one part after the other each part may be read off alone (`RoundTrips.bind`).

The entries of a record are looked up by their keys, so a lookup passes over the entries before its
own (`field_cons_of_ne`). -/

namespace HvacModel

variable {α β γ : Type}

/-- What follows the reading of a part goes on with the part that was read. -/
theorem bind_eq_some_iff_of {read : Option α} {kept : Prop} {a : α}
    (h : ∀ found, read = some found ↔ kept ∧ a = found) (next : α → Option β) (b : β) :
    read.bind next = some b ↔ kept ∧ next a = some b := by
  rw [Option.bind_eq_some_iff]
  constructor
  · rintro ⟨found, hfound, hnext⟩
    obtain ⟨hkept, rfl⟩ := (h found).mp hfound
    exact ⟨hkept, hnext⟩
  · rintro ⟨hkept, hnext⟩
    exact ⟨a, (h a).mpr ⟨hkept, rfl⟩, hnext⟩

/-- What is written comes back as it was, and does so exactly where it is kept. -/
structure RoundTrips (encode : α → γ) (decode : γ → Option α) (kept : α → Prop) : Prop where
  iff : ∀ a b, decode (encode a) = some b ↔ kept a ∧ a = b

namespace RoundTrips

variable {encode : α → γ} {decode : γ → Option α} {kept : α → Prop}

theorem bind (h : RoundTrips encode decode kept) (a : α) (next : α → Option β) (b : β) :
    (decode (encode a)).bind next = some b ↔ kept a ∧ next a = some b :=
  bind_eq_some_iff_of (h.iff a) next b

/-- A list comes back when all its members do. -/
theorem mapM (h : RoundTrips encode decode kept) :
    RoundTrips (List.map encode) (List.mapM decode) fun items => ∀ a ∈ items, kept a where
  iff items found := by
    induction items generalizing found with
    | nil => simp
    | cons a rest ih =>
        simp only [List.map_cons, List.mapM_cons, Option.bind_eq_bind, h.bind,
          Option.bind_eq_some_iff, ih, Option.pure_def, Option.some.injEq, List.forall_mem_cons]
        constructor
        · rintro ⟨ha, _, ⟨hrest, rfl⟩, rfl⟩
          exact ⟨⟨ha, hrest⟩, rfl⟩
        · rintro ⟨⟨ha, hrest⟩, rfl⟩
          exact ⟨ha, rest, ⟨hrest, rfl⟩, rfl⟩

end RoundTrips

/-! ### Attributes -/

/-- An attribute value comes back with its kind. -/
theorem AttributeValue.roundTrips : RoundTrips encode ofValue? AttributeValue.Finite where
  iff v w := by
    cases v with
    | flag b => simp [encode, ofValue?, Finite]
    | number x =>
        rw [encode, Value.ofFloat, Finite]
        split
        · next hfinite => simp [ofValue?, Number.toFloat, hfinite]
        · next hfinite => simp [ofValue?, hfinite]
    | text s => simp [encode, ofValue?, Finite]

theorem AttributeValue.roundTrips_entry :
    RoundTrips (fun e : String × AttributeValue => (e.1, e.2.encode))
      (fun f => (ofValue? f.2).map fun v => (f.1, v)) fun e => e.2.Finite where
  iff e f := by
    obtain ⟨name, v⟩ := e
    simp [Option.map_eq_bind, roundTrips.bind]

theorem Attributes.roundTrips : RoundTrips encode decode? Attributes.Finite where
  iff a b := by
    have hread : decode? a.encode = ((a.entries.map fun e => (e.1, e.2.encode)).mapM fun f =>
        (AttributeValue.ofValue? f.2).map fun v => (f.1, v)).bind fun entries =>
          some (NameMap.ofList entries) := rfl
    rw [hread, AttributeValue.roundTrips_entry.mapM.bind, NameMap.ofList_entries,
      Option.some.injEq, Finite]

/-! ### Times and weekdays -/

theorem TimeOfDay.roundTrips : RoundTrips encode decode? fun _ => True where
  iff t u := by simp [encode, decode?, read_render, Except.toOption]

/-- A mask comes back, the bit that no weekday has included. -/
theorem WeekdaySet.roundTrips : RoundTrips encode decode? fun _ => True where
  iff s t := by
    have hlt : s.mask.toNat < 256 := s.mask.isLt
    simp [encode, decode?, Value.ofNat, bits, Number.natBelow?, ofBits?, hlt]

namespace Document

/-! ### Scalars and lists -/

section Scalars

variable {encode : α → Value} {decode : Value → Option α} {kept : α → Prop}

theorem roundTrips_string : RoundTrips Value.string Value.string? fun _ => True where
  iff s t := by simp [Value.string?]

theorem roundTrips_member {name : α → String} {ofName? : String → Option α}
    (h : ∀ a, ofName? (name a) = some a) :
    RoundTrips (fun a => Value.string (name a)) (memberOf? ofName?) fun _ => True where
  iff a b := by simp [memberOf?, memberName?, h]

theorem roundTrips_position : RoundTrips Value.ofNat position? (· < UInt64.size) where
  iff m n := by simp [Value.ofNat, position?, Number.natBelow?]

/-- An integer of 64 bits with sign. -/
def IsInt64 (i : Int) : Prop := Int64.minValue.toInt ≤ i ∧ i ≤ Int64.maxValue.toInt

theorem roundTrips_integer : RoundTrips encodeInt integer? IsInt64 where
  iff i j := by simp [encodeInt, integer?, Number.integer?, IsInt64]

theorem roundTrips_float : RoundTrips Value.ofFloat float? fun x => x.isFinite = true where
  iff x y := by
    rw [Value.ofFloat]
    split
    · next hfinite => simp [float?, Number.toFloat, hfinite]
    · next hfinite => simp [float?, hfinite]

theorem roundTrips_list (h : RoundTrips encode decode kept) :
    RoundTrips (.ofList encode) (listOf? decode) fun items => ∀ a ∈ items, kept a where
  iff := h.mapM.iff

end Scalars

/-! ### Fields -/

section Fields

variable {encode : α → Value} {decode : Value → Option α} {kept : α → Prop} {key other : String}

@[simp]
theorem field_cons_self (key : String) (value : Value) (rest : List (String × Value)) :
    field decode ((key, value) :: rest) key = decode value := by
  simp [field, Value.field?]

@[simp]
theorem field_cons_of_ne (h : key ≠ other) (value : Value) (rest : List (String × Value)) :
    field decode ((other, value) :: rest) key = field decode rest key := by
  simp [field, Value.field?, NameMap.lookup_cons_ite, h]

@[simp]
theorem fieldOr_cons_self (default : α) (key : String) (value : Value)
    (rest : List (String × Value)) :
    fieldOr default decode ((key, value) :: rest) key = decode value := by
  simp [fieldOr, Value.field?]

@[simp]
theorem fieldOr_cons_of_ne (default : α) (h : key ≠ other) (value : Value)
    (rest : List (String × Value)) :
    fieldOr default decode ((other, value) :: rest) key = fieldOr default decode rest key := by
  simp [fieldOr, Value.field?, NameMap.lookup_cons_ite, h]

@[simp]
theorem optionalField_nil (key : String) : optionalField decode [] key = some none := rfl

@[simp]
theorem optionalField_cons_null (key : String) (rest : List (String × Value)) :
    optionalField decode ((key, .null) :: rest) key = some none := by
  simp [optionalField, Value.field?]

theorem optionalField_cons_self (key : String) {value : Value} (h : value ≠ .null)
    (rest : List (String × Value)) :
    optionalField decode ((key, value) :: rest) key = (decode value).map some := by
  rw [optionalField, Value.field?, List.lookup_cons_self]
  cases value <;> first | rfl | contradiction

@[simp]
theorem optionalField_cons_of_ne (h : key ≠ other) (value : Value)
    (rest : List (String × Value)) :
    optionalField decode ((other, value) :: rest) key = optionalField decode rest key := by
  simp [optionalField, Value.field?, NameMap.lookup_cons_ite, h]

/-- An optional field that is written in any case, absent as `null`. -/
theorem roundTrips_optional (h : RoundTrips encode decode kept) (hnull : ∀ a, encode a ≠ .null)
    (key : String) (rest : List (String × Value)) :
    RoundTrips (fun a => (key, Value.ofOption encode a) :: rest)
      (fun fields => optionalField decode fields key) fun a => ∀ x ∈ a, kept x where
  iff a b := by
    cases a with
    | none => simp [Value.ofOption]
    | some x =>
        rw [Value.ofOption, optionalField_cons_self key (hnull x), Option.map_eq_bind, h.bind]
        simp

end Fields

end Document

end HvacModel
