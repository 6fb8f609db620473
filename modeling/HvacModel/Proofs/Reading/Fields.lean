import HvacModel.Proofs.Grammar
import HvacModel.Proofs.Report
import HvacModel.Document.Read.Fields

/-! # Reading fields cleanly

Each reader of a place is clean exactly when the value there has the shape that the grammar asks
for, and its value is a function of the raw value alone: neither depends on the path.  The lemmas
`clean_object_bind`, `clean_required_bind` and `clean_optional` turn the readers of objects into
the shapes `IsObject`, `Has` and `MayHave`, so that a reader of a record is opened by rewriting. -/

namespace HvacModel.Document.Read

open Report Grammar

variable {α : Type} (path : Path)

@[simp]
theorem not_clean_issue (kind : IssueKind) : ¬(issue path kind).Clean := not_clean_tell _

@[simp]
theorem not_clean_mismatch (expected : Expectation) (found : Value) :
    ¬(mismatch path expected found).Clean := not_clean_issue _ _

/-! ### Scalars -/

@[simp]
theorem value_object (value : Value) : (object path value).value = value.fields? := by
  cases value <;> rfl

@[simp]
theorem value_string (value : Value) : (string path value).value = value.string? := by
  cases value <;> rfl

theorem clean_string (value : Value) : (string path value).Clean ↔ IsString value := by
  cases value <;> simp [string, IsString]

theorem clean_number (value : Value) : (number path value).Clean ↔ IsNumber value := by
  cases value <;> simp [number, IsNumber]

theorem value_number (n : Number) : (number path (.number n)).value = some n.toFloat := rfl

theorem integer?_isSome_iff (n : Number) :
    n.integer?.isSome ↔ ∃ i : Int, n = .int i ∧ -9223372036854775808 ≤ i ∧
      i ≤ 9223372036854775807 := by
  cases n with
  | float x => simp [Number.integer?]
  | int i =>
      have hmin : Int64.minValue.toInt = -9223372036854775808 := rfl
      have hmax : Int64.maxValue.toInt = 9223372036854775807 := rfl
      simp only [Number.integer?, hmin, hmax, Option.isSome_ite, Number.int.injEq,
        exists_eq_left']

theorem isInteger_number_iff (n : Number) : IsInteger (.number n) ↔ n.integer?.isSome := by
  rw [integer?_isSome_iff]
  simp only [IsInteger, Value.number.injEq]

theorem clean_integer (value : Value) : (integer path value).Clean ↔ IsInteger value := by
  cases value with
  | number n =>
      rw [isInteger_number_iff]
      cases h : n.integer? with
      | none => simp [integer, h]
      | some i => simp [integer, h]
  | _ => simp [integer, IsInteger]

theorem value_integer_of_isInteger {value : Value} (h : IsInteger value) :
    (integer path value).value.isSome := by
  obtain ⟨i, rfl, hi⟩ := h
  have hsome : (Number.int i).integer?.isSome := (integer?_isSome_iff _).mpr ⟨i, rfl, hi⟩
  cases hn : (Number.int i).integer? with
  | none => simp [hn] at hsome
  | some j => simp [integer, hn]

theorem clean_boolean (value : Value) : (boolean path value).Clean ↔ IsFlag value := by
  cases value <;> simp [boolean, IsFlag]

/-! ### Fields of an object -/

theorem clean_object_bind (value : Value) (step : Fields → Reading (Option α)) :
    (object path value >>= fun fields => whenSome fields step).Clean ↔
      IsObject (fun fields => (step fields).Clean) value := by
  cases value <;> simp [object, IsObject]

theorem clean_checkFields (allowed : List String) (fields : Fields) :
    (checkFields path allowed fields).Clean ↔ Only allowed fields := by
  induction fields with
  | nil => simp [checkFields, Only]
  | cons e rest ih =>
      obtain ⟨key, value⟩ := e
      by_cases h : key ∈ allowed
      · simpa [checkFields, Only, h] using ih
      · simp [checkFields, Only, h]

@[simp]
theorem value_required (fields : Fields) (key : String) :
    (required path fields key).value = Value.field? fields key := by
  unfold required
  cases Value.field? fields key <;> rfl

theorem clean_required_bind (fields : Fields) (key : String)
    (step : Value → Reading (Option α)) :
    (required path fields key >>= fun value => whenSome value step).Clean ↔
      Has fields key fun value => (step value).Clean := by
  unfold required Has
  cases Value.field? fields key with
  | none => simp
  | some value => simp

theorem clean_optional (fields : Fields) (key : String) (step : Value → Reading (Option α)) :
    (whenSome (Value.field? fields key) step).Clean ↔
      MayHave fields key fun value => (step value).Clean := clean_whenSome _ _

theorem clean_requiredString (fields : Fields) (key : String) :
    (requiredString path fields key).Clean ↔ Has fields key IsString := by
  unfold requiredString
  rw [clean_required_bind]
  simp only [clean_string]

theorem clean_requiredString_bind (fields : Fields) (key : String)
    (step : String → Reading (Option α)) :
    (requiredString path fields key >>= fun text => whenSome text step).Clean ↔
      Has fields key fun value => ∃ text, value = .string text ∧ (step text).Clean := by
  unfold requiredString required Has
  cases Value.field? fields key with
  | none => simp
  | some value => cases value <;> simp [string]

theorem value_requiredString (fields : Fields) (key : String) :
    (requiredString path fields key).value = (Value.field? fields key).bind Value.string? := by
  simp [requiredString]

theorem value_requiredString_of_has {fields : Fields} {key : String} (h : Has fields key IsString) :
    (requiredString path fields key).value.isSome := by
  obtain ⟨_, hf, s, rfl⟩ := h
  simp [value_requiredString, hf, Value.string?]

theorem clean_requiredInteger (fields : Fields) (key : String) :
    (requiredInteger path fields key).Clean ↔ Has fields key IsInteger := by
  unfold requiredInteger
  rw [clean_required_bind]
  simp only [clean_integer]

theorem value_requiredInteger_of_has {fields : Fields} {key : String}
    (h : Has fields key IsInteger) : (requiredInteger path fields key).value.isSome := by
  obtain ⟨value, hf, hi⟩ := h
  simpa [requiredInteger, hf] using value_integer_of_isInteger _ hi

theorem clean_nameOr (fields : Fields) (key : String) :
    (nameOr path fields key).Clean ↔ MayHave fields "name" IsString := by
  unfold nameOr
  rw [clean_bind, clean_optional, and_iff_left (clean_pure _)]
  simp only [clean_string]

theorem clean_names (position : Nat) (items : List Value) :
    (names path position items).Clean ↔ ∀ item ∈ items, IsString item := by
  induction items generalizing position with
  | nil => simp [names]
  | cons item rest ih => simp [names, clean_string, ih]

theorem clean_nameList (value : Value) : (nameList path value).Clean ↔ IsNameList value := by
  cases value with
  | array items => simp [nameList, IsNameList, IsString, clean_names]
  | _ => simp [nameList, IsNameList, IsString]

/-! ### Attributes -/

theorem clean_scalar (value : Value) : (scalar path value).Clean ↔ IsScalar value := by
  cases value <;> simp [scalar, IsScalar, IsFlag, IsNumber, IsString, AttributeValue.ofValue?]

theorem clean_typedScalar (kind : AttributeKind) (value : Value) :
    (typedScalar path kind value).Clean ↔ IsOfKind kind value := by
  cases kind <;> cases value <;>
    simp [typedScalar, scalar, AttributeValue.ofValue?, AttributeValue.kind, IsOfKind, IsNumber,
      IsString, IsFlag]

@[simp]
theorem clean_entry (key : String) (read : Reading (Option α)) :
    (entry key read).Clean ↔ read.Clean := by simp [entry]

/-- Where names are declared once, looking a name up is finding its declaration. -/
theorem lookup_eq_some_iff {specs : List AttributeSpec} (hn : (specs.map AttributeSpec.name).Nodup)
    (key : String) (spec : AttributeSpec) :
    AttributeSpec.lookup specs key = some spec ↔ spec ∈ specs ∧ spec.name = key := by
  constructor
  · intro h
    exact ⟨List.mem_of_find?_eq_some h, by simpa using List.find?_some h⟩
  · rintro ⟨hmem, rfl⟩
    induction specs with
    | nil => cases hmem
    | cons first rest ih =>
        obtain ⟨hfirst, hrest⟩ := List.nodup_cons.mp hn
        rcases List.mem_cons.mp hmem with rfl | hmem
        · simp [AttributeSpec.lookup]
        · have hne : first.name ≠ spec.name := fun e =>
            hfirst (e ▸ List.mem_map_of_mem hmem)
          simpa [AttributeSpec.lookup, hne] using ih hrest hmem

theorem declares_iff {specs : List AttributeSpec} (hn : (specs.map AttributeSpec.name).Nodup)
    (key : String) (value : Value) :
    Declares specs key value ↔
      ∃ spec, AttributeSpec.lookup specs key = some spec ∧ IsOfKind spec.kind value := by
  simp only [Declares, lookup_eq_some_iff hn, and_assoc]

theorem clean_openAttributes (except : List String) (fields : Fields) :
    (openAttributes path except fields).Clean ↔ OpenAttributes except fields := by
  unfold openAttributes OpenAttributes
  rw [clean_bind, clean_collect, and_iff_left (clean_pure _)]
  apply forall₂_congr
  intro e _
  by_cases h : e.1 ∈ except
  · simp [h]
  · simp [h, clean_scalar]

end HvacModel.Document.Read
