import HvacModel.Proofs.NameMap
import HvacModel.Proofs.Reading.Fields
import HvacModel.Proofs.Reading.Records
import HvacModel.Proofs.Transcript.Relations

/-! # Reading keeps everything: shapes and records

`Yields r R` says that a reader makes something, and that `R` holds of it.  For each shape of the
grammar there is one lemma that turns what is yielded for the parts into what is yielded for the
whole: `yields_object`, `yields_required`, `yields_table`, `yields_entry`.  A bag of attributes is
collected entry by entry, and `bagOf_collect` needs only that structural entries are passed over and
all others converted. -/

namespace HvacModel.Transcript

open Report Grammar Document Document.Read

variable {α β : Type} (path : Path)

/-- Something is made, and it is as described. -/
def Yields (r : Reading (Option α)) (R : α → Prop) : Prop := ∃ a, r.value = some a ∧ R a

/-! ### Shapes -/

theorem yields_object {P : Fields → Prop} {R : Fields → α → Prop} {value : Value}
    {step : Fields → Reading (Option α)} (h : IsObject P value)
    (hstep : ∀ fields, P fields → Yields (step fields) (R fields)) :
    Yields (object path value >>= fun fields => whenSome fields step) (ObjectOf R value) := by
  obtain ⟨fields, rfl, hp⟩ := h
  obtain ⟨a, ha, hr⟩ := hstep fields hp
  exact ⟨a, ha, fields, rfl, hr⟩

theorem yields_required {P : Value → Prop} {R : Value → α → Prop} {fields : Fields} {key : String}
    {step : Value → Reading (Option α)} (h : Has fields key P)
    (hstep : ∀ value, P value → Yields (step value) (R value)) :
    Yields (required path fields key >>= fun value => whenSome value step)
      (FieldOf R fields key) := by
  obtain ⟨value, hf, hp⟩ := h
  obtain ⟨a, ha, hr⟩ := hstep value hp
  refine ⟨a, ?_, value, hf, hr⟩
  rw [value_bind, value_required, hf]
  exact ha

/-- A table yields a member for each entry. -/
theorem yields_table {P : String → Value → Prop} {R : String → Value → α → Prop} {value : Value}
    {step : String × Value → Reading (Option α)} (h : IsTable P value)
    (hstep : ∀ e, P e.1 e.2 → Yields (step e) (R e.1 e.2)) :
    Yields (object path value >>= fun fields => whenSome fields fun fields =>
      collect step fields >>= fun list => pure (some list)) (TableOf R value) :=
  yields_object path h fun fields hall =>
    ⟨(collect step fields).value, rfl, forall₂_collect fun e he => hstep e (hall e he)⟩

/-- What a field that may be missing is read into, with a value for a missing one. -/
theorem fieldOr_whenSome {P : Value → Prop} {R : Value → α → Prop} {fields : Fields} {key : String}
    {step : Value → Reading (Option α)} {missing : α} (h : MayHave fields key P)
    (hstep : ∀ value, P value → Yields (step value) (R value)) :
    FieldOr missing R fields key
      ((whenSome (Value.field? fields key) step).value.getD missing) := by
  unfold FieldOr
  rw [value_whenSome]
  cases hf : Value.field? fields key with
  | none => rfl
  | some value =>
      obtain ⟨a, ha, hr⟩ := hstep value (h value hf)
      rw [Option.bind_some, ha]
      exact hr

theorem optionalOf_whenSome {P : Value → Prop} {R : Value → α → Prop} {fields : Fields}
    {key : String} {step : Value → Reading (Option α)} (h : MayHave fields key P)
    (hstep : ∀ value, P value → Yields (step value) (R value)) :
    OptionalOf R fields key (whenSome (Value.field? fields key) step).value := by
  unfold OptionalOf
  rw [value_whenSome]
  cases hf : Value.field? fields key with
  | none => exact .none
  | some value =>
      obtain ⟨a, ha, hr⟩ := hstep value (h value hf)
      rw [Option.bind_some, ha]
      exact .some hr

/-! ### Scalars -/

theorem yields_string {value : Value} (h : IsString value) :
    Yields (string path value) (StringOf value) := by
  obtain ⟨s, rfl⟩ := h
  exact ⟨s, rfl, rfl⟩

theorem yields_integer {value : Value} (h : IsInteger value) :
    Yields (integer path value) (IntegerOf value) := by
  obtain ⟨i, rfl, hi⟩ := h
  have hmin : Int64.minValue.toInt = -9223372036854775808 := rfl
  have hmax : Int64.maxValue.toInt = 9223372036854775807 := rfl
  rw [← hmin, ← hmax] at hi
  refine ⟨i, ?_, rfl⟩
  simp only [integer, Number.integer?, if_pos hi, value_pure]

theorem yields_requiredString {fields : Fields} {key : String} (h : Has fields key IsString) :
    Yields (requiredString path fields key) (FieldOf StringOf fields key) :=
  yields_required path h fun _ => yields_string _

theorem yields_requiredInteger {fields : Fields} {key : String} (h : Has fields key IsInteger) :
    Yields (requiredInteger path fields key) (FieldOf IntegerOf fields key) :=
  yields_required path h fun _ => yields_integer _

theorem nameOf_nameOr {fields : Fields} (key : String) (h : MayHave fields "name" IsString) :
    NameOf key fields (nameOr path fields key).value :=
  fieldOr_whenSome h fun _ => yields_string _

theorem value_names {items : List Value} (h : ∀ item ∈ items, IsString item) (position : Nat) :
    items = (names path position items).value.map .string := by
  induction items generalizing position with
  | nil => rfl
  | cons item rest ih =>
      obtain ⟨s, rfl⟩ := h item List.mem_cons_self
      have hrest := ih (fun item hi => h item (List.mem_cons_of_mem _ hi)) (position + 1)
      exact congrArg (.string s :: ·) hrest

theorem namesOf_nameList {value : Value} (h : IsNameList value) :
    NamesOf value (nameList path value).value := by
  rcases h with ⟨s, rfl⟩ | ⟨items, rfl, hall⟩
  · exact .inr ⟨s, rfl, rfl⟩
  · exact .inl (congrArg Value.array (value_names path hall 0))

/-! ### Attributes -/

/-- An attribute of a raw entry: its key with the value that stands there. -/
def AttributeOf (e : String × Value) (a : String × AttributeValue) : Prop :=
  a.1 = e.1 ∧ AttributeValue.ofValue? e.2 = some a.2

theorem yields_scalar {value : Value} (h : IsScalar value) :
    Yields (scalar path value) fun v => AttributeValue.ofValue? value = some v := by
  rcases h with ⟨b, rfl⟩ | ⟨n, rfl⟩ | ⟨s, rfl⟩
  · exact ⟨.flag b, rfl, rfl⟩
  · exact ⟨.number n.toFloat, rfl, rfl⟩
  · exact ⟨.text s, rfl, rfl⟩

theorem yields_typedScalar {kind : AttributeKind} {value : Value} (h : IsOfKind kind value) :
    Yields (typedScalar path kind value) fun v => AttributeValue.ofValue? value = some v := by
  cases kind with
  | number =>
      obtain ⟨n, rfl⟩ := h
      exact ⟨.number n.toFloat, rfl, rfl⟩
  | text =>
      obtain ⟨s, rfl⟩ := h
      exact ⟨.text s, rfl, rfl⟩
  | flag =>
      obtain ⟨b, rfl⟩ := h
      exact ⟨.flag b, rfl, rfl⟩

theorem yields_entry {e : String × Value} {read : Reading (Option AttributeValue)}
    (h : Yields read fun v => AttributeValue.ofValue? e.2 = some v) :
    Yields (entry e.1 read) (AttributeOf e) := by
  obtain ⟨v, hv, hof⟩ := h
  refine ⟨(e.1, v), ?_, rfl, hof⟩
  simp only [entry, value_bind, value_pure, hv, Option.map_some]

/-- Entries that are passed over when they are structural, and converted otherwise, make a bag. -/
theorem bagOf_collect {structural : List String} {fields : Fields}
    {step : String × Value → Reading (Option (String × AttributeValue))}
    (hskip : ∀ e ∈ fields, e.1 ∈ structural → (step e).value = none)
    (htake : ∀ e ∈ fields, e.1 ∉ structural → Yields (step e) (AttributeOf e)) :
    BagOf structural fields (NameMap.ofList (collect step fields).value) := by
  -- every collected attribute is that of an entry which is not structural
  have hmem : ∀ a ∈ (collect step fields).value, ∃ e ∈ fields, e.1 ∉ structural ∧
      AttributeOf e a := by
    intro a ha
    obtain ⟨e, he, hvalue⟩ := mem_value_collect ha
    by_cases hs : e.1 ∈ structural
    · rw [hskip e he hs] at hvalue
      cases hvalue
    · obtain ⟨b, hb, hof⟩ := htake e he hs
      rw [hvalue, Option.some.injEq] at hb
      exact ⟨e, he, hs, hb ▸ hof⟩
  constructor
  · intro key
    rw [NameMap.isSome_find?_ofList]
    constructor
    · rintro ⟨v, hv⟩
      obtain ⟨⟨k, raw⟩, he, hs, hkey, -⟩ := hmem _ hv
      cases hkey
      exact ⟨hs, raw, he⟩
    · rintro ⟨hs, raw, he⟩
      obtain ⟨⟨k, v⟩, ha, hkey, -⟩ := htake (key, raw) he hs
      cases hkey
      refine ⟨v, ?_⟩
      rw [value_collect]
      exact List.mem_filterMap.mpr ⟨(key, raw), he, ha⟩
  · intro key v hv
    obtain ⟨⟨k, raw⟩, he, -, hkey, hof⟩ := hmem _ (NameMap.mem_of_find?_ofList hv)
    cases hkey
    exact ⟨raw, he, hof⟩

theorem bagOf_openAttributes {except : List String} {fields : Fields}
    (h : OpenAttributes except fields) :
    BagOf except fields (openAttributes path except fields).value := by
  refine bagOf_collect (fun e _ hs => ?_) fun e he hs => ?_
  · rw [if_pos hs]
    rfl
  · rw [if_neg hs]
    exact yields_entry (yields_scalar _ ((h e he).resolve_left hs))

/-! ### Sets and records -/

theorem yields_archetypeKey {fields : Fields} (h : HasArchetypeKey fields) :
    Yields (archetypeKey path fields) (ArchetypeFields fields) := by
  obtain ⟨htype, hage, hzone, hstandard⟩ := h
  obtain ⟨buildingType, hv1, htype⟩ := yields_requiredString path htype
  obtain ⟨age, hv2, hage⟩ := yields_requiredInteger path hage
  obtain ⟨zone, hv3, hzone⟩ := yields_requiredString path hzone
  obtain ⟨standard, hv4, hstandard⟩ := yields_requiredString path hstandard
  refine ⟨⟨buildingType, age, zone, standard⟩, ?_, htype, hage, hzone, hstandard⟩
  simp only [archetypeKey, value_bind, value_pure, hv1, hv2, hv3, hv4]
  rfl

theorem yields_constructionSet {e : String × Value} (h : IsConstructionSet e.2) :
    Yields (constructionSet path e) (ConstructionSetOf e.1 e.2) := by
  refine yields_object _ h ?_
  rintro fields ⟨harchetype, hattributes⟩
  obtain ⟨archetype, hv, harchetype⟩ := yields_archetypeKey (path.child e.1) harchetype
  refine ⟨⟨e.1, archetype, _⟩, ?_, rfl, harchetype, bagOf_openAttributes (path.child e.1) hattributes⟩
  simp only [value_bind, value_pure, hv, Option.map_some, archetypeFields]

theorem yields_spaceType {e : String × Value} (h : IsSpaceType e.2) :
    Yields (spaceType path e) (SpaceTypeOf e.1 e.2) := by
  refine yields_object _ h ?_
  rintro fields ⟨hbase, harchetype, hattributes⟩
  obtain ⟨base, hv1, hbase⟩ := yields_requiredString (path.child e.1) hbase
  obtain ⟨archetype, hv2, harchetype⟩ := yields_archetypeKey (path.child e.1) harchetype
  refine ⟨⟨e.1, base, archetype, _⟩, ?_, rfl, hbase, harchetype,
    bagOf_openAttributes (path.child e.1) hattributes⟩
  simp only [value_bind, value_pure, hv1, hv2, archetypeFields]
  rfl

theorem yields_runInfo {value : Value} (h : IsRunInfo value) :
    Yields (runInfo path value) (ObjectOf RunInfoFields value) := by
  refine yields_object _ h ?_
  rintro fields ⟨huuid, houtput, htemp, hyear, hstep, hextra⟩
  obtain ⟨uuid, hv1, huuid⟩ := yields_requiredString path huuid
  obtain ⟨output, hv2, houtput⟩ := yields_requiredString path houtput
  obtain ⟨temp, hv3, htemp⟩ := yields_requiredString path htemp
  obtain ⟨year, hv4, hyear⟩ := yields_requiredInteger path hyear
  obtain ⟨step, hv5, hstep⟩ := yields_requiredInteger path hstep
  refine ⟨⟨uuid, output, temp, year, step, _⟩, ?_, huuid, houtput, htemp, hyear, hstep,
    bagOf_openAttributes path hextra⟩
  simp only [value_bind, value_pure, hv1, hv2, hv3, hv4, hv5, runInfoFields]
  rfl

theorem yields_buildingInfo {value : Value} (h : IsBuildingInfo value) :
    Yields (buildingInfo path value) (ObjectOf BuildingFields value) := by
  refine yields_object _ h ?_
  rintro fields ⟨hspace, hset, hsystem, hgeometry⟩
  obtain ⟨space, hv1, hspace⟩ := yields_requiredString path hspace
  obtain ⟨set, hv2, hset⟩ := yields_requiredString path hset
  obtain ⟨system, hv3, hsystem⟩ := yields_requiredString path hsystem
  refine ⟨⟨space, set, system, _⟩, ?_, hspace, hset, hsystem, bagOf_openAttributes path hgeometry⟩
  simp only [value_bind, value_pure, hv1, hv2, hv3, buildingFields]
  rfl

end HvacModel.Transcript
