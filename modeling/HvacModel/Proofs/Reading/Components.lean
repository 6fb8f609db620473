import HvacModel.Proofs.Reading.Fields
import HvacModel.Document.Read.Components

/-! # Reading components cleanly

The reader of a component is clean exactly on the components of the grammar, at every depth.  The
proof follows the tree of the raw value (`clean_component`): the table of owned components is an
entry of the component's fields, so the induction is on the size of the value. -/

namespace HvacModel.Document.Read

open Report Grammar

variable (path : Path)

theorem objectType_ofName?_eq_some_iff (text : String) (type : ObjectType) :
    ObjectType.ofName? text = some type ↔ type.name = text := by
  constructor
  · intro h
    simpa using List.find?_some h
  · rintro rfl
    exact ObjectType.ofName?_name type

theorem value_objectType_eq_some_iff (fields : Fields) (type : ObjectType) :
    (objectType path fields).value = some type ↔
      Has fields "idd_object_type" (· = .string type.name) := by
  unfold objectType Has
  rw [value_bind, value_whenSome, value_requiredString]
  cases Value.field? fields "idd_object_type" with
  | none => simp
  | some value =>
      cases value with
      | string text =>
          simp only [Option.bind_some, Value.string?, Option.some.injEq, exists_eq_left',
            Value.string.injEq, eq_comm (a := text), ← objectType_ofName?_eq_some_iff]
          cases ObjectType.ofName? text <;> simp
      | _ => simp [Value.string?]

/-- A cleanly read type is there. -/
theorem clean_objectType (fields : Fields) :
    (objectType path fields).Clean ↔ ∃ type, (objectType path fields).value = some type := by
  unfold objectType requiredString required
  cases Value.field? fields "idd_object_type" with
  | none => simp
  | some value =>
      cases value with
      | string text => cases h : ObjectType.ofName? text <;> simp [string, h]
      | _ => simp [string]

theorem attributes_nodup (type : ObjectType) :
    (type.entry.attributes.map AttributeSpec.name).Nodup := by
  cases type <;> decide

theorem clean_componentValue (type : ObjectType) (field : String × Value) :
    (componentValue path type field).Clean ↔
      Declares type.entry.attributes field.1 field.2 := by
  rw [declares_iff (attributes_nodup type)]
  unfold componentValue ObjectType.declared?
  cases AttributeSpec.lookup type.entry.attributes field.1 with
  | none => simp
  | some spec => simp [clean_typedScalar]

theorem clean_componentValues (type : ObjectType) (fields : Fields) :
    (componentValues path (some type) fields).Clean ↔
      MayHave fields "component_values" (IsTable (Declares type.entry.attributes)) := by
  unfold componentValues IsTable
  rw [clean_bind, clean_optional, and_iff_left (clean_pure _)]
  simp only [clean_object_bind]
  simp [clean_collect, clean_componentValue]

theorem clean_plainName (name : String) : (plainName path name).Clean ↔ '.' ∉ name.toList := by
  unfold plainName
  by_cases h : '.' ∈ name.toList
  · rw [if_pos (List.contains_iff_mem.mpr h)]
    simp [h]
  · rw [if_neg (fun hc => h (List.contains_iff_mem.mp hc))]
    simp [h]

/-- The type and the values of a component, in the order in which they are read. -/
theorem clean_type_values (fields : Fields) :
    (objectType path fields).Clean ∧
        (componentValues path (objectType path fields).value fields).Clean ↔
      ∃ type : ObjectType, Has fields "idd_object_type" (· = .string type.name) ∧
        MayHave fields "component_values" (IsTable (Declares type.entry.attributes)) := by
  simp only [clean_objectType, ← value_objectType_eq_some_iff path]
  constructor
  · rintro ⟨⟨type, ht⟩, hc⟩
    rw [ht, clean_componentValues] at hc
    exact ⟨type, ht, hc⟩
  · rintro ⟨type, ht, hc⟩
    rw [ht, clean_componentValues]
    exact ⟨⟨type, rfl⟩, hc⟩

theorem isComponent_object_iff (name : String) (fields : Fields) :
    IsComponent name (.object fields) ↔
      IsComponentHead name fields ∧ MayHave fields "sub_components" (IsTable IsComponent) := by
  constructor
  · intro h
    cases h with
    | leaf head hnone => exact ⟨head, fun value h => by simp [hnone] at h⟩
    | owner head hsome owned =>
        refine ⟨head, fun value h => ?_⟩
        rw [hsome, Option.some.injEq] at h
        exact ⟨_, h.symm, owned⟩
  · rintro ⟨head, owned⟩
    cases h : Value.field? fields "sub_components" with
    | none => exact .leaf head h
    | some value =>
        obtain ⟨table, rfl, hall⟩ := owned value h
        exact .owner head h hall

/-- The table of owned components is an entry of the fields. -/
theorem ownedComponents_eq (path : Path) (fields : List (String × Value)) :
    ownedComponents path fields =
      match Value.field? fields "sub_components" with
      | some value => ownedTable (path.child "sub_components") value
      | none => pure [] := by
  induction fields with
  | nil => rfl
  | cons e rest ih =>
      obtain ⟨key, value⟩ := e
      rw [ownedComponents, Value.field?, NameMap.lookup_cons_ite]
      by_cases h : key = "sub_components"
      · rw [if_pos h, if_pos h.symm, h]
      · rw [if_neg h, if_neg fun e => h e.symm, ih, Value.field?]

mutual

theorem clean_component (path : Path) (name : String) (value : Value) :
    (component path name value).Clean ↔ IsComponent name value := by
  match value with
  | .object fields =>
      rw [component, isComponent_object_iff, IsComponentHead]
      simp only [clean_bind, clean_plainName, clean_checkFields, clean_ownedComponents path fields,
        ← clean_type_values path, clean_pure, and_true, and_assoc]
  | .null | .bool _ | .number _ | .string _ | .array _ =>
      rw [component]
      · simp only [clean_bind, not_clean_mismatch, false_and, false_iff]
        rintro ⟨⟩
      · rintro _ ⟨⟩

theorem clean_ownedComponents (path : Path) (fields : Fields) :
    (ownedComponents path fields).Clean ↔
      MayHave fields "sub_components" (IsTable IsComponent) := by
  match fields with
  | [] => simp [ownedComponents, MayHave, Value.field?]
  | (key, value) :: rest =>
      rw [ownedComponents, MayHave, Value.field?, NameMap.lookup_cons_ite]
      by_cases h : key = "sub_components"
      · rw [if_pos h, if_pos h.symm, clean_ownedTable (path.child key) value]
        simp
      · rw [if_neg h, if_neg fun e => h e.symm]
        exact clean_ownedComponents path rest

theorem clean_ownedTable (path : Path) (value : Value) :
    (ownedTable path value).Clean ↔ IsTable IsComponent value := by
  match value with
  | .object table =>
      rw [ownedTable, clean_componentList path table]
      simp [IsTable, IsObject]
  | .null | .bool _ | .number _ | .string _ | .array _ =>
      rw [ownedTable]
      · simp [IsTable, IsObject]
      · rintro _ ⟨⟩

theorem clean_componentList (path : Path) (table : Fields) :
    (componentList path table).Clean ↔ ∀ e ∈ table, IsComponent e.1 e.2 := by
  match table with
  | [] => simp [componentList]
  | (name, value) :: rest =>
      rw [componentList, clean_bind, clean_component (path.child name) name value, clean_bind,
        clean_componentList path rest]
      simp

end

theorem clean_components (value : Value) :
    (components path value).Clean ↔ IsTable IsComponent value := by
  unfold components IsTable
  rw [clean_object_bind]
  simp [clean_componentList]

end HvacModel.Document.Read
