import HvacModel.Proofs.NameMap
import HvacModel.Proofs.Reading.Document
import HvacModel.Proofs.Schema.Tables

/-! # What is read keeps to the tables

Attributes come into a document at three places: the values of a component, the attributes of a
system and the overrides of a measure.  At each of them a reader looks the name up in a table and
takes a value of the declared kind or none (`kind_of_typedScalar`), so a document that is read from
a raw value is `WithinSchema`, at whatever depth its components are owned. -/

namespace HvacModel

namespace Document

/-- A component whose attributes, and those of the components that it owns, are declared. -/
inductive Component.WithinSchema : Component → Prop where
  | mk {name : String} {type : ObjectType} {attributes : Attributes} {subs : List Component} :
      Attributes.Within type.Declares attributes → (∀ c ∈ subs, WithinSchema c) →
      WithinSchema (.mk name type attributes subs)

/-- A document whose attributes are declared. -/
structure WithinSchema (d : Document) : Prop where
  components : ∀ c ∈ d.components, c.WithinSchema
  systems : ∀ s ∈ d.systems, Attributes.Within SystemDeclares s.attributes
  measures : ∀ m ∈ d.measures, Attributes.Within m.category.Declares m.overrides

namespace Read

open Report

variable (path : Path)

/-- A value is taken only if it has the declared kind. -/
theorem kind_of_typedScalar {kind : AttributeKind} {value : Value} {v : AttributeValue}
    (h : (typedScalar path kind value).value = some v) : v.kind = kind := by
  rw [typedScalar, value_bind, value_whenSome, Option.bind_eq_some_iff] at h
  obtain ⟨w, -, h⟩ := h
  by_cases hk : w.kind = kind
  · rw [if_pos hk] at h
    cases h
    exact hk
  · rw [if_neg hk] at h
    cases h

theorem value_entry {α : Type} {key : String} {read : Reading (Option α)} {e : String × α}
    (h : (entry key read).value = some e) : e.1 = key ∧ read.value = some e.2 := by
  obtain ⟨a, ha, rfl⟩ := Option.map_eq_some_iff.mp h
  exact ⟨rfl, ha⟩

/-- Attributes that are collected within declarations stay within them as a map. -/
theorem within_ofList {declares : String → AttributeKind → Prop}
    {entries : List (String × AttributeValue)} (h : ∀ e ∈ entries, declares e.1 e.2.kind) :
    Attributes.Within declares (NameMap.ofList entries) := fun _ _ hfind =>
  h _ (NameMap.mem_of_find?_ofList hfind)

/-! ### Components -/

theorem declares_of_componentValue {type : ObjectType} {field : String × Value}
    {e : String × AttributeValue} (h : (componentValue path type field).value = some e) :
    type.Declares e.1 e.2.kind := by
  unfold componentValue at h
  cases hspec : type.declared? field.1 with
  | none => simp [hspec] at h
  | some spec =>
      rw [hspec] at h
      obtain ⟨hkey, hvalue⟩ := value_entry h
      exact ⟨spec, by rw [hkey, hspec], (kind_of_typedScalar _ hvalue).symm⟩

theorem declares_of_componentValues {type : ObjectType} {fields : List (String × Value)}
    {e : String × AttributeValue} (h : e ∈ (componentValues path (some type) fields).value) :
    type.Declares e.1 e.2.kind := by
  simp only [componentValues, value_bind, value_pure, value_whenSome, whenSome_some] at h
  cases hf : Value.field? fields "component_values" with
  | none => simp [hf] at h
  | some value =>
      cases hvalues : value.fields? with
      | none => simp [hf, hvalues] at h
      | some values =>
          simp only [hf, hvalues, Option.bind_some, value_object, Option.getD_some] at h
          obtain ⟨field, -, hfield⟩ := mem_value_collect h
          exact declares_of_componentValue _ hfield

mutual

theorem withinSchema_component {path : Path} {name : String} (value : Value) {c : Component}
    (h : (component path name value).value = some c) : c.WithinSchema := by
  match value with
  | .object fields =>
      rw [component] at h
      simp only [value_bind, value_pure] at h
      cases hplain : (plainName path name).value with
      | false => simp [hplain] at h
      | true =>
          cases htype : (objectType path fields).value with
          | none => simp [hplain, htype] at h
          | some type =>
              simp only [hplain, htype, if_true, Option.map_some, Option.some.injEq] at h
              rw [← h]
              refine .mk (within_ofList fun e he => ?_) fun c hc => ?_
              · exact declares_of_componentValues path he
              · exact withinSchema_ownedComponents fields hc
  | .null | .bool _ | .number _ | .string _ | .array _ =>
      rw [component] at h
      · simp at h
      · rintro _ ⟨⟩

theorem withinSchema_ownedComponents {path : Path} (fields : List (String × Value)) {c : Component}
    (h : c ∈ (ownedComponents path fields).value) : c.WithinSchema := by
  match fields with
  | [] => simp [ownedComponents] at h
  | (key, value) :: rest =>
      rw [ownedComponents] at h
      by_cases hk : key = "sub_components"
      · rw [if_pos hk] at h
        exact withinSchema_ownedTable value h
      · rw [if_neg hk] at h
        exact withinSchema_ownedComponents rest h

theorem withinSchema_ownedTable {path : Path} (value : Value) {c : Component}
    (h : c ∈ (ownedTable path value).value) : c.WithinSchema := by
  match value with
  | .object table =>
      rw [ownedTable] at h
      exact withinSchema_componentList table h
  | .null | .bool _ | .number _ | .string _ | .array _ =>
      rw [ownedTable] at h
      · simp at h
      · rintro _ ⟨⟩

theorem withinSchema_componentList {path : Path} (table : List (String × Value)) {c : Component}
    (h : c ∈ (Read.componentList path table).value) : c.WithinSchema := by
  match table with
  | [] => simp [Read.componentList] at h
  | (name, value) :: rest =>
      rw [Read.componentList] at h
      simp only [value_bind, value_pure, List.mem_append, Option.mem_toList] at h
      rcases h with h | h
      · exact withinSchema_component value h
      · exact withinSchema_componentList rest h

end

/-! ### Systems and measures -/

theorem declares_of_systemAttribute {field : String × Value} {e : String × AttributeValue}
    (h : (systemAttribute path field).value = some e) : SystemDeclares e.1 e.2.kind := by
  unfold systemAttribute at h
  by_cases hf : field.1 ∈ ["air_loops", "plant_loops", "availability_schedule"]
  · rw [if_pos hf] at h
    cases h
  · rw [if_neg hf] at h
    cases hspec : AttributeSpec.lookup systemAttributes field.1 with
    | none => simp [hspec] at h
    | some spec =>
        rw [hspec] at h
        obtain ⟨hkey, hvalue⟩ := value_entry h
        exact ⟨spec, by rw [hkey, hspec], (kind_of_typedScalar _ hvalue).symm⟩

theorem within_system {field : String × Value} {s : System}
    (h : (system path field).value = some s) : Attributes.Within SystemDeclares s.attributes := by
  simp only [system, value_bind, value_whenSome, value_pure, Option.bind_eq_some_iff,
    Option.some.injEq] at h
  obtain ⟨fields, -, rfl⟩ := h
  refine within_ofList fun e he => ?_
  obtain ⟨field, -, hfield⟩ := mem_value_collect he
  exact declares_of_systemAttribute _ hfield

theorem declares_of_override {category : MeasureCategory} {field : String × Value}
    {e : String × AttributeValue} (h : (override path category field).value = some e) :
    category.Declares e.1 e.2.kind := by
  unfold override at h
  cases htarget : HvacModel.Measure.target? category field.1 with
  | none => simp [htarget] at h
  | some target =>
      rw [htarget] at h
      obtain ⟨hkey, hvalue⟩ := value_entry h
      exact ⟨target, by rw [hkey, htarget], (kind_of_typedScalar _ hvalue).symm⟩

theorem within_measure {field : String × Value} {m : Measure}
    (h : (measure path field).value = some m) :
    Attributes.Within m.category.Declares m.overrides := by
  unfold measure at h
  cases hcategory : MeasureCategory.ofName? field.1 with
  | none => simp [hcategory] at h
  | some category =>
      simp only [hcategory, value_bind, value_whenSome, value_pure, Option.bind_eq_some_iff,
        Option.some.injEq] at h
      obtain ⟨body, -, rfl⟩ := h
      refine within_ofList fun e he => ?_
      obtain ⟨field, -, hfield⟩ := mem_value_collect he
      exact declares_of_override _ hfield

/-! ### Sections -/

/-- Whatever the entries of a table are read into, the members of the section are. -/
theorem forall_of_table {α : Type} {P : α → Prop} {fields : List (String × Value)} {name : String}
    {step : Path → String × Value → Reading (Option α)} {list : List α}
    (h : (sectionIn fields name fun path value =>
      object path value >>= fun fields => whenSome fields fun fields =>
        collect (step path) fields >>= fun list => pure (some list)).value = some list)
    (hstep : ∀ e a, (step [.key name] e).value = some a → P a) : ∀ a ∈ list, P a := by
  simp only [sectionIn, value_whenSome, value_bind, value_pure, Option.bind_eq_some_iff,
    Option.some.injEq] at h
  obtain ⟨value, -, entries, -, rfl⟩ := h
  intro a ha
  obtain ⟨e, -, he⟩ := mem_value_collect ha
  exact hstep e a he

end Read

open Read Report in
/-- A document that is read keeps to the tables. -/
theorem withinSchema_of_read {v : Value} {d : Document} (h : Document.read v = .ok d) :
    d.WithinSchema := by
  obtain ⟨root, rfl, -, hfrom⟩ := isReadFrom_of_read h
  refine ⟨?_, forall_of_table hfrom.systems fun _ _ => within_system _, ?_⟩
  · have hcomponents := hfrom.components
    simp only [sectionIn, Read.components, value_whenSome, value_bind, value_pure,
      Option.bind_eq_some_iff, Option.some.injEq] at hcomponents
    obtain ⟨value, -, table, -, hlist⟩ := hcomponents
    rw [← hlist]
    exact fun c hc => withinSchema_componentList table hc
  · have hmeasures := hfrom.measures
    unfold measuresSection at hmeasures
    by_cases hf : (Value.field? root "measures").isSome
    · rw [if_pos hf] at hmeasures
      exact forall_of_table hmeasures fun _ _ => within_measure _
    · rw [if_neg hf, value_pure, Option.some.injEq] at hmeasures
      simp [← hmeasures]

end Document

end HvacModel
