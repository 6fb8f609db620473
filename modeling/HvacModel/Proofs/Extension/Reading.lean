import HvacModel.Proofs.Extension.Compile
import HvacModel.Proofs.Reading.Issues

/-! # Configurations with one more component

A configuration with one more entry at the end of its component table reads as the same document
with one more definition (`Document.read_withComponent`): a section is read without a look at the
others, and a table entry by entry.  Whatever the new component is, nothing referred to it before,
so a configuration that compiles still does, and the models differ by the components of the new
entry only (`Value.compile_withComponent`). -/

namespace HvacModel

open Transcript Grammar
open Document (Component)
open Document.Component

/-- A configuration with one more entry at the end of its component table. -/
def Value.withComponent (v : Value) (name : String) (body : Value) : Value :=
  match v with
  | .object root =>
    match field? root "hvac_components" with
    | some (.object table) =>
      .object (insertField root "hvac_components" (.object (table ++ [(name, body)])))
    | _ => v
  | _ => v

namespace Document

namespace Read

/-- A section does not depend on another one. -/
theorem sectionIn_insertField_of_ne {α : Type} (root : Fields) {key name : String} (value : Value)
    (h : key ≠ name) (read : Path → Value → Reading (Option α)) :
    sectionIn (Value.insertField root name value) key read = sectionIn root key read := by
  rw [sectionIn, sectionIn, field?_insertField_of_ne root value h]

theorem measuresSection_insertField_of_ne (root : Fields) {name : String} (value : Value)
    (h : "measures" ≠ name) :
    measuresSection (Value.insertField root name value) = measuresSection root := by
  rw [measuresSection, measuresSection, field?_insertField_of_ne root value h,
    sectionIn_insertField_of_ne root value h]

theorem value_componentList_append (path : Path) (table more : Fields) :
    (componentList path (table ++ more)).value =
      (componentList path table).value ++ (componentList path more).value := by
  induction table with
  | nil =>
      rw [componentList]
      rfl
  | cons e rest ih =>
      rw [List.cons_append, componentList, componentList]
      simp only [Report.value_bind, Report.value_pure, ih, List.append_assoc]

/-- One more entry of a table is read as one more component. -/
theorem exists_value_componentList_append (path : Path) (table : Fields) {name : String}
    {body : Value} (h : IsComponent name body) : ∃ c, ComponentOf name body c ∧
      (componentList path (table ++ [(name, body)])).value =
        (componentList path table).value ++ [c] := by
  obtain ⟨c, hc, hof⟩ := yields_component h (path.child name)
  refine ⟨c, hof, ?_⟩
  rw [value_componentList_append, componentList, componentList]
  simp only [Report.value_bind, Report.value_pure, hc]
  rfl

end Read

open Read

/-- What is made of a component table is what its entries are read as. -/
theorem IsReadFrom.components_eq {d : Document} {root table : Fields} (h : d.IsReadFrom root)
    (hf : Value.field? root "hvac_components" = some (.object table)) :
    d.components = (componentList [.key "hvac_components"] table).value := by
  have hcomponents := h.components
  rw [sectionIn, hf] at hcomponents
  exact (Option.some.inj hcomponents).symm

/-- Another component table changes nothing but the components. -/
theorem IsReadFrom.eq_of_insertField {d d' : Document} {root : Fields} {value : Value}
    (h : d.IsReadFrom root)
    (h' : d'.IsReadFrom (Value.insertField root "hvac_components" value)) :
    d' = { d with components := d'.components } := by
  obtain ⟨hm, hs, -, hd, hcs, hst, hr, hb⟩ := h'
  rw [measuresSection_insertField_of_ne root _ (by decide), h.measures] at hm
  rw [sectionIn_insertField_of_ne root _ (by decide), h.systems] at hs
  rw [sectionIn_insertField_of_ne root _ (by decide), h.schedules] at hd
  rw [sectionIn_insertField_of_ne root _ (by decide), h.constructionSets] at hcs
  rw [sectionIn_insertField_of_ne root _ (by decide), h.spaceTypes] at hst
  rw [sectionIn_insertField_of_ne root _ (by decide), h.runInfo] at hr
  rw [sectionIn_insertField_of_ne root _ (by decide), h.buildingInfo] at hb
  cases d'
  simp_all only [Option.some.injEq]

/-- One more entry of the component table is one more definition of the document. -/
theorem read_withComponent {v : Value} {d d' : Document} {name : String} {body : Value}
    (h : Document.read v = .ok d) (h' : Document.read (v.withComponent name body) = .ok d') :
    ∃ c, ComponentOf name body c ∧ d' = { d with components := d.components ++ [c] } := by
  obtain ⟨root, rfl, ⟨_, ⟨⟩, -, -, -, ⟨_, hf, table, rfl, -⟩, -⟩, hfrom⟩ := isReadFrom_of_read h
  have hv : (Value.object root).withComponent name body = .object
      (Value.insertField root "hvac_components" (.object (table ++ [(name, body)]))) := by
    simp only [Value.withComponent, hf]
  rw [hv] at h'
  obtain ⟨_, ⟨⟩, ⟨_, ⟨⟩, -, -, -, ⟨_, hf', table', rfl, hall⟩, -⟩, hfrom'⟩ := isReadFrom_of_read h'
  rw [Value.field?_insertField, Option.some.injEq, Value.object.injEq] at hf'
  subst hf'
  obtain ⟨c, hc, hlist⟩ := exists_value_componentList_append [.key "hvac_components"] table
    (hall (name, body) (List.mem_append_right _ List.mem_cons_self))
  have hcomponents := hfrom'.components_eq (Value.field?_insertField _ _ _)
  rw [hlist, ← hfrom.components_eq hf] at hcomponents
  exact ⟨c, hc, hcomponents ▸ hfrom.eq_of_insertField hfrom'⟩

/-- A name that no entry of the component table has is not the name of a component. -/
theorem not_mem_components_of_read {v : Value} {d : Document} {name : String}
    (h : Document.read v = .ok d) (hn : v.at? [.key "hvac_components", .key name] = none) :
    name ∉ d.components.map Component.name := by
  obtain ⟨root, rfl, -⟩ := isReadFrom_of_read h
  obtain ⟨_, hf, table, rfl, hentries⟩ := components_of_read h
  rw [at?_cons, at?_key, hf, Option.bind_some, at?_key] at hn
  have hkeys : table.map Prod.fst = d.components.map Component.name :=
    hentries.map_eq fun _ _ hc => hc.name_eq.symm
  rw [← hkeys]
  rintro hmem
  obtain ⟨e, he, rfl⟩ := List.mem_map.mp hmem
  simpa using List.lookup_eq_none_iff.mp hn e he

end Document

/-- One more component changes nothing else.  A configuration that compiles does so with one more
entry of a new name at the end of its component table, if that is a component at all: the components
of the entry stand at the end of the list, after those that were there, and all else in the model is
the same, as are the warnings. -/
theorem Value.compile_withComponent (v : Value) (hv : v.distinctKeys = true)
    (stages : List (List MeasureCategory)) (compiled : Compiled)
    (h : v.compile stages = .ok compiled) (name : String) (body : Value)
    (hbody : body.distinctKeys = true)
    (hn : v.at? [.key "hvac_components", .key name] = none)
    (hread : ∃ d', Document.read (v.withComponent name body) = .ok d') :
    ∃ compiled' c, (v.withComponent name body).compile stages = .ok compiled' ∧
      Transcript.ComponentOf name body c ∧ compiled.model.ExtendsBy c compiled'.model ∧
      compiled'.warnings = compiled.warnings := by
  obtain ⟨d, hd, hcompile⟩ := (Value.compile_eq_ok_iff v stages compiled).mp h
  obtain ⟨d', hd'⟩ := hread
  obtain ⟨c, hc, rfl⟩ := Document.read_withComponent hd hd'
  have hfresh : c.name ∉ d.components.map Component.name := by
    rw [hc.name_eq]
    exact Document.not_mem_components_of_read hd hn
  have hrepeated : c.repeatedName? c.name = none :=
    (repeatedName?_eq_none_iff c.name c).mpr (hc.nodup_subComponents c hbody)
  obtain ⟨compiled', hcompiled', hextends, hwarnings⟩ := Document.compile_append hcompile
    (Document.nodup_categories_of_read hv hd) hfresh hrepeated
  exact ⟨compiled', c, (Value.compile_eq_ok_iff _ stages compiled').mpr ⟨_, hd', hcompiled'⟩, hc,
    hextends, hwarnings⟩

/-- A box with a fan of its own. -/
def spareBox : Value :=
  .object
    [("idd_object_type", .string "AirTerminalSingleDuctVAVReheat"),
      ("sub_components", .object
        [("fan", .object [("idd_object_type", .string "FanVariableVolume")])])]

/-- The fan of the new box takes nothing from the fan of the air loop. -/
theorem compile_withComponent_spareBox :
    ∃ compiled compiled' c, disputedClinic.compile Measure.defaultStages = .ok compiled ∧
      (disputedClinic.withComponent "spare" spareBox).compile Measure.defaultStages =
        .ok compiled' ∧
      compiled.model.ExtendsBy c compiled'.model ∧ compiled'.warnings = compiled.warnings ∧
      compiled'.model.components.nodes.map ComponentNode.path =
        ["fan", "box", "spare", "spare.fan"] := by
  obtain ⟨compiled, h⟩ : ∃ compiled, disputedClinic.compile Measure.defaultStages = .ok compiled :=
    ⟨_, rfl⟩
  obtain ⟨compiled', c, h', -, hextends, hwarnings⟩ :=
    Value.compile_withComponent disputedClinic (by decide) Measure.defaultStages compiled h "spare"
      spareBox (by decide) rfl ⟨_, rfl⟩
  refine ⟨compiled, compiled', c, h, h', hextends, hwarnings, ?_⟩
  cases h'
  rfl

end HvacModel
