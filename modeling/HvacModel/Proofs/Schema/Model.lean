import HvacModel.Proofs.Measure.Apply
import HvacModel.Proofs.Model.Compile
import HvacModel.Proofs.Schema.Reading

/-! # Models keep to the tables

A skeleton has the attributes of its document, those of a system on each of its air loops
(`Skeleton.withinSchema_of_resolve`).  A measure writes under the name of its target, not under its
own key, and with the kind of the target; it reaches only what may have such an attribute, so every
write keeps the skeleton within the tables (`Skeleton.WithinSchema.written`).  With this every
attribute of a model that is compiled from a raw value is declared (`Value.withinSchema_of_compile`). -/

namespace HvacModel

/-- A skeleton whose attributes are declared. -/
structure Skeleton.WithinSchema (s : Skeleton) : Prop where
  components : ∀ n ∈ s.components.nodes, Attributes.Within n.type.Declares n.attributes
  airLoops : ∀ l ∈ s.airLoops, Attributes.Within AirLoopDeclares l.attributes

/-! ### Components -/

namespace Document.Component

mutual

/-- The slots of a component have its attributes and those of what it owns. -/
theorem WithinSchema.layout {first : Nat} {owner : Option (Handle .component)} {path : String}
    {c : Component} (h : c.WithinSchema) :
    ∀ slot ∈ c.layout first owner path,
      Attributes.Within slot.node.type.Declares slot.node.attributes := by
  match c, h with
  | .mk name type attributes subs, .mk hattributes hsubs =>
      intro slot hslot
      rw [Component.layout] at hslot
      rcases List.mem_cons.mp hslot with rfl | hslot
      · exact hattributes
      · exact withinSchema_layoutList hsubs slot hslot

theorem withinSchema_layoutList {first : Nat} {owner : Handle .component} {path : String}
    {cs : List Component} (h : ∀ c ∈ cs, c.WithinSchema) :
    ∀ slot ∈ layoutList first owner path cs,
      Attributes.Within slot.node.type.Declares slot.node.attributes := by
  match cs with
  | [] => simp [layoutList]
  | c :: rest =>
      intro slot hslot
      rw [layoutList] at hslot
      rcases List.mem_append.mp hslot with hslot | hslot
      · exact (h c List.mem_cons_self).layout slot hslot
      · exact withinSchema_layoutList (fun c hc => h c (List.mem_cons_of_mem _ hc)) slot hslot

end

end Document.Component

namespace Skeleton

open Report

/-- Adding components adds their attributes and no others. -/
theorem within_addComponents {arena : Arena} {components : List Document.Component}
    (harena : ∀ n ∈ arena.nodes, Attributes.Within n.type.Declares n.attributes)
    (h : ∀ c ∈ components, c.WithinSchema) :
    ∀ n ∈ (addComponents arena components).value.nodes,
      Attributes.Within n.type.Declares n.attributes := by
  induction components generalizing arena with
  | nil => exact harena
  | cons c rest ih =>
      have hrest := fun c hc => h c (List.mem_cons_of_mem _ hc)
      rw [addComponents]
      cases hadd : arena.add c with
      | error error => exact ih harena hrest
      | ok added =>
          obtain ⟨extended, id⟩ := added
          obtain ⟨-, -, rfl, -⟩ := (Arena.add_eq_ok_iff arena extended c id).mp hadd
          refine ih (fun n hn => ?_) hrest
          obtain ⟨slot, hslot, rfl⟩ := List.mem_map.mp hn
          rcases List.mem_append.mp hslot with hslot | hslot
          · exact harena _ (List.mem_map_of_mem hslot)
          · exact (h c List.mem_cons_self).layout slot hslot

/-! ### Air loops -/

/-- An air loop has the attributes of its system. -/
theorem attributes_of_systemsFrom {arena : Arena} {schedules : NameIndex .schedule}
    {index firstLoop : Nat} {systems : List Document.System} {s : System} {l : AirLoop}
    (hs : s ∈ (systemsFrom arena schedules index firstLoop systems).value) (hl : l ∈ s.airLoops) :
    ∃ d ∈ systems, l.attributes = d.attributes := by
  induction systems generalizing index firstLoop with
  | nil => cases hs
  | cons d rest ih =>
      rcases List.mem_cons.mp hs with rfl | hs
      · obtain ⟨i, a, -, rfl⟩ := mem_value_eachFrom hl
        exact ⟨d, List.mem_cons_self, rfl⟩
      · obtain ⟨e, he, hattributes⟩ := ih hs
        exact ⟨e, List.mem_cons_of_mem _ he, hattributes⟩

theorem withinSchema_of_resolve {d : Document} {s : Skeleton} (hd : d.WithinSchema)
    (h : d.resolve = .ok s) : s.WithinSchema := by
  have hresolution := (Document.resolve_eq_ok_iff d s).mp h
  constructor
  · rw [← hresolution.components]
    exact within_addComponents (fun _ hn => nomatch hn) hd.components
  · intro l hl
    obtain ⟨r, hr, hl⟩ := List.mem_flatMap.mp hl
    rw [← hresolution.systems] at hr
    obtain ⟨system, hsystem, hattributes⟩ := attributes_of_systemsFrom hr hl
    rw [hattributes]
    exact fun name value hvalue => .inl (hd.systems system hsystem name value hvalue)

end Skeleton

/-! ### Measures -/

namespace Measure

variable {skeleton : Skeleton} {measures : List Document.Measure}
  {stages : List (List MeasureCategory)}

/-- What is written last to a place comes from an override of a target that reaches it. -/
theorem exists_target_of_lastWrite?
    (hm : ∀ m ∈ measures, Attributes.Within m.category.Declares m.overrides) {place : Place}
    {value : AttributeValue} (h : lastWrite? skeleton measures stages place = some value) :
    ∃ category key target, target? category key = some target ∧ target.kind = value.kind ∧
      target.name = place.name ∧ target.reaches skeleton place.entity = true := by
  obtain ⟨stage, -, hfirst⟩ := List.mem_filterMap.mp (List.mem_of_getLast? h)
  obtain ⟨o, ho, rfl⟩ := Option.map_eq_some_iff.mp hfirst
  have hhits := List.find?_some ho
  obtain ⟨m, hmem, ho⟩ := List.mem_flatMap.mp (List.mem_of_find?_eq_some ho)
  obtain ⟨e, he, rfl⟩ := List.mem_map.mp ho
  have hfind := (NameMap.find?_eq_some_iff_mem m.overrides e.1 e.2).mpr he
  obtain ⟨target, htarget, hkind⟩ := hm m (List.mem_of_mem_filter hmem) e.1 e.2 hfind
  simp only [Override.hits, htarget, Bool.and_eq_true, decide_eq_true_eq] at hhits
  exact ⟨m.category, e.1, target, htarget, hkind, hhits.1, hhits.2⟩

/-- Attributes stay declared when every last write is. -/
theorem within_written (ha : skeleton.components.WellFormed)
    {declares : String → AttributeKind → Prop} {attributes : Attributes} {entity : Entity}
    (h : Attributes.Within declares attributes)
    (hw : ∀ name value, lastWrite? skeleton measures stages ⟨entity, name⟩ = some value →
      declares name value.kind) :
    Attributes.Within declares
      (written (stages.flatMap (keptWrites skeleton measures)) entity attributes) := by
  intro name value hvalue
  rw [find?_written, getLast?_keptWrites ha, Option.or_eq_some_iff] at hvalue
  rcases hvalue with hvalue | ⟨-, hvalue⟩
  · exact hw name value hvalue
  · exact h name value hvalue

end Measure

open HvacModel.Measure

/-- Measures keep a skeleton within the tables. -/
theorem Skeleton.WithinSchema.applyMeasures {s : Skeleton} (h : s.WithinSchema)
    (ha : s.components.WellFormed) {measures : List Document.Measure}
    (hm : ∀ m ∈ measures, Attributes.Within m.category.Declares m.overrides)
    {stages : List (List MeasureCategory)} {applied : Applied}
    (happlied : s.applyMeasures measures stages = .ok applied) : applied.skeleton.WithinSchema := by
  obtain ⟨-, rfl⟩ := (applyMeasures_eq_ok_iff s measures stages applied).mp happlied
  constructor
  · intro n hn
    obtain ⟨slot, hslot, rfl⟩ := List.mem_map.mp hn
    obtain ⟨before, hbefore, rfl⟩ := List.mem_map.mp hslot
    have hmem : before.node ∈ s.components.nodes := List.mem_map_of_mem hbefore
    refine within_written ha (h.components before.node hmem) fun name value hvalue => ?_
    obtain ⟨category, key, target, htarget, hkind, rfl, hreaches⟩ :=
      exists_target_of_lastWrite? hm hvalue
    -- the component found under the handle is this one, so the target is declared for its type
    have hnode := (node?_eq_some_iff ha before.node.id before.node).mpr ⟨hmem, rfl⟩
    rw [← hkind]
    unfold Target.reaches at hreaches
    cases hscope : target.scope with
    | airLoops => simp [hscope] at hreaches
    | equipment classes =>
        simp only [hscope, hnode, Bool.and_eq_true] at hreaches
        exact declares_of_equipment htarget (by simp [hscope]) hreaches.2
  · intro l hl
    obtain ⟨r, hr, hl⟩ := List.mem_flatMap.mp hl
    obtain ⟨i, system, hsystem, rfl⟩ := mem_mapFrom hr
    obtain ⟨j, loop, hloop, rfl⟩ := mem_mapFrom hl
    refine within_written ha (h.airLoops loop (List.mem_flatMap.mpr ⟨system, hsystem, hloop⟩))
      fun name value hvalue => ?_
    obtain ⟨category, key, target, htarget, hkind, rfl, hreaches⟩ :=
      exists_target_of_lastWrite? hm hvalue
    unfold Target.reaches at hreaches
    cases hscope : target.scope with
    | airLoops => exact .inr ⟨category, key, target, htarget, hscope, rfl, hkind⟩
    | equipment classes => simp [hscope] at hreaches

/-! ### Models -/

/-- A model whose attributes are declared: those of its components, whoever owns them, by their
types, and those of its air loops by the system attributes or by a measure on air loops. -/
structure Model.WithinSchema (m : Model) : Prop where
  components : ∀ n ∈ m.components.nodes, Attributes.Within n.type.Declares n.attributes
  airLoops : ∀ l ∈ m.airLoops, Attributes.Within AirLoopDeclares l.attributes

/-- Every attribute of a model that is compiled from a raw value is declared, and a name that is
declared for air loops more than once has the same kind each time. -/
theorem Value.withinSchema_of_compile (v : Value) (stages : List (List MeasureCategory))
    (c : Compiled) (h : v.compile stages = .ok c) :
    c.model.WithinSchema ∧
      ∀ name kind kind', AirLoopDeclares name kind → AirLoopDeclares name kind' → kind = kind' := by
  obtain ⟨d, hread, hc⟩ := (Value.compile_eq_ok_iff v stages c).mp h
  obtain ⟨skeleton, applied, schedules, hstages, rfl⟩ :=
    (Document.compile_eq_ok_iff d stages c).mp hc
  have hd := Document.withinSchema_of_read hread
  have hresolved := Skeleton.withinSchema_of_resolve hd hstages.resolved
  have hwellFormed := ((Document.resolve_eq_ok_iff d skeleton).mp hstages.resolved).wellFormed
  have hmodel := hresolved.applyMeasures hwellFormed hd.measures hstages.applied
  exact ⟨⟨hmodel.components, hmodel.airLoops⟩, fun _ _ _ => AirLoopDeclares.unique⟩

/-- A studio with a fan and a reheat box that owns a coil. -/
def studio : Value :=
  .object
    ([("measures", .object [("hvac_controls", .object [("has_dcv", .bool true)]),
        ("hvac_equipment", .object [("fan_pressure_rise", .number (.int 500))])]),
      ("hvac", Grammar.airSystem [("night_cycle", .string "CycleOnAny")] (.string "fan")),
      ("hvac_components", .object
        [("fan", .object [("idd_object_type", .string "FanVariableVolume"),
            ("component_values", .object [("fan_efficiency", .number (.int 1))])]),
          ("box", .object [("idd_object_type", .string "AirTerminalSingleDuctVAVReheat"),
            ("sub_components", .object [("coil", .object
              [("idd_object_type", .string "CoilHeatingWater"),
                ("component_values", .object [("rated_capacity", .number (.int 7))])])])])]),
      ("schedules", .object [])] ++ Grammar.buildingSections "Office" "vav" [] [])

/-- The measures of the studio write the pressure rise of the fan and an attribute of the air loop
beside that of the system. -/
theorem studio_withinSchema :
    ∃ c, studio.compile defaultStages = .ok c ∧ c.model.WithinSchema ∧
      c.model.components.nodes.map (fun n => (n.path, n.attributes.names)) =
        [("fan", ["fan_efficiency", "pressure_rise"]), ("box", []),
          ("box.coil", ["rated_capacity"])] ∧
      c.model.airLoops.map (fun l => l.attributes.names) = [["has_dcv", "night_cycle"]] := by
  obtain ⟨c, hc⟩ : ∃ c, studio.compile defaultStages = .ok c := ⟨_, rfl⟩
  refine ⟨c, hc, (Value.withinSchema_of_compile studio _ c hc).1, ?_⟩
  cases hc
  exact ⟨rfl, rfl⟩

end HvacModel
