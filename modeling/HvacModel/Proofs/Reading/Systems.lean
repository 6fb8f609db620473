import HvacModel.Proofs.NameMap
import HvacModel.Proofs.Reading.Schedules
import HvacModel.Document.Read.Measures
import HvacModel.Document.Read.Systems

/-! # Reading measures and systems cleanly

The readers of the measures section and of the HVAC systems are clean exactly on the measures and
systems of the grammar.  A loop that is read cleanly is there: the readers of loops leave one out
only after an issue. -/

namespace HvacModel.Document.Read

open Report Grammar

variable (path : Path)

/-! ### Measures -/

/-- A category names each of its keys once. -/
theorem target?_eq_some_iff (category : MeasureCategory) (key : String)
    (target : HvacModel.Measure.Target) :
    HvacModel.Measure.target? category key = some target ↔
      (key, target) ∈ HvacModel.Measure.targets category := by
  have hn : ((HvacModel.Measure.targets category).map Prod.fst).Nodup := by
    cases category <;> decide
  exact NameMap.lookup_eq_some_iff_mem hn key target

theorem clean_override (category : MeasureCategory) (field : String × Value) :
    (override path category field).Clean ↔
      ∃ target, (field.1, target) ∈ HvacModel.Measure.targets category ∧
        IsOfKind target.kind field.2 := by
  simp only [← target?_eq_some_iff]
  unfold override
  cases HvacModel.Measure.target? category field.1 with
  | none => simp
  | some target => simp [clean_typedScalar]

theorem category_ofName?_eq_some_iff (name : String) (category : MeasureCategory) :
    MeasureCategory.ofName? name = some category ↔ category.name = name := by
  constructor
  · intro h
    simpa using List.find?_some h
  · rintro rfl
    exact MeasureCategory.ofName?_name category

theorem clean_measure (field : String × Value) :
    (measure path field).Clean ↔ IsMeasure field.1 field.2 := by
  simp only [IsMeasure, ← category_ofName?_eq_some_iff]
  unfold measure
  cases MeasureCategory.ofName? field.1 with
  | none => simp
  | some category =>
      simp only [Option.some.injEq, exists_eq_left', IsTable]
      rw [clean_object_bind]
      simp [clean_collect, clean_override]

theorem clean_measures (value : Value) :
    (measures path value).Clean ↔ IsTable IsMeasure value := by
  unfold measures IsTable
  rw [clean_object_bind]
  simp [clean_collect, clean_measure]

/-! ### Air loops -/

theorem clean_side {α : Type} (fields : Fields) (key : String)
    (read : Path → Fields → Reading (Option α)) :
    (side path fields key read).Clean ↔
      Has fields key (IsObject fun body => (read (path.child key) body).Clean) := by
  unfold side
  rw [clean_required_bind]
  simp only [clean_object_bind]

theorem clean_airSupply (fields : Fields) :
    (airSupply path fields).Clean ↔
      Only ["outlet_node"] fields ∧ Has fields "outlet_node" IsNameList := by
  unfold airSupply
  rw [clean_bind, clean_checkFields, clean_required_bind]
  simp [clean_nameList]

theorem clean_branch (field : String × Value) : (branch path field).Clean ↔ IsNameList field.2 := by
  simp [branch, clean_nameList]

theorem clean_airDemand (fields : Fields) :
    (airDemand path fields).Clean ↔
      Only ["branches"] fields ∧ Has fields "branches" (IsTable fun _ => IsNameList) := by
  unfold airDemand IsTable
  rw [clean_bind, clean_checkFields, clean_required_bind]
  simp only [clean_object_bind]
  simp [clean_collect, clean_branch]

theorem clean_airLoop (field : String × Value) :
    (airLoop path field).Clean ↔ IsAirLoop field.2 := by
  unfold airLoop IsAirLoop
  rw [clean_object_bind]
  simp only [clean_bind, clean_checkFields, clean_side, clean_airSupply, clean_airDemand,
    clean_pure, and_true]

/-! ### Plant loops -/

theorem loopKind_ofName?_eq_some_iff (text : String) (kind : LoopKind) :
    LoopKind.ofName? text = some kind ↔ kind.name = text := by
  constructor
  · intro h
    simpa using List.find?_some h
  · rintro rfl
    exact LoopKind.ofName?_name kind

theorem isWaterKind_iff (value : Value) :
    IsWaterKind value ↔ ∃ text, value = .string text ∧
      ∃ kind, (LoopKind.ofName? text).filter LoopKind.isPlant = some kind := by
  have hwater : ∀ kind : LoopKind,
      kind ∈ [LoopKind.hotWater, .chilledWater, .condenserWater] ↔ kind.isPlant = true := by
    intro kind
    cases kind <;> decide
  simp only [IsWaterKind, hwater, Option.filter_eq_some_iff, loopKind_ofName?_eq_some_iff]
  constructor
  · rintro ⟨kind, hplant, rfl⟩
    exact ⟨kind.name, rfl, kind, rfl, hplant⟩
  · rintro ⟨_, rfl, kind, rfl, hplant⟩
    exact ⟨kind, hplant, rfl⟩

theorem clean_plantKind (fields : Fields) :
    (plantKind path fields).Clean ↔ Has fields "plant_loop_type" IsWaterKind := by
  unfold plantKind
  rw [clean_requiredString_bind]
  apply has_congr
  intro value
  rw [isWaterKind_iff]
  refine exists_congr fun text => and_congr_right fun _ => ?_
  cases (LoopKind.ofName? text).filter LoopKind.isPlant with
  | none => simp
  | some kind => simp

theorem clean_plantSupply (fields : Fields) :
    (plantSupply path fields).Clean ↔
      Only ["inlet_node", "branches"] fields ∧ MayHave fields "inlet_node" IsNameList ∧
        Has fields "branches" IsNameList := by
  unfold plantSupply
  rw [clean_bind, clean_checkFields, clean_bind, clean_optional, clean_required_bind]
  simp [clean_nameList]

theorem clean_plantDemand (fields : Fields) :
    (plantDemand path fields).Clean ↔
      Only ["branches"] fields ∧ Has fields "branches" IsNameList := by
  unfold plantDemand
  rw [clean_bind, clean_checkFields, clean_required_bind]
  simp [clean_nameList]

theorem clean_plantLoop (field : String × Value) :
    (plantLoop path field).Clean ↔ IsPlantLoop field.2 := by
  unfold plantLoop IsPlantLoop
  rw [clean_object_bind]
  simp only [clean_bind, clean_checkFields, clean_plantKind, clean_side, clean_plantSupply,
    clean_plantDemand, clean_pure, and_true]

/-! ### Systems -/

theorem systemAttributes_nodup : (systemAttributes.map AttributeSpec.name).Nodup := by decide

theorem clean_systemAttribute (field : String × Value) :
    (systemAttribute path field).Clean ↔
      field.1 ∈ ["air_loops", "plant_loops", "availability_schedule"] ∨
        Declares systemAttributes field.1 field.2 := by
  rw [declares_iff systemAttributes_nodup]
  unfold systemAttribute
  by_cases h : field.1 ∈ ["air_loops", "plant_loops", "availability_schedule"]
  · rw [if_pos h]
    simp [h]
  · rw [if_neg h, or_iff_right h]
    cases AttributeSpec.lookup systemAttributes field.1 with
    | none => simp
    | some spec => simp [clean_typedScalar]

/-- A table of loops is read like any other table that may be missing. -/
theorem loops_eq_optionalTable {α : Type} (fields : Fields) (key : String)
    (read : Path → String × Value → Reading (Option α)) :
    loops path fields key read = optionalTable path fields key read :=
  rfl

theorem clean_system (field : String × Value) :
    (system path field).Clean ↔ IsSystem field.2 := by
  unfold system IsSystem IsTable
  rw [clean_object_bind]
  simp only [clean_bind, clean_collect, clean_systemAttribute, clean_optional, clean_string,
    loops_eq_optionalTable, clean_optionalTable, clean_airLoop, clean_plantLoop, clean_pure,
    and_true]

theorem clean_systems (value : Value) :
    (systems path value).Clean ↔ IsTable (fun _ => IsSystem) value := by
  unfold systems IsTable
  rw [clean_object_bind]
  simp [clean_collect, clean_system]

end HvacModel.Document.Read
