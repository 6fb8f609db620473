import HvacModel.Proofs.Archetype.Document
import HvacModel.Proofs.Archetype.Params
import HvacModel.Proofs.Reading.Exact
import HvacModel.Proofs.TimeOfDay

/-! # Reading the configurations of archetypes

A double that is not finite is written as null, which no reader of numbers takes.  Where the
parameters are accepted and every number that depends on them is finite, the raw configuration of an
archetype is read section by section into its typed document (`SystemArchetype.read_configValue`).
The keys of a day are full hours in order, so its table is a run (`exists_occupied`). -/

namespace HvacModel

namespace Value

theorem ofFloat_of_isFinite {x : Float} (h : x.isFinite = true) :
    ofFloat x = .number (.float x) := if_pos h

theorem ofFloat_zero : ofFloat 0.0 = .number (.float 0.0) := ofFloat_of_isFinite (by decide)

theorem ofFloat_one : ofFloat 1.0 = .number (.float 1.0) := ofFloat_of_isFinite (by decide)

end Value

namespace SystemArchetype

open Report Document.Read

variable (a : SystemArchetype) (p : ArchetypeParams) (path : Path)

theorem isFinite_fan : a.fanEfficiency.isFinite = true ∧ a.fanPressureRise.isFinite = true ∧
    a.fanMotorEfficiency.isFinite = true := by
  cases a <;> decide

theorem isFinite_density (t : BuildingType) : t.density.plugLoad.isFinite = true ∧
    t.density.lighting.isFinite = true ∧ t.density.areaPerPerson.isFinite = true ∧
    t.density.outdoorAirPerPerson.isFinite = true ∧
    t.density.outdoorAirPerArea.isFinite = true := by
  cases t <;> decide

theorem integer?_toInt (i : Int64) : (Number.int i.toInt).integer? = some i.toInt :=
  if_pos ⟨Int64.minValue_le_toInt i, Int64.toInt_le i⟩

/-! ### Measures and systems -/

theorem read_measures (hcool : p.coolingSetpoint.isFinite = true)
    (hheat : p.heatingSetpoint.isFinite = true) :
    Document.Read.measures path (a.measures p) = pure (some (a.documentMeasures p)) := by
  obtain ⟨hfan, hrise, -⟩ := a.isFinite_fan
  have hmotor : (0.93 : Float).isFinite = true := by decide
  simp only [measures, Value.ofFloat_of_isFinite hcool, Value.ofFloat_of_isFinite hheat,
    Value.ofFloat_of_isFinite hfan, Value.ofFloat_of_isFinite hrise,
    Value.ofFloat_of_isFinite hmotor]
  unfold Document.Read.measures documentMeasures
  refine table_eq_pure path (collect_cons_some ?_ (collect_cons_some ?_ rfl))
  · refine measure_eq_pure path .hvacControls ?_
    repeat refine collect_cons_some rfl ?_
    rfl
  · refine measure_eq_pure path .hvacEquipment ?_
    repeat refine collect_cons_some rfl ?_
    rfl

theorem read_airLoop (name : String) (supply : List String) (terminal : String) :
    Document.Read.airLoop path (name, .object
      [("supply_components", .object [("outlet_node", texts supply)]),
        ("demand_components", .object
          [("branches", .object [("default_air_terminal", text terminal)])])]) =
      pure (some ⟨name, supply, [⟨"default_air_terminal", [terminal]⟩]⟩) :=
  airLoop_eq_pure path (side_eq_pure _ rfl (airSupply_eq_pure _)) (side_eq_pure _ rfl rfl) (by simp)

theorem read_plantLoop (kind : LoopKind) (h : kind.isPlant = true)
    (name pump source pipe : String) (demand : List String) :
    Document.Read.plantLoop path (name, plantLoop kind.name pump source pipe demand) =
      pure (some ⟨name, kind, [pump], [source, pipe], demand⟩) := by
  refine plantLoop_eq_pure path ?_ (side_eq_pure _ rfl (plantSupply_eq_pure _))
    (side_eq_pure _ rfl (plantDemand_eq_pure _)) (by simp)
  rw [plantKind, requiredString_eq_pure _ rfl, pure_bind, whenSome_some, LoopKind.ofName?_name]
  simp [Option.filter_some, h]

theorem read_systems : Document.Read.systems path (.object [("hvac_system", a.hvacSystem p)]) =
    pure (some [a.documentSystem p]) := by
  unfold Document.Read.systems
  refine table_eq_pure path (collect_cons_some ?_ rfl)
  cases a with
  | packagedTerminal =>
      refine system_eq_pure path ?_ rfl
        (optionalTable_eq_pure _ rfl (collect_cons_some (read_airLoop _ _ _ _) rfl))
        (optionalTable_eq_nil _ rfl)
      rfl
  | packagedVariableVolume =>
      refine system_eq_pure path ?_ rfl
        (optionalTable_eq_pure _ rfl (collect_cons_some (read_airLoop _ _ _ _) rfl))
        (optionalTable_eq_nil _ rfl)
      rfl
  | centralVariableVolume =>
      refine system_eq_pure path ?_ rfl
        (optionalTable_eq_pure _ rfl (collect_cons_some (read_airLoop _ _ _ _) rfl))
        (optionalTable_eq_pure _ rfl (collect_cons_some (read_plantLoop _ .hotWater rfl _ _ _ _ _)
          (collect_cons_some (read_plantLoop _ .chilledWater rfl _ _ _ _ _)
            (collect_cons_some (read_plantLoop _ .condenserWater rfl _ _ _ _ _) rfl))))
      rfl

/-! ### Components -/

theorem read_components :
    Document.Read.components path a.components = pure (some a.documentComponents) := by
  obtain ⟨hfan, hrise, hmotor⟩ := a.isFinite_fan
  have hlist : componentList path (("oa_system", outdoorAirSystem) :: a.ownComponents) =
      pure a.documentComponents := by
    cases a
    all_goals
      simp only [ownComponents, fan, Value.ofFloat_of_isFinite hfan,
        Value.ofFloat_of_isFinite hrise, Value.ofFloat_of_isFinite hmotor]
      repeat refine componentList_cons path rfl ?_
      rfl
  rw [components, Document.Read.components, object, pure_bind, whenSome_some, hlist]
  rfl

/-! ### Schedules -/

theorem hourKey_eq_render {hour : UInt8} (h : hour.toNat ≤ 24) :
    hourKey hour = (onHour hour).render := by
  have hall : ∀ n ≤ 24, hourKey (.ofNat n) = (onHour (.ofNat n)).render := by decide
  simpa using hall hour.toNat h

theorem read_hourKey {hour : UInt8} (h : hour.toNat ≤ 24) :
    TimeOfDay.read (hourKey hour) = .ok (onHour hour) := by
  rw [hourKey_eq_render h, TimeOfDay.read_render]

theorem onHour_lt {first last : UInt8} (h : first < last) (hl : last.toNat ≤ 24) :
    onHour first < onHour last := by
  have hlt := UInt8.lt_iff_toNat_lt.mp h
  simp only [TimeOfDay.lt_iff, onHour]
  omega

/-- The occupancy of a day is a run: its hours increase from midnight. -/
theorem exists_occupied (h : p.HoursInOrder) :
    ∃ values, occupiedValues p = .object values ∧ IsRun values (occupiedRun p) := by
  obtain ⟨hstart, hbusy, hnight⟩ := h
  have hend := UInt8.lt_iff_toNat_lt.mp hbusy
  have hoff := UInt8.lt_iff_toNat_lt.mp hnight
  have hlast : nightOffHour.toNat = 22 := rfl
  have hday : ∀ {hour : UInt8}, hour.toNat ≤ 22 → onHour hour < .endOfDay := by
    intro hour h
    simp only [TimeOfDay.lt_iff, onHour, TimeOfDay.endOfDay]
    omega
  simp only [occupiedValues, Value.ofFloat_zero, Value.ofFloat_one, Value.object.injEq,
    exists_eq_left']
  -- midnight, the start and the end of the weekday, and the hour at which all is off
  refine ⟨.cons (read_hourKey (by decide)) (hday (by decide)) (by simp) ?_, rfl⟩
  refine .cons (read_hourKey (by omega)) (hday (by omega)) ?_ ?_
  · rintro _ ⟨⟩
    exact onHour_lt hstart (by omega)
  refine .cons (read_hourKey (by omega)) (hday (by omega)) ?_ ?_
  · rintro _ ⟨⟩
    exact onHour_lt hbusy (by omega)
  refine .cons (read_hourKey (by decide)) (hday (by decide)) ?_ .nil
  rintro _ ⟨⟩
  exact onHour_lt hnight (by decide)

theorem exists_weekend (h : p.HoursInOrder) :
    ∃ values, weekendValues p = .object values ∧ IsRun values (weekendRun p) := by
  have hnight : IsRun [("00:00", .number (.float 0.0))] [(.midnight, 0.0)] :=
    ⟨.cons rfl (by decide) (by simp) .nil, rfl⟩
  unfold weekendValues weekendRun
  cases p.hasWeekendOccupancy with
  | true => exact exists_occupied p h
  | false =>
      refine ⟨_, ?_, hnight⟩
      rw [Value.ofFloat_zero]
      rfl

theorem read_rules {name : String} {values : List (String × Value)}
    {points : List (TimeOfDay × Float)} (h : IsRun values points) :
    collect (Document.Read.rule path) [("custom_schedule_rule", .object
      [("apply_saturday", .bool true), ("apply_sunday", .bool true), ("name", text "rule"),
        ("day_schedule", day name (.object values))])] =
      pure [⟨"custom_schedule_rule", "rule", .ofList [.saturday, .sunday],
        .inline ⟨"custom_schedule_rule.day_schedule", name, points⟩⟩] := by
  refine collect_cons_some (rule_eq_pure path rfl rfl rfl ?_ (by simp [ruleFields, dayFlags])) rfl
  rw [day, ruleDay, text, day_eq_pure _ h]
  rfl

theorem read_schedules (h : p.HoursInOrder) :
    Document.Read.schedules path (schedules p) = pure (some [documentSchedule p]) := by
  obtain ⟨occupied, hoccupied, hrun⟩ := exists_occupied p h
  obtain ⟨weekend, hweekend, hfree⟩ := exists_weekend p h
  unfold Document.Read.schedules schedules
  rw [hoccupied, hweekend]
  refine table_eq_pure path (collect_cons_some ?_ rfl)
  refine schedule_eq_pure path rfl (namedDay_eq_pure _ rfl (day_eq_pure _ hrun))
    (namedDay_eq_pure _ rfl (day_eq_pure _ hrun)) (namedDay_eq_pure _ rfl (day_eq_pure _ hrun))
    (optionalTable_eq_nil _ rfl) (optionalTable_eq_pure _ rfl (read_rules _ hfree)) ?_
  simp [scheduleFields]

/-! ### Records -/

theorem read_constructionSets : Document.Read.constructionSets path (constructionSets p) =
    pure (some [documentConstructionSet p]) := by
  unfold Document.Read.constructionSets
  refine table_eq_pure path (collect_cons_some ?_ rfl)
  refine constructionSet_eq_pure path
    (archetypeKey_eq_pure _ rfl rfl (integer?_toInt p.buildingAge) rfl rfl) ?_
  simp only [ageFields, List.cons_append, List.nil_append]
  repeat first | refine collect_cons_none rfl ?_ | refine collect_cons_some rfl ?_
  rfl

theorem read_spaceTypes (hcool : p.coolingSetpoint.isFinite = true)
    (hheat : p.heatingSetpoint.isFinite = true) :
    Document.Read.spaceTypes path (spaceTypes p) = pure (some [documentSpaceType p]) := by
  obtain ⟨hplug, hlight, harea, hperson, hflow⟩ := isFinite_density p.buildingType
  have hleak : (0.0003 : Float).isFinite = true := by decide
  unfold Document.Read.spaceTypes
  refine table_eq_pure path (collect_cons_some ?_ rfl)
  refine spaceType_eq_pure path rfl
    (archetypeKey_eq_pure _ rfl rfl (integer?_toInt p.buildingAge) rfl rfl) ?_
  simp only [ageFields, List.cons_append, List.nil_append, Value.ofFloat_of_isFinite hplug,
    Value.ofFloat_of_isFinite hlight, Value.ofFloat_of_isFinite harea,
    Value.ofFloat_of_isFinite hperson, Value.ofFloat_of_isFinite hflow,
    Value.ofFloat_of_isFinite hleak, Value.ofFloat_of_isFinite hcool,
    Value.ofFloat_of_isFinite hheat]
  repeat first | refine collect_cons_none rfl ?_ | refine collect_cons_some rfl ?_
  rfl

theorem read_runInfo : Document.Read.runInfo path (a.runInfo p) =
    pure (some (a.documentRunInfo p)) := by
  refine runInfo_eq_pure path rfl rfl rfl rfl (integer?_toInt p.simulationYear) rfl rfl ?_
  simp only [ageFields, List.cons_append, List.nil_append]
  repeat first | refine collect_cons_none rfl ?_ | refine collect_cons_some rfl ?_
  rfl

theorem read_buildingInfo (h : ∀ x ∈ p.numbers, x.isFinite = true)
    (hratio : p.windowToWallRatio.isFinite = true) :
    Document.Read.buildingInfo path (buildingInfo p) = pure (some (documentBuilding p)) := by
  simp only [ArchetypeParams.numbers, List.forall_mem_cons] at h
  obtain ⟨-, -, hfloor, hlight, hlength, hwidth, hcore, -⟩ := h
  have hdrop : (1.22 : Float).isFinite = true := by decide
  refine buildingInfo_eq_pure path rfl rfl rfl ?_
  simp only [Value.ofFloat_of_isFinite hfloor, Value.ofFloat_of_isFinite hlight,
    Value.ofFloat_of_isFinite hlength, Value.ofFloat_of_isFinite hwidth,
    Value.ofFloat_of_isFinite hcore, Value.ofFloat_zero, Value.ofFloat_of_isFinite hdrop,
    Value.ofFloat_of_isFinite hratio]
  repeat first | refine collect_cons_none rfl ?_ | refine collect_cons_some rfl ?_
  rfl

/-! ### The document -/

/-- A configuration whose numbers are finite is read into its document. -/
theorem read_configValue (hcheck : p.check = .ok ()) (h : ∀ x ∈ p.numbers, x.isFinite = true) :
    Document.read (a.configValue p) = .ok (a.document p) := by
  have hhours := (p.check_eq_ok_iff.mp hcheck).1
  have hcool := h p.coolingSetpoint (by simp [ArchetypeParams.numbers])
  have hheat := h p.heatingSetpoint (by simp [ArchetypeParams.numbers])
  have hreport : Document.Read.document (a.configValue p) = pure (some (a.document p)) :=
    document_eq_pure (by simp [Document.sections]) (by simp [Document.sections, Value.field?])
      (sectionIn_eq_pure rfl (a.read_measures p _ hcool hheat))
      (sectionIn_eq_pure rfl (a.read_systems p _))
      (sectionIn_eq_pure rfl (a.read_components _))
      (sectionIn_eq_pure rfl (read_schedules p _ hhours))
      (sectionIn_eq_pure rfl (read_constructionSets p _))
      (sectionIn_eq_pure rfl (read_spaceTypes p _ hcool hheat))
      (sectionIn_eq_pure rfl (a.read_runInfo p _))
      (sectionIn_eq_pure rfl (read_buildingInfo p _ h (p.isFinite_windowRatio hcheck)))
  rw [Document.read, hreport]
  rfl

end SystemArchetype

end HvacModel
