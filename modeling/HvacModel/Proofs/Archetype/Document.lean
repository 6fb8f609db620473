import HvacModel.Archetype.Config
import HvacModel.Document.Read

/-! # The documents of archetypes

`SystemArchetype.document` is the typed form of a generated configuration: what its raw value is
read into when all its numbers are finite.  Its sections follow those of `configValue` one by
one. -/

namespace HvacModel.SystemArchetype

/-! ### Measures and systems -/

/-- The attributes that the parameters set on the air loops and on the space type. -/
def controls (p : ArchetypeParams) : List (String × AttributeValue) :=
  [("cooling_setpoint", .number p.coolingSetpoint),
    ("heating_setpoint", .number p.heatingSetpoint),
    ("has_setback", .flag p.hasSetback),
    ("has_weekend_occupancy", .flag p.hasWeekendOccupancy),
    ("weekday_start_time", .text (hourKey p.weekdayStartHour)),
    ("weekday_end_time", .text (hourKey p.weekdayEndHour))]

/-- The attributes that decide when the fans run. -/
def operation (p : ArchetypeParams) : List (String × AttributeValue) :=
  [("has_dcv", .flag p.hasDemandControl), ("night_cycle", .text "CycleOnAny")]

def documentMeasures (a : SystemArchetype) (p : ArchetypeParams) : List Document.Measure :=
  [⟨.hvacControls, .ofList (controls p ++ operation p)⟩,
    ⟨.hvacEquipment, .ofList
      ([("fan_efficiency", .number a.fanEfficiency),
        ("fan_pressure_rise", .number a.fanPressureRise),
        ("fan_motor_efficiency", .number 0.93)] ++ operation p)⟩]

def documentAirLoop : SystemArchetype → Document.AirLoop
  | centralVariableVolume =>
    ⟨"VAV_Reheat_System", ["oa_system", "coil_cooling_water", "coil_heating_water", "fan_vav"],
      [⟨"default_air_terminal", ["terminal_vav_reheat"]⟩]⟩
  | packagedVariableVolume =>
    ⟨"Packaged_VAV_System",
      ["oa_system", "coil_cooling_dx_two_speed", "coil_heating_gas", "fan_vav"],
      [⟨"default_air_terminal", ["terminal_vav_reheat"]⟩]⟩
  | packagedTerminal =>
    ⟨"PTAC_System",
      ["oa_system", "coil_cooling_dx_single_speed", "coil_heating_electric", "fan_constant"],
      [⟨"default_air_terminal", ["terminal_single_duct_uncontrolled"]⟩]⟩

def documentPlantLoops : SystemArchetype → List Document.PlantLoop
  | centralVariableVolume =>
    [⟨"hot_water_1", .hotWater, ["pump_var"], ["boiler_hot_water", "pipe_1"],
        ["coil_heating_water", "terminal_vav_reheat"]⟩,
      ⟨"chilled_water_1", .chilledWater, ["pump_var_2"], ["chiller_elec_eir", "pipe_2"],
        ["coil_cooling_water"]⟩,
      ⟨"condenser_water_1", .condenserWater, ["pump_var_3"],
        ["cooling_tower_single_speed", "pipe_3"], ["chiller_elec_eir"]⟩]
  | packagedVariableVolume | packagedTerminal => []

def documentSystem (a : SystemArchetype) (p : ArchetypeParams) : Document.System :=
  ⟨"hvac_system", [a.documentAirLoop], a.documentPlantLoops, some "hvac_operation",
    .ofList (operation p ++ [("is_multi_zone", .flag a.isMultiZone)])⟩

/-! ### Components -/

/-- A component without attributes that owns no other. -/
def part (name : String) (type : ObjectType) : Document.Component := .mk name type (.ofList []) []

def documentFan (name : String) (type : ObjectType) (a : SystemArchetype) : Document.Component :=
  .mk name type
    (.ofList [("pressure_rise", .number a.fanPressureRise),
      ("motor_efficiency", .number a.fanMotorEfficiency),
      ("fan_efficiency", .number a.fanEfficiency)]) []

def documentTerminal (coil : ObjectType) : Document.Component :=
  .mk "terminal_vav_reheat" .reheatTerminal (.ofList []) [part "reheat_coil" coil]

def documentComponents (a : SystemArchetype) : List Document.Component :=
  .mk "oa_system" .outdoorAirSystem (.ofList [])
      [part "outdoor_air_controller" .outdoorAirController] ::
    match a with
    | centralVariableVolume =>
      [part "coil_cooling_water" .waterCoolingCoil,
        part "coil_heating_water" .waterHeatingCoil,
        documentFan "fan_vav" .variableVolumeFan a,
        documentTerminal .waterHeatingCoil,
        part "pump_var" .variableSpeedPump,
        part "pump_var_2" .variableSpeedPump,
        part "pump_var_3" .variableSpeedPump,
        part "boiler_hot_water" .hotWaterBoiler,
        part "chiller_elec_eir" .electricChiller,
        part "cooling_tower_single_speed" .coolingTower,
        part "pipe_1" .adiabaticPipe,
        part "pipe_2" .adiabaticPipe,
        part "pipe_3" .adiabaticPipe]
    | packagedVariableVolume =>
      [part "coil_cooling_dx_two_speed" .twoSpeedCoolingCoil,
        part "coil_heating_gas" .gasHeatingCoil,
        documentFan "fan_vav" .variableVolumeFan a,
        documentTerminal .electricHeatingCoil]
    | packagedTerminal =>
      [part "coil_cooling_dx_single_speed" .singleSpeedCoolingCoil,
        part "coil_heating_electric" .electricHeatingCoil,
        documentFan "fan_constant" .constantVolumeFan a,
        part "terminal_single_duct_uncontrolled" .uncontrolledTerminal]

/-! ### Schedules -/

/-- A full hour of a day. -/
def onHour (hour : UInt8) : TimeOfDay := ⟨min (60 * hour.toNat) 1440, Nat.min_le_right _ _⟩

def occupiedRun (p : ArchetypeParams) : List (TimeOfDay × Float) :=
  [(onHour 0, 0.0), (onHour p.weekdayStartHour, 0.0), (onHour p.weekdayEndHour, 1.0),
    (onHour nightOffHour, 0.0)]

def weekendRun (p : ArchetypeParams) : List (TimeOfDay × Float) :=
  if p.hasWeekendOccupancy then occupiedRun p else [(.midnight, 0.0)]

def documentSchedule (p : ArchetypeParams) : Document.Schedule where
  key := "hvac_operation"
  name := "hvac_operation"
  days :=
    [⟨"default_day", "default_day_schedule", occupiedRun p⟩,
      ⟨"summer_design_day", "summer_design_day_schedule", occupiedRun p⟩,
      ⟨"winter_design_day", "winter_design_day_schedule", occupiedRun p⟩,
      ⟨"custom_schedule_rule.day_schedule", "weekend_day_schedule", weekendRun p⟩]
  defaultDay := some 0
  summerDesignDay := some 1
  winterDesignDay := some 2
  rules := [⟨"custom_schedule_rule", "rule", .ofList [.saturday, .sunday], .inline 3⟩]

/-! ### Records -/

def archetypeKey (p : ArchetypeParams) : Document.ArchetypeKey :=
  ⟨p.buildingType.prototype, p.buildingAge.toInt, p.climateZone, p.buildingStandard⟩

def documentConstructionSet (p : ArchetypeParams) : Document.ConstructionSet :=
  ⟨"building_construction", archetypeKey p,
    .ofList [("base_construction_set", .text "default"), ("wall_type", .text ""),
      ("roof_type", .text ""), ("south_win_type", .text "Reference"),
      ("east_win_type", .text "Reference"), ("north_win_type", .text "Reference"),
      ("west_win_type", .text "Reference")]⟩

def documentSpaceType (p : ArchetypeParams) : Document.SpaceType :=
  let density := p.buildingType.density
  ⟨"main_space", p.buildingType.prototype, archetypeKey p,
    .ofList ([("elec_plug_per_flr_area", .number density.plugLoad),
      ("int_lighting_per_flr_area", .number density.lighting),
      ("flr_area_per_person", .number density.areaPerPerson),
      ("inf_flow_per_ext_surface_area", .number 0.0003),
      ("oa_flow_per_person", .number density.outdoorAirPerPerson),
      ("oa_flow_per_area", .number density.outdoorAirPerArea)] ++ controls p)⟩

def documentRunInfo (a : SystemArchetype) (p : ArchetypeParams) : Document.RunInfo :=
  let output := withoutEndSlashes p.outputLocation
  ⟨a.runIdentifier p, output, output ++ "/temp", p.simulationYear.toInt, 6,
    .ofList [("building_type", .text p.buildingType.prototype),
      ("building_age", .number (Decimal.ofInt p.buildingAge.toInt)),
      ("climate_zone", .text p.climateZone),
      ("building_standard", .text p.buildingStandard)]⟩

def documentBuilding (p : ArchetypeParams) : Document.BuildingInfo :=
  let footprint := Footprint.ofBuilding p.buildingArea p.numberOfFloors p.buildingShape
  let zones := ZoneLayout.ofArea p.buildingArea
  ⟨"main_space", "building_construction", "hvac_system",
    .ofList [("has_drop_ceilings", .flag false),
      ("floor_height", .number p.floorHeight),
      ("use_multiplier", .flag (3 < p.numberOfFloors)),
      ("number_of_floors", .number (Decimal.ofInt p.numberOfFloors.toNat)),
      ("orientation", .number 0.0),
      ("geometry_configuration", .text p.buildingShape.name),
      ("zone_layout", .text zones.name),
      ("roof_style", .text "flat"),
      ("ext_lighting_intensity", .number (exteriorLighting p.buildingArea)),
      ("length1", .number footprint.length),
      ("length2", .number 0.0),
      ("width1", .number footprint.width),
      ("width2", .number 0.0),
      ("end1", .number 0.0),
      ("end2", .number 0.0),
      ("offset1", .number 0.0),
      ("offset2", .number 0.0),
      ("offset3", .number 0.0),
      ("core_offset", .number footprint.coreOffset),
      ("drop_ceiling_height", .number 1.22),
      ("number_of_zones", .number (Decimal.ofInt zones.count)),
      ("south_wwr", .number p.windowToWallRatio),
      ("east_wwr", .number p.windowToWallRatio),
      ("north_wwr", .number p.windowToWallRatio),
      ("west_wwr", .number p.windowToWallRatio)]⟩

/-! ### The document -/

/-- The document of an archetype and its parameters. -/
def document (a : SystemArchetype) (p : ArchetypeParams) : Document where
  measures := a.documentMeasures p
  systems := [a.documentSystem p]
  components := a.documentComponents
  schedules := [documentSchedule p]
  constructionSets := [documentConstructionSet p]
  spaceTypes := [documentSpaceType p]
  runInfo := a.documentRunInfo p
  buildingInfo := documentBuilding p

end HvacModel.SystemArchetype
