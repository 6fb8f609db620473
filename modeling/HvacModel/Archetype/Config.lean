import HvacModel.Value
import HvacModel.Archetype.Footprint
import HvacModel.Archetype.Params

/-! # Generated configurations

`SystemArchetype.config` is the raw value of a complete configuration for an archetype and its
parameters.  Every name that one section refers to is declared in another one, so the value
compiles when all its numbers are finite. -/

namespace HvacModel.SystemArchetype

/-- A text as a raw value. -/
def text (s : String) : Value := .string s

/-- Texts as a raw array. -/
def texts (names : List String) : Value := .ofList .string names

/-- The key of a full hour. -/
def hourKey (hour : UInt8) : String :=
  (if hour < 10 then "0" else "") ++ toString hour.toNat ++ ":00"

/-! ### Measures -/

def measures (a : SystemArchetype) (p : ArchetypeParams) : Value :=
  .object
    [("hvac_controls", .object
      [("cooling_setpoint", .ofFloat p.coolingSetpoint),
        ("heating_setpoint", .ofFloat p.heatingSetpoint),
        ("has_setback", .bool p.hasSetback),
        ("has_weekend_occupancy", .bool p.hasWeekendOccupancy),
        ("weekday_start_time", text (hourKey p.weekdayStartHour)),
        ("weekday_end_time", text (hourKey p.weekdayEndHour)),
        ("has_dcv", .bool p.hasDemandControl),
        ("night_cycle", text "CycleOnAny")]),
      ("hvac_equipment", .object
        [("fan_efficiency", .ofFloat a.fanEfficiency),
          ("fan_pressure_rise", .ofFloat a.fanPressureRise),
          ("fan_motor_efficiency", .ofFloat 0.93),
          ("has_dcv", .bool p.hasDemandControl),
          ("night_cycle", text "CycleOnAny")])]

/-! ### Systems -/

/-- The one air loop of a system: its supply path and the terminal of its only branch. -/
def airLoop (name : String) (supply : List String) (terminal : String) : Value :=
  .object [(name, .object
    [("supply_components", .object [("outlet_node", texts supply)]),
      ("demand_components", .object
        [("branches", .object [("default_air_terminal", text terminal)])])])]

/-- A plant loop with one source and one pipe. -/
def plantLoop (kind pump source pipe : String) (demand : List String) : Value :=
  .object
    [("plant_loop_type", text kind),
      ("supply_components", .object
        [("inlet_node", texts [pump]), ("branches", texts [source, pipe])]),
      ("demand_components", .object [("branches", texts demand)])]

/-- The plant loops of the central system. -/
def plantLoops : Value :=
  .object
    [("hot_water_1", plantLoop "hot_water" "pump_var" "boiler_hot_water" "pipe_1"
        ["coil_heating_water", "terminal_vav_reheat"]),
      ("chilled_water_1", plantLoop "chilled_water" "pump_var_2" "chiller_elec_eir" "pipe_2"
        ["coil_cooling_water"]),
      ("condenser_water_1", plantLoop "condenser_water" "pump_var_3" "cooling_tower_single_speed"
        "pipe_3" ["chiller_elec_eir"])]

/-- The loop tables of a system. -/
def loopTables : SystemArchetype → List (String × Value)
  | centralVariableVolume =>
    [("air_loops", airLoop "VAV_Reheat_System"
        ["oa_system", "coil_cooling_water", "coil_heating_water", "fan_vav"]
        "terminal_vav_reheat"),
      ("plant_loops", plantLoops)]
  | packagedVariableVolume =>
    [("air_loops", airLoop "Packaged_VAV_System"
        ["oa_system", "coil_cooling_dx_two_speed", "coil_heating_gas", "fan_vav"]
        "terminal_vav_reheat")]
  | packagedTerminal =>
    [("air_loops", airLoop "PTAC_System"
        ["oa_system", "coil_cooling_dx_single_speed", "coil_heating_electric", "fan_constant"]
        "terminal_single_duct_uncontrolled")]

def hvacSystem (a : SystemArchetype) (p : ArchetypeParams) : Value :=
  .object (a.loopTables ++
    [("has_dcv", .bool p.hasDemandControl),
      ("night_cycle", text "CycleOnAny"),
      ("availability_schedule", text "hvac_operation"),
      ("is_multi_zone", .bool a.isMultiZone)])

/-! ### Components -/

/-- A component without attributes. -/
def plain (type : String) : Value := .object [("idd_object_type", text type)]

def fan (type : String) (a : SystemArchetype) : Value :=
  .object
    [("idd_object_type", text type),
      ("component_values", .object
        [("pressure_rise", .ofFloat a.fanPressureRise),
          ("motor_efficiency", .ofFloat a.fanMotorEfficiency),
          ("fan_efficiency", .ofFloat a.fanEfficiency)])]

/-- A terminal that owns its reheat coil. -/
def reheatTerminal (coil : String) : Value :=
  .object
    [("idd_object_type", text "AirTerminalSingleDuctVAVReheat"),
      ("sub_components", .object [("reheat_coil", plain coil)])]

/-- The outdoor air system that every archetype has. -/
def outdoorAirSystem : Value :=
  .object
    [("idd_object_type", text "AirLoopHVACOutdoorAirSystem"),
      ("sub_components", .object [("outdoor_air_controller", plain "ControllerOutdoorAir")])]

/-- The components of an archetype after the outdoor air system. -/
def ownComponents (a : SystemArchetype) : List (String × Value) :=
  match a with
  | centralVariableVolume =>
    [("coil_cooling_water", plain "CoilCoolingWater"),
      ("coil_heating_water", plain "CoilHeatingWater"),
      ("fan_vav", fan "FanVariableVolume" a),
      ("terminal_vav_reheat", reheatTerminal "CoilHeatingWater"),
      ("pump_var", plain "PumpVariableSpeed"),
      ("pump_var_2", plain "PumpVariableSpeed"),
      ("pump_var_3", plain "PumpVariableSpeed"),
      ("boiler_hot_water", plain "BoilerHotWater"),
      ("chiller_elec_eir", plain "ChillerElectricEIR"),
      ("cooling_tower_single_speed", plain "CoolingTowerSingleSpeed"),
      ("pipe_1", plain "PipeAdiabatic"),
      ("pipe_2", plain "PipeAdiabatic"),
      ("pipe_3", plain "PipeAdiabatic")]
  | packagedVariableVolume =>
    [("coil_cooling_dx_two_speed", plain "CoilCoolingDXTwoSpeed"),
      ("coil_heating_gas", plain "CoilHeatingGas"),
      ("fan_vav", fan "FanVariableVolume" a),
      ("terminal_vav_reheat", reheatTerminal "CoilHeatingElectric")]
  | packagedTerminal =>
    [("coil_cooling_dx_single_speed", plain "CoilCoolingDXSingleSpeed"),
      ("coil_heating_electric", plain "CoilHeatingElectric"),
      ("fan_constant", fan "FanConstantVolume" a),
      ("terminal_single_duct_uncontrolled", plain "AirTerminalSingleDuctUncontrolled")]

def components (a : SystemArchetype) : Value :=
  .object (("oa_system", outdoorAirSystem) :: a.ownComponents)

/-! ### Schedules -/

/-- The occupancy of a day: off, on from the end hour until the hour at which all is off. -/
def occupiedValues (p : ArchetypeParams) : Value :=
  .object
    [(hourKey 0, .ofFloat 0.0), (hourKey p.weekdayStartHour, .ofFloat 0.0),
      (hourKey p.weekdayEndHour, .ofFloat 1.0), (hourKey nightOffHour, .ofFloat 0.0)]

/-- The occupancy of a weekend day. -/
def weekendValues (p : ArchetypeParams) : Value :=
  if p.hasWeekendOccupancy then occupiedValues p else .object [("00:00", .ofFloat 0.0)]

def day (name : String) (values : Value) : Value :=
  .object [("name", text name), ("values", values)]

def schedules (p : ArchetypeParams) : Value :=
  .object [("hvac_operation", .object
    [("summer_design_day", day "summer_design_day_schedule" (occupiedValues p)),
      ("winter_design_day", day "winter_design_day_schedule" (occupiedValues p)),
      ("default_day", day "default_day_schedule" (occupiedValues p)),
      ("schedule_rules", .object [("custom_schedule_rule", .object
        [("apply_saturday", .bool true),
          ("apply_sunday", .bool true),
          ("name", text "rule"),
          ("day_schedule", day "weekend_day_schedule" (weekendValues p))])]),
      ("name", text "hvac_operation")])]

/-! ### Records -/

/-- The building's year, climate zone and standard. -/
def ageFields (p : ArchetypeParams) : List (String × Value) :=
  [("building_age", .number (.int p.buildingAge.toInt)),
    ("climate_zone", text p.climateZone),
    ("building_standard", text p.buildingStandard)]

def constructionSets (p : ArchetypeParams) : Value :=
  .object [("building_construction", .object
    ([("base_construction_set", text "default"),
      ("base_building_type", text p.buildingType.prototype)] ++ ageFields p ++
      [("wall_type", text ""),
        ("roof_type", text ""),
        ("south_win_type", text "Reference"),
        ("east_win_type", text "Reference"),
        ("north_win_type", text "Reference"),
        ("west_win_type", text "Reference")]))]

def spaceTypes (p : ArchetypeParams) : Value :=
  let density := p.buildingType.density
  .object [("main_space", .object
    ([("base_space_type", text p.buildingType.prototype),
      ("base_building_type", text p.buildingType.prototype)] ++ ageFields p ++
      [("elec_plug_per_flr_area", .ofFloat density.plugLoad),
        ("int_lighting_per_flr_area", .ofFloat density.lighting),
        ("flr_area_per_person", .ofFloat density.areaPerPerson),
        ("inf_flow_per_ext_surface_area", .ofFloat 0.0003),
        ("oa_flow_per_person", .ofFloat density.outdoorAirPerPerson),
        ("oa_flow_per_area", .ofFloat density.outdoorAirPerArea),
        ("cooling_setpoint", .ofFloat p.coolingSetpoint),
        ("heating_setpoint", .ofFloat p.heatingSetpoint),
        ("has_setback", .bool p.hasSetback),
        ("has_weekend_occupancy", .bool p.hasWeekendOccupancy),
        ("weekday_start_time", text (hourKey p.weekdayStartHour)),
        ("weekday_end_time", text (hourKey p.weekdayEndHour))]))]

/-- A text without the slashes at its end. -/
def withoutEndSlashes (s : String) : String :=
  String.ofList (s.toList.reverse.dropWhile (· = '/')).reverse

/-- The identifier of a run, in braces. -/
def runIdentifier (a : SystemArchetype) (p : ArchetypeParams) : String :=
  "\x7bASHRAE-" ++ a.name.toUpper ++ "-" ++ p.buildingType.prototype.toUpper ++ "\x7d"

def runInfo (a : SystemArchetype) (p : ArchetypeParams) : Value :=
  let output := withoutEndSlashes p.outputLocation
  .object
    ([("uuid", text (a.runIdentifier p)),
      ("building_type", text p.buildingType.prototype),
      ("output_location", text output),
      ("temp_sim_location", text (output ++ "/temp"))] ++ ageFields p ++
      [("simulation_year", .number (.int p.simulationYear.toInt)),
        ("timestep", .ofNat 6)])

def buildingInfo (p : ArchetypeParams) : Value :=
  let footprint := Footprint.ofBuilding p.buildingArea p.numberOfFloors p.buildingShape
  let zones := ZoneLayout.ofArea p.buildingArea
  let ratio := Value.ofFloat p.windowToWallRatio
  let zero := Value.ofFloat 0.0
  .object
    [("has_drop_ceilings", .bool false),
      ("floor_height", .ofFloat p.floorHeight),
      ("use_multiplier", .bool (3 < p.numberOfFloors)),
      ("number_of_floors", .ofNat p.numberOfFloors.toNat),
      ("orientation", zero),
      ("geometry_configuration", text p.buildingShape.name),
      ("zone_layout", text zones.name),
      ("roof_style", text "flat"),
      ("ext_lighting_intensity", .ofFloat (exteriorLighting p.buildingArea)),
      ("length1", .ofFloat footprint.length),
      ("length2", zero),
      ("width1", .ofFloat footprint.width),
      ("width2", zero),
      ("end1", zero),
      ("end2", zero),
      ("offset1", zero),
      ("offset2", zero),
      ("offset3", zero),
      ("core_offset", .ofFloat footprint.coreOffset),
      ("drop_ceiling_height", .ofFloat 1.22),
      ("number_of_zones", .ofNat zones.count),
      ("south_wwr", ratio),
      ("east_wwr", ratio),
      ("north_wwr", ratio),
      ("west_wwr", ratio),
      ("space_type", text "main_space"),
      ("construction_set", text "building_construction"),
      ("hvac_system", text "hvac_system")]

/-! ### The configuration -/

/-- The raw value of a configuration, its parameters not looked at. -/
def configValue (a : SystemArchetype) (p : ArchetypeParams) : Value :=
  .object
    [("measures", a.measures p),
      ("hvac", .object [("hvac_system", a.hvacSystem p)]),
      ("hvac_components", a.components),
      ("schedules", schedules p),
      ("construction_sets", constructionSets p),
      ("space_types", spaceTypes p),
      ("run_info", a.runInfo p),
      ("building_info", buildingInfo p)]

/-- The configuration of an archetype, or why there is none for the parameters. -/
def config (a : SystemArchetype) (p : ArchetypeParams) : Except ArchetypeFault Value :=
  match p.check with
  | .ok () => .ok (a.configValue p)
  | .error fault => .error fault

end HvacModel.SystemArchetype
