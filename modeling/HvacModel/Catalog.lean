import HvacModel.Attribute

/-! # The equipment catalog

The catalog is a fixed table: for every `ObjectType` its name in documents, its `EquipmentClass`,
the kind of plant loop it is a source for, the kinds it consumes from, and the attributes it
declares.  `ObjectType.all` gives the types in catalog order.

`ofName?_name` says that the names are distinct: a type is found again by its name. -/

namespace HvacModel

/-- The kinds of loops. -/
inductive LoopKind where
  | air | hotWater | chilledWater | condenserWater
deriving DecidableEq, Repr

namespace LoopKind

def all : List LoopKind := [air, hotWater, chilledWater, condenserWater]

def name : LoopKind → String
  | air => "air"
  | hotWater => "hot_water"
  | chilledWater => "chilled_water"
  | condenserWater => "condenser_water"

def ofName? (text : String) : Option LoopKind := all.find? fun k => k.name = text

/-- A plant loop moves water. -/
def isPlant : LoopKind → Bool
  | air => false
  | _ => true

theorem ofName?_name (k : LoopKind) : ofName? k.name = some k := by cases k <;> decide

end LoopKind

/-- The classes of equipment that loop shapes and measures speak of. -/
inductive EquipmentClass where
  | outdoorAirSystem | controller | coil | fan | terminal | pump | boiler | chiller | coolingTower
  | pipe
deriving DecidableEq, Repr

namespace EquipmentClass

def all : List EquipmentClass :=
  [outdoorAirSystem, controller, coil, fan, terminal, pump, boiler, chiller, coolingTower, pipe]

/-- The class in messages. -/
def describe : EquipmentClass → String
  | outdoorAirSystem => "outdoor air system"
  | controller => "controller"
  | coil => "coil"
  | fan => "fan"
  | terminal => "terminal"
  | pump => "pump"
  | boiler => "boiler"
  | chiller => "chiller"
  | coolingTower => "cooling tower"
  | pipe => "pipe"

/-- The class in serialized form. -/
def name : EquipmentClass → String
  | outdoorAirSystem => "outdoor_air_system"
  | coolingTower => "cooling_tower"
  | other => other.describe

def ofName? (text : String) : Option EquipmentClass := all.find? fun c => c.name = text

/-- Equipment that may sit on the supply path of an air loop. -/
def isAirSupply : EquipmentClass → Bool
  | outdoorAirSystem | coil | fan => true
  | _ => false

/-- Equipment that feeds a plant loop. -/
def isSource : EquipmentClass → Bool
  | boiler | chiller | coolingTower => true
  | _ => false

end EquipmentClass

/-- The types of components. -/
inductive ObjectType where
  | outdoorAirSystem | outdoorAirController
  | waterCoolingCoil | waterHeatingCoil | singleSpeedCoolingCoil | twoSpeedCoolingCoil
  | electricHeatingCoil | gasHeatingCoil
  | variableVolumeFan | constantVolumeFan
  | reheatTerminal | uncontrolledTerminal
  | variableSpeedPump | constantSpeedPump
  | hotWaterBoiler | electricChiller | coolingTower | adiabaticPipe
deriving DecidableEq, Repr

/-- What the catalog says about a type. -/
structure CatalogEntry where
  name : String
  equipmentClass : EquipmentClass
  /-- The kind of plant loop this equipment is a source for. -/
  source : Option LoopKind
  /-- The kinds of plant loops this equipment may sit on the demand side of. -/
  consumes : List LoopKind
  attributes : List AttributeSpec
deriving DecidableEq, Repr

namespace ObjectType

open AttributeSpec (number text flag)

instance : Inhabited ObjectType := ⟨adiabaticPipe⟩

/-- All types, in catalog order. -/
def all : List ObjectType :=
  [outdoorAirSystem, outdoorAirController, waterCoolingCoil, waterHeatingCoil,
    singleSpeedCoolingCoil, twoSpeedCoolingCoil, electricHeatingCoil, gasHeatingCoil,
    variableVolumeFan, constantVolumeFan, reheatTerminal, uncontrolledTerminal,
    variableSpeedPump, constantSpeedPump, hotWaterBoiler, electricChiller, coolingTower,
    adiabaticPipe]

/-- The attributes that every fan declares. -/
def fanAttributes : List AttributeSpec :=
  [number "fan_efficiency", number "pressure_rise", number "motor_efficiency",
    number "maximum_flow_rate", number "motor_in_airstream_fraction"]

/-- The attributes that every pump declares. -/
def pumpAttributes : List AttributeSpec :=
  [number "rated_pump_head", number "rated_flow_rate", number "motor_efficiency",
    text "pump_control_type"]

/-- The catalog. -/
def entry : ObjectType → CatalogEntry
  | outdoorAirSystem =>
    ⟨"AirLoopHVACOutdoorAirSystem", .outdoorAirSystem, none, [],
      [number "minimum_outdoor_air_flow_rate", number "maximum_outdoor_air_flow_rate"]⟩
  | outdoorAirController =>
    ⟨"ControllerOutdoorAir", .controller, none, [],
      [text "economizer_control_type", flag "demand_controlled_ventilation",
        number "minimum_outdoor_air_flow_rate"]⟩
  | waterCoolingCoil =>
    ⟨"CoilCoolingWater", .coil, none, [.chilledWater],
      [number "design_water_flow_rate", number "design_air_flow_rate",
        number "design_inlet_water_temperature"]⟩
  | waterHeatingCoil =>
    ⟨"CoilHeatingWater", .coil, none, [.hotWater],
      [number "u_factor_times_area_value", number "maximum_water_flow_rate",
        number "rated_capacity"]⟩
  | singleSpeedCoolingCoil =>
    ⟨"CoilCoolingDXSingleSpeed", .coil, none, [],
      [number "rated_total_cooling_capacity", number "rated_cop"]⟩
  | twoSpeedCoolingCoil =>
    ⟨"CoilCoolingDXTwoSpeed", .coil, none, [],
      [number "rated_total_cooling_capacity", number "high_speed_rated_cop",
        number "low_speed_rated_cop"]⟩
  | electricHeatingCoil =>
    ⟨"CoilHeatingElectric", .coil, none, [], [number "efficiency", number "nominal_capacity"]⟩
  | gasHeatingCoil =>
    ⟨"CoilHeatingGas", .coil, none, [],
      [number "gas_burner_efficiency", number "nominal_capacity"]⟩
  | variableVolumeFan =>
    ⟨"FanVariableVolume", .fan, none, [],
      fanAttributes ++ [number "fan_power_minimum_flow_fraction"]⟩
  | constantVolumeFan => ⟨"FanConstantVolume", .fan, none, [], fanAttributes⟩
  | reheatTerminal =>
    ⟨"AirTerminalSingleDuctVAVReheat", .terminal, none, [.hotWater],
      [number "maximum_air_flow_rate", number "zone_minimum_air_flow_fraction",
        number "maximum_reheat_air_temperature"]⟩
  | uncontrolledTerminal =>
    ⟨"AirTerminalSingleDuctUncontrolled", .terminal, none, [], [number "maximum_air_flow_rate"]⟩
  | variableSpeedPump => ⟨"PumpVariableSpeed", .pump, none, [], pumpAttributes⟩
  | constantSpeedPump => ⟨"PumpConstantSpeed", .pump, none, [], pumpAttributes⟩
  | hotWaterBoiler =>
    ⟨"BoilerHotWater", .boiler, some .hotWater, [],
      [number "nominal_thermal_efficiency", number "nominal_capacity",
        number "design_water_outlet_temperature", text "fuel_type"]⟩
  | electricChiller =>
    ⟨"ChillerElectricEIR", .chiller, some .chilledWater, [.condenserWater],
      [number "reference_cop", number "reference_capacity",
        number "reference_leaving_chilled_water_temperature", text "condenser_type"]⟩
  | coolingTower =>
    ⟨"CoolingTowerSingleSpeed", .coolingTower, some .condenserWater, [],
      [number "design_water_flow_rate", number "design_air_flow_rate",
        number "design_fan_power"]⟩
  | adiabaticPipe => ⟨"PipeAdiabatic", .pipe, none, [], []⟩

/-- The name in documents. -/
def name (t : ObjectType) : String := t.entry.name

/-- The class of the type. -/
def equipmentClass (t : ObjectType) : EquipmentClass := t.entry.equipmentClass

/-- The type of a name. -/
def ofName? (text : String) : Option ObjectType := all.find? fun t => t.name = text

/-- The declaration of an attribute. -/
def declared? (t : ObjectType) (name : String) : Option AttributeSpec :=
  AttributeSpec.lookup t.entry.attributes name

/-- Whether the type feeds loops of a kind. -/
def isSourceFor (t : ObjectType) (k : LoopKind) : Bool := t.entry.source = some k

/-- Whether the type may consume from loops of a kind. -/
def isConsumerOf (t : ObjectType) (k : LoopKind) : Bool := k ∈ t.entry.consumes

theorem mem_all (t : ObjectType) : t ∈ all := by cases t <;> decide

theorem ofName?_name (t : ObjectType) : ofName? t.name = some t := by cases t <;> decide

/-- A type is a source only for plant loops, and only equipment of a source class is. -/
theorem isSource_of_source {t : ObjectType} {k : LoopKind} (h : t.entry.source = some k) :
    t.equipmentClass.isSource = true ∧ k.isPlant = true := by
  cases t <;> simp [entry] at h <;> subst h <;> decide

end ObjectType

/-- The attributes that an HVAC system may declare for all its air loops. -/
def systemAttributes : List AttributeSpec :=
  [.flag "has_dcv", .text "night_cycle", .flag "is_multi_zone"]

end HvacModel
