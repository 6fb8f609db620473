import HvacModel.Catalog

/-! # Measure targets

A measure category has a fixed table of keys.  Each key writes one attribute of a given kind,
either on every air loop or on every component of the listed classes whose type declares the
attribute.  `Measure.target?` looks a key up. -/

namespace HvacModel

/-- The categories of measures, in the order in which they are named in reports. -/
inductive MeasureCategory where
  | hvacControls | hvacEquipment
deriving DecidableEq, Repr

namespace MeasureCategory

def all : List MeasureCategory := [hvacControls, hvacEquipment]

def name : MeasureCategory → String
  | hvacControls => "hvac_controls"
  | hvacEquipment => "hvac_equipment"

def ofName? (text : String) : Option MeasureCategory := all.find? fun c => c.name = text

theorem ofName?_name (c : MeasureCategory) : ofName? c.name = some c := by cases c <;> decide

end MeasureCategory

namespace Measure

/-- The entities that a key writes to. -/
inductive Scope where
  | airLoops
  | equipment (classes : List EquipmentClass)
deriving DecidableEq, Repr

/-- Where and what a key writes. -/
structure Target where
  scope : Scope
  name : String
  kind : AttributeKind
deriving DecidableEq, Repr

/-- The key that names an attribute of every air loop. -/
def onAirLoops (name : String) (kind : AttributeKind) : String × Target :=
  (name, ⟨.airLoops, name, kind⟩)

/-- A key for a numeric attribute of one class of equipment. -/
def onEquipment (key : String) (c : EquipmentClass) (name : String) : String × Target :=
  (key, ⟨.equipment [c], name, .number⟩)

/-- The keys of a category. -/
def targets : MeasureCategory → List (String × Target)
  | .hvacControls =>
    [onAirLoops "cooling_setpoint" .number, onAirLoops "heating_setpoint" .number,
      onAirLoops "has_setback" .flag, onAirLoops "has_weekend_occupancy" .flag,
      onAirLoops "weekday_start_time" .text, onAirLoops "weekday_end_time" .text,
      onAirLoops "has_dcv" .flag, onAirLoops "night_cycle" .text]
  | .hvacEquipment =>
    [onEquipment "fan_efficiency" .fan "fan_efficiency",
      onEquipment "fan_pressure_rise" .fan "pressure_rise",
      onEquipment "fan_motor_efficiency" .fan "motor_efficiency",
      onEquipment "pump_motor_efficiency" .pump "motor_efficiency",
      onEquipment "pump_head" .pump "rated_pump_head",
      onEquipment "cooling_coil_cop" .coil "rated_cop",
      onAirLoops "has_dcv" .flag, onAirLoops "night_cycle" .text]

/-- The target of a key. -/
def target? (category : MeasureCategory) (key : String) : Option Target :=
  (targets category).lookup key

end Measure

end HvacModel
