import HvacModel.Archetype.Basic

/-! # Parameters of a generated configuration

`ArchetypeParams` are the choices about a building and its operation, with the values that hold
unless something else is chosen.  `ArchetypeParams.check` says which parameters no configuration
is generated for. -/

namespace HvacModel

/-- Choices about a building and its operation. -/
structure ArchetypeParams where
  coolingSetpoint : Float
  heatingSetpoint : Float
  hasSetback : Bool
  hasWeekendOccupancy : Bool
  hasDemandControl : Bool
  weekdayStartHour : UInt8
  weekdayEndHour : UInt8
  buildingType : BuildingType
  /-- The total floor area in square metres. -/
  buildingArea : Float
  buildingShape : BuildingShape
  windowToWallRatio : Float
  buildingAge : Int64
  climateZone : String
  numberOfFloors : UInt32
  floorHeight : Float
  simulationYear : Int64
  outputLocation : String

namespace ArchetypeParams

/-- The values that hold unless something else is chosen. -/
def default : ArchetypeParams where
  coolingSetpoint := 24.0
  heatingSetpoint := 21.0
  hasSetback := false
  hasWeekendOccupancy := false
  hasDemandControl := false
  weekdayStartHour := 6
  weekdayEndHour := 18
  buildingType := .office
  buildingArea := 10000.0
  buildingShape := .rectangle
  windowToWallRatio := 0.33
  buildingAge := 2004
  climateZone := "5A"
  numberOfFloors := 10
  floorHeight := 3.96
  simulationYear := 2014
  outputLocation := "./output"

instance : Inhabited ArchetypeParams := ⟨default⟩

/-- The building standard of the building's year. -/
def buildingStandard (p : ArchetypeParams) : String :=
  "ASHRAE 90.1-" ++ toString p.buildingAge.toInt

/-- Refuse parameters that describe no building; the hours are looked at first, then the floors,
the area and the windows. -/
def check (p : ArchetypeParams) : Except ArchetypeFault Unit :=
  if p.weekdayStartHour = 0 ∨ p.weekdayEndHour ≤ p.weekdayStartHour ∨
      nightOffHour ≤ p.weekdayEndHour then
    .error (.hours p.weekdayStartHour p.weekdayEndHour)
  else if p.numberOfFloors = 0 then .error .noFloors
  else if !p.buildingArea.isFinite || p.buildingArea ≤ 0.0 then .error (.area p.buildingArea)
  else if p.windowToWallRatio.isNaN || p.windowToWallRatio ≤ 0.0 || 1.0 ≤ p.windowToWallRatio then
    .error (.windowRatio p.windowToWallRatio)
  else .ok ()

end ArchetypeParams

end HvacModel
