import HvacModel.Decimal.Layout

/-! # Archetypes of buildings

A configuration can be generated from three choices: the archetype of its HVAC system, the type of
its building and the shape of its footprint.  Each choice is found by its name in any case of ASCII
letters; `ArchetypeFault` holds every reason why no configuration is generated. -/

namespace HvacModel

/-- The archetypes of HVAC systems. -/
inductive SystemArchetype where
  /-- A packaged terminal air conditioner. -/
  | packagedTerminal
  /-- Packaged variable air volume with reheat. -/
  | packagedVariableVolume
  /-- Variable air volume with hot-water reheat and a chilled and condenser water plant. -/
  | centralVariableVolume
deriving DecidableEq, Repr

/-- Internal gains and ventilation rates of a space type. -/
structure SpaceDensity where
  /-- Watts per square metre. -/
  plugLoad : Float
  /-- Watts per square metre. -/
  lighting : Float
  /-- Square metres per person. -/
  areaPerPerson : Float
  /-- Cubic metres per second and person. -/
  outdoorAirPerPerson : Float
  /-- Cubic metres per second and square metre. -/
  outdoorAirPerArea : Float

/-- The types of buildings. -/
inductive BuildingType where
  | office | retail | school | hospital | hotel | restaurant | warehouse | apartment
deriving DecidableEq, Repr

/-- The shapes of footprints. -/
inductive BuildingShape where
  | rectangle | l | h | t | u
deriving DecidableEq, Repr

/-- Why no configuration is generated. -/
inductive ArchetypeFault where
  | unknownSystem (text : String)
  | unknownBuildingType (text : String)
  | unknownShape (text : String)
  | hours (first last : UInt8)
  | noFloors
  | area (x : Float)
  | windowRatio (x : Float)

/-- The hour at which every generated occupancy profile switches off for the night. -/
def nightOffHour : UInt8 := 22

/-- The reason in words. -/
def ArchetypeFault.reason : ArchetypeFault → String
  | unknownSystem text => "Unknown system archetype: " ++ text
  | unknownBuildingType text => "Unknown building type: " ++ text
  | unknownShape text => "Unknown building shape: " ++ text
  | hours first last =>
    "Weekday hours must satisfy 0 < start < end < " ++ toString nightOffHour.toNat ++ ": got " ++
      toString first.toNat ++ ".." ++ toString last.toNat
  | noFloors => "Building needs at least one floor"
  | area x => "Building area must be positive: got " ++ Decimal.Layout.plain.render x
  | windowRatio x =>
    "Window-to-wall ratio must lie in (0, 1): got " ++ Decimal.Layout.plain.render x

def ArchetypeFault.message (fault : ArchetypeFault) : String := "Invalid input: " ++ fault.reason

/-- Equality of names up to the case of ASCII letters. -/
def sameName (a b : String) : Bool := a.toLower = b.toLower

namespace SystemArchetype

def all : List SystemArchetype := [packagedTerminal, packagedVariableVolume, centralVariableVolume]

def name : SystemArchetype → String
  | packagedTerminal => "System01"
  | packagedVariableVolume => "System05"
  | centralVariableVolume => "System07"

def read (text : String) : Except ArchetypeFault SystemArchetype :=
  match all.find? fun a => sameName a.name text with
  | some a => .ok a
  | none => .error (.unknownSystem text)

def fanEfficiency : SystemArchetype → Float
  | packagedTerminal => 0.6
  | packagedVariableVolume => 0.68
  | centralVariableVolume => 0.7

/-- The pressure rise over the fan in pascals. -/
def fanPressureRise : SystemArchetype → Float
  | packagedTerminal => 500.0
  | packagedVariableVolume => 1100.0
  | centralVariableVolume => 1250.0

def fanMotorEfficiency : SystemArchetype → Float
  | packagedTerminal => 0.9
  | packagedVariableVolume | centralVariableVolume => 0.93

def isMultiZone : SystemArchetype → Bool
  | packagedTerminal => false
  | packagedVariableVolume | centralVariableVolume => true

end SystemArchetype

namespace BuildingType

def all : List BuildingType :=
  [office, retail, school, hospital, hotel, restaurant, warehouse, apartment]

def name : BuildingType → String
  | office => "Office"
  | retail => "Retail"
  | school => "School"
  | hospital => "Hospital"
  | hotel => "Hotel"
  | restaurant => "Restaurant"
  | warehouse => "Warehouse"
  | apartment => "Apartment"

/-- The prototype building that the construction set and the space type derive from. -/
def prototype : BuildingType → String
  | office => "LargeOffice"
  | retail => "RetailStandalone"
  | school => "SecondarySchool"
  | hospital => "Hospital"
  | hotel => "LargeHotel"
  | restaurant => "FullServiceRestaurant"
  | warehouse => "Warehouse"
  | apartment => "MidriseApartment"

def density : BuildingType → SpaceDensity
  | office => ⟨10.76, 10.76, 18.6, 0.0125, 0.0⟩
  | retail => ⟨6.88, 16.15, 4.65, 0.0038, 0.0006⟩
  | school => ⟨6.5, 15.77, 4.65, 0.0038, 0.0006⟩
  | hospital => ⟨7.5, 16.0, 8.0, 0.0125, 0.0006⟩
  | hotel => ⟨8.0, 11.0, 23.0, 0.0063, 0.0003⟩
  | restaurant => ⟨15.0, 22.0, 1.4, 0.0094, 0.0018⟩
  | warehouse => ⟨3.0, 8.0, 200.0, 0.0063, 0.0002⟩
  | apartment => ⟨4.0, 7.0, 38.0, 0.0063, 0.0003⟩

def read (text : String) : Except ArchetypeFault BuildingType :=
  match all.find? fun t => sameName t.name text with
  | some t => .ok t
  | none => .error (.unknownBuildingType text)

end BuildingType

namespace BuildingShape

def all : List BuildingShape := [rectangle, l, h, t, u]

def name : BuildingShape → String
  | rectangle => "Rectangle"
  | l => "L"
  | h => "H"
  | t => "T"
  | u => "U"

def read (text : String) : Except ArchetypeFault BuildingShape :=
  match all.find? fun s => sameName s.name text with
  | some s => .ok s
  | none => .error (.unknownShape text)

end BuildingShape

end HvacModel
