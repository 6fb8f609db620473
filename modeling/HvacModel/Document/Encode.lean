import HvacModel.Document.Basic

/-! # Documents as raw values

The serialized form of a document: every record an object with its fields in a fixed order, every
table an array.  An absent availability schedule is left out, other absent fields are `null`. -/

namespace HvacModel.Document

def Measure.encode (m : Measure) : Value :=
  .object [("category", .string m.category.name), ("overrides", m.overrides.encode)]

def Branch.encode (b : Branch) : Value :=
  .object [("name", .string b.name), ("components", .ofList .string b.components)]

def AirLoop.encode (l : AirLoop) : Value :=
  .object [("name", .string l.name), ("supply", .ofList .string l.supply),
    ("demand_branches", .ofList Branch.encode l.demandBranches)]

def PlantLoop.encode (l : PlantLoop) : Value :=
  .object [("name", .string l.name), ("kind", .string l.kind.name),
    ("inlet_node", .ofList .string l.inletNode),
    ("supply_branches", .ofList .string l.supplyBranches),
    ("demand_branches", .ofList .string l.demandBranches)]

def System.encode (s : System) : Value :=
  .object ([("name", .string s.name), ("air_loops", .ofList AirLoop.encode s.airLoops),
    ("plant_loops", .ofList PlantLoop.encode s.plantLoops)] ++
    s.availabilitySchedule.toList.map (fun key => ("availability_schedule", .string key)) ++
    [("attributes", s.attributes.encode)])

mutual

def Component.encode : Component → Value
  | .mk name type attributes subs =>
    .object [("name", .string name), ("object_type", .string type.name),
      ("attributes", attributes.encode), ("sub_components", .array (Component.encodeList subs))]

def Component.encodeList : List Component → List Value
  | [] => []
  | c :: rest => c.encode :: Component.encodeList rest

end

/-- Breakpoints as pairs of a time and a number. -/
def encodeBreakpoints (points : List (TimeOfDay × Float)) : Value :=
  .ofList (fun p => .array [p.1.encode, .ofFloat p.2]) points

def encodeDay (d : DayProfile) : Value :=
  .object [("key", .string d.key), ("name", .string d.name),
    ("values", encodeBreakpoints d.breakpoints)]

def DayRef.encode : DayRef → Value
  | inline index => .object [("Inline", .ofNat index)]
  | named key => .object [("Named", .string key)]

def Rule.encode (r : Rule) : Value :=
  .object [("key", .string r.key), ("name", .string r.name), ("applies_to", r.appliesTo.encode),
    ("day_schedule", r.day.encode)]

def Schedule.encode (s : Schedule) : Value :=
  .object [("key", .string s.key), ("name", .string s.name), ("days", .ofList encodeDay s.days),
    ("default_day", .ofOption .ofNat s.defaultDay),
    ("summer_design_day", .ofOption .ofNat s.summerDesignDay),
    ("winter_design_day", .ofOption .ofNat s.winterDesignDay),
    ("rules", .ofList Rule.encode s.rules)]

/-- An integer as a raw value. -/
def encodeInt (i : Int) : Value := .number (.int i)

def ArchetypeKey.encode (k : ArchetypeKey) : Value :=
  .object [("base_building_type", .string k.baseBuildingType),
    ("building_age", encodeInt k.buildingAge), ("climate_zone", .string k.climateZone),
    ("building_standard", .string k.buildingStandard)]

def ConstructionSet.encode (c : ConstructionSet) : Value :=
  .object [("name", .string c.name), ("archetype", c.archetype.encode),
    ("attributes", c.attributes.encode)]

def SpaceType.encode (t : SpaceType) : Value :=
  .object [("name", .string t.name), ("base_space_type", .string t.baseSpaceType),
    ("archetype", t.archetype.encode), ("attributes", t.attributes.encode)]

def RunInfo.encode (r : RunInfo) : Value :=
  .object [("uuid", .string r.uuid), ("output_location", .string r.outputLocation),
    ("temp_sim_location", .string r.tempSimLocation),
    ("simulation_year", encodeInt r.simulationYear), ("timestep", encodeInt r.timestep),
    ("extra", r.extra.encode)]

def BuildingInfo.encode (b : BuildingInfo) : Value :=
  .object [("space_type", .string b.spaceType), ("construction_set", .string b.constructionSet),
    ("hvac_system", .string b.hvacSystem), ("geometry", b.geometry.encode)]

/-- The serialized form of a document. -/
def encode (d : Document) : Value :=
  .object [("measures", .ofList Measure.encode d.measures),
    ("hvac", .ofList System.encode d.systems),
    ("components", .array (Component.encodeList d.components)),
    ("schedules", .ofList Schedule.encode d.schedules),
    ("construction_sets", .ofList ConstructionSet.encode d.constructionSets),
    ("space_types", .ofList SpaceType.encode d.spaceTypes),
    ("run_info", d.runInfo.encode), ("building_info", d.buildingInfo.encode)]

end HvacModel.Document
