import HvacModel.Component.Arena

/-! # Skeletons

A `Skeleton` is a document whose names are replaced by handles: components in an arena, loops as
lists of component handles, and for every schedule the positions of the days that its rules select.
Loop handles count all loops of all systems, the air loops of a system before its plant loops. -/

namespace HvacModel

namespace Skeleton

structure Branch where
  name : String
  components : List (Handle .component)
deriving DecidableEq

/-- An air loop; its attributes are those of its system until measures change them. -/
structure AirLoop where
  id : Handle .loop
  name : String
  supply : List (Handle .component)
  demandBranches : List Branch
  attributes : Attributes
deriving DecidableEq

structure PlantLoop where
  id : Handle .loop
  name : String
  kind : LoopKind
  inletNode : List (Handle .component)
  supplyBranches : List (Handle .component)
  demandBranches : List (Handle .component)
deriving DecidableEq

structure System where
  id : Handle .system
  name : String
  airLoops : List AirLoop
  plantLoops : List PlantLoop
  availabilitySchedule : Option (Handle .schedule)
  attributes : Attributes
deriving DecidableEq

/-- The positions of the days that the rules of a schedule select, in rule order. -/
structure ScheduleLinks where
  id : Handle .schedule
  key : String
  ruleDays : List Nat
deriving DecidableEq

structure BuildingLinks where
  spaceType : Handle .spaceType
  constructionSet : Handle .constructionSet
  hvacSystem : Handle .system
deriving DecidableEq

end Skeleton

/-- A document with handles for names. -/
structure Skeleton where
  components : Arena
  systems : List Skeleton.System
  schedules : List Skeleton.ScheduleLinks
  building : Skeleton.BuildingLinks
deriving DecidableEq

namespace Skeleton

/-- The air loops of all systems. -/
def airLoops (s : Skeleton) : List AirLoop := s.systems.flatMap System.airLoops

/-- The plant loops of all systems. -/
def plantLoops (s : Skeleton) : List PlantLoop := s.systems.flatMap System.plantLoops

/-! ### Raw values -/

/-- Handles as a raw array. -/
def encodeHandles {entity : Entity} (handles : List (Handle entity)) : Value :=
  .ofList Handle.encode handles

def Branch.encode (b : Branch) : Value :=
  .object [("name", .string b.name), ("components", encodeHandles b.components)]

def AirLoop.encode (l : AirLoop) : Value :=
  .object [("id", l.id.encode), ("name", .string l.name), ("supply", encodeHandles l.supply),
    ("demand_branches", .ofList Branch.encode l.demandBranches),
    ("attributes", l.attributes.encode)]

def PlantLoop.encode (l : PlantLoop) : Value :=
  .object [("id", l.id.encode), ("name", .string l.name), ("kind", .string l.kind.name),
    ("inlet_node", encodeHandles l.inletNode),
    ("supply_branches", encodeHandles l.supplyBranches),
    ("demand_branches", encodeHandles l.demandBranches)]

def System.encode (s : System) : Value :=
  .object [("id", s.id.encode), ("name", .string s.name),
    ("air_loops", .ofList AirLoop.encode s.airLoops),
    ("plant_loops", .ofList PlantLoop.encode s.plantLoops),
    ("availability_schedule", .ofOption Handle.encode s.availabilitySchedule),
    ("attributes", s.attributes.encode)]

def ScheduleLinks.encode (l : ScheduleLinks) : Value :=
  .object [("id", l.id.encode), ("key", .string l.key),
    ("rule_days", .ofList .ofNat l.ruleDays)]

def BuildingLinks.encode (b : BuildingLinks) : Value :=
  .object [("space_type", b.spaceType.encode), ("construction_set", b.constructionSet.encode),
    ("hvac_system", b.hvacSystem.encode)]

def encode (s : Skeleton) : Value :=
  .object [("components", s.components.encode), ("systems", .ofList System.encode s.systems),
    ("schedules", .ofList ScheduleLinks.encode s.schedules), ("building", s.building.encode)]

end Skeleton

end HvacModel
