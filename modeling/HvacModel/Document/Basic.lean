import HvacModel.Weekday
import HvacModel.Catalog
import HvacModel.Measure.Target
import HvacModel.Schedule.DayProfile

/-! # Configuration documents

A `Document` is a configuration that conforms to the grammar: typed records instead of raw values,
every table a list in declaration order.  References between its parts are still names. -/

namespace HvacModel.Document

/-- The overrides of one measure category. -/
structure Measure where
  category : MeasureCategory
  overrides : Attributes
deriving DecidableEq

/-- A branch of an air loop's demand side. -/
structure Branch where
  name : String
  components : List String
deriving DecidableEq, Repr

/-- An air loop: the supply path in flow order, ending at the outlet node, and the branches. -/
structure AirLoop where
  name : String
  supply : List String
  demandBranches : List Branch
deriving DecidableEq, Repr

/-- A plant loop; the inlet node is empty where the document leaves it out. -/
structure PlantLoop where
  name : String
  kind : LoopKind
  inletNode : List String
  supplyBranches : List String
  demandBranches : List String
deriving DecidableEq, Repr

/-- An HVAC system. -/
structure System where
  name : String
  airLoops : List AirLoop
  plantLoops : List PlantLoop
  availabilitySchedule : Option String
  attributes : Attributes
deriving DecidableEq

/-- A component with the components that it owns. -/
inductive Component where
  | mk (name : String) (type : ObjectType) (attributes : Attributes)
      (subComponents : List Component)

namespace Component

def name : Component → String
  | mk name _ _ _ => name

def type : Component → ObjectType
  | mk _ type _ _ => type

def attributes : Component → Attributes
  | mk _ _ attributes _ => attributes

def subComponents : Component → List Component
  | mk _ _ _ subs => subs

end Component

/-- The day that a rule selects. -/
inductive DayRef where
  /-- A day written inside the rule, by its position among the days of the schedule. -/
  | inline (index : Nat)
  /-- A day of the schedule by its key. -/
  | named (key : String)
deriving DecidableEq, Repr

/-- A rule: the weekdays it claims and the day that holds on them. -/
structure Rule where
  key : String
  name : String
  appliesTo : WeekdaySet
  day : DayRef
deriving DecidableEq, Repr

/-- A schedule.  `days` holds every day, those written inside rules too; the other fields are
positions in it. -/
structure Schedule where
  key : String
  name : String
  days : List DayProfile
  defaultDay : Option Nat
  summerDesignDay : Option Nat
  winterDesignDay : Option Nat
  rules : List Rule
deriving DecidableEq

namespace Schedule

/-- Whether a position belongs to a day that is written inside a rule. -/
def isInline (s : Schedule) (index : Nat) : Bool := s.rules.any fun r => r.day = .inline index

/-- The position of the day declared under a key; a day written inside a rule has none. -/
def dayByKey? (s : Schedule) (key : String) : Option Nat :=
  match s.days.findIdx? fun d => d.key = key with
  | some index => if s.isInline index then none else some index
  | none => none

end Schedule

/-- The building archetype that a set belongs to. -/
structure ArchetypeKey where
  baseBuildingType : String
  buildingAge : Int
  climateZone : String
  buildingStandard : String
deriving DecidableEq, Repr

structure ConstructionSet where
  name : String
  archetype : ArchetypeKey
  attributes : Attributes
deriving DecidableEq

structure SpaceType where
  name : String
  baseSpaceType : String
  archetype : ArchetypeKey
  attributes : Attributes
deriving DecidableEq

/-- Settings of a run, passed through. -/
structure RunInfo where
  uuid : String
  outputLocation : String
  tempSimLocation : String
  simulationYear : Int
  timestep : Int
  extra : Attributes
deriving DecidableEq

/-- What the building is made of, and its geometry, passed through. -/
structure BuildingInfo where
  spaceType : String
  constructionSet : String
  hvacSystem : String
  geometry : Attributes
deriving DecidableEq

end HvacModel.Document

namespace HvacModel

open Document in
/-- A configuration in typed form. -/
structure Document where
  measures : List Document.Measure
  systems : List System
  components : List Component
  schedules : List Schedule
  constructionSets : List ConstructionSet
  spaceTypes : List SpaceType
  runInfo : RunInfo
  buildingInfo : BuildingInfo

end HvacModel
