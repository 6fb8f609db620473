import HvacModel.Schedule.Compile
import HvacModel.Document.Encode
import HvacModel.Json.Printer
import HvacModel.Digest.Sha256

/-! # Compiled models

A `Model` is a configuration with every reference resolved, the loops checked, the measures applied
and the schedules compiled.  Its raw value has its fields in a fixed order, and its fingerprint is
the hash of the compact text of that value. -/

namespace HvacModel

/-- The building with its links and its geometry. -/
structure Model.Building where
  spaceType : Handle .spaceType
  constructionSet : Handle .constructionSet
  hvacSystem : Handle .system
  geometry : Attributes
deriving DecidableEq

/-- A compiled configuration. -/
structure Model where
  components : Arena
  systems : List Skeleton.System
  schedules : List CompiledSchedule
  constructionSets : List Document.ConstructionSet
  spaceTypes : List Document.SpaceType
  building : Model.Building
  runInfo : Document.RunInfo
deriving DecidableEq

namespace Model

/-- The component of a reference. -/
def component? (m : Model) (reference : String) : Option ComponentNode :=
  (m.components.resolve? reference).bind m.components.node?

def system? (m : Model) (name : String) : Option Skeleton.System :=
  m.systems.find? fun s => s.name = name

def schedule? (m : Model) (key : String) : Option CompiledSchedule :=
  m.schedules.find? fun s => s.key = key

def airLoops (m : Model) : List Skeleton.AirLoop := m.systems.flatMap Skeleton.System.airLoops

def plantLoops (m : Model) : List Skeleton.PlantLoop := m.systems.flatMap Skeleton.System.plantLoops

/-- The system of the building. -/
def buildingSystem? (m : Model) : Option Skeleton.System := m.building.hvacSystem.get? m.systems

/-! ### Raw values -/

def Building.encode (b : Building) : Value :=
  .object [("space_type", b.spaceType.encode), ("construction_set", b.constructionSet.encode),
    ("hvac_system", b.hvacSystem.encode), ("geometry", b.geometry.encode)]

def encode (m : Model) : Value :=
  .object [("components", m.components.encode),
    ("systems", .ofList Skeleton.System.encode m.systems),
    ("schedules", .ofList CompiledSchedule.encode m.schedules),
    ("construction_sets", .ofList Document.ConstructionSet.encode m.constructionSets),
    ("space_types", .ofList Document.SpaceType.encode m.spaceTypes),
    ("building", m.building.encode), ("run_info", m.runInfo.encode)]

/-- The hash of the compact text of the model. -/
def fingerprint (m : Model) : String := Sha256.hex (Json.compact m.encode)

end Model

/-! ### Queries -/

/-- Why a query has no value. -/
inductive QueryError where
  | scheduleNotFound (key : String)
  /-- The weekday points at a day that the schedule does not have. -/
  | dayMissing
deriving DecidableEq, Repr

def QueryError.message : QueryError → String
  | scheduleNotFound key => "Schedule not found: " ++ key
  | dayMissing => "Schedule has no day for this weekday"

/-- The value of a schedule at a time of a weekday. -/
def Model.query (m : Model) (key : String) (d : Weekday) (time : TimeOfDay) :
    Except QueryError Float :=
  match m.schedule? key with
  | none => .error (.scheduleNotFound key)
  | some s =>
    match s.valueAt? d time with
    | some x => .ok x
    | none => .error .dayMissing

/-! ### Summaries -/

/-- One loop of a summary. -/
structure LoopSummary where
  name : String
  kind : LoopKind
  componentCount : Nat
deriving DecidableEq, Repr

/-- What a model holds, in numbers. -/
structure Summary where
  systemCount : Nat
  componentCount : Nat
  subComponentCount : Nat
  loops : List LoopSummary
  scheduleCount : Nat
  fingerprint : String
deriving DecidableEq, Repr

namespace Summary

/-- The number of places on an air loop. -/
def ofAirLoop (l : Skeleton.AirLoop) : LoopSummary :=
  ⟨l.name, .air, l.supply.length + (l.demandBranches.flatMap Skeleton.Branch.components).length⟩

/-- The number of places on a plant loop. -/
def ofPlantLoop (l : Skeleton.PlantLoop) : LoopSummary :=
  ⟨l.name, l.kind, l.inletNode.length + l.supplyBranches.length + l.demandBranches.length⟩

/-- The number of components that another one owns. -/
def ownedCount (a : Arena) : Nat := a.nodes.countP fun n => n.owner.isSome

def ofModel (m : Model) : Summary :=
  { systemCount := m.systems.length
    componentCount := m.components.size - ownedCount m.components
    subComponentCount := ownedCount m.components
    loops := m.airLoops.map ofAirLoop ++ m.plantLoops.map ofPlantLoop
    scheduleCount := m.schedules.length
    fingerprint := m.fingerprint }

def encode (s : Summary) : Value :=
  .object [("system_count", .ofNat s.systemCount), ("component_count", .ofNat s.componentCount),
    ("sub_component_count", .ofNat s.subComponentCount),
    ("loops", .ofList (fun (l : LoopSummary) => .object [("name", .string l.name),
      ("kind", .string l.kind.name), ("component_count", .ofNat l.componentCount)]) s.loops),
    ("schedule_count", .ofNat s.scheduleCount), ("fingerprint", .string s.fingerprint)]

end Summary

end HvacModel
