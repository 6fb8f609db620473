import HvacModel.Report
import HvacModel.Skeleton.Basic

/-! # Resolving names

`Document.resolve` replaces every name of a document by the handle of what it names.  Every name is
looked up exactly; what is not found, or is declared twice, is an error, and all errors of a
document are reported together: first the components that the arena refuses, then the repeated
names of each table, then the references that lead nowhere, system by system, schedule by schedule
and last those of the building. -/

namespace HvacModel

/-- Where a reference stands. -/
inductive ReferenceSite where
  | availabilitySchedule (system : String)
  | airSupply (airLoop : String)
  | airBranch (airLoop branch : String)
  | plantInlet (plantLoop : String)
  | plantSupply (plantLoop : String)
  | plantDemand (plantLoop : String)
  | ruleDay (schedule rule : String)
  | spaceType
  | constructionSet
  | hvacSystem
deriving DecidableEq, Repr

namespace ReferenceSite

/-- What refers. -/
def entity : ReferenceSite → String
  | availabilitySchedule system => "hvac system '" ++ system ++ "'"
  | airSupply loop | airBranch loop _ => "air loop '" ++ loop ++ "'"
  | plantInlet loop | plantSupply loop | plantDemand loop => "plant loop '" ++ loop ++ "'"
  | ruleDay schedule rule => "schedule '" ++ schedule ++ "' rule '" ++ rule ++ "'"
  | spaceType | constructionSet | hvacSystem => "building_info"

/-- The field that refers. -/
def field : ReferenceSite → String
  | availabilitySchedule _ => "availability_schedule"
  | airSupply _ => "supply_components.outlet_node"
  | airBranch _ branch => "demand_components.branches." ++ branch
  | plantInlet _ => "supply_components.inlet_node"
  | plantSupply _ => "supply_components.branches"
  | plantDemand _ => "demand_components.branches"
  | ruleDay _ _ => "day_schedule"
  | spaceType => "space_type"
  | constructionSet => "construction_set"
  | hvacSystem => "hvac_system"

end ReferenceSite

/-- Why a document has no skeleton. -/
inductive ResolveError where
  | duplicate (error : DuplicateName)
  | dangling (site : ReferenceSite) (missing : String)
deriving DecidableEq, Repr

def ResolveError.message : ResolveError → String
  | duplicate error => error.message
  | dangling site missing =>
    site.entity ++ ": " ++ site.field ++ " refers to unknown '" ++ missing ++ "'"

namespace Skeleton

open Report (each collect whenSome)

/-- A value and the errors met on the way to it. -/
abbrev Resolving (α : Type) := Report ResolveError α

/-- The arena of the components that are accepted one after the other. -/
def addComponents (arena : Arena) : List Document.Component → Resolving Arena
  | [] => pure arena
  | c :: rest =>
    match arena.add c with
    | .ok (extended, _) => addComponents extended rest
    | .error error => do
      Report.tell (.duplicate error)
      addComponents arena rest

/-- The index of a table; every repeated name is an error. -/
def table {entity : Entity} (scope : String) (names : List String) :
    Resolving (NameIndex entity) :=
  let indexed : NameIndex entity × List String := NameIndex.ofNames names
  ⟨indexed.1, indexed.2.map fun name => .duplicate ⟨scope, name⟩⟩

/-- What a lookup found, or an error at the site. -/
def found {α : Type} (site : ReferenceSite) (name : String) (result : Option α) :
    Resolving (Option α) :=
  match result with
  | some a => pure (some a)
  | none => do
    Report.tell (.dangling site name)
    pure none

/-- The components of a list of references. -/
def componentList (arena : Arena) (site : ReferenceSite) (names : List String) :
    Resolving (List (Handle .component)) :=
  collect (fun name => found site name (arena.resolve? name)) names

def airLoop (arena : Arena) (attributes : Attributes) (id : Nat) (l : Document.AirLoop) :
    Resolving AirLoop := do
  let supply ← componentList arena (.airSupply l.name) l.supply
  let branches ← each (fun (b : Document.Branch) => do
    pure ⟨b.name, ← componentList arena (.airBranch l.name b.name) b.components⟩) l.demandBranches
  pure ⟨⟨id⟩, l.name, supply, branches, attributes⟩

def plantLoop (arena : Arena) (id : Nat) (l : Document.PlantLoop) : Resolving PlantLoop := do
  let inlet ← componentList arena (.plantInlet l.name) l.inletNode
  let supply ← componentList arena (.plantSupply l.name) l.supplyBranches
  let demand ← componentList arena (.plantDemand l.name) l.demandBranches
  pure ⟨⟨id⟩, l.name, l.kind, inlet, supply, demand⟩

/-- A step on each member of a list and its position, counted from a number. -/
def eachFrom {α β : Type} (step : Nat → α → Resolving β) (first : Nat) :
    List α → Resolving (List β)
  | [] => pure []
  | a :: rest => do
    let b ← step first a
    let bs ← eachFrom step (first + 1) rest
    pure (b :: bs)

/-- A system whose loops are counted from a number. -/
def system (arena : Arena) (schedules : NameIndex .schedule) (index firstLoop : Nat)
    (s : Document.System) : Resolving System := do
  let schedule ← whenSome s.availabilitySchedule fun name =>
    found (.availabilitySchedule s.name) name (schedules.find? name)
  let airLoops ← eachFrom (airLoop arena s.attributes) firstLoop s.airLoops
  let plantLoops ← eachFrom (plantLoop arena) (firstLoop + s.airLoops.length) s.plantLoops
  pure ⟨⟨index⟩, s.name, airLoops, plantLoops, schedule, s.attributes⟩

/-- Systems from a position on, their loops counted from a number. -/
def systemsFrom (arena : Arena) (schedules : NameIndex .schedule) (index firstLoop : Nat) :
    List Document.System → Resolving (List System)
  | [] => pure []
  | s :: rest => do
    let first ← system arena schedules index firstLoop s
    let more ← systemsFrom arena schedules (index + 1)
      (firstLoop + s.airLoops.length + s.plantLoops.length) rest
    pure (first :: more)

/-- The position of the day that a rule selects. -/
def ruleDay (s : Document.Schedule) (r : Document.Rule) : Resolving (Option Nat) :=
  match r.day with
  | .inline index => pure (some index)
  | .named key => found (.ruleDay s.key r.key) key (s.dayByKey? key)

def scheduleLinks (index : Nat) (s : Document.Schedule) : Resolving ScheduleLinks := do
  let ruleDays ← collect (ruleDay s) s.rules
  pure ⟨⟨index⟩, s.key, ruleDays⟩

/-- The links of the building, absent where one leads nowhere. -/
def buildingLinks (spaceTypes : NameIndex .spaceType)
    (constructionSets : NameIndex .constructionSet) (systems : NameIndex .system)
    (b : Document.BuildingInfo) : Resolving (Option BuildingLinks) := do
  let spaceType ← found .spaceType b.spaceType (spaceTypes.find? b.spaceType)
  let constructionSet ←
    found .constructionSet b.constructionSet (constructionSets.find? b.constructionSet)
  let hvacSystem ← found .hvacSystem b.hvacSystem (systems.find? b.hvacSystem)
  pure do
    let spaceType ← spaceType
    let constructionSet ← constructionSet
    let hvacSystem ← hvacSystem
    some ⟨spaceType, constructionSet, hvacSystem⟩

/-- The skeleton of a document, absent where the building leads nowhere. -/
def ofDocument (d : Document) : Resolving (Option Skeleton) := do
  let arena ← addComponents .empty d.components
  let systemNames ← table "hvac" (d.systems.map Document.System.name)
  let scheduleNames ← table "schedules" (d.schedules.map Document.Schedule.key)
  let constructionNames ←
    table "construction_sets" (d.constructionSets.map Document.ConstructionSet.name)
  let spaceTypeNames ← table "space_types" (d.spaceTypes.map Document.SpaceType.name)
  let systems ← systemsFrom arena scheduleNames 0 0 d.systems
  let schedules ← eachFrom scheduleLinks 0 d.schedules
  let building ← buildingLinks spaceTypeNames constructionNames systemNames d.buildingInfo
  pure (building.map fun building => ⟨arena, systems, schedules, building⟩)

end Skeleton

/-- The skeleton of a document, or all its errors. -/
def Document.resolve (d : Document) : Except (List ResolveError) Skeleton :=
  let report := Skeleton.ofDocument d
  match report.value with
  | some skeleton => if report.findings.isEmpty then .ok skeleton else .error report.findings
  | none => .error report.findings

end HvacModel
