import Mathlib.Data.List.Forall2
import HvacModel.Proofs.Schedule.Declared

/-! # Transcripts of raw values

`Transcript.DocumentOf` relates a raw value to a document that holds all of it and nothing else.
Like the grammar it knows no reader, no path and no list of issues.  The relations are built from
few shapes:

* `TableOf R`: one member for each entry, in order, each related to the entry;
* `FieldOf R`, `OptionalOf R`: what a field that must, or may, be there is related to;
* `NamesOf`: the listed names, a single one standing for a list of one;
* `BagOf`: the attributes under exactly the keys that are not structural.

A schedule has more structure.  `dayEntries` lists the places of a raw schedule where a day is
written; the days of the schedule are related to them one by one, and every position in a schedule
is the position of a place on that list. -/

namespace HvacModel.Transcript

open Document
open Grammar (Fields builtinDays)
open Declared (table)

variable {α : Type}

/-! ### Shapes -/

def ObjectOf (R : Fields → α → Prop) (value : Value) (a : α) : Prop :=
  ∃ fields, value = .object fields ∧ R fields a

/-- One member for each entry of a table, in order. -/
def TableOf (R : String → Value → α → Prop) : Value → List α → Prop :=
  ObjectOf fun fields list => List.Forall₂ (fun e a => R e.1 e.2 a) fields list

def FieldOf (R : Value → α → Prop) (fields : Fields) (key : String) (a : α) : Prop :=
  ∃ value, Value.field? fields key = some value ∧ R value a

def OptionalOf (R : Value → α → Prop) (fields : Fields) (key : String) (a : Option α) : Prop :=
  Option.Rel R (Value.field? fields key) a

/-- A field that may be missing, and a value that stands for a missing one. -/
def FieldOr (missing : α) (R : Value → α → Prop) (fields : Fields) (key : String) (a : α) : Prop :=
  match Value.field? fields key with
  | some value => R value a
  | none => a = missing

def StringOf (value : Value) (s : String) : Prop := value = .string s

def IntegerOf (value : Value) (i : Int) : Prop := value = .number (.int i)

/-- The names of a list, or a single name. -/
def NamesOf (value : Value) (names : List String) : Prop :=
  value = .array (names.map .string) ∨ ∃ name, value = .string name ∧ names = [name]

/-- The attributes of an object: exactly the keys that are not structural, each with the value that
stands there. -/
structure BagOf (structural : List String) (fields : Fields) (bag : Attributes) : Prop where
  keys : ∀ key, (bag.find? key).isSome ↔ key ∉ structural ∧ ∃ raw, (key, raw) ∈ fields
  values : ∀ key value, bag.find? key = some value →
    ∃ raw, (key, raw) ∈ fields ∧ AttributeValue.ofValue? raw = some value

/-! ### Measures -/

structure MeasureFields (key : String) (fields : Fields) (m : Measure) : Prop where
  category : m.category.name = key
  overrides : BagOf [] fields m.overrides

def MeasureOf (key : String) : Value → Measure → Prop := ObjectOf (MeasureFields key)

/-! ### Systems -/

structure BranchOf (key : String) (value : Value) (b : Branch) : Prop where
  name : b.name = key
  components : NamesOf value b.components

structure AirLoopFields (key : String) (fields : Fields) (l : AirLoop) : Prop where
  name : l.name = key
  supply : FieldOf (ObjectOf fun supply => FieldOf NamesOf supply "outlet_node") fields
    "supply_components" l.supply
  demandBranches : FieldOf (ObjectOf fun demand => FieldOf (TableOf BranchOf) demand "branches")
    fields "demand_components" l.demandBranches

def AirLoopOf (key : String) : Value → AirLoop → Prop := ObjectOf (AirLoopFields key)

/-- The inlet node and the branches of a supply side. -/
structure PlantSupplyFields (fields : Fields) (side : List String × List String) : Prop where
  inletNode : FieldOr [] NamesOf fields "inlet_node" side.1
  branches : FieldOf NamesOf fields "branches" side.2

structure PlantLoopFields (key : String) (fields : Fields) (l : PlantLoop) : Prop where
  name : l.name = key
  kind : FieldOf (fun value kind => value = .string (LoopKind.name kind)) fields
    "plant_loop_type" l.kind
  supply : FieldOf (ObjectOf PlantSupplyFields) fields "supply_components"
    (l.inletNode, l.supplyBranches)
  demandBranches : FieldOf (ObjectOf fun demand => FieldOf NamesOf demand "branches") fields
    "demand_components" l.demandBranches

def PlantLoopOf (key : String) : Value → PlantLoop → Prop := ObjectOf (PlantLoopFields key)

structure SystemFields (key : String) (fields : Fields) (s : System) : Prop where
  name : s.name = key
  airLoops : FieldOr [] (TableOf AirLoopOf) fields "air_loops" s.airLoops
  plantLoops : FieldOr [] (TableOf PlantLoopOf) fields "plant_loops" s.plantLoops
  availabilitySchedule : OptionalOf StringOf fields "availability_schedule" s.availabilitySchedule
  attributes : BagOf ["air_loops", "plant_loops", "availability_schedule"] fields s.attributes

def SystemOf (key : String) : Value → System → Prop := ObjectOf (SystemFields key)

/-! ### Components -/

/-- The type and the values of a component. -/
structure ComponentHead (fields : Fields) (type : ObjectType) (attributes : Attributes) : Prop where
  type : Value.field? fields "idd_object_type" = some (.string type.name)
  attributes : FieldOr .empty (ObjectOf (BagOf [])) fields "component_values" attributes

/-- A component with all that it owns, at every depth. -/
inductive ComponentOf : String → Value → Component → Prop where
  | leaf {name : String} {fields : Fields} {type : ObjectType} {attributes : Attributes} :
      ComponentHead fields type attributes → Value.field? fields "sub_components" = none →
      ComponentOf name (.object fields) (.mk name type attributes [])
  | owner {name : String} {fields owned : Fields} {type : ObjectType} {attributes : Attributes}
      {subs : List Component} : ComponentHead fields type attributes →
      Value.field? fields "sub_components" = some (.object owned) →
      List.Forall₂ (fun e c => ComponentOf e.1 e.2 c) owned subs →
      ComponentOf name (.object fields) (.mk name type attributes subs)

/-! ### Schedules -/

/-- The name of an entry; without one the key serves. -/
def NameOf (key : String) (fields : Fields) (name : String) : Prop :=
  FieldOr key StringOf fields "name" name

/-- A breakpoint: the time of a key and the number under it. -/
structure BreakpointOf (text : String) (value : Value) (p : TimeOfDay × Float) : Prop where
  time : TimeOfDay.read text = .ok p.1
  number : ∃ n, value = .number n ∧ p.2 = n.toFloat

structure DayFields (under : String) (fields : Fields) (p : DayProfile) : Prop where
  key : p.key = under
  name : NameOf under fields p.name
  breakpoints : FieldOf (TableOf BreakpointOf) fields "values" p.breakpoints

def DayOf (key : String) : Value → DayProfile → Prop := ObjectOf (DayFields key)

/-- The places of a schedule where a day may be written: a field of its own, an entry of the table
of days, or a rule. -/
inductive DayPlace where
  | builtin (key : String)
  | custom (position : Nat)
  | rule (position : Nat)
deriving DecidableEq

/-- A day that is written at a place, with the key that it goes by. -/
structure DayEntry where
  place : DayPlace
  key : String
  value : Value

/-- The day that has a field of its own. -/
def builtinDay? (fields : Fields) (key : String) : Option DayEntry :=
  (Value.field? fields key).map fun day => ⟨.builtin key, key, day⟩

/-- The day of an entry of the table of days, given with its position. -/
def customDay (e : (String × Value) × Nat) : DayEntry := ⟨.custom e.2, e.1.1, e.1.2⟩

/-- The day that is written inside a rule, which is given with its position. -/
def inlineDay? (e : (String × Value) × Nat) : Option DayEntry :=
  match e.1.2.at? [.key "day_schedule"] with
  | some (.object day) => some ⟨.rule e.2, Path.join e.1.1 "day_schedule", .object day⟩
  | _ => none

/-- The days of a raw schedule in their order. -/
def dayEntries (fields : Fields) : List DayEntry :=
  builtinDays.filterMap (builtinDay? fields) ++
    (table (.object fields) "day_schedules").zipIdx.map customDay ++
    (table (.object fields) "schedule_rules").zipIdx.filterMap inlineDay?

/-- Where the day of a rule stands: under a name, or at the position of what the rule holds. -/
def RuleDayOf (days : List DayEntry) (position : Nat) (fields : Fields) : DayRef → Prop
  | .named name => Value.field? fields "day_schedule" = some (.string name)
  | .inline index => (days[index]?).map DayEntry.place = some (.rule position)

structure RuleFields (days : List DayEntry) (under : String) (position : Nat) (fields : Fields)
    (r : Rule) : Prop where
  key : r.key = under
  name : NameOf under fields r.name
  appliesTo : ∀ d, r.appliesTo.contains d = Declared.applies d (.object fields)
  day : RuleDayOf days position fields r.day

structure ScheduleFields (under : String) (fields : Fields) (s : Schedule) : Prop where
  key : s.key = under
  name : NameOf under fields s.name
  days : List.Forall₂ (fun e p => DayOf e.key e.value p) (dayEntries fields) s.days
  defaultDay : s.defaultDay =
    (dayEntries fields).findIdx? fun e => e.place = .builtin "default_day"
  summerDesignDay : s.summerDesignDay =
    (dayEntries fields).findIdx? fun e => e.place = .builtin "summer_design_day"
  winterDesignDay : s.winterDesignDay =
    (dayEntries fields).findIdx? fun e => e.place = .builtin "winter_design_day"
  rules : List.Forall₂ (fun e r => ObjectOf (RuleFields (dayEntries fields) e.1.1 e.2) e.1.2 r)
    (table (.object fields) "schedule_rules").zipIdx s.rules

def ScheduleOf (key : String) : Value → Schedule → Prop := ObjectOf (ScheduleFields key)

/-! ### Sets and records -/

structure ArchetypeFields (fields : Fields) (a : ArchetypeKey) : Prop where
  baseBuildingType : FieldOf StringOf fields "base_building_type" a.baseBuildingType
  buildingAge : FieldOf IntegerOf fields "building_age" a.buildingAge
  climateZone : FieldOf StringOf fields "climate_zone" a.climateZone
  buildingStandard : FieldOf StringOf fields "building_standard" a.buildingStandard

structure ConstructionSetFields (key : String) (fields : Fields) (s : ConstructionSet) :
    Prop where
  name : s.name = key
  archetype : ArchetypeFields fields s.archetype
  attributes : BagOf ["base_building_type", "building_age", "climate_zone", "building_standard"]
    fields s.attributes

def ConstructionSetOf (key : String) : Value → ConstructionSet → Prop :=
  ObjectOf (ConstructionSetFields key)

structure SpaceTypeFields (key : String) (fields : Fields) (t : SpaceType) : Prop where
  name : t.name = key
  baseSpaceType : FieldOf StringOf fields "base_space_type" t.baseSpaceType
  archetype : ArchetypeFields fields t.archetype
  attributes : BagOf ["base_space_type", "base_building_type", "building_age", "climate_zone",
    "building_standard"] fields t.attributes

def SpaceTypeOf (key : String) : Value → SpaceType → Prop := ObjectOf (SpaceTypeFields key)

structure RunInfoFields (fields : Fields) (r : RunInfo) : Prop where
  uuid : FieldOf StringOf fields "uuid" r.uuid
  outputLocation : FieldOf StringOf fields "output_location" r.outputLocation
  tempSimLocation : FieldOf StringOf fields "temp_sim_location" r.tempSimLocation
  simulationYear : FieldOf IntegerOf fields "simulation_year" r.simulationYear
  timestep : FieldOf IntegerOf fields "timestep" r.timestep
  extra : BagOf ["uuid", "output_location", "temp_sim_location", "simulation_year", "timestep"]
    fields r.extra

structure BuildingFields (fields : Fields) (b : BuildingInfo) : Prop where
  spaceType : FieldOf StringOf fields "space_type" b.spaceType
  constructionSet : FieldOf StringOf fields "construction_set" b.constructionSet
  hvacSystem : FieldOf StringOf fields "hvac_system" b.hvacSystem
  geometry : BagOf ["space_type", "construction_set", "hvac_system"] fields b.geometry

/-! ### Documents -/

structure Sections (root : Fields) (d : Document) : Prop where
  measures : FieldOr [] (TableOf MeasureOf) root "measures" d.measures
  systems : FieldOf (TableOf SystemOf) root "hvac" d.systems
  components : FieldOf (TableOf ComponentOf) root "hvac_components" d.components
  schedules : FieldOf (TableOf ScheduleOf) root "schedules" d.schedules
  constructionSets : FieldOf (TableOf ConstructionSetOf) root "construction_sets"
    d.constructionSets
  spaceTypes : FieldOf (TableOf SpaceTypeOf) root "space_types" d.spaceTypes
  runInfo : FieldOf (ObjectOf RunInfoFields) root "run_info" d.runInfo
  buildingInfo : FieldOf (ObjectOf BuildingFields) root "building_info" d.buildingInfo

/-- A document that holds all of a raw value and nothing else. -/
def DocumentOf : Value → Document → Prop := ObjectOf Sections

end HvacModel.Transcript
