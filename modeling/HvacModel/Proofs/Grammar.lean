import HvacModel.Measure.Target
import HvacModel.TimeOfDay
import HvacModel.Weekday

/-! # The grammar of configurations

`Grammar.IsDocument` says which raw values are configurations.  It is a predicate on the value
alone: no reader, no path and no list of findings occurs in it.  The sections are described from
the leaves up by four shapes of objects:

* `IsObject P`: an object whose entries, as a whole, satisfy `P`;
* `IsTable P`: an object of any entries, each of which satisfies `P` with its key;
* `Has fields key P` and `MayHave fields key P`: a field that must, or may, be there;
* `Only allowed fields`: no field but the allowed ones.

Where a key is repeated the first entry counts, as in every lookup.

Configurations of small buildings share most of their sections: `buildingSections` are those that
do not depend on the systems, components and schedules of a building. -/

namespace HvacModel.Grammar

/-- The entries of an object. -/
abbrev Fields := List (String × Value)

/-! ### Shapes -/

def IsObject (P : Fields → Prop) (value : Value) : Prop :=
  ∃ fields, value = .object fields ∧ P fields

def IsTable (P : String → Value → Prop) : Value → Prop :=
  IsObject fun fields => ∀ e ∈ fields, P e.1 e.2

def Has (fields : Fields) (key : String) (P : Value → Prop) : Prop :=
  ∃ value, Value.field? fields key = some value ∧ P value

def MayHave (fields : Fields) (key : String) (P : Value → Prop) : Prop :=
  ∀ value, Value.field? fields key = some value → P value

def Only (allowed : List String) (fields : Fields) : Prop := ∀ e ∈ fields, e.1 ∈ allowed

theorem has_congr {P Q : Value → Prop} (h : ∀ value, P value ↔ Q value) (fields : Fields)
    (key : String) : Has fields key P ↔ Has fields key Q := by
  unfold Has
  simp only [h]

/-! ### Scalars -/

def IsString (value : Value) : Prop := ∃ s, value = .string s

def IsNumber (value : Value) : Prop := ∃ n, value = .number n

def IsFlag (value : Value) : Prop := ∃ b, value = .bool b

/-- A number written as an integer of 64 bits with sign. -/
def IsInteger (value : Value) : Prop :=
  ∃ i : Int, value = .number (.int i) ∧ -9223372036854775808 ≤ i ∧ i ≤ 9223372036854775807

def IsScalar (value : Value) : Prop := IsFlag value ∨ IsNumber value ∨ IsString value

/-- A scalar of a declared kind. -/
def IsOfKind : AttributeKind → Value → Prop
  | .number => IsNumber
  | .text => IsString
  | .flag => IsFlag

/-- A single name or a list of names. -/
def IsNameList (value : Value) : Prop :=
  IsString value ∨ ∃ items, value = .array items ∧ ∀ item ∈ items, IsString item

/-- A scalar under every key but the excepted ones. -/
def OpenAttributes (except : List String) (fields : Fields) : Prop :=
  ∀ e ∈ fields, e.1 ∈ except ∨ IsScalar e.2

/-- A value of the kind that one of the declarations gives its key. -/
def Declares (specs : List AttributeSpec) (key : String) (value : Value) : Prop :=
  ∃ spec ∈ specs, spec.name = key ∧ IsOfKind spec.kind value

/-! ### Measures -/

/-- The body of a measure: every key has a target of the category, every value its kind. -/
def IsMeasure (name : String) (body : Value) : Prop :=
  ∃ category : MeasureCategory, category.name = name ∧
    IsTable (fun key value => ∃ target, (key, target) ∈ Measure.targets category ∧
      IsOfKind target.kind value) body

/-! ### Systems -/

def IsAirLoop : Value → Prop := IsObject fun fields =>
  Only ["supply_components", "demand_components"] fields ∧
    Has fields "supply_components" (IsObject fun supply =>
      Only ["outlet_node"] supply ∧ Has supply "outlet_node" IsNameList) ∧
    Has fields "demand_components" (IsObject fun demand =>
      Only ["branches"] demand ∧ Has demand "branches" (IsTable fun _ => IsNameList))

/-- The name of a kind of loop that moves water. -/
def IsWaterKind (value : Value) : Prop :=
  ∃ kind ∈ [LoopKind.hotWater, .chilledWater, .condenserWater], value = .string kind.name

def IsPlantLoop : Value → Prop := IsObject fun fields =>
  Only ["plant_loop_type", "supply_components", "demand_components"] fields ∧
    Has fields "plant_loop_type" IsWaterKind ∧
    Has fields "supply_components" (IsObject fun supply =>
      Only ["inlet_node", "branches"] supply ∧ MayHave supply "inlet_node" IsNameList ∧
        Has supply "branches" IsNameList) ∧
    Has fields "demand_components" (IsObject fun demand =>
      Only ["branches"] demand ∧ Has demand "branches" IsNameList)

/-- A system: loop tables, an availability schedule, and system attributes. -/
def IsSystem : Value → Prop := IsObject fun fields =>
  (∀ e ∈ fields, e.1 ∈ ["air_loops", "plant_loops", "availability_schedule"] ∨
      Declares systemAttributes e.1 e.2) ∧
    MayHave fields "availability_schedule" IsString ∧
    MayHave fields "air_loops" (IsTable fun _ => IsAirLoop) ∧
    MayHave fields "plant_loops" (IsTable fun _ => IsPlantLoop)

/-! ### Components -/

/-- A component but for what it owns: a name without a point, a known type, and values of
attributes that the type declares. -/
def IsComponentHead (name : String) (fields : Fields) : Prop :=
  '.' ∉ name.toList ∧
    Only ["idd_object_type", "component_values", "sub_components"] fields ∧
    ∃ type : ObjectType, Has fields "idd_object_type" (· = .string type.name) ∧
      MayHave fields "component_values" (IsTable (Declares type.entry.attributes))

/-- A component of a name, with the components that it owns at every depth. -/
inductive IsComponent : String → Value → Prop where
  | leaf {name : String} {fields : Fields} : IsComponentHead name fields →
      Value.field? fields "sub_components" = none → IsComponent name (.object fields)
  | owner {name : String} {fields owned : Fields} : IsComponentHead name fields →
      Value.field? fields "sub_components" = some (.object owned) →
      (∀ e ∈ owned, IsComponent e.1 e.2) → IsComponent name (.object fields)

/-! ### Schedules -/

/-- The breakpoints of a day: numbers under increasing times, the first of them midnight and the
last before the end of the day. -/
def IsDayTable : Value → Prop := IsObject fun entries =>
  (∀ e ∈ entries, IsNumber e.2) ∧
    ∃ times : List TimeOfDay, entries.map (fun e => TimeOfDay.read e.1) = times.map .ok ∧
      times.head? = some .midnight ∧ times.Pairwise (· < ·) ∧ ∀ t ∈ times, t < .endOfDay

def IsDay : Value → Prop := IsObject fun fields =>
  Only ["name", "values"] fields ∧ MayHave fields "name" IsString ∧ Has fields "values" IsDayTable

/-- The flag of a weekday in a rule. -/
def dayFlag (d : Weekday) : String := "apply_" ++ d.fullName

/-- The flags of a rule: one for each weekday, and one for Monday to Friday together. -/
def ruleFlags : List String := Weekday.all.map dayFlag ++ ["apply_weekdays"]

/-- A rule: flags, and a day by its name or written in place. -/
def IsRule : Value → Prop := IsObject fun fields =>
  Only ("name" :: "day_schedule" :: ruleFlags) fields ∧ MayHave fields "name" IsString ∧
    (∀ flag ∈ ruleFlags, MayHave fields flag IsFlag) ∧
    Has fields "day_schedule" fun value => IsString value ∨ IsDay value

/-- The days of a schedule that have a field of their own. -/
def builtinDays : List String := ["default_day", "summer_design_day", "winter_design_day"]

def IsSchedule : Value → Prop := IsObject fun fields =>
  Only ("name" :: "day_schedules" :: "schedule_rules" :: builtinDays) fields ∧
    MayHave fields "name" IsString ∧ (∀ key ∈ builtinDays, MayHave fields key IsDay) ∧
    MayHave fields "day_schedules" (IsTable fun _ => IsDay) ∧
    MayHave fields "schedule_rules" (IsTable fun _ => IsRule)

/-! ### Sets and records -/

/-- The key of a building archetype. -/
def HasArchetypeKey (fields : Fields) : Prop :=
  Has fields "base_building_type" IsString ∧ Has fields "building_age" IsInteger ∧
    Has fields "climate_zone" IsString ∧ Has fields "building_standard" IsString

def IsConstructionSet : Value → Prop := IsObject fun fields =>
  HasArchetypeKey fields ∧
    OpenAttributes ["base_building_type", "building_age", "climate_zone", "building_standard"]
      fields

def IsSpaceType : Value → Prop := IsObject fun fields =>
  Has fields "base_space_type" IsString ∧ HasArchetypeKey fields ∧
    OpenAttributes ["base_space_type", "base_building_type", "building_age", "climate_zone",
      "building_standard"] fields

def IsRunInfo : Value → Prop := IsObject fun fields =>
  Has fields "uuid" IsString ∧ Has fields "output_location" IsString ∧
    Has fields "temp_sim_location" IsString ∧ Has fields "simulation_year" IsInteger ∧
    Has fields "timestep" IsInteger ∧
    OpenAttributes ["uuid", "output_location", "temp_sim_location", "simulation_year", "timestep"]
      fields

def IsBuildingInfo : Value → Prop := IsObject fun fields =>
  Has fields "space_type" IsString ∧ Has fields "construction_set" IsString ∧
    Has fields "hvac_system" IsString ∧
    OpenAttributes ["space_type", "construction_set", "hvac_system"] fields

/-! ### Documents -/

/-- A configuration: the eight sections and no other; all but the measures must be there. -/
def IsDocument : Value → Prop := IsObject fun root =>
  Only ["measures", "hvac", "hvac_components", "schedules", "construction_sets", "space_types",
      "run_info", "building_info"] root ∧
    MayHave root "measures" (IsTable IsMeasure) ∧
    Has root "hvac" (IsTable fun _ => IsSystem) ∧
    Has root "hvac_components" (IsTable IsComponent) ∧
    Has root "schedules" (IsTable fun _ => IsSchedule) ∧
    Has root "construction_sets" (IsTable fun _ => IsConstructionSet) ∧
    Has root "space_types" (IsTable fun _ => IsSpaceType) ∧
    Has root "run_info" IsRunInfo ∧ Has root "building_info" IsBuildingInfo

/-! ### Buildings -/

/-- The sections of a building of some kind with one construction set and one type of rooms, which
uses one of its HVAC systems.  The run and the building may have further entries. -/
def buildingSections (kind system : String) (run building : Fields) : Fields :=
  let archetype : Fields :=
    [("base_building_type", .string kind), ("building_age", .number (.int 2004)),
      ("climate_zone", .string "5A"), ("building_standard", .string "90.1")]
  [("construction_sets", .object [("walls", .object archetype)]),
    ("space_types", .object [("room", .object (("base_space_type", .string "Room") :: archetype))]),
    ("run_info", .object ([("uuid", .string "u"), ("output_location", .string "out"),
      ("temp_sim_location", .string "tmp"), ("simulation_year", .number (.int 2024)),
      ("timestep", .number (.int 6))] ++ run)),
    ("building_info", .object ([("space_type", .string "room"),
      ("construction_set", .string "walls"), ("hvac_system", .string system)] ++ building))]

/-- A building without loops and components, whose schedules are given. -/
def passiveBuilding (kind : String) (schedules run building : Fields) : Value :=
  .object ([("hvac", .object [("none", .object [])]), ("hvac_components", .object []),
    ("schedules", .object schedules)] ++ buildingSections kind "none" run building)

/-- A day of one value. -/
def constantDay (value : Int) : Value :=
  .object [("values", .object [("00:00", .number (.int value))])]

/-- One system with one air loop, from its supply components to the terminal of a room. -/
def airSystem (attributes : Fields) (supply : Value) : Value :=
  .object [("vav", .object (attributes ++ [("air_loops", .object [("air", .object
    [("supply_components", .object [("outlet_node", supply)]),
      ("demand_components", .object
        [("branches", .object [("room", .string "box")])])])])]))]

end HvacModel.Grammar
