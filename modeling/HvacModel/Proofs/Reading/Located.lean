import HvacModel.Proofs.Reading.Systems
import HvacModel.Document.Read

/-! # Where issues are located

A reader is handed the place of the value that it reads, and reports nothing outside of it:
`Located root r` says that every issue of `r` is at `root` or below.  The lemmas follow the readers
from the leaves up.  Each of them asks only that the place handed to the reader is at `root` or
below, so a reader of a whole passes its hypothesis on to the readers of its parts. -/

namespace HvacModel.Document.Read

open Report (whenSome collect)

variable {α β : Type} {root path : Path}

/-- Every issue is at a place or below it. -/
def Located (root : Path) (r : Reading α) : Prop := ∀ issue ∈ r.findings, root <+: issue.path

@[simp]
theorem located_pure (a : α) : Located root (pure a : Reading α) := fun _ h => nomatch h

@[simp]
theorem located_bind (r : Reading α) (f : α → Reading β) :
    Located root (r >>= f) ↔ Located root r ∧ Located root (f r.value) := by
  simp only [Located, Report.findings_bind, List.forall_mem_append]

@[simp]
theorem located_map (f : α → β) (r : Reading α) : Located root (f <$> r) ↔ Located root r := by
  simp only [Located, Report.findings_map]

@[simp]
theorem located_whenSome (value : Option α) (step : α → Reading (Option β)) :
    Located root (whenSome value step) ↔ ∀ a, value = some a → Located root (step a) := by
  cases value with
  | none => simp
  | some a => simp

@[simp]
theorem located_collect (step : α → Reading (Option β)) (list : List α) :
    Located root (collect step list) ↔ ∀ a ∈ list, Located root (step a) := by
  simp only [Located, Report.findings_collect, List.forall_mem_flatMap]

@[simp]
theorem located_issue (kind : IssueKind) : Located root (issue path kind) ↔ root <+: path :=
  List.forall_mem_singleton

@[simp]
theorem located_mismatch (expected : Expectation) (found : Value) :
    Located root (mismatch path expected found) ↔ root <+: path := located_issue _

/-- What is at a place or below it has its entries there. -/
@[simp]
theorem prefix_child (h : root <+: path) (key : String) : root <+: path.child key :=
  h.trans (List.prefix_append _ _)

@[simp]
theorem prefix_item (h : root <+: path) (i : Nat) : root <+: path.item i :=
  h.trans (List.prefix_append _ _)

/-! ### Scalars and fields -/

@[simp]
theorem located_object (h : root <+: path) (value : Value) : Located root (object path value) := by
  cases value <;> simp [object, h]

@[simp]
theorem located_string (h : root <+: path) (value : Value) : Located root (string path value) := by
  cases value <;> simp [string, h]

@[simp]
theorem located_number (h : root <+: path) (value : Value) : Located root (number path value) := by
  cases value <;> simp [number, h]

@[simp]
theorem located_integer (h : root <+: path) (value : Value) :
    Located root (integer path value) := by
  cases value with
  | number n => cases hn : n.integer? <;> simp [integer, hn, h]
  | _ => simp [integer, h]

@[simp]
theorem located_boolean (h : root <+: path) (value : Value) :
    Located root (boolean path value) := by
  cases value <;> simp [boolean, h]

@[simp]
theorem located_checkFields (h : root <+: path) (allowed : List String)
    (fields : List (String × Value)) : Located root (checkFields path allowed fields) := by
  induction fields with
  | nil => simp [checkFields]
  | cons e rest ih =>
      obtain ⟨key, value⟩ := e
      by_cases hk : key ∈ allowed
      · simp [checkFields, hk, ih]
      · simp [checkFields, hk, ih, h]

@[simp]
theorem located_required (h : root <+: path) (fields : List (String × Value)) (key : String) :
    Located root (required path fields key) := by
  unfold required
  cases Value.field? fields key with
  | none => simp [h]
  | some value => simp

@[simp]
theorem located_requiredString (h : root <+: path) (fields : List (String × Value))
    (key : String) : Located root (requiredString path fields key) := by
  simp [requiredString, h]

@[simp]
theorem located_requiredInteger (h : root <+: path) (fields : List (String × Value))
    (key : String) : Located root (requiredInteger path fields key) := by
  simp [requiredInteger, h]

@[simp]
theorem located_nameOr (h : root <+: path) (fields : List (String × Value)) (key : String) :
    Located root (nameOr path fields key) := by
  simp [nameOr, h]

theorem located_names (h : root <+: path) (position : Nat) (items : List Value) :
    Located root (names path position items) := by
  induction items generalizing position with
  | nil => simp [names]
  | cons item rest ih => simp [names, h, ih]

@[simp]
theorem located_nameList (h : root <+: path) (value : Value) :
    Located root (nameList path value) := by
  cases value with
  | array items => exact located_names h 0 items
  | _ => simp [nameList, h]

/-! ### Attributes -/

@[simp]
theorem located_scalar (h : root <+: path) (value : Value) : Located root (scalar path value) := by
  unfold scalar
  cases AttributeValue.ofValue? value with
  | none => simp [h]
  | some v => simp

@[simp]
theorem located_typedScalar (h : root <+: path) (kind : AttributeKind) (value : Value) :
    Located root (typedScalar path kind value) := by
  unfold typedScalar
  rw [located_bind, located_whenSome]
  refine ⟨located_scalar h value, fun v _ => ?_⟩
  by_cases hv : v.kind = kind
  · simp [hv]
  · simp [hv, h]

@[simp]
theorem located_entry (key : String) (read : Reading (Option α)) :
    Located root (entry key read) ↔ Located root read := by simp [entry]

@[simp]
theorem located_openAttributes (h : root <+: path) (except : List String)
    (fields : List (String × Value)) : Located root (openAttributes path except fields) := by
  unfold openAttributes
  rw [located_bind, located_collect]
  refine ⟨fun e _ => ?_, located_pure _⟩
  by_cases he : e.1 ∈ except
  · simp [he]
  · simp [he, h]

/-! ### Measures -/

@[simp]
theorem located_override (h : root <+: path) (category : MeasureCategory)
    (field : String × Value) : Located root (override path category field) := by
  unfold override
  cases HvacModel.Measure.target? category field.1 with
  | none => simp [h]
  | some target => simp [h]

theorem located_measure (field : String × Value) :
    Located (path.child field.1) (measure path field) := by
  unfold measure
  cases MeasureCategory.ofName? field.1 with
  | none => simp
  | some category => simp

/-! ### Systems -/

theorem located_side {read : Path → List (String × Value) → Reading (Option α)}
    (hread : ∀ place, root <+: place → ∀ body, Located root (read place body))
    (h : root <+: path) (fields : List (String × Value)) (key : String) :
    Located root (side path fields key read) := by
  simp [side, h, hread]

@[simp]
theorem located_airSupply (h : root <+: path) (fields : List (String × Value)) :
    Located root (airSupply path fields) := by
  simp [airSupply, h]

@[simp]
theorem located_airDemand (h : root <+: path) (fields : List (String × Value)) :
    Located root (airDemand path fields) := by
  have hb := prefix_child h "branches"
  simp [airDemand, branch, h, hb]

@[simp]
theorem located_airLoop (h : root <+: path) (field : String × Value) :
    Located root (airLoop path field) := by
  have hp := prefix_child h field.1
  have hs := located_side (fun _ => located_airSupply) hp
  have hd := located_side (fun _ => located_airDemand) hp
  simp [airLoop, hp, hs, hd]

@[simp]
theorem located_plantKind (h : root <+: path) (fields : List (String × Value)) :
    Located root (plantKind path fields) := by
  unfold plantKind
  rw [located_bind, located_whenSome]
  refine ⟨located_requiredString h fields _, fun text _ => ?_⟩
  cases (LoopKind.ofName? text).filter LoopKind.isPlant with
  | none => simp [h]
  | some kind => simp

@[simp]
theorem located_plantSupply (h : root <+: path) (fields : List (String × Value)) :
    Located root (plantSupply path fields) := by
  simp [plantSupply, h]

@[simp]
theorem located_plantDemand (h : root <+: path) (fields : List (String × Value)) :
    Located root (plantDemand path fields) := by
  simp [plantDemand, h]

@[simp]
theorem located_plantLoop (h : root <+: path) (field : String × Value) :
    Located root (plantLoop path field) := by
  have hp := prefix_child h field.1
  have hs := located_side (fun _ => located_plantSupply) hp
  have hd := located_side (fun _ => located_plantDemand) hp
  simp [plantLoop, hp, hs, hd]

@[simp]
theorem located_systemAttribute (h : root <+: path) (field : String × Value) :
    Located root (systemAttribute path field) := by
  unfold systemAttribute
  by_cases hf : field.1 ∈ ["air_loops", "plant_loops", "availability_schedule"]
  · rw [if_pos hf]
    exact located_pure _
  · rw [if_neg hf]
    cases AttributeSpec.lookup systemAttributes field.1 with
    | none => simp [h]
    | some spec => simp [h]

theorem located_optionalTable {read : Path → String × Value → Reading (Option α)}
    (hread : ∀ place, root <+: place → ∀ e, Located root (read place e)) (h : root <+: path)
    (fields : List (String × Value)) (key : String) :
    Located root (optionalTable path fields key read) := by
  simp [optionalTable, h, hread]

theorem located_system (field : String × Value) :
    Located (path.child field.1) (system path field) := by
  have hp : path.child field.1 <+: path.child field.1 := List.prefix_rfl
  have ha := located_optionalTable (fun _ => located_airLoop) hp
  have hl := located_optionalTable (fun _ => located_plantLoop) hp
  simp [system, loops_eq_optionalTable, ha, hl]

/-! ### Components -/

@[simp]
theorem located_plainName (h : root <+: path) (name : String) :
    Located root (plainName path name) := by
  unfold plainName
  by_cases hd : name.toList.contains '.'
  · rw [if_pos hd]
    simp [h]
  · rw [if_neg hd]
    exact located_pure _

@[simp]
theorem located_objectType (h : root <+: path) (fields : List (String × Value)) :
    Located root (objectType path fields) := by
  unfold objectType
  rw [located_bind, located_whenSome]
  refine ⟨located_requiredString h fields _, fun text _ => ?_⟩
  cases ObjectType.ofName? text with
  | none => simp [h]
  | some type => simp

@[simp]
theorem located_componentValue (h : root <+: path) (type : ObjectType) (field : String × Value) :
    Located root (componentValue path type field) := by
  unfold componentValue
  cases type.declared? field.1 with
  | none => simp [h]
  | some spec => simp [h]

@[simp]
theorem located_componentValues (h : root <+: path) (type : Option ObjectType)
    (fields : List (String × Value)) : Located root (componentValues path type fields) := by
  simp [componentValues, h]

mutual

theorem located_component {path : Path} (h : root <+: path) (name : String) (value : Value) :
    Located root (component path name value) := by
  match value with
  | .object fields =>
      rw [component]
      simp [h, located_ownedComponents h fields]
  | .null | .bool _ | .number _ | .string _ | .array _ =>
      rw [component]
      · simp [h]
      · rintro _ ⟨⟩

theorem located_ownedComponents {path : Path} (h : root <+: path) (fields : List (String × Value)) :
    Located root (ownedComponents path fields) := by
  match fields with
  | [] => simp [ownedComponents]
  | (key, value) :: rest =>
      rw [ownedComponents]
      by_cases hk : key = "sub_components"
      · rw [if_pos hk]
        exact located_ownedTable (prefix_child h key) value
      · rw [if_neg hk]
        exact located_ownedComponents h rest

theorem located_ownedTable {path : Path} (h : root <+: path) (value : Value) :
    Located root (ownedTable path value) := by
  match value with
  | .object table =>
      rw [ownedTable]
      exact located_componentList h table
  | .null | .bool _ | .number _ | .string _ | .array _ =>
      rw [ownedTable]
      · simp [h]
      · rintro _ ⟨⟩

theorem located_componentList {path : Path} (h : root <+: path)
    (table : List (String × Value)) : Located root (componentList path table) := by
  match table with
  | [] => simp [componentList]
  | (name, value) :: rest =>
      rw [componentList]
      simp [located_component (prefix_child h name) name value, located_componentList h rest]

end

/-! ### Schedules -/

@[simp]
theorem located_timeKey (h : root <+: path) (text : String) :
    Located root (timeKey path text) := by
  unfold timeKey
  cases TimeOfDay.read text with
  | error fault => simp [h]
  | ok time => by_cases he : time.isEndOfDay <;> simp [he, h]

theorem located_breakpoints (h : root <+: path) (last : Option TimeOfDay)
    (entries : List (String × Value)) : Located root (breakpoints path last entries) := by
  induction entries generalizing last with
  | nil => simp [breakpoints]
  | cons e rest ih =>
      obtain ⟨text, value⟩ := e
      simp only [breakpoints, located_bind, located_whenSome, located_pure, and_true, ih, h,
        located_timeKey, located_number, prefix_child, true_and]
      intro time _ x _
      cases last.filter fun previous => time ≤ previous with
      | none => simp
      | some previous => simp [h]

@[simp]
theorem located_dayValues (h : root <+: path) (fields : List (String × Value)) :
    Located root (dayValues path fields) := by
  have hstart : ∀ points, Located root (startsAtMidnight path points) := by
    intro points
    cases points with
    | nil => simp [startsAtMidnight]
    | cons p rest => by_cases hp : p.1 = .midnight <;> simp [startsAtMidnight, hp, h]
  have hread : Located root (breakpoints path none fields >>= fun points =>
      startsAtMidnight path points >>= fun _ => pure points) := by
    simp [located_breakpoints h, hstart]
  unfold dayValues
  cases fields with
  | nil => simp [h]
  | cons e rest => exact hread

@[simp]
theorem located_day (h : root <+: path) (key : String) (value : Value) :
    Located root (day path key value) := by
  simp [day, h]

@[simp]
theorem located_flagSet (h : root <+: path) (fields : List (String × Value)) (key : String) :
    Located root (flagSet path fields key) := by
  simp [flagSet, h]

@[simp]
theorem located_flaggedDays (h : root <+: path) (fields : List (String × Value))
    (flags : List (String × Weekday)) : Located root (flaggedDays path fields flags) := by
  induction flags with
  | nil => simp [flaggedDays]
  | cons f rest ih => simp [flaggedDays, h, ih]

@[simp]
theorem located_ruleDay (h : root <+: path) (key : String) (value : Value) :
    Located root (ruleDay path key value) := by
  cases value <;> simp [ruleDay, h]

@[simp]
theorem located_rule (h : root <+: path) (field : String × Value) :
    Located root (rule path field) := by
  have hp := prefix_child h field.1
  simp [rule, appliesTo, hp]

@[simp]
theorem located_namedDay (h : root <+: path) (fields : List (String × Value)) (key : String) :
    Located root (namedDay path fields key) := by
  simp [namedDay, h]

theorem located_schedule (field : String × Value) :
    Located (path.child field.1) (schedule path field) := by
  have hp : path.child field.1 <+: path.child field.1 := List.prefix_rfl
  have hday : ∀ place : Path, path.child field.1 <+: place → ∀ e : String × Value,
      Located (path.child field.1) (day (place.child e.1) e.1 e.2) :=
    fun _ h e => located_day (prefix_child h e.1) e.1 e.2
  have hd := located_optionalTable hday hp
  have hr := located_optionalTable (fun _ => located_rule) hp
  simp [schedule, hd, hr]

/-! ### Sets -/

@[simp]
theorem located_archetypeKey (h : root <+: path) (fields : List (String × Value)) :
    Located root (archetypeKey path fields) := by
  simp [archetypeKey, h]

theorem located_constructionSet (field : String × Value) :
    Located (path.child field.1) (constructionSet path field) := by
  simp [constructionSet]

theorem located_spaceType (field : String × Value) :
    Located (path.child field.1) (spaceType path field) := by
  simp [spaceType]

end HvacModel.Document.Read
