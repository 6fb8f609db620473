import HvacModel.Proofs.Reading.Issues
import HvacModel.Proofs.Reading.Places

/-! # Issues are true

Every reader of a section reports, of the value that it was handed, only what is true of it and at
the place where it is (`Truthful`).  The readers of a document hand out the sections and their
names, so every issue of a raw value is at a place of that value, and says of it what is the case
there (`trueAt_of_issues`).  The text of a path is `Path.render`. -/

namespace HvacModel.Document

open Report (whenSome collect)

namespace Read

variable {α : Type} {root value : Value} {path : Path} {fields : List (String × Value)}
  {field : String × Value}

/-! ### Measures -/

theorem truthful_override (h : root.Leads (path.child field.1) field.2)
    (category : MeasureCategory) : Truthful root (override path category field) := by
  unfold override
  cases htarget : HvacModel.Measure.target? category field.1 with
  | none =>
      refine truthful_refusal h ?_ none
      exact ⟨lastKey_child path field.1, htarget⟩
  | some target => exact truthful_entry (truthful_typedScalar h target.kind) field.1

theorem truthful_measure (h : root.Leads (path.child field.1) field.2) :
    Truthful root (measure path field) := by
  unfold measure
  cases hname : MeasureCategory.ofName? field.1 with
  | none =>
      refine truthful_refusal h ?_ none
      exact ⟨lastKey_child path field.1, hname⟩
  | some category =>
      refine truthful_inObject h fun body hbody => ?_
      exact truthful_bind (truthful_collect hbody fun e he => truthful_override he category)
        (truthful_pure _)

/-! ### Systems -/

theorem truthful_side {read : Path → List (String × Value) → Reading (Option α)}
    (h : root.Leads path (.object fields)) (key : String)
    (hread : ∀ place body, root.Leads place (.object body) → Truthful root (read place body)) :
    Truthful root (side path fields key read) :=
  truthful_inRequired h fun _ hvalue => truthful_inObject hvalue fun body hbody =>
    hread _ body hbody

theorem truthful_airSupply (h : root.Leads path (.object fields)) :
    Truthful root (airSupply path fields) := by
  refine truthful_bind (truthful_checkFields h _) (truthful_inRequired h fun outlet houtlet => ?_)
  exact truthful_bind (truthful_nameList houtlet) (truthful_pure _)

theorem truthful_branch (h : root.Leads (path.child field.1) field.2) :
    Truthful root (branch path field) :=
  truthful_bind (truthful_nameList h) (truthful_pure _)

theorem truthful_airDemand (h : root.Leads path (.object fields)) :
    Truthful root (airDemand path fields) := by
  refine truthful_bind (truthful_checkFields h _) (truthful_inRequired h fun value hvalue => ?_)
  exact truthful_table hvalue fun _ => truthful_branch

theorem truthful_airLoop (h : root.Leads (path.child field.1) field.2) :
    Truthful root (airLoop path field) := by
  refine truthful_inObject h fun fields hfields => ?_
  refine truthful_bind (truthful_checkFields hfields _) ?_
  refine truthful_bind (truthful_side hfields _ fun _ _ => truthful_airSupply) ?_
  exact truthful_bind (truthful_side hfields _ fun _ _ => truthful_airDemand) (truthful_pure _)

theorem truthful_plantKind (h : root.Leads path (.object fields)) :
    Truthful root (plantKind path fields) := by
  refine truthful_inRequiredString h fun text htext => ?_
  cases hkind : (LoopKind.ofName? text).filter LoopKind.isPlant with
  | none =>
      refine truthful_refusal htext ?_ none
      exact ⟨rfl, fun kind hname => by simpa [hname] using hkind⟩
  | some kind => exact truthful_pure _

theorem truthful_plantSupply (h : root.Leads path (.object fields)) :
    Truthful root (plantSupply path fields) := by
  refine truthful_bind (truthful_checkFields h _) (truthful_bind ?_ ?_)
  · refine truthful_inField h fun inlet hinlet => ?_
    exact truthful_bind (truthful_nameList hinlet) (truthful_pure _)
  · refine truthful_inRequired h fun branches hbranches => ?_
    exact truthful_bind (truthful_nameList hbranches) (truthful_pure _)

theorem truthful_plantDemand (h : root.Leads path (.object fields)) :
    Truthful root (plantDemand path fields) := by
  refine truthful_bind (truthful_checkFields h _)
    (truthful_inRequired h fun branches hbranches => ?_)
  exact truthful_bind (truthful_nameList hbranches) (truthful_pure _)

theorem truthful_plantLoop (h : root.Leads (path.child field.1) field.2) :
    Truthful root (plantLoop path field) := by
  refine truthful_inObject h fun fields hfields => ?_
  refine truthful_bind (truthful_checkFields hfields _) ?_
  refine truthful_bind (truthful_plantKind hfields) ?_
  refine truthful_bind (truthful_side hfields _ fun _ _ => truthful_plantSupply) ?_
  exact truthful_bind (truthful_side hfields _ fun _ _ => truthful_plantDemand) (truthful_pure _)

theorem truthful_systemAttribute (h : root.Leads (path.child field.1) field.2) :
    Truthful root (systemAttribute path field) := by
  unfold systemAttribute
  by_cases hfield : field.1 ∈ ["air_loops", "plant_loops", "availability_schedule"]
  · rw [if_pos hfield]
    exact truthful_pure none
  · rw [if_neg hfield]
    cases AttributeSpec.lookup systemAttributes field.1 with
    | none =>
        refine truthful_refusal h ?_ none
        exact lastKey_child path field.1
    | some spec => exact truthful_entry (truthful_typedScalar h spec.kind) field.1

theorem truthful_system (h : root.Leads (path.child field.1) field.2) :
    Truthful root (system path field) := by
  refine truthful_inObject h fun fields hfields => ?_
  refine truthful_bind (truthful_collect hfields fun _ => truthful_systemAttribute) ?_
  refine truthful_bind (truthful_inField hfields fun _ => truthful_string) ?_
  refine truthful_bind (truthful_optionalTable hfields _ fun _ _ => truthful_airLoop) ?_
  exact truthful_bind (truthful_optionalTable hfields _ fun _ _ => truthful_plantLoop)
    (truthful_pure _)

/-! ### Components -/

theorem truthful_plainName {name : String} (h : root.Leads (path.child name) value) :
    Truthful root (plainName (path.child name) name) := by
  unfold plainName
  by_cases hpoint : name.toList.contains '.' = true
  · rw [if_pos hpoint]
    refine truthful_refusal h ?_ false
    exact ⟨lastKey_child path name, List.contains_iff_mem.mp hpoint⟩
  · rw [if_neg hpoint]
    exact truthful_pure true

theorem truthful_objectType (h : root.Leads path (.object fields)) :
    Truthful root (objectType path fields) := by
  refine truthful_inRequiredString h fun text htext => ?_
  cases hname : ObjectType.ofName? text with
  | none =>
      refine truthful_refusal htext ?_ none
      exact ⟨rfl, hname⟩
  | some type => exact truthful_pure _

theorem truthful_componentValue (h : root.Leads (path.child field.1) field.2) (type : ObjectType) :
    Truthful root (componentValue path type field) := by
  unfold componentValue
  cases htype : type.declared? field.1 with
  | none =>
      refine truthful_refusal h ?_ none
      exact ⟨lastKey_child path field.1, htype⟩
  | some spec => exact truthful_entry (truthful_typedScalar h spec.kind) field.1

theorem truthful_componentValues (h : root.Leads path (.object fields))
    (type : Option ObjectType) : Truthful root (componentValues path type fields) := by
  refine truthful_bind (truthful_inField h fun value hvalue => ?_) (truthful_pure _)
  refine truthful_inObject hvalue fun values hvalues => ?_
  refine truthful_whenSome fun type _ => ?_
  exact truthful_bind (truthful_collect hvalues fun e he => truthful_componentValue he type)
    (truthful_pure _)

mutual

theorem truthful_component {path : Path} (name : String) (value : Value)
    (h : root.Leads (path.child name) value) :
    Truthful root (component (path.child name) name value) := by
  match value with
  | .object fields =>
      rw [component]
      refine truthful_bind (truthful_plainName h) ?_
      refine truthful_bind (truthful_checkFields h _) ?_
      refine truthful_bind (truthful_objectType h) ?_
      refine truthful_bind (truthful_componentValues h _) ?_
      exact truthful_bind (truthful_ownedComponents fields fields h (List.Subset.refl fields))
        (truthful_pure _)
  | .null | .bool _ | .number _ | .string _ | .array _ =>
      rw [component]
      · exact truthful_mismatch h id none
      · rintro _ ⟨⟩

/-- The fields are searched from the front, so those that are left are some of all. -/
theorem truthful_ownedComponents {path : Path} (fields all : List (String × Value))
    (h : root.Leads path (.object all)) (hsub : fields ⊆ all) :
    Truthful root (ownedComponents path fields) := by
  match fields with
  | [] =>
      rw [ownedComponents]
      exact truthful_pure []
  | (key, value) :: rest =>
      obtain ⟨he, hrest⟩ := List.cons_subset.mp hsub
      rw [ownedComponents]
      by_cases hk : key = "sub_components"
      · rw [if_pos hk]
        exact truthful_ownedTable value (h.child he)
      · rw [if_neg hk]
        exact truthful_ownedComponents rest all h hrest

theorem truthful_ownedTable {path : Path} (value : Value) (h : root.Leads path value) :
    Truthful root (ownedTable path value) := by
  match value with
  | .object table =>
      rw [ownedTable]
      exact truthful_componentList table table h (List.Subset.refl table)
  | .null | .bool _ | .number _ | .string _ | .array _ =>
      rw [ownedTable]
      · exact truthful_mismatch h id []
      · rintro _ ⟨⟩

theorem truthful_componentList {path : Path} (table all : List (String × Value))
    (h : root.Leads path (.object all)) (hsub : table ⊆ all) :
    Truthful root (componentList path table) := by
  match table with
  | [] =>
      rw [componentList]
      exact truthful_pure []
  | (name, value) :: rest =>
      obtain ⟨he, hrest⟩ := List.cons_subset.mp hsub
      rw [componentList]
      refine truthful_bind (truthful_component name value (h.child he)) ?_
      exact truthful_bind (truthful_componentList rest all h hrest) (truthful_pure _)

end

theorem truthful_components (h : root.Leads path value) :
    Truthful root (components path value) :=
  truthful_inObject h fun table htable =>
    truthful_bind (truthful_componentList table table htable (List.Subset.refl table))
      (truthful_pure _)

/-! ### Schedules -/

theorem truthful_accept {e : String × Value} (h : root.Leads (path.child e.1) e.2)
    (last : Option TimeOfDay) : Truthful root (accept path last e) := by
  cases hkey : keyTime e.1 with
  | error fault =>
      rw [accept_of_error path last hkey]
      exact List.forall_mem_singleton.mpr ⟨e.2, h, lastKey_child path e.1, hkey⟩
  | ok time =>
      rw [accept, timeKey_of_ok _ hkey, pure_bind, Report.whenSome_some]
      refine truthful_bind (truthful_number h) (truthful_whenSome fun x _ => ?_)
      cases hlast : last.filter fun previous => time ≤ previous with
      | none => exact truthful_pure (some (time, x))
      | some previous =>
          have hle : time ≤ previous := by
            simpa using (Option.filter_eq_some_iff.mp hlast).2
          refine truthful_refusal h ?_ none
          exact ⟨hle, e.1, lastKey_child path e.1, hkey⟩

theorem truthful_breakpoints (h : root.Leads path (.object fields))
    {entries : List (String × Value)} (hsub : entries ⊆ fields) (last : Option TimeOfDay) :
    Truthful root (breakpoints path last entries) := by
  induction entries generalizing last with
  | nil => exact truthful_pure []
  | cons e rest ih =>
      obtain ⟨he, hrest⟩ := List.cons_subset.mp hsub
      rw [breakpoints_cons]
      refine truthful_bind (truthful_accept (h.child he) last) ?_
      exact truthful_bind (ih hrest _) (truthful_pure _)

theorem truthful_startsAtMidnight (h : root.Leads path (.object fields))
    (points : List (TimeOfDay × Float)) : Truthful root (startsAtMidnight path points) := by
  cases points with
  | nil => exact truthful_pure ()
  | cons p rest =>
      rw [startsAtMidnight]
      by_cases hp : p.1 = .midnight
      · rw [if_pos hp]
        exact truthful_pure ()
      · rw [if_neg hp]
        refine truthful_issue h ?_
        exact ⟨rfl, hp⟩

theorem truthful_dayValues (h : root.Leads path (.object fields)) :
    Truthful root (dayValues path fields) := by
  have hread : Truthful root (breakpoints path none fields >>= fun points =>
      startsAtMidnight path points >>= fun _ => pure points) := by
    refine truthful_bind (truthful_breakpoints h (List.Subset.refl fields) none) ?_
    exact truthful_bind (truthful_startsAtMidnight h _) (truthful_pure _)
  unfold dayValues
  cases fields with
  | nil =>
      refine truthful_refusal h ?_ none
      exact rfl
  | cons e rest => exact hread

theorem truthful_day (h : root.Leads path value) (key : String) :
    Truthful root (day path key value) := by
  refine truthful_inObject h fun fields hfields => ?_
  refine truthful_bind (truthful_checkFields hfields _) ?_
  refine truthful_bind (truthful_nameOr hfields key) ?_
  refine truthful_inRequired hfields fun values hvalues => ?_
  refine truthful_inObject hvalues fun table htable => ?_
  exact truthful_bind (truthful_dayValues htable) (truthful_pure _)

theorem truthful_flagSet (h : root.Leads path (.object fields)) (key : String) :
    Truthful root (flagSet path fields key) :=
  truthful_bind (truthful_inField h fun _ => truthful_boolean) (truthful_pure _)

theorem truthful_flaggedDays (h : root.Leads path (.object fields))
    (flags : List (String × Weekday)) : Truthful root (flaggedDays path fields flags) := by
  induction flags with
  | nil => exact truthful_pure []
  | cons flag rest ih =>
      rw [flaggedDays]
      exact truthful_bind (truthful_flagSet h flag.1) (truthful_bind ih (truthful_pure _))

theorem truthful_appliesTo (h : root.Leads path (.object fields)) :
    Truthful root (appliesTo path fields) := by
  refine truthful_bind (truthful_flaggedDays h dayFlags) ?_
  exact truthful_bind (truthful_flagSet h "apply_weekdays") (truthful_pure _)

theorem truthful_ruleDay (h : root.Leads path value) (key : String) :
    Truthful root (ruleDay path key value) := by
  cases value with
  | string name => exact truthful_pure _
  | object fields => exact truthful_bind (truthful_day h _) (truthful_pure _)
  | null | bool _ | number _ | array _ => exact truthful_mismatch h id none

theorem truthful_rule (h : root.Leads (path.child field.1) field.2) :
    Truthful root (rule path field) := by
  refine truthful_inObject h fun fields hfields => ?_
  refine truthful_bind (truthful_checkFields hfields _) ?_
  refine truthful_bind (truthful_nameOr hfields field.1) ?_
  refine truthful_bind (truthful_appliesTo hfields) ?_
  refine truthful_inRequired hfields fun value hvalue => ?_
  exact truthful_bind (truthful_ruleDay hvalue field.1) (truthful_pure _)

theorem truthful_namedDay (h : root.Leads path (.object fields)) (key : String) :
    Truthful root (namedDay path fields key) :=
  truthful_inField h fun _ hvalue => truthful_day hvalue key

theorem truthful_schedule (h : root.Leads (path.child field.1) field.2) :
    Truthful root (schedule path field) := by
  refine truthful_inObject h fun fields hfields => ?_
  refine truthful_bind (truthful_checkFields hfields _) ?_
  refine truthful_bind (truthful_nameOr hfields field.1) ?_
  refine truthful_bind (truthful_namedDay hfields "default_day") ?_
  refine truthful_bind (truthful_namedDay hfields "summer_design_day") ?_
  refine truthful_bind (truthful_namedDay hfields "winter_design_day") ?_
  refine truthful_bind (truthful_optionalTable hfields _ fun _ e he => truthful_day he e.1) ?_
  exact truthful_bind (truthful_optionalTable hfields _ fun _ _ => truthful_rule) (truthful_pure _)

/-! ### Sets and records -/

theorem truthful_archetypeKey (h : root.Leads path (.object fields)) :
    Truthful root (archetypeKey path fields) := by
  refine truthful_bind (truthful_requiredString h _) ?_
  refine truthful_bind (truthful_requiredInteger h _) ?_
  refine truthful_bind (truthful_requiredString h _) ?_
  exact truthful_bind (truthful_requiredString h _) (truthful_pure _)

theorem truthful_constructionSet (h : root.Leads (path.child field.1) field.2) :
    Truthful root (constructionSet path field) := by
  refine truthful_inObject h fun fields hfields => ?_
  refine truthful_bind (truthful_archetypeKey hfields) ?_
  exact truthful_bind (truthful_openAttributes hfields _) (truthful_pure _)

theorem truthful_spaceType (h : root.Leads (path.child field.1) field.2) :
    Truthful root (spaceType path field) := by
  refine truthful_inObject h fun fields hfields => ?_
  refine truthful_bind (truthful_requiredString hfields _) ?_
  refine truthful_bind (truthful_archetypeKey hfields) ?_
  exact truthful_bind (truthful_openAttributes hfields _) (truthful_pure _)

theorem truthful_runInfo (h : root.Leads path value) : Truthful root (runInfo path value) := by
  refine truthful_inObject h fun fields hfields => ?_
  refine truthful_bind (truthful_requiredString hfields _) ?_
  refine truthful_bind (truthful_requiredString hfields _) ?_
  refine truthful_bind (truthful_requiredString hfields _) ?_
  refine truthful_bind (truthful_requiredInteger hfields _) ?_
  refine truthful_bind (truthful_requiredInteger hfields _) ?_
  exact truthful_bind (truthful_openAttributes hfields _) (truthful_pure _)

theorem truthful_buildingInfo (h : root.Leads path value) :
    Truthful root (buildingInfo path value) := by
  refine truthful_inObject h fun fields hfields => ?_
  refine truthful_bind (truthful_requiredString hfields _) ?_
  refine truthful_bind (truthful_requiredString hfields _) ?_
  refine truthful_bind (truthful_requiredString hfields _) ?_
  exact truthful_bind (truthful_openAttributes hfields _) (truthful_pure _)

/-! ### Documents -/

theorem trueIn_of_unknownIssues (fields : Grammar.Fields) :
    ∀ issue ∈ unknownIssues fields, issue.TrueIn (.object fields) := by
  intro issue hissue
  obtain ⟨key, hkey, rfl⟩ := List.mem_map.mp hissue
  obtain ⟨hmem, hunknown⟩ := List.mem_filter.mp hkey
  obtain ⟨e, he, rfl⟩ := List.mem_map.mp hmem
  exact ⟨e.2, Value.Leads.root.child he, rfl, of_decide_eq_true hunknown⟩

theorem trueIn_of_missingIssues (fields : Grammar.Fields) :
    ∀ issue ∈ missingIssues fields, issue.TrueIn (.object fields) := by
  intro issue hissue
  obtain ⟨name, hname, rfl⟩ := List.mem_map.mp hissue
  obtain ⟨-, hnone⟩ := List.mem_filter.mp hname
  have hmissing := notMem_keys_of_field?_eq_none (Option.isNone_iff_eq_none.mp hnone)
  exact ⟨.object fields, .root, fields, rfl, hmissing⟩

theorem trueIn_of_sectionIssues {name : String} (h : root.Leads [.key name] value) :
    ∀ issue ∈ sectionIssues name value, issue.TrueIn root := by
  unfold sectionIssues
  split
  · exact truthful_table h fun _ => truthful_measure
  · exact truthful_table h fun _ => truthful_system
  · exact truthful_components h
  · exact truthful_table h fun _ => truthful_schedule
  · exact truthful_table h fun _ => truthful_constructionSet
  · exact truthful_table h fun _ => truthful_spaceType
  · exact truthful_runInfo h
  · exact truthful_buildingInfo h
  · exact List.forall_mem_nil _

theorem trueIn_of_issues (value : Value) : ∀ issue ∈ issues value, issue.TrueIn value := by
  cases value with
  | object fields =>
      rw [issues_object, List.forall_mem_append, List.forall_mem_append, List.forall_mem_flatMap]
      refine ⟨⟨trueIn_of_unknownIssues fields, trueIn_of_missingIssues fields⟩, ?_⟩
      intro name _
      rw [List.forall_mem_flatMap]
      intro value hvalue
      have hfield := Value.mem_of_field? (Option.mem_toList.mp hvalue)
      exact trueIn_of_sectionIssues (Value.Leads.root.child hfield)
  | null | bool _ | number _ | string _ | array _ =>
      rw [issues_eq]
      exact truthful_bind (truthful_object .root) (truthful_pure none)

end Read

/-- Every issue of a raw value is at a place of that value, and says what is the case there.  Where
no key is repeated, nothing else is at that place. -/
theorem trueAt_of_issues (value : Value) :
    ∀ issue ∈ issues value, ∃ place, value.Leads issue.path place ∧
      issue.kind.TrueAt issue.path place ∧
        (value.distinctKeys = true → value.at? issue.path = some place) := by
  intro issue hissue
  obtain ⟨place, hplace, htrue⟩ := Read.trueIn_of_issues value issue hissue
  exact ⟨place, hplace, htrue, fun hkeys => (hplace.at?_eq hkeys).1⟩

/-- A table of systems written as a list. -/
def annex : Value := .object [("hvac", .array []), ("hvac_components", .object [])]

theorem trueAt_annex :
    ⟨[.key "hvac"], .typeMismatch .object .array⟩ ∈ issues annex ∧
      ∃ place, annex.at? [.key "hvac"] = some place ∧ place.kind = .array ∧
        ¬Expectation.object.Admits place := by
  have hissue : ⟨[.key "hvac"], .typeMismatch .object .array⟩ ∈ issues annex := by decide
  obtain ⟨place, -, ⟨hkind, -, hadmits⟩, hat⟩ := trueAt_of_issues annex _ hissue
  exact ⟨hissue, place, hat rfl, hkind, hadmits⟩

end HvacModel.Document
