import HvacModel.Proofs.Reading.Document

/-! # What well-formed parts are read into

For each reader there is one equation that gives its result on an input with nothing wrong in it, as
`pure` of what is made.  With these equations a given configuration is read by rewriting, part by
part.  A table is read entry by entry with `collect_cons_some`, where an entry that makes nothing is
passed over with `collect_cons_none`. -/

namespace HvacModel

namespace Report

variable {ι α β : Type} {step : α → Report ι (Option β)} {a : α} {rest : List α} {bs : List β}

/-! ### Lists -/

theorem collect_cons_some {b : β} (ha : step a = pure (some b))
    (hrest : collect step rest = pure bs) : collect step (a :: rest) = pure (b :: bs) := by
  rw [collect, ha, pure_bind, hrest]
  rfl

theorem collect_cons_none (ha : step a = pure none) (hrest : collect step rest = pure bs) :
    collect step (a :: rest) = pure bs := by
  rw [collect, ha, pure_bind, hrest]
  rfl

end Report

namespace Document.Read

open Report

variable {α : Type} (path : Path) {fields : List (String × Value)} {key name : String}

/-! ### Fields -/

theorem required_eq_pure {value : Value} (h : Value.field? fields key = some value) :
    required path fields key = pure (some value) := by
  rw [required, h]

theorem requiredString_eq_pure {s : String} (h : Value.field? fields key = some (.string s)) :
    requiredString path fields key = pure (some s) := by
  rw [requiredString, required_eq_pure path h]
  rfl

theorem requiredInteger_eq_pure {i : Int} (h : Value.field? fields key = some (.number (.int i)))
    (hi : (Number.int i).integer? = some i) :
    requiredInteger path fields key = pure (some i) := by
  rw [requiredInteger, required_eq_pure path h, pure_bind, whenSome_some, integer, hi]

theorem nameOr_eq_pure {s : String} (h : Value.field? fields "name" = some (.string s)) :
    nameOr path fields key = pure s := by
  rw [nameOr, h]
  rfl

theorem checkFields_eq_pure {allowed : List String} (h : ∀ f ∈ fields, f.1 ∈ allowed) :
    checkFields path allowed fields = pure () :=
  Report.ext rfl ((clean_checkFields path allowed fields).mpr h)

theorem names_eq_pure (position : Nat) (list : List String) :
    names path position (list.map .string) = pure list := by
  induction list generalizing position with
  | nil => rfl
  | cons name rest ih =>
      rw [List.map_cons, names, string, pure_bind, ih]
      rfl

theorem nameList_eq_pure (list : List String) : nameList path (.ofList .string list) = pure list :=
  names_eq_pure path 0 list

/-- A table is read into what its entries make. -/
theorem table_eq_pure {step : String × Value → Reading (Option α)} {list : List α}
    (h : collect step fields = pure list) :
    (object path (.object fields) >>= fun table => whenSome table fun table =>
      collect step table >>= fun list => pure (some list)) = pure (some list) := by
  rw [object, pure_bind, whenSome_some, h]
  rfl

/-! ### Attributes -/

/-- One entry of a bag of attributes. -/
def openAttribute (except : List String) (field : String × Value) :
    Reading (Option (String × AttributeValue)) :=
  if field.1 ∈ except then pure none else entry field.1 (scalar (path.child field.1) field.2)

theorem openAttributes_eq_pure {except : List String} {entries : List (String × AttributeValue)}
    (h : collect (openAttribute path except) fields = pure entries) :
    openAttributes path except fields = pure (.ofList entries) := by
  have hstep : openAttributes path except fields = collect (openAttribute path except) fields >>=
      fun entries => pure (.ofList entries) := rfl
  rw [hstep, h, pure_bind]

/-! ### Measures and loops -/

theorem measure_eq_pure (category : MeasureCategory) {entries : List (String × AttributeValue)}
    (h : collect (override (path.child category.name) category) fields = pure entries) :
    measure path (category.name, .object fields) = pure (some ⟨category, .ofList entries⟩) := by
  rw [measure]
  dsimp only
  rw [MeasureCategory.ofName?_name]
  dsimp only [object]
  rw [pure_bind, whenSome_some, h]
  rfl

theorem side_eq_pure {read : Path → List (String × Value) → Reading (Option α)}
    {body : List (String × Value)} {a : α} (h : Value.field? fields key = some (.object body))
    (hread : read (path.child key) body = pure (some a)) :
    side path fields key read = pure (some a) := by
  rw [side, required_eq_pure path h, pure_bind, whenSome_some, object, pure_bind, whenSome_some,
    hread]

theorem optionalTable_eq_pure {read : Path → String × Value → Reading (Option α)}
    {table : List (String × Value)} {list : List α}
    (h : Value.field? fields key = some (.object table))
    (hread : collect (read (path.child key)) table = pure list) :
    optionalTable path fields key read = pure list := by
  rw [optionalTable, h, whenSome_some, object, pure_bind, whenSome_some, hread]
  rfl

theorem optionalTable_eq_nil {read : Path → String × Value → Reading (Option α)}
    (h : Value.field? fields key = none) : optionalTable path fields key read = pure [] := by
  rw [optionalTable, h]
  rfl

theorem airSupply_eq_pure {supply : List String} :
    airSupply path [("outlet_node", .ofList .string supply)] = pure (some supply) := by
  rw [airSupply, checkFields_eq_pure path (by simp), pure_bind, required_eq_pure path rfl,
    pure_bind, whenSome_some, nameList_eq_pure]
  rfl

theorem airLoop_eq_pure {supply : List String} {demand : List Branch}
    (hsupply : side (path.child name) fields "supply_components" airSupply = pure (some supply))
    (hdemand : side (path.child name) fields "demand_components" airDemand = pure (some demand))
    (h : ∀ f ∈ fields, f.1 ∈ ["supply_components", "demand_components"]) :
    airLoop path (name, .object fields) = pure (some ⟨name, supply, demand⟩) := by
  rw [airLoop, object, pure_bind, whenSome_some, checkFields_eq_pure _ h, pure_bind, hsupply,
    hdemand]
  rfl

theorem plantSupply_eq_pure {inlet branches : List String} :
    plantSupply path [("inlet_node", .ofList .string inlet),
      ("branches", .ofList .string branches)] = pure (some (inlet, branches)) := by
  have hinlet : Value.field? [("inlet_node", .ofList .string inlet),
    ("branches", .ofList .string branches)] "inlet_node" = some (.ofList .string inlet) := rfl
  rw [plantSupply, checkFields_eq_pure path (by simp), pure_bind, hinlet, whenSome_some,
    nameList_eq_pure, pure_bind, pure_bind, required_eq_pure path rfl, pure_bind, whenSome_some,
    nameList_eq_pure]
  rfl

theorem plantDemand_eq_pure {branches : List String} :
    plantDemand path [("branches", .ofList .string branches)] = pure (some branches) := by
  rw [plantDemand, checkFields_eq_pure path (by simp), pure_bind, required_eq_pure path rfl,
    pure_bind, whenSome_some, nameList_eq_pure]
  rfl

theorem plantLoop_eq_pure {kind : LoopKind} {inlet branches demand : List String}
    (hkind : plantKind (path.child name) fields = pure (some kind))
    (hsupply : side (path.child name) fields "supply_components" plantSupply =
      pure (some (inlet, branches)))
    (hdemand : side (path.child name) fields "demand_components" plantDemand =
      pure (some demand))
    (h : ∀ f ∈ fields, f.1 ∈ ["plant_loop_type", "supply_components", "demand_components"]) :
    plantLoop path (name, .object fields) =
      pure (some ⟨name, kind, inlet, branches, demand⟩) := by
  rw [plantLoop, object, pure_bind, whenSome_some, checkFields_eq_pure _ h, pure_bind, hkind,
    pure_bind, hsupply, pure_bind, hdemand]
  rfl

theorem system_eq_pure {airLoops : List AirLoop} {plantLoops : List PlantLoop} {schedule : String}
    {entries : List (String × AttributeValue)}
    (hattributes : collect (systemAttribute (path.child name)) fields = pure entries)
    (hschedule : Value.field? fields "availability_schedule" = some (.string schedule))
    (hair : loops (path.child name) fields "air_loops" airLoop = pure airLoops)
    (hplant : loops (path.child name) fields "plant_loops" plantLoop = pure plantLoops) :
    system path (name, .object fields) =
      pure (some ⟨name, airLoops, plantLoops, some schedule, .ofList entries⟩) := by
  rw [system, object, pure_bind, whenSome_some, hattributes, pure_bind, hschedule, whenSome_some,
    hair, hplant]
  rfl

/-! ### Components -/

theorem componentList_cons {value : Value} {c : Component} {rest : List (String × Value)}
    {cs : List Component} (hc : component (path.child name) name value = pure (some c))
    (hrest : componentList path rest = pure cs) :
    componentList path ((name, value) :: rest) = pure (c :: cs) := by
  rw [componentList, hc, pure_bind, hrest]
  rfl

/-! ### Days -/

theorem day_eq_pure {entries : List (String × Value)} {points : List (TimeOfDay × Float)}
    (h : IsRun entries points) :
    day path key (.object [("name", .string name), ("values", .object entries)]) =
      pure (some ⟨key, name, points⟩) := by
  obtain ⟨hclean, hvalue⟩ := dayValues_of_isRun (path.child "values") h
  have hvalues : dayValues (path.child "values") entries = pure (some points) :=
    Report.ext hvalue hclean
  rw [day, object, pure_bind, whenSome_some, checkFields_eq_pure path (by simp), pure_bind,
    nameOr_eq_pure path rfl, pure_bind, required_eq_pure path rfl, pure_bind, whenSome_some, object,
    pure_bind, whenSome_some, hvalues]
  rfl

theorem rule_eq_pure {days : WeekdaySet} {value : Value} {found : RuleDay}
    (hname : Value.field? fields "name" = some (.string name))
    (hdays : appliesTo (path.child key) fields = pure days)
    (hday : Value.field? fields "day_schedule" = some value)
    (hvalue : ruleDay ((path.child key).child "day_schedule") key value = pure (some found))
    (h : ∀ f ∈ fields, f.1 ∈ ruleFields) :
    rule path (key, .object fields) = pure (some ⟨key, name, days, found⟩) := by
  rw [rule, object, pure_bind, whenSome_some, checkFields_eq_pure _ h, pure_bind,
    nameOr_eq_pure _ hname, pure_bind, hdays, pure_bind, required_eq_pure _ hday, pure_bind,
    whenSome_some, hvalue]
  rfl

theorem namedDay_eq_pure {value : Value} {found : DayProfile}
    (h : Value.field? fields key = some value)
    (hday : day (path.child key) key value = pure (some found)) :
    namedDay path fields key = pure (some found) := by
  rw [namedDay, h, whenSome_some, hday]

theorem schedule_eq_pure {default summer winter : Option DayProfile} {custom : List DayProfile}
    {rules : List LooseRule} (hname : Value.field? fields "name" = some (.string name))
    (hdefault : namedDay (path.child key) fields "default_day" = pure default)
    (hsummer : namedDay (path.child key) fields "summer_design_day" = pure summer)
    (hwinter : namedDay (path.child key) fields "winter_design_day" = pure winter)
    (hcustom : optionalTable (path.child key) fields "day_schedules"
      (fun path f => day (path.child f.1) f.1 f.2) = pure custom)
    (hrules : optionalTable (path.child key) fields "schedule_rules" rule = pure rules)
    (h : ∀ f ∈ fields, f.1 ∈ scheduleFields) :
    schedule path (key, .object fields) = pure (some
      { key := key
        name := name
        days := default.toList ++ summer.toList ++ winter.toList ++ custom ++ inlineDays rules
        defaultDay := position? 0 default
        summerDesignDay := position? default.toList.length summer
        winterDesignDay := position? (default.toList ++ summer.toList).length winter
        rules := placeRules
          (default.toList ++ summer.toList ++ winter.toList ++ custom).length rules }) := by
  rw [schedule, object, pure_bind, whenSome_some, checkFields_eq_pure _ h, pure_bind,
    nameOr_eq_pure _ hname, pure_bind, hdefault, pure_bind, hsummer, pure_bind, hwinter, pure_bind,
    hcustom, pure_bind, hrules]
  rfl

/-! ### Records -/

theorem archetypeKey_eq_pure {type zone standard : String} {age : Int}
    (ht : Value.field? fields "base_building_type" = some (.string type))
    (ha : Value.field? fields "building_age" = some (.number (.int age)))
    (hi : (Number.int age).integer? = some age)
    (hz : Value.field? fields "climate_zone" = some (.string zone))
    (hs : Value.field? fields "building_standard" = some (.string standard)) :
    archetypeKey path fields = pure (some ⟨type, age, zone, standard⟩) := by
  rw [archetypeKey, requiredString_eq_pure path ht, requiredInteger_eq_pure path ha hi,
    requiredString_eq_pure path hz, requiredString_eq_pure path hs]
  rfl

theorem constructionSet_eq_pure {key : ArchetypeKey} {entries : List (String × AttributeValue)}
    (hkey : archetypeKey (path.child name) fields = pure (some key))
    (h : collect (openAttribute (path.child name) archetypeFields) fields = pure entries) :
    constructionSet path (name, .object fields) = pure (some ⟨name, key, .ofList entries⟩) := by
  rw [constructionSet, object, pure_bind, whenSome_some, hkey, openAttributes_eq_pure _ h]
  rfl

theorem spaceType_eq_pure {base : String} {key : ArchetypeKey}
    {entries : List (String × AttributeValue)}
    (hbase : Value.field? fields "base_space_type" = some (.string base))
    (hkey : archetypeKey (path.child name) fields = pure (some key))
    (h : collect (openAttribute (path.child name) ("base_space_type" :: archetypeFields)) fields =
      pure entries) :
    spaceType path (name, .object fields) = pure (some ⟨name, base, key, .ofList entries⟩) := by
  rw [spaceType, object, pure_bind, whenSome_some, requiredString_eq_pure _ hbase, hkey,
    openAttributes_eq_pure _ h]
  rfl

theorem runInfo_eq_pure {uuid output temp : String} {year timestep : Int}
    {entries : List (String × AttributeValue)}
    (hu : Value.field? fields "uuid" = some (.string uuid))
    (ho : Value.field? fields "output_location" = some (.string output))
    (ht : Value.field? fields "temp_sim_location" = some (.string temp))
    (hy : Value.field? fields "simulation_year" = some (.number (.int year)))
    (hyear : (Number.int year).integer? = some year)
    (hs : Value.field? fields "timestep" = some (.number (.int timestep)))
    (hstep : (Number.int timestep).integer? = some timestep)
    (h : collect (openAttribute path runInfoFields) fields = pure entries) :
    runInfo path (.object fields) =
      pure (some ⟨uuid, output, temp, year, timestep, .ofList entries⟩) := by
  rw [runInfo, object, pure_bind, whenSome_some, requiredString_eq_pure path hu,
    requiredString_eq_pure path ho, requiredString_eq_pure path ht,
    requiredInteger_eq_pure path hy hyear, requiredInteger_eq_pure path hs hstep,
    openAttributes_eq_pure path h]
  rfl

theorem buildingInfo_eq_pure {space construction system : String}
    {entries : List (String × AttributeValue)}
    (hspace : Value.field? fields "space_type" = some (.string space))
    (hset : Value.field? fields "construction_set" = some (.string construction))
    (hsystem : Value.field? fields "hvac_system" = some (.string system))
    (h : collect (openAttribute path buildingFields) fields = pure entries) :
    buildingInfo path (.object fields) =
      pure (some ⟨space, construction, system, .ofList entries⟩) := by
  rw [buildingInfo, object, pure_bind, whenSome_some, requiredString_eq_pure path hspace,
    requiredString_eq_pure path hset, requiredString_eq_pure path hsystem,
    openAttributes_eq_pure path h]
  rfl

/-! ### Documents -/

theorem sectionIn_eq_pure {read : Path → Value → Reading (Option α)} {value : Value} {a : α}
    (h : Value.field? fields name = some value)
    (hread : read [.key name] value = pure (some a)) :
    sectionIn fields name read = pure (some a) := by
  rw [sectionIn, h, whenSome_some, hread]

theorem document_eq_pure {d : Document} (hknown : ∀ f ∈ fields, f.1 ∈ sections)
    (hthere : ∀ name ∈ sections, (Value.field? fields name).isSome = true)
    (hmeasures : sectionIn fields "measures" measures = pure (some d.measures))
    (hsystems : sectionIn fields "hvac" systems = pure (some d.systems))
    (hcomponents : sectionIn fields "hvac_components" components = pure (some d.components))
    (hschedules : sectionIn fields "schedules" schedules = pure (some d.schedules))
    (hsets : sectionIn fields "construction_sets" constructionSets =
      pure (some d.constructionSets))
    (hspaces : sectionIn fields "space_types" spaceTypes = pure (some d.spaceTypes))
    (hinfo : sectionIn fields "run_info" runInfo = pure (some d.runInfo))
    (hbuilding : sectionIn fields "building_info" buildingInfo = pure (some d.buildingInfo)) :
    document (.object fields) = pure (some d) := by
  have hunknown : unknownSections fields = pure () :=
    Report.ext rfl ((clean_unknownSections fields).mpr hknown)
  have hmissing : missingSections fields requiredSections = pure () :=
    Report.ext rfl ((clean_missingSections fields _).mpr fun name hname =>
      hthere name (List.mem_of_mem_drop hname))
  have hpresent : (Value.field? fields "measures").isSome = true := hthere _ (by decide)
  unfold document
  rw [object, pure_bind, whenSome_some, hunknown, pure_bind, hmissing, pure_bind, if_pos hpresent,
    hmeasures, hsystems, hcomponents, hschedules, hsets, hspaces, hinfo, hbuilding]
  rfl

end Document.Read

end HvacModel
