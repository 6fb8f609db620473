import HvacModel.Proofs.Reading.Components
import HvacModel.Proofs.Reading.Systems
import HvacModel.Proofs.Transcript.Fields

/-! # Reading keeps everything: measures, systems and components

The readers of these sections leave an entry out only where the grammar does not know it.  The
attributes at all three places pass a table of declarations first, which changes nothing in what is
taken (`yields_override`, `yields_systemAttribute`, `yields_componentValue`).  A component is a tree,
and `yields_component` is proved by induction on the component of the grammar. -/

namespace HvacModel.Transcript

open Report Grammar Document Document.Read

variable {α : Type} (path : Path)

/-! ### Measures -/

theorem yields_override {category : MeasureCategory} {e : String × Value}
    (h : ∃ target, (e.1, target) ∈ HvacModel.Measure.targets category ∧
      IsOfKind target.kind e.2) :
    Yields (override path category e) (AttributeOf e) := by
  obtain ⟨target, htarget, hkind⟩ := h
  rw [override, (target?_eq_some_iff category e.1 target).mpr htarget]
  exact yields_entry (yields_typedScalar _ hkind)

theorem yields_measure {e : String × Value} (h : IsMeasure e.1 e.2) :
    Yields (Read.measure path e) (MeasureOf e.1 e.2) := by
  obtain ⟨category, hname, htable⟩ := h
  rw [Read.measure, (category_ofName?_eq_some_iff e.1 category).mpr hname]
  refine yields_object _ htable fun body hall => ⟨_, rfl, hname, ?_⟩
  exact bagOf_collect (fun _ _ h => absurd h List.not_mem_nil) fun a ha _ =>
    yields_override _ (hall a ha)

/-! ### Air loops -/

theorem yields_side {P : Fields → Prop} {R : Fields → α → Prop} {fields : Fields} {key : String}
    {read : Path → Fields → Reading (Option α)} (h : Has fields key (IsObject P))
    (hread : ∀ body, P body → Yields (read (path.child key) body) (R body)) :
    Yields (side path fields key read) (FieldOf (ObjectOf R) fields key) :=
  yields_required path h fun _ hv => yields_object _ hv hread

/-- A list of names that must be there. -/
theorem yields_requiredNames {fields : Fields} {key : String} (h : Has fields key IsNameList) :
    Yields (required path fields key >>= fun value => whenSome value fun value =>
      nameList (path.child key) value >>= fun names => pure (some names))
      (FieldOf NamesOf fields key) :=
  yields_required path h fun _ hv => ⟨_, rfl, namesOf_nameList _ hv⟩

theorem yields_airSupply {supply : Fields} (h : Has supply "outlet_node" IsNameList) :
    Yields (airSupply path supply) (FieldOf NamesOf supply "outlet_node") :=
  yields_requiredNames path h

theorem yields_branch {e : String × Value} (h : IsNameList e.2) :
    Yields (branch path e) (BranchOf e.1 e.2) := ⟨_, rfl, rfl, namesOf_nameList _ h⟩

theorem yields_airDemand {demand : Fields}
    (h : Has demand "branches" (IsTable fun _ => IsNameList)) :
    Yields (airDemand path demand) (FieldOf (TableOf BranchOf) demand "branches") :=
  yields_required path h fun _ hv => yields_table _ hv fun _ => yields_branch _

theorem yields_airLoop {e : String × Value} (h : IsAirLoop e.2) :
    Yields (airLoop path e) (AirLoopOf e.1 e.2) := by
  refine yields_object _ h ?_
  rintro fields ⟨-, hsupply, hdemand⟩
  obtain ⟨supply, hv1, hsupply⟩ := yields_side (path.child e.1) hsupply
    fun _ hs => yields_airSupply _ hs.2
  obtain ⟨demand, hv2, hdemand⟩ := yields_side (path.child e.1) hdemand
    fun _ hd => yields_airDemand _ hd.2
  refine ⟨⟨e.1, supply, demand⟩, ?_, rfl, hsupply, hdemand⟩
  simp only [value_bind, value_pure, hv1, hv2]
  rfl

/-! ### Plant loops -/

theorem yields_plantKind {fields : Fields} (h : Has fields "plant_loop_type" IsWaterKind) :
    Yields (plantKind path fields)
      (FieldOf (fun value kind => value = .string (LoopKind.name kind)) fields
        "plant_loop_type") := by
  obtain ⟨value, hf, hwater⟩ := h
  obtain ⟨text, rfl, kind, hkind⟩ := (isWaterKind_iff value).mp hwater
  have hname := (loopKind_ofName?_eq_some_iff text kind).mp (Option.filter_eq_some_iff.mp hkind).1
  refine ⟨kind, ?_, _, hf, congrArg Value.string hname.symm⟩
  simp [plantKind, value_requiredString, hf, Value.string?, hkind]

theorem yields_plantSupply {supply : Fields} (hinlet : MayHave supply "inlet_node" IsNameList)
    (h : Has supply "branches" IsNameList) :
    Yields (plantSupply path supply) (PlantSupplyFields supply) := by
  obtain ⟨value, hf, hnames⟩ := h
  have hinlet : FieldOr [] NamesOf supply "inlet_node"
      ((whenSome (Value.field? supply "inlet_node") fun value => do
        pure (some (← nameList (path.child "inlet_node") value))).value.getD []) :=
    fieldOr_whenSome hinlet fun _ hv => ⟨_, rfl, namesOf_nameList _ hv⟩
  refine ⟨(_, _), ?_, hinlet, value, hf, namesOf_nameList (path.child "branches") hnames⟩
  simp only [plantSupply, value_bind, value_required, hf, whenSome_some, value_pure]
  rfl

theorem yields_plantDemand {demand : Fields} (h : Has demand "branches" IsNameList) :
    Yields (plantDemand path demand) (FieldOf NamesOf demand "branches") :=
  yields_requiredNames path h

theorem yields_plantLoop {e : String × Value} (h : IsPlantLoop e.2) :
    Yields (plantLoop path e) (PlantLoopOf e.1 e.2) := by
  refine yields_object _ h ?_
  rintro fields ⟨-, hkind, hsupply, hdemand⟩
  obtain ⟨kind, hv1, hkind⟩ := yields_plantKind (path.child e.1) hkind
  obtain ⟨⟨inlet, branches⟩, hv2, hsupply⟩ := yields_side (path.child e.1) hsupply
    fun _ hs => yields_plantSupply _ hs.2.1 hs.2.2
  obtain ⟨demand, hv3, hdemand⟩ := yields_side (path.child e.1) hdemand
    fun _ hd => yields_plantDemand _ hd.2
  refine ⟨⟨e.1, kind, inlet, branches, demand⟩, ?_, rfl, hkind, hsupply, hdemand⟩
  simp only [value_bind, value_pure, hv1, hv2, hv3]
  rfl

/-! ### Systems -/

theorem yields_systemAttribute {e : String × Value}
    (hs : e.1 ∉ ["air_loops", "plant_loops", "availability_schedule"])
    (h : Declares systemAttributes e.1 e.2) :
    Yields (systemAttribute path e) (AttributeOf e) := by
  obtain ⟨spec, hspec, hkind⟩ := (declares_iff systemAttributes_nodup e.1 e.2).mp h
  rw [systemAttribute, if_neg hs, hspec]
  exact yields_entry (yields_typedScalar _ hkind)

theorem fieldOr_loops {P : String → Value → Prop} {R : String → Value → α → Prop}
    {fields : Fields} {key : String} {read : Path → String × Value → Reading (Option α)}
    (h : MayHave fields key (IsTable P))
    (hread : ∀ e, P e.1 e.2 → Yields (read (path.child key) e) (R e.1 e.2)) :
    FieldOr [] (TableOf R) fields key (loops path fields key read).value :=
  fieldOr_whenSome h fun _ hv => yields_table _ hv hread

theorem yields_system {e : String × Value} (h : IsSystem e.2) :
    Yields (system path e) (SystemOf e.1 e.2) := by
  refine yields_object _ h ?_
  rintro fields ⟨hattributes, hschedule, hair, hplant⟩
  refine ⟨_, rfl, rfl, fieldOr_loops _ hair fun _ => yields_airLoop _,
    fieldOr_loops _ hplant fun _ => yields_plantLoop _,
    optionalOf_whenSome hschedule fun _ => yields_string _, ?_⟩
  refine bagOf_collect (fun a _ hs => ?_) fun a ha hs => ?_
  · rw [systemAttribute, if_pos hs]
    rfl
  · exact yields_systemAttribute _ hs ((hattributes a ha).resolve_left hs)

/-! ### Components -/

theorem yields_componentValue {type : ObjectType} {e : String × Value}
    (h : Declares type.entry.attributes e.1 e.2) :
    Yields (componentValue path type e) (AttributeOf e) := by
  obtain ⟨spec, hspec, hkind⟩ := (declares_iff (attributes_nodup type) e.1 e.2).mp h
  rw [componentValue, ObjectType.declared?, hspec]
  exact yields_entry (yields_typedScalar _ hkind)

theorem fieldOr_componentValues {type : ObjectType} {fields : Fields}
    (h : MayHave fields "component_values" (IsTable (Declares type.entry.attributes))) :
    FieldOr .empty (ObjectOf (BagOf [])) fields "component_values"
      (NameMap.ofList (componentValues path (some type) fields).value) := by
  unfold FieldOr componentValues
  cases hf : Value.field? fields "component_values" with
  | none => rfl
  | some value =>
      obtain ⟨values, rfl, hall⟩ := h value hf
      exact ⟨values, rfl, bagOf_collect (fun _ _ h => absurd h List.not_mem_nil) fun a ha _ =>
        yields_componentValue _ (hall a ha)⟩

/-- The components that are owned are those of the first entry which lists them. -/
theorem value_ownedComponents (fields : Fields) :
    (ownedComponents path fields).value =
      match Value.field? fields "sub_components" with
      | some value => (ownedTable (path.child "sub_components") value).value
      | none => [] := by
  rw [ownedComponents_eq]
  cases Value.field? fields "sub_components" <;> rfl

/-- A table yields a component for each entry. -/
theorem forall₂_componentList {R : String → Value → Component → Prop} {table : Fields}
    (h : ∀ e ∈ table, ∀ path, Yields (component path e.1 e.2) (R e.1 e.2)) :
    List.Forall₂ (fun e c => R e.1 e.2 c) table (componentList path table).value := by
  induction table with
  | nil =>
      rw [componentList]
      exact .nil
  | cons e rest ih =>
      obtain ⟨c, hc, hr⟩ := h e List.mem_cons_self (path.child e.1)
      have hrest := ih fun e he => h e (List.mem_cons_of_mem _ he)
      rw [componentList, value_bind, hc]
      exact .cons hr hrest

/-- A component of the grammar but for what it owns. -/
theorem yields_componentHead {name : String} {fields : Fields} (h : IsComponentHead name fields) :
    ∃ type attributes, ComponentHead fields type attributes ∧
      (component path name (.object fields)).value =
        some (.mk name type attributes (ownedComponents path fields).value) := by
  obtain ⟨hplain, -, type, htype, hvalues⟩ := h
  have hv1 : (plainName path name).value = true := by
    rw [plainName, if_neg fun hc => hplain (List.contains_iff_mem.mp hc)]
    rfl
  have hv2 := (value_objectType_eq_some_iff path fields type).mpr htype
  obtain ⟨_, hf, rfl⟩ := htype
  refine ⟨type, _, ⟨hf, fieldOr_componentValues path hvalues⟩, ?_⟩
  rw [component]
  simp only [value_bind, value_pure, hv1, hv2, if_true, Option.map_some]

theorem yields_component {name : String} {value : Value} (h : IsComponent name value) :
    ∀ path, Yields (component path name value) (ComponentOf name value) := by
  induction h with
  | leaf hhead hnone =>
      intro path
      obtain ⟨type, attributes, hof, hvalue⟩ := yields_componentHead path hhead
      rw [value_ownedComponents, hnone] at hvalue
      exact ⟨_, hvalue, .leaf hof hnone⟩
  | owner hhead hsome _ ih =>
      intro path
      obtain ⟨type, attributes, hof, hvalue⟩ := yields_componentHead path hhead
      rw [value_ownedComponents, hsome] at hvalue
      dsimp only at hvalue
      rw [ownedTable] at hvalue
      exact ⟨_, hvalue, .owner hof hsome (forall₂_componentList _ ih)⟩

theorem yields_components {value : Value} (h : IsTable IsComponent value) :
    Yields (components path value) (TableOf ComponentOf value) :=
  yields_object path h fun _ hall =>
    ⟨_, rfl, forall₂_componentList _ fun e he => yields_component (hall e he)⟩

end HvacModel.Transcript
