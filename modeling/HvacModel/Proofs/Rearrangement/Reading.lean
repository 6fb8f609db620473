import Mathlib.Data.List.Nodup
import HvacModel.Proofs.Reading.Components
import HvacModel.Proofs.Reading.Document
import HvacModel.Proofs.Rearrangement.Basic
import HvacModel.Proofs.Transcript.Systems

/-! # Reading rearranged configurations

`Carries R r r'` compares two readings: if the first one is clean, so is the second one, and the
values are related by `R`.  Every reader of a record carries equality from a configuration to a
rearranged one, because it asks for its fields by their keys; the readers of attributes find the
same entries in another order, and make the same map of them.  The one section whose order is seen
by its reader is that of the measures: its categories are met in another order
(`carries_measures`). -/

namespace HvacModel.Document.Read

open Report

variable {α β γ δ : Type} {role : Role} {fields fields' : List (String × Value)} {v w : Value}

/-! ### Two readings -/

/-- If the first reading is clean then so is the second one, with a related value. -/
def Carries (R : α → β → Prop) (r : Reading α) (r' : Reading β) : Prop :=
  r.Clean → r'.Clean ∧ R r.value r'.value

section Carries

variable {R : α → β → Prop} {S : γ → δ → Prop} {r : Reading α} {r' : Reading β}

theorem Carries.refl {R : α → α → Prop} (hR : ∀ a, R a a) (r : Reading α) : Carries R r r :=
  fun h => ⟨h, hR _⟩

theorem carries_of_eq {r r' : Reading α} (h : r' = r) : Carries Eq r r' := by
  rw [h]
  exact Carries.refl (fun _ => rfl) r

theorem carries_pure {a : α} {b : β} (h : R a b) :
    Carries R (pure a : Reading α) (pure b : Reading β) :=
  fun _ => ⟨clean_pure b, h⟩

theorem Carries.bind {f : α → Reading γ} {g : β → Reading δ} (h : Carries R r r')
    (hfg : ∀ a b, R a b → Carries S (f a) (g b)) : Carries S (r >>= f) (r' >>= g) := by
  intro hc
  rw [clean_bind] at hc
  obtain ⟨hr, hab⟩ := h hc.1
  obtain ⟨hg, hs⟩ := hfg _ _ hab hc.2
  exact ⟨(clean_bind _ _).mpr ⟨hr, hg⟩, hs⟩

/-- The steps after readings of the same value start from the same value. -/
theorem Carries.bind_eq {r r' : Reading α} {f : α → Reading γ} {g : α → Reading δ}
    (h : Carries Eq r r') (hfg : ∀ a, Carries S (f a) (g a)) : Carries S (r >>= f) (r' >>= g) :=
  h.bind fun a _ hab => hab ▸ hfg a

/-- The same reading comes first. -/
theorem carries_bind_same {r : Reading α} {f : α → Reading γ} {g : α → Reading δ}
    (hfg : ∀ a, Carries S (f a) (g a)) : Carries S (r >>= f) (r >>= g) :=
  (Carries.refl (fun _ => rfl) r).bind_eq hfg

theorem carries_whenSome {P : α → β → Prop} {S : Option γ → Option δ → Prop}
    (hnone : S none none) {a : Option α} {b : Option β} (h : Option.Rel P a b)
    {f : α → Reading (Option γ)} {g : β → Reading (Option δ)}
    (hfg : ∀ a b, P a b → Carries S (f a) (g b)) : Carries S (whenSome a f) (whenSome b g) := by
  cases h with
  | none => exact carries_pure hnone
  | some hab => exact hfg _ _ hab

end Carries

/-! ### Tables and records -/

theorem carries_object {S : Option α → Option α → Prop} (path : Path)
    {step step' : List (String × Value) → Reading (Option α)}
    (h : Carries S (step fields) (step' fields')) :
    Carries S (object path (.object fields) >>= fun found => whenSome found step)
      (object path (.object fields') >>= fun found => whenSome found step') := h

/-- A step on the entries of a record carries what it carries along reordered entries. -/
theorem carries_record {S : Option α → Option α → Prop} (hS : ∀ a, S a a) (path : Path)
    (hr : role.isTable = false) (h : Rearranged role v w)
    {step : List (String × Value) → Reading (Option α)}
    (hstep : ∀ fields fields', Reordered role fields fields' →
      Carries S (step fields) (step fields')) :
    Carries S (object path v >>= fun found => whenSome found step)
      (object path w >>= fun found => whenSome found step) := by
  obtain rfl | ⟨fields, fields', rfl, rfl, hf⟩ := h.of_record hr
  · exact Carries.refl hS _
  · exact carries_object path (hstep fields fields' hf)

theorem carries_collect {step : String × Value → Reading (Option α)}
    (h : List.Forall₂ role.Moves fields fields')
    (hstep : ∀ e e', role.Moves e e' → Carries Eq (step e) (step e')) :
    Carries Eq (collect step fields) (collect step fields') := by
  induction h with
  | nil => exact Carries.refl (fun _ => rfl) _
  | cons he _ ih =>
      exact (hstep _ _ he).bind_eq fun _ => ih.bind_eq fun _ => carries_pure rfl

/-- The entries of a table are read one by one. -/
theorem carries_table (path : Path) (hr : role.isRecord = false) (h : Rearranged role v w)
    {step : String × Value → Reading (Option α)}
    (hstep : ∀ e e', role.Moves e e' → Carries Eq (step e) (step e')) :
    Carries Eq
      (object path v >>= fun found => whenSome found fun table => do
        pure (some (← collect step table)))
      (object path w >>= fun found => whenSome found fun table => do
        pure (some (← collect step table))) := by
  obtain rfl | ⟨fields, fields', rfl, rfl, hf⟩ := h.of_table hr
  · exact Carries.refl (fun _ => rfl) _
  · exact carries_object path ((carries_collect hf hstep).bind_eq fun _ => carries_pure rfl)

theorem carries_checkFields (path : Path) (allowed : List String)
    (h : Reordered role fields fields') :
    Carries Eq (checkFields path allowed fields) (checkFields path allowed fields') := by
  intro hc
  rw [clean_checkFields] at hc ⊢
  refine ⟨fun e' he' => ?_, rfl⟩
  obtain ⟨e, he, hkey, -⟩ := h.exists_left he'
  exact hkey ▸ hc e he

theorem carries_required {S : Option α → Option α → Prop} (path : Path)
    (h : Reordered role fields fields') (key : String) {step : Value → Reading (Option α)}
    (hstep : ∀ v w, Rearranged (role.child key) v w → Carries S (step v) (step w)) :
    Carries S (required path fields key >>= fun found => whenSome found step)
      (required path fields' key >>= fun found => whenSome found step) := by
  have hrel := h.rel_field? key
  unfold required
  generalize Value.field? fields key = found, Value.field? fields' key = found' at hrel
  cases hrel with
  | none =>
      intro hc
      simp at hc
  | some hv => exact hstep _ _ hv

theorem carries_optional {S : Option α → Option α → Prop} (hnone : S none none)
    (h : Reordered role fields fields') (key : String) {step : Value → Reading (Option α)}
    (hstep : ∀ v w, Rearranged (role.child key) v w → Carries S (step v) (step w)) :
    Carries S (whenSome (Value.field? fields key) step)
      (whenSome (Value.field? fields' key) step) :=
  carries_whenSome hnone (h.rel_field? key) hstep

theorem requiredString_eq (path : Path) (h : Reordered role fields fields') (key : String)
    (hkey : role.child key = .whole) :
    requiredString path fields' key = requiredString path fields key := by
  rw [requiredString, required, h.field?_eq key hkey]
  rfl

theorem requiredInteger_eq (path : Path) (h : Reordered role fields fields') (key : String)
    (hkey : role.child key = .whole) :
    requiredInteger path fields' key = requiredInteger path fields key := by
  rw [requiredInteger, required, h.field?_eq key hkey]
  rfl

theorem nameOr_eq (path : Path) (h : Reordered role fields fields')
    (hname : role.child "name" = .whole) (key : String) :
    nameOr path fields' key = nameOr path fields key := by
  rw [nameOr, h.field?_eq "name" hname]
  rfl

/-! ### Entries in another order -/

/-- What a step makes of the entries of a record is met in another order. -/
theorem carries_collect_perm {step : String × Value → Reading (Option α)}
    (h : Reordered role fields fields')
    (hstep : ∀ e e', role.Moves e e' → Carries Eq (step e) (step e')) :
    Carries List.Perm (collect step fields) (collect step fields') := by
  obtain ⟨moved, hp, hf⟩ := h.exists_perm
  intro hc
  have hmoved : (collect step moved).Clean := by
    rw [clean_collect] at hc ⊢
    exact fun e he => hc e (hp.mem_iff.mpr he)
  obtain ⟨hclean, hvalue⟩ := carries_collect hf hstep hmoved
  refine ⟨hclean, ?_⟩
  rw [← hvalue, value_collect, value_collect]
  exact hp.filterMap _

/-- A step that keeps the keys of a record makes entries with distinct keys. -/
theorem nodup_collect {step : String × Value → Reading (Option α)} (key : α → String)
    (hkey : ∀ e a, (step e).value = some a → key a = e.1) (hn : (fields.map Prod.fst).Nodup) :
    ((collect step fields).value.map key).Nodup := by
  rw [value_collect]
  refine hn.sublist ?_
  clear hn
  induction fields with
  | nil => exact List.Sublist.refl _
  | cons e rest ih =>
      rw [List.filterMap_cons]
      cases hs : (step e).value with
      | none => exact ih.cons _
      | some a =>
          simp only [List.map_cons, hkey e a hs]
          exact ih.cons_cons _

/-- Sequences of which the same map is made. -/
def SameMap (es es' : List (String × α)) : Prop := NameMap.ofList es = NameMap.ofList es'

/-- Maybe no sequence, which is as good as an empty one. -/
def SameMap? (found found' : Option (List (String × α))) : Prop :=
  SameMap (found.getD []) (found'.getD [])

/-- The map of the entries of a record does not depend on their order. -/
theorem carries_collect_ofList {step : String × Value → Reading (Option (String × α))}
    (hkey : ∀ e a, (step e).value = some a → a.1 = e.1) (h : Reordered role fields fields')
    (hstep : ∀ e e', role.Moves e e' → Carries Eq (step e) (step e')) :
    Carries SameMap (collect step fields)
      (collect step fields') := by
  intro hc
  obtain ⟨hclean, hperm⟩ := carries_collect_perm h hstep hc
  exact ⟨hclean, NameMap.ofList_of_perm (nodup_collect Prod.fst hkey h.distinct) hperm⟩

theorem key_of_entry {key : String} {read : Reading (Option α)} {a : String × α}
    (h : (entry key read).value = some a) : a.1 = key := by
  unfold entry at h
  rw [value_bind, value_pure, Option.map_eq_some_iff] at h
  obtain ⟨_, -, rfl⟩ := h
  rfl

theorem carries_openAttributes (path : Path) (except : List String)
    (h : Reordered .bag fields fields') :
    Carries Eq (openAttributes path except fields) (openAttributes path except fields') := by
  refine (carries_collect_ofList ?_ h ?_).bind fun _ _ => carries_pure
  · intro e a ha
    by_cases he : e.1 ∈ except
    · simp [he] at ha
    · rw [if_neg he] at ha
      exact key_of_entry ha
  · intro e e' he
    exact carries_of_eq (by rw [Role.Moves.eq_of_whole he rfl])

/-! ### Sets and records -/

theorem archetypeKey_eq (path : Path) (h : Reordered .bag fields fields') :
    archetypeKey path fields' = archetypeKey path fields := by
  simp only [archetypeKey, requiredString_eq path h "base_building_type" rfl,
    requiredInteger_eq path h "building_age" rfl,
    requiredString_eq path h "climate_zone" rfl,
    requiredString_eq path h "building_standard" rfl]

theorem carries_constructionSet (path : Path) {e e' : String × Value}
    (h : Role.sets.Moves e e') :
    Carries Eq (constructionSet path e) (constructionSet path e') := by
  obtain ⟨hkey, hv⟩ := h
  unfold constructionSet
  rw [hkey]
  refine carries_record (fun _ => rfl) _ rfl hv fun fields fields' hf => ?_
  rw [archetypeKey_eq _ hf]
  refine carries_bind_same fun _ => ?_
  exact (carries_openAttributes _ _ hf).bind_eq fun _ => carries_pure rfl

theorem carries_spaceType (path : Path) {e e' : String × Value} (h : Role.sets.Moves e e') :
    Carries Eq (spaceType path e) (spaceType path e') := by
  obtain ⟨hkey, hv⟩ := h
  unfold spaceType
  rw [hkey]
  refine carries_record (fun _ => rfl) _ rfl hv fun fields fields' hf => ?_
  rw [archetypeKey_eq _ hf, requiredString_eq _ hf "base_space_type" rfl]
  refine carries_bind_same fun _ => carries_bind_same fun _ => ?_
  exact (carries_openAttributes _ _ hf).bind_eq fun _ => carries_pure rfl

theorem carries_runInfo (path : Path) (h : Rearranged .bag v w) :
    Carries Eq (runInfo path v) (runInfo path w) := by
  refine carries_record (fun _ => rfl) _ rfl h fun fields fields' hf => ?_
  rw [requiredString_eq _ hf "uuid" rfl,
    requiredString_eq _ hf "output_location" rfl,
    requiredString_eq _ hf "temp_sim_location" rfl,
    requiredInteger_eq _ hf "simulation_year" rfl,
    requiredInteger_eq _ hf "timestep" rfl]
  refine carries_bind_same fun _ => carries_bind_same fun _ => carries_bind_same fun _ => ?_
  refine carries_bind_same fun _ => carries_bind_same fun _ => ?_
  exact (carries_openAttributes _ _ hf).bind_eq fun _ => carries_pure rfl

theorem carries_buildingInfo (path : Path) (h : Rearranged .bag v w) :
    Carries Eq (buildingInfo path v) (buildingInfo path w) := by
  refine carries_record (fun _ => rfl) _ rfl h fun fields fields' hf => ?_
  rw [requiredString_eq _ hf "space_type" rfl,
    requiredString_eq _ hf "construction_set" rfl,
    requiredString_eq _ hf "hvac_system" rfl]
  refine carries_bind_same fun _ => carries_bind_same fun _ => carries_bind_same fun _ => ?_
  exact (carries_openAttributes _ _ hf).bind_eq fun _ => carries_pure rfl

/-! ### Schedules -/

theorem carries_day (path : Path) (key : String) (h : Rearranged .day v w) :
    Carries Eq (day path key v) (day path key w) := by
  refine carries_record (fun _ => rfl) _ rfl h fun fields fields' hf => ?_
  rw [nameOr_eq _ hf rfl]
  refine (carries_checkFields _ _ hf).bind_eq fun _ => ?_
  refine carries_bind_same fun _ => ?_
  refine carries_required _ hf "values" fun v w hvw => ?_
  exact carries_of_eq (by rw [hvw.eq_of_whole])

theorem carries_ruleDay (path : Path) (key : String) (h : Rearranged .day v w) :
    Carries Eq (ruleDay path key v) (ruleDay path key w) := by
  obtain rfl | ⟨fields, fields', rfl, rfl, -⟩ := h.of_record rfl
  · exact Carries.refl (fun _ => rfl) _
  · exact (carries_day path _ h).bind_eq fun _ => carries_pure rfl

theorem flagSet_eq (path : Path) (h : Reordered role fields fields') (key : String)
    (hkey : role.child key = .whole) : flagSet path fields' key = flagSet path fields key := by
  rw [flagSet, h.field?_eq key hkey]
  rfl

theorem flaggedDays_eq (path : Path) (h : Reordered role fields fields')
    {flags : List (String × Weekday)} (hflags : ∀ f ∈ flags, role.child f.1 = .whole) :
    flaggedDays path fields' flags = flaggedDays path fields flags := by
  induction flags with
  | nil => rfl
  | cons f rest ih =>
      obtain ⟨hf, hrest⟩ := List.forall_mem_cons.mp hflags
      rw [flaggedDays, flaggedDays, flagSet_eq path h f.1 hf, ih hrest]

theorem appliesTo_eq (path : Path) (h : Reordered .rule fields fields') :
    appliesTo path fields' = appliesTo path fields := by
  rw [appliesTo, flaggedDays_eq path h (by decide),
    flagSet_eq path h "apply_weekdays" rfl]
  rfl

theorem carries_rule (path : Path) {e e' : String × Value} (h : Role.rules.Moves e e') :
    Carries Eq (rule path e) (rule path e') := by
  obtain ⟨hkey, hv⟩ := h
  unfold rule
  rw [hkey]
  refine carries_record (fun _ => rfl) _ rfl hv fun fields fields' hf => ?_
  rw [nameOr_eq _ hf rfl, appliesTo_eq _ hf]
  refine (carries_checkFields _ _ hf).bind_eq fun _ => ?_
  refine carries_bind_same fun _ => ?_
  refine carries_bind_same fun _ => ?_
  refine carries_required _ hf "day_schedule" fun v w hvw => ?_
  exact (carries_ruleDay _ _ hvw).bind_eq fun _ => carries_pure rfl

theorem carries_namedDay (path : Path) (h : Reordered role fields fields') (key : String)
    (hkey : role.child key = .day) :
    Carries Eq (namedDay path fields key) (namedDay path fields' key) :=
  carries_optional rfl h key fun _ _ hvw => carries_day _ _ (hkey ▸ hvw)

theorem carries_optionalTable (path : Path) (h : Reordered role fields fields') (key : String)
    (hkey : (role.child key).isRecord = false)
    {read : Path → String × Value → Reading (Option α)}
    (hread : ∀ path e e', (role.child key).Moves e e' → Carries Eq (read path e) (read path e')) :
    Carries Eq (optionalTable path fields key read) (optionalTable path fields' key read) :=
  (carries_optional rfl h key fun _ _ hvw =>
    carries_table _ hkey hvw (hread _)).bind_eq fun _ => carries_pure rfl

theorem carries_schedule (path : Path) {e e' : String × Value} (h : Role.schedules.Moves e e') :
    Carries Eq (schedule path e) (schedule path e') := by
  obtain ⟨hkey, hv⟩ := h
  unfold schedule
  rw [hkey]
  refine carries_record (fun _ => rfl) _ rfl hv fun fields fields' hf => ?_
  rw [nameOr_eq _ hf rfl]
  refine (carries_checkFields _ _ hf).bind_eq fun _ => ?_
  refine carries_bind_same fun _ => ?_
  refine (carries_namedDay _ hf _ rfl).bind_eq fun _ => ?_
  refine (carries_namedDay _ hf _ rfl).bind_eq fun _ => ?_
  refine (carries_namedDay _ hf _ rfl).bind_eq fun _ => ?_
  refine (carries_optionalTable _ hf _ rfl fun path e e' he => ?_).bind_eq fun _ => ?_
  · rw [he.1]
    exact carries_day _ _ he.2
  refine (carries_optionalTable _ hf _ rfl fun path e e' he => ?_).bind_eq fun _ => ?_
  · exact carries_rule _ he
  exact carries_pure rfl

/-! ### Systems -/

theorem carries_side (path : Path) (h : Reordered .loop fields fields') (key : String)
    (hkey : Role.loop.child key = .loopSide)
    {read : Path → List (String × Value) → Reading (Option α)}
    (hread : ∀ path fields fields', Reordered .loopSide fields fields' →
      Carries Eq (read path fields) (read path fields')) :
    Carries Eq (side path fields key read) (side path fields' key read) :=
  carries_required path h key fun _ _ hvw =>
    carries_record (fun _ => rfl) _ rfl (hkey ▸ hvw) (hread _)

theorem carries_airSupply (path : Path) (h : Reordered .loopSide fields fields') :
    Carries Eq (airSupply path fields) (airSupply path fields') :=
  (carries_checkFields _ _ h).bind_eq fun _ => carries_required _ h "outlet_node" fun _ _ hvw =>
    carries_of_eq (by rw [hvw.eq_of_whole])

theorem carries_airDemand (path : Path) (h : Reordered .loopSide fields fields') :
    Carries Eq (airDemand path fields) (airDemand path fields') :=
  (carries_checkFields _ _ h).bind_eq fun _ => carries_required _ h "branches" fun _ _ hvw =>
    carries_of_eq (by rw [hvw.eq_of_whole])

theorem carries_airLoop (path : Path) {e e' : String × Value} (h : Role.airLoops.Moves e e') :
    Carries Eq (airLoop path e) (airLoop path e') := by
  obtain ⟨hkey, hv⟩ := h
  unfold airLoop
  rw [hkey]
  refine carries_record (fun _ => rfl) _ rfl hv fun fields fields' hf => ?_
  refine (carries_checkFields _ _ hf).bind_eq fun _ => ?_
  refine (carries_side _ hf _ rfl fun path _ _ => carries_airSupply path).bind_eq fun _ => ?_
  refine (carries_side _ hf _ rfl fun path _ _ => carries_airDemand path).bind_eq fun _ => ?_
  exact carries_pure rfl

theorem plantKind_eq (path : Path) (h : Reordered .loop fields fields') :
    plantKind path fields' = plantKind path fields := by
  rw [plantKind, requiredString_eq path h _ rfl]
  rfl

theorem carries_plantSupply (path : Path) (h : Reordered .loopSide fields fields') :
    Carries Eq (plantSupply path fields) (plantSupply path fields') := by
  unfold plantSupply
  rw [h.field?_eq "inlet_node" rfl]
  refine (carries_checkFields _ _ h).bind_eq fun _ => ?_
  refine carries_bind_same fun _ => ?_
  exact carries_required _ h "branches" fun _ _ hvw => carries_of_eq (by rw [hvw.eq_of_whole])

theorem carries_plantDemand (path : Path) (h : Reordered .loopSide fields fields') :
    Carries Eq (plantDemand path fields) (plantDemand path fields') :=
  (carries_checkFields _ _ h).bind_eq fun _ => carries_required _ h "branches" fun _ _ hvw =>
    carries_of_eq (by rw [hvw.eq_of_whole])

theorem carries_plantLoop (path : Path) {e e' : String × Value} (h : Role.plantLoops.Moves e e') :
    Carries Eq (plantLoop path e) (plantLoop path e') := by
  obtain ⟨hkey, hv⟩ := h
  unfold plantLoop
  rw [hkey]
  refine carries_record (fun _ => rfl) _ rfl hv fun fields fields' hf => ?_
  rw [plantKind_eq _ hf]
  refine (carries_checkFields _ _ hf).bind_eq fun _ => ?_
  refine carries_bind_same fun _ => ?_
  refine (carries_side _ hf _ rfl fun path _ _ => carries_plantSupply path).bind_eq fun _ => ?_
  refine (carries_side _ hf _ rfl fun path _ _ => carries_plantDemand path).bind_eq fun _ => ?_
  exact carries_pure rfl

/-- A field of a system that is an attribute is taken as it is. -/
theorem child_system_of_attribute {key : String}
    (h : key ∉ ["air_loops", "plant_loops", "availability_schedule"]) :
    Role.system.child key = .whole := by
  unfold Role.child
  split <;> simp_all

theorem carries_systemAttributes (path : Path) (h : Reordered .system fields fields') :
    Carries SameMap
      (collect (systemAttribute path) fields) (collect (systemAttribute path) fields') := by
  refine carries_collect_ofList (fun e a ha => ?_) h fun e e' he => ?_
  · unfold systemAttribute at ha
    by_cases hs : e.1 ∈ ["air_loops", "plant_loops", "availability_schedule"]
    · rw [if_pos hs] at ha
      cases ha
    · rw [if_neg hs] at ha
      cases hspec : AttributeSpec.lookup systemAttributes e.1 with
      | none => simp [hspec] at ha
      | some spec =>
          rw [hspec] at ha
          exact key_of_entry ha
  · by_cases hs : e.1 ∈ ["air_loops", "plant_loops", "availability_schedule"]
    · rw [systemAttribute, systemAttribute, he.1, if_pos hs, if_pos hs]
      exact carries_pure rfl
    · exact carries_of_eq (by rw [he.eq_of_whole (child_system_of_attribute hs)])

theorem carries_system (path : Path) {e e' : String × Value} (h : Role.systems.Moves e e') :
    Carries Eq (system path e) (system path e') := by
  obtain ⟨hkey, hv⟩ := h
  unfold system
  rw [hkey]
  refine carries_record (fun _ => rfl) _ rfl hv fun fields fields' hf => ?_
  rw [hf.field?_eq "availability_schedule" rfl]
  refine (carries_systemAttributes _ hf).bind fun es es' hes => ?_
  refine carries_bind_same fun _ => ?_
  refine (carries_optionalTable _ hf "air_loops" rfl
    fun path _ _ => carries_airLoop path).bind_eq fun _ => ?_
  refine (carries_optionalTable _ hf "plant_loops" rfl
    fun path _ _ => carries_plantLoop path).bind_eq fun _ => ?_
  rw [hes]
  exact carries_pure rfl

/-! ### Components -/

theorem objectType_eq (path : Path) (h : Reordered .component fields fields') :
    objectType path fields' = objectType path fields := by
  rw [objectType, requiredString_eq path h _ rfl]
  rfl

theorem carries_componentTable (path : Path) (type : ObjectType) (h : Rearranged .bag v w) :
    Carries SameMap?
      (object path v >>= fun found => whenSome found fun values =>
        collect (componentValue path type) values >>= fun es => pure (some es))
      (object path w >>= fun found => whenSome found fun values =>
        collect (componentValue path type) values >>= fun es => pure (some es)) := by
  refine carries_record (S := SameMap?) (fun _ => rfl) path rfl h fun values values' hvalues => ?_
  refine (carries_collect_ofList (fun e a ha => ?_) hvalues fun e e' he => ?_).bind
    fun _ _ => carries_pure
  · unfold componentValue at ha
    cases hspec : type.declared? e.1 with
    | none => simp [hspec] at ha
    | some spec =>
        rw [hspec] at ha
        exact key_of_entry ha
  · exact carries_of_eq (by rw [he.eq_of_whole rfl])

theorem carries_componentValues (path : Path) (type : Option ObjectType)
    (h : Reordered .component fields fields') :
    Carries SameMap
      (componentValues path type fields) (componentValues path type fields') := by
  refine Carries.bind (R := SameMap?)
    (carries_optional (S := SameMap?) rfl h "component_values" fun v w hvw => ?_)
    fun _ _ => carries_pure
  cases type with
  | none => exact carries_record (S := SameMap?) (fun _ => rfl) _ rfl hvw fun _ _ _ => carries_pure rfl
  | some type => exact carries_componentTable _ type hvw

theorem carries_componentList (path : Path) {table table' : List (String × Value)}
    (h : List.Forall₂ Role.components.Moves table table')
    (hcomponent : ∀ e ∈ table, ∀ path w, Rearranged .component e.2 w →
      Carries Eq (component path e.1 e.2) (component path e.1 w)) :
    Carries Eq (componentList path table) (componentList path table') := by
  induction h with
  | nil => exact Carries.refl (fun _ => rfl) _
  | @cons e e' rest rest' he _ ih =>
      obtain ⟨name, v⟩ := e
      obtain ⟨name', w⟩ := e'
      obtain ⟨hname, hvw⟩ := he
      cases hname
      obtain ⟨hfirst, hrest⟩ := List.forall_mem_cons.mp hcomponent
      rw [componentList, componentList]
      exact (hfirst _ _ hvw).bind_eq fun _ => (ih hrest).bind_eq fun _ => carries_pure rfl

/-- A component with reordered entries, if what it owns is read alike. -/
theorem carries_component_object (path : Path) (name : String)
    (h : Reordered .component fields fields')
    (howned : Carries Eq (ownedComponents path fields) (ownedComponents path fields')) :
    Carries Eq (component path name (.object fields)) (component path name (.object fields')) := by
  rw [component, component, objectType_eq path h]
  refine carries_bind_same fun plain => ?_
  refine (carries_checkFields _ _ h).bind_eq fun _ => ?_
  refine carries_bind_same fun type => ?_
  refine (carries_componentValues path type h).bind fun values values' hvalues => ?_
  refine howned.bind_eq fun owned => ?_
  rw [hvalues]
  exact carries_pure rfl

/-- A component of the grammar, by induction on its tree. -/
theorem carries_component {name : String} (h : Grammar.IsComponent name v) :
    ∀ path w, Rearranged .component v w →
      Carries Eq (component path name v) (component path name w) := by
  induction h with
  | @leaf name fields _ hnone =>
      intro path w hvw
      obtain rfl | ⟨_, fields', ⟨⟩, rfl, hf⟩ := hvw.of_record rfl
      · exact Carries.refl (fun _ => rfl) _
      · have hrel := hf.rel_field? "sub_components"
        refine carries_component_object path name hf ?_
        rw [ownedComponents_eq, ownedComponents_eq]
        rw [hnone] at hrel ⊢
        generalize Value.field? fields' "sub_components" = found' at hrel ⊢
        cases hrel
        exact Carries.refl (fun _ => rfl) _
  | @owner name fields owned _ hsome _ ih =>
      intro path w hvw
      obtain rfl | ⟨_, fields', ⟨⟩, rfl, hf⟩ := hvw.of_record rfl
      · exact Carries.refl (fun _ => rfl) _
      · have hrel := hf.rel_field? "sub_components"
        refine carries_component_object path name hf ?_
        rw [ownedComponents_eq, ownedComponents_eq]
        rw [hsome] at hrel ⊢
        generalize Value.field? fields' "sub_components" = found' at hrel ⊢
        cases hrel with
        | some hv =>
            obtain rfl | ⟨_, owned', ⟨⟩, rfl, hm⟩ := hv.of_table rfl
            · exact Carries.refl (fun _ => rfl) _
            · dsimp only
              rw [ownedTable, ownedTable]
              exact carries_componentList _ hm ih

theorem carries_components (path : Path) (h : Rearranged .components v w) :
    Carries Eq (components path v) (components path w) := by
  intro hc
  obtain ⟨table, rfl, hall⟩ := (clean_components path v).mp hc
  obtain rfl | ⟨_, table', ⟨⟩, rfl, hm⟩ := h.of_table rfl
  · exact ⟨hc, rfl⟩
  · refine carries_object path ?_ hc
    refine (carries_componentList path hm fun e he => ?_).bind_eq fun _ => carries_pure rfl
    exact carries_component (hall e he)

/-! ### Measures -/

/-- The same measures, or measures of distinct categories in another order. -/
def SameMeasures (found found' : List Measure) : Prop :=
  found' = found ∨ (found.map Measure.category).Nodup ∧ found.Perm found'

theorem carries_measure (path : Path) {e e' : String × Value} (h : Role.measures.Moves e e') :
    Carries Eq (measure path e) (measure path e') := by
  obtain ⟨hkey, hv⟩ := h
  unfold measure
  rw [hkey]
  cases MeasureCategory.ofName? e.1 with
  | none => exact Carries.refl (fun _ => rfl) _
  | some category =>
      refine carries_record (fun _ => rfl) _ rfl hv fun body body' hbody => ?_
      refine (carries_collect_ofList (fun e a ha => ?_) hbody fun e e' he => ?_).bind
        fun es es' hes => carries_pure (by rw [hes])
      · unfold override at ha
        cases htarget : HvacModel.Measure.target? category e.1 with
        | none => simp [htarget] at ha
        | some target =>
            rw [htarget] at ha
            exact key_of_entry ha
      · exact carries_of_eq (by rw [he.eq_of_whole rfl])

theorem name_category_of_measure (path : Path) {e : String × Value} {m : Measure}
    (h : (measure path e).value = some m) : m.category.name = e.1 := by
  unfold measure at h
  cases hname : MeasureCategory.ofName? e.1 with
  | none => simp [hname] at h
  | some category =>
      rw [hname] at h
      simp only [value_bind, value_object, value_whenSome, value_pure,
        Option.bind_eq_some_iff, Option.some.injEq] at h
      obtain ⟨body, -, rfl⟩ := h
      exact (category_ofName?_eq_some_iff _ _).mp hname

theorem carries_measures (path : Path) (h : Rearranged .measures v w) :
    Carries (Option.Rel SameMeasures) (measures path v) (measures path w) := by
  refine carries_record ?_ path rfl h fun fields fields' hf => ?_
  · rintro (_ | found)
    · exact .none
    · exact .some (.inl rfl)
  · intro hc
    rw [clean_bind] at hc
    obtain ⟨hclean, hperm⟩ := carries_collect_perm hf (fun _ _ => carries_measure path) hc.1
    have hnames := nodup_collect (fun m : Measure => m.category.name)
      (fun _ _ => name_category_of_measure path) hf.distinct
    refine ⟨(clean_bind _ _).mpr ⟨hclean, clean_pure _⟩, .some (.inr ⟨?_, hperm⟩)⟩
    exact List.Nodup.of_map MeasureCategory.name (by rwa [List.map_map])

/-! ### Documents -/

/-- A document with the same measures up to the order of the categories. -/
def SameDocument (d d' : Document) : Prop :=
  ∃ found, SameMeasures d.measures found ∧ d' = { d with measures := found }

theorem rel_bind_same {S : γ → δ → Prop} (a : Option α) {f : α → Option γ} {g : α → Option δ}
    (hfg : ∀ a, Option.Rel S (f a) (g a)) : Option.Rel S (a.bind f) (a.bind g) := by
  cases a with
  | none => exact .none
  | some a => exact hfg a

theorem carries_unknownSections (h : Reordered role fields fields') :
    Carries Eq (unknownSections fields) (unknownSections fields') := by
  intro hc
  rw [clean_unknownSections] at hc ⊢
  refine ⟨fun e' he' => ?_, rfl⟩
  obtain ⟨e, he, hkey, -⟩ := h.exists_left he'
  exact hkey ▸ hc e he

theorem isSome_field?_eq (h : Reordered role fields fields') (key : String) :
    (Value.field? fields' key).isSome = (Value.field? fields key).isSome := by
  have hrel := h.rel_field? key
  generalize Value.field? fields key = found, Value.field? fields' key = found' at hrel
  cases hrel <;> rfl

theorem missingSections_eq (h : Reordered role fields fields') (names : List String) :
    missingSections fields' names = missingSections fields names := by
  induction names with
  | nil => rfl
  | cons name rest ih => rw [missingSections, missingSections, ih, isSome_field?_eq h]

theorem carries_measuresSection (h : Reordered .document fields fields') :
    Carries (Option.Rel SameMeasures) (measuresSection fields) (measuresSection fields') := by
  unfold measuresSection
  rw [isSome_field?_eq h]
  by_cases hs : (Value.field? fields "measures").isSome
  · rw [if_pos hs, if_pos hs]
    exact carries_optional .none h "measures" fun _ _ => carries_measures _
  · rw [if_neg hs, if_neg hs]
    exact carries_pure (.some (.inl rfl))

theorem carries_document (h : Rearranged .document v w) :
    Carries (Option.Rel SameDocument) (document v) (document w) := by
  refine carries_record ?_ [] rfl h fun fields fields' hf => ?_
  · rintro (_ | d)
    · exact .none
    · exact .some ⟨_, .inl rfl, rfl⟩
  · simp only [ite_bind, measuresSection_eq, missingSections_eq hf]
    refine (carries_unknownSections hf).bind_eq fun _ => ?_
    refine carries_bind_same fun _ => ?_
    refine (carries_measuresSection hf).bind fun measures measures' hmeasures => ?_
    refine (carries_optional rfl hf "hvac" fun v w hvw =>
      carries_table _ rfl hvw fun _ _ => carries_system _).bind_eq fun _ => ?_
    refine (carries_optional rfl hf "hvac_components" fun v w =>
      carries_components _).bind_eq fun _ => ?_
    refine (carries_optional rfl hf "schedules" fun v w hvw =>
      carries_table _ rfl hvw fun _ _ => carries_schedule _).bind_eq fun _ => ?_
    refine (carries_optional rfl hf "construction_sets" fun v w hvw =>
      carries_table _ rfl hvw fun _ _ => carries_constructionSet _).bind_eq fun _ => ?_
    refine (carries_optional rfl hf "space_types" fun v w hvw =>
      carries_table _ rfl hvw fun _ _ => carries_spaceType _).bind_eq fun _ => ?_
    refine (carries_optional rfl hf "run_info" fun v w => carries_runInfo _).bind_eq fun _ => ?_
    refine (carries_optional rfl hf "building_info" fun v w =>
      carries_buildingInfo _).bind_eq fun _ => ?_
    refine carries_pure (hmeasures.bind fun found found' hfound => ?_)
    refine rel_bind_same _ fun _ => rel_bind_same _ fun _ => rel_bind_same _ fun _ => ?_
    refine rel_bind_same _ fun _ => rel_bind_same _ fun _ => rel_bind_same _ fun _ => ?_
    exact rel_bind_same _ fun _ => .some ⟨found', hfound, rfl⟩

/-- A rearranged configuration is read to the same document, up to the order of the measures. -/
theorem read_of_rearranged {d : Document} (h : Rearranged .document v w)
    (hd : Document.read v = .ok d) : ∃ d', Document.read w = .ok d' ∧ SameDocument d d' := by
  obtain ⟨hc, hv⟩ := (read_eq_ok_iff v d).mp hd
  obtain ⟨hc', hrel⟩ := carries_document h hc
  rw [hv] at hrel
  generalize hw : (document w).value = found at hrel
  cases hrel with
  | some hsame => exact ⟨_, (read_eq_ok_iff w _).mpr ⟨hc', hw⟩, hsame⟩

end HvacModel.Document.Read
