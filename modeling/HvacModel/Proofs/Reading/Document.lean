import HvacModel.Proofs.Reading.Systems
import HvacModel.Proofs.Reading.Components
import HvacModel.Proofs.Reading.Schedules
import HvacModel.Proofs.Reading.Records
import HvacModel.Document.Read

/-! # Reading documents

A raw value is read into a document exactly when it is a configuration of the grammar
(`Document.exists_read_eq_ok_iff`).  One direction says that nothing outside the grammar slips
through; the other that no configuration is refused, which needs that no reader leaves a part out
without an issue. -/

namespace HvacModel.Document

open Report Grammar Read

namespace Read

/-! ### Sections -/

theorem has_iff (fields : Fields) (key : String) (P : Value → Prop) :
    Has fields key P ↔ (Value.field? fields key).isSome ∧ MayHave fields key P := by
  unfold Has MayHave
  cases Value.field? fields key with
  | none => simp
  | some value => simp

theorem clean_unknownSections (fields : Fields) :
    (unknownSections fields).Clean ↔ Only sections fields := by
  induction fields with
  | nil => simp [unknownSections, Only]
  | cons e rest ih =>
      obtain ⟨key, value⟩ := e
      by_cases h : key ∈ sections
      · simpa [unknownSections, Only, h] using ih
      · simp [unknownSections, Only, h]

theorem clean_missingSections (fields : Fields) (names : List String) :
    (missingSections fields names).Clean ↔
      ∀ name ∈ names, (Value.field? fields name).isSome := by
  induction names with
  | nil => simp [missingSections]
  | cons name rest ih =>
      by_cases h : (Value.field? fields name).isSome
      · simp [missingSections, h, ih]
      · simp [missingSections, h]

theorem clean_sectionIn {α : Type} (fields : Fields) (name : String)
    (read : Path → Value → Reading (Option α)) :
    (sectionIn fields name read).Clean ↔
      MayHave fields name fun value => (read [.key name] value).Clean := clean_optional _ _ _

/-- The measures; there are none where the section is missing. -/
def measuresSection (fields : Fields) : Reading (Option (List Measure)) :=
  if (Value.field? fields "measures").isSome then sectionIn fields "measures" measures
  else pure (some [])

theorem measuresSection_eq (fields : Fields) :
    (if (Value.field? fields "measures").isSome then sectionIn fields "measures" measures
      else pure (some [])) = measuresSection fields := rfl

theorem clean_measuresSection (fields : Fields) :
    (measuresSection fields).Clean ↔ MayHave fields "measures" (IsTable IsMeasure) := by
  unfold measuresSection
  by_cases h : (Value.field? fields "measures").isSome
  · rw [if_pos h, clean_sectionIn]
    simp only [clean_measures]
  · rw [if_neg h, iff_true_left (clean_pure _)]
    intro value hv
    simp [hv] at h

theorem clean_document (value : Value) : (document value).Clean ↔ IsDocument value := by
  unfold document IsDocument
  rw [clean_object_bind]
  simp only [ite_bind, has_iff]
  simp only [clean_bind, clean_unknownSections, clean_missingSections, measuresSection_eq,
    clean_measuresSection, clean_sectionIn, clean_systems, clean_components, clean_schedules,
    clean_constructionSets, clean_spaceTypes, clean_runInfo, clean_buildingInfo, clean_pure,
    and_true, requiredSections, sections, List.drop_succ_cons, List.drop_zero,
    List.forall_mem_cons, List.not_mem_nil, false_imp_iff, implies_true]
  refine exists_congr fun fields => and_congr_right fun _ => ?_
  dsimp only
  tauto

/-! ### Presence -/

/-- A section that is there is read to something if its reader makes something of it. -/
theorem value_sectionIn_isSome {α : Type} {fields : Fields} {name : String} {P : Value → Prop}
    {read : Path → Value → Reading (Option α)} (h : Has fields name P)
    (hread : ∀ value, P value → (read [.key name] value).value.isSome) :
    (sectionIn fields name read).value.isSome := by
  obtain ⟨value, hf, hp⟩ := h
  rw [sectionIn, hf]
  exact hread value hp

theorem value_measuresSection_isSome {fields : Fields}
    (h : MayHave fields "measures" (IsTable IsMeasure)) :
    (measuresSection fields).value.isSome := by
  unfold measuresSection
  by_cases hf : (Value.field? fields "measures").isSome
  · rw [if_pos hf]
    refine value_sectionIn_isSome ((has_iff _ _ _).mpr ⟨hf, h⟩) ?_
    rintro _ ⟨table, rfl, -⟩
    rfl
  · rw [if_neg hf]
    rfl

/-- Something is made of every configuration. -/
theorem value_document_isSome {value : Value} (h : IsDocument value) :
    (document value).value.isSome := by
  obtain ⟨fields, rfl, -, hm, hs, hc, hd, hcs, hst, hr, hb⟩ := h
  have hm := value_measuresSection_isSome hm
  have hs : (sectionIn fields "hvac" systems).value.isSome :=
    value_sectionIn_isSome hs (by rintro _ ⟨table, rfl, -⟩; rfl)
  have hc : (sectionIn fields "hvac_components" components).value.isSome :=
    value_sectionIn_isSome hc (by rintro _ ⟨table, rfl, -⟩; rfl)
  have hd : (sectionIn fields "schedules" schedules).value.isSome :=
    value_sectionIn_isSome hd (by rintro _ ⟨table, rfl, -⟩; rfl)
  have hcs : (sectionIn fields "construction_sets" constructionSets).value.isSome :=
    value_sectionIn_isSome hcs (by rintro _ ⟨table, rfl, -⟩; rfl)
  have hst : (sectionIn fields "space_types" spaceTypes).value.isSome :=
    value_sectionIn_isSome hst (by rintro _ ⟨table, rfl, -⟩; rfl)
  have hr : (sectionIn fields "run_info" runInfo).value.isSome :=
    value_sectionIn_isSome hr fun _ => value_runInfo_isSome _
  have hb : (sectionIn fields "building_info" buildingInfo).value.isSome :=
    value_sectionIn_isSome hb fun _ => value_buildingInfo_isSome _
  rw [Option.isSome_iff_exists] at hm hs hc hd hcs hst hr hb
  obtain ⟨m, hm⟩ := hm
  obtain ⟨s, hs⟩ := hs
  obtain ⟨c, hc⟩ := hc
  obtain ⟨d, hd⟩ := hd
  obtain ⟨cs, hcs⟩ := hcs
  obtain ⟨st, hst⟩ := hst
  obtain ⟨r, hr⟩ := hr
  obtain ⟨b, hb⟩ := hb
  unfold document
  simp only [ite_bind, measuresSection_eq, value_bind, value_object, value_whenSome, Value.fields?,
    Option.bind_some, hm, hs, hc, hd, hcs, hst, hr, hb, value_pure]
  rfl

end Read

/-! ### Documents -/

/-- A value is read when nothing is found in it and something is made of it. -/
theorem read_eq_ok_iff (value : Value) (d : Document) :
    Document.read value = .ok d ↔
      (document value).Clean ∧ (document value).value = some d := by
  rw [← accepted_iff (document value) d, Document.read]
  cases (document value).value <;> rfl

/-- The sections of a raw value that the parts of a document are read from. -/
structure IsReadFrom (d : Document) (root : Fields) : Prop where
  measures : (measuresSection root).value = some d.measures
  systems : (sectionIn root "hvac" Read.systems).value = some d.systems
  components : (sectionIn root "hvac_components" Read.components).value = some d.components
  schedules : (sectionIn root "schedules" Read.schedules).value = some d.schedules
  constructionSets :
    (sectionIn root "construction_sets" Read.constructionSets).value = some d.constructionSets
  spaceTypes : (sectionIn root "space_types" Read.spaceTypes).value = some d.spaceTypes
  runInfo : (sectionIn root "run_info" Read.runInfo).value = some d.runInfo
  buildingInfo : (sectionIn root "building_info" Read.buildingInfo).value = some d.buildingInfo

theorem isReadFrom_of_read {value : Value} {d : Document} (h : Document.read value = .ok d) :
    ∃ root, value = .object root ∧ IsDocument value ∧ d.IsReadFrom root := by
  obtain ⟨hc, hv⟩ := (read_eq_ok_iff value d).mp h
  rw [clean_document] at hc
  obtain ⟨root, rfl, hroot⟩ := hc
  refine ⟨root, rfl, ⟨root, rfl, hroot⟩, ?_⟩
  unfold document at hv
  simp only [ite_bind, measuresSection_eq, value_bind, value_object, value_whenSome, Value.fields?,
    Option.bind_some, value_pure, Option.bind_eq_bind, Option.bind_eq_some_iff,
    Option.some.injEq] at hv
  obtain ⟨m, hm, s, hs, c, hc, sch, hsch, cs, hcs, st, hst, r, hr, b, hb, rfl⟩ := hv
  exact ⟨hm, hs, hc, hsch, hcs, hst, hr, hb⟩

/-- The values that are read are the configurations of the grammar. -/
theorem exists_read_eq_ok_iff (value : Value) :
    (∃ d, Document.read value = .ok d) ↔ IsDocument value := by
  simp only [read_eq_ok_iff, exists_and_left, ← Option.isSome_iff_exists, clean_document]
  exact ⟨And.left, fun h => ⟨h, value_document_isSome h⟩⟩

end HvacModel.Document
