import HvacModel.Proofs.Measure.Separate
import HvacModel.Proofs.Model.Compile
import HvacModel.Proofs.Rearrangement.Reading
import HvacModel.Proofs.Schema.Reading

/-! # Compiling rearranged configurations

The order of the categories is the order of the writes of a stage, so it decides which of two writes
to one place is the first one.  Where the writes of a stage agree this makes no difference
(`value_eq_of_hits`): two keys of the tables that reach one attribute of one entity are the same key,
or their values are no numbers (`targets_apart`), and then values that agree are equal.  So conflict-free measures
leave the same skeleton in any order (`applyMeasures_of_perm`), and a rearranged configuration
compiles to the same model (`Value.compile_of_rearranged`). -/

namespace HvacModel

namespace Measure

/-! ### Overrides of one place -/

variable {skeleton : Skeleton} {measures measures' : List Document.Measure}
  {stage : List MeasureCategory}

theorem mem_stageOverrides {o : Override} : o ∈ stageOverrides measures stage ↔
    ∃ m ∈ measures, m.category ∈ stage ∧ o.category = m.category ∧
      m.overrides.find? o.key = some o.value := by
  simp only [stageOverrides, List.mem_flatMap, List.mem_filter, decide_eq_true_eq, List.mem_map,
    NameMap.find?_eq_some_iff_mem]
  constructor
  · rintro ⟨m, ⟨hm, hs⟩, e, he, rfl⟩
    exact ⟨m, hm, hs, rfl, he⟩
  · rintro ⟨m, hm, hs, hcategory, he⟩
    exact ⟨m, ⟨hm, hs⟩, _, he, by rw [← hcategory]⟩

/-- An override that hits a place writes its value there. -/
theorem mem_stageWrites_of_hits (ha : skeleton.components.WellFormed) {o : Override}
    (ho : o ∈ stageOverrides measures stage) {place : Place} (h : o.hits skeleton place = true) :
    ⟨place, o.value, ⟨o.category, o.key⟩⟩ ∈ stageWrites skeleton measures stage := by
  rw [stageWrites_eq, List.mem_flatMap]
  refine ⟨o, ho, ?_⟩
  unfold Override.hits at h
  unfold overrideWrites
  dsimp only
  cases htarget : target? o.category o.key with
  | none => simp [htarget] at h
  | some target =>
      rw [htarget] at h
      obtain ⟨hname, hreaches⟩ := Bool.and_eq_true_iff.mp h
      rw [List.mem_map]
      refine ⟨place.entity, (mem_entities ha target _).mpr hreaches, ?_⟩
      rw [decide_eq_true_eq] at hname
      rw [hname]

/-- Agreeing overrides that hit one place have the same value. -/
theorem value_eq_of_hits (ha : skeleton.components.WellFormed)
    (hn : (measures.map Document.Measure.category).Nodup)
    (hw : ∀ m ∈ measures, Attributes.Within m.category.Declares m.overrides)
    (hagree : (stageWrites skeleton measures stage).Pairwise Write.Agrees) {o o' : Override}
    (ho : o ∈ stageOverrides measures stage) (ho' : o' ∈ stageOverrides measures stage)
    {place : Place} (h : o.hits skeleton place = true) (h' : o'.hits skeleton place = true) :
    o.value = o'.value := by
  have hsame := eq_or_same_of_agrees hagree (mem_stageWrites_of_hits ha ho h)
    (mem_stageWrites_of_hits ha ho' h') rfl
  obtain ⟨m, hm, -, hcategory, hfind⟩ := mem_stageOverrides.mp ho
  obtain ⟨m', hm', -, hcategory', hfind'⟩ := mem_stageOverrides.mp ho'
  obtain ⟨target, htarget, hkind⟩ := hw m hm _ _ hfind
  obtain ⟨target', htarget', -⟩ := hw m' hm' _ _ hfind'
  rw [Override.hits, hcategory, htarget, Bool.and_eq_true, decide_eq_true_eq] at h
  rw [Override.hits, hcategory', htarget', Bool.and_eq_true, decide_eq_true_eq] at h'
  rw [Document.Read.target?_eq_some_iff] at htarget htarget'
  have hapart := targets_apart m.category m'.category _ htarget _ htarget' (h.1.trans h'.1.symm)
  rcases hapart with ⟨hc, hkey⟩ | ⟨-, hnumber⟩ | hscope
  · have hmm : m = m' := List.inj_on_of_nodup_map hn hm hm' hc
    subst hmm
    have hkey : o.key = o'.key := hkey
    rw [hkey, hfind', Option.some.injEq] at hfind
    exact hfind.symm
  · rcases hsame with heq | hsame
    · exact (Write.mk.inj heq).2.1
    · exact AttributeValue.eq_of_same hsame (hkind ▸ hnumber)
  · rw [not_reaches_of_apart hscope h.2] at h'
    cases h'.2

/-! ### Measures in another order -/

theorem stageOverrides_perm (h : measures.Perm measures') (stage : List MeasureCategory) :
    (stageOverrides measures stage).Perm (stageOverrides measures' stage) :=
  (h.filter _).flatMap_right _

theorem stageWrites_perm (h : measures.Perm measures') (stage : List MeasureCategory) :
    (stageWrites skeleton measures stage).Perm (stageWrites skeleton measures' stage) :=
  (h.filter _).flatMap_right _

/-- The first override that hits a place has the same value in any order of the measures. -/
theorem firstWrite?_of_perm (ha : skeleton.components.WellFormed)
    (hn : (measures.map Document.Measure.category).Nodup)
    (hw : ∀ m ∈ measures, Attributes.Within m.category.Declares m.overrides)
    (hagree : (stageWrites skeleton measures stage).Pairwise Write.Agrees)
    (hp : measures.Perm measures') (place : Place) :
    firstWrite? skeleton measures' place stage = firstWrite? skeleton measures place stage := by
  have hmem : ∀ o, o ∈ stageOverrides measures' stage ↔ o ∈ stageOverrides measures stage :=
    fun o => (stageOverrides_perm hp stage).mem_iff.symm
  unfold firstWrite?
  cases hf : (stageOverrides measures stage).find? fun o => o.hits skeleton place with
  | none =>
      rw [List.find?_eq_none] at hf
      have hf' : (stageOverrides measures' stage).find? (fun o => o.hits skeleton place) = none :=
        List.find?_eq_none.mpr fun o ho => hf o ((hmem o).mp ho)
      rw [hf']
  | some o =>
      have ho := List.mem_of_find?_eq_some hf
      have hhits : o.hits skeleton place = true := by simpa using List.find?_some hf
      cases hf' : (stageOverrides measures' stage).find? fun o => o.hits skeleton place with
      | none => exact absurd hhits (List.find?_eq_none.mp hf' o ((hmem o).mpr ho))
      | some o' =>
          have ho' := (hmem o').mp (List.mem_of_find?_eq_some hf')
          have hhits' : o'.hits skeleton place = true := by simpa using List.find?_some hf'
          rw [Option.map_some, Option.map_some,
            value_eq_of_hits ha hn hw hagree ho' ho hhits' hhits]

end Measure

open HvacModel.Measure

/-- Measures without conflicts are applied in any order, with the same result. -/
theorem Skeleton.applyMeasures_of_perm {skeleton : Skeleton} {measures found : List Document.Measure}
    {stages : List (List MeasureCategory)} {applied : Applied}
    (ha : skeleton.components.WellFormed)
    (hw : ∀ m ∈ measures, Attributes.Within m.category.Declares m.overrides)
    (hs : Document.Read.SameMeasures measures found)
    (h : skeleton.applyMeasures measures stages = .ok applied) :
    ∃ applied', skeleton.applyMeasures found stages = .ok applied' ∧
      applied'.skeleton = applied.skeleton := by
  obtain rfl | ⟨hn, hp⟩ := hs
  · exact ⟨applied, h, rfl⟩
  · obtain ⟨hnil, rfl⟩ := (applyMeasures_eq_ok_iff _ _ _ _).mp h
    have hagree := (conflictsFrom_eq_nil_iff skeleton measures 0 stages).mp hnil
    have hnil' : conflictsFrom skeleton found 0 stages = [] :=
      (conflictsFrom_eq_nil_iff skeleton found 0 stages).mpr fun stage hstage =>
        (pairwise_agrees_perm (stageWrites_perm hp stage)).mp (hagree stage hstage)
    refine ⟨_, (applyMeasures_eq_ok_iff _ _ _ _).mpr ⟨hnil', rfl⟩, ?_⟩
    refine writtenSkeleton_congr fun place => ?_
    rw [getLast?_keptWrites ha, getLast?_keptWrites ha, lastWrite?, lastWrite?]
    congr 1
    refine List.filterMap_congr fun stage hstage => ?_
    exact firstWrite?_of_perm ha hn hw (hagree stage hstage) hp place

/-! ### Models -/

/-- The measures of a document in another order give the same model. -/
theorem Document.compile_of_sameDocument {d d' : Document} {stages : List (List MeasureCategory)}
    {c : Compiled} (hw : d.WithinSchema) (hs : Read.SameDocument d d')
    (h : d.compile stages = .ok c) :
    ∃ c', d'.compile stages = .ok c' ∧ c'.model = c.model := by
  obtain ⟨found, hfound, rfl⟩ := hs
  obtain ⟨skeleton, applied, schedules, hstages, rfl⟩ := (compile_eq_ok_iff d stages c).mp h
  have ha := ((resolve_eq_ok_iff d skeleton).mp hstages.resolved).wellFormed
  obtain ⟨applied', happlied, hskeleton⟩ :=
    Skeleton.applyMeasures_of_perm ha hw.measures hfound hstages.applied
  refine ⟨_, (compile_eq_ok_iff _ stages _).mpr ⟨skeleton, applied', schedules,
    ⟨hstages.resolved, hstages.topology, happlied, hstages.schedules⟩, rfl⟩, ?_⟩
  simp only [Compiled.assemble, hskeleton]

/-- The order of the entries of records has no influence on the model: a configuration with the
entries of its records in another order, at any depth, compiles to the same model, with the same
fingerprint. -/
theorem Value.compile_of_rearranged (v w : Value) (stages : List (List MeasureCategory))
    (c : Compiled) (h : Rearranged .document v w) (hc : v.compile stages = .ok c) :
    ∃ c', w.compile stages = .ok c' ∧ c'.model = c.model ∧
      c'.model.fingerprint = c.model.fingerprint := by
  obtain ⟨d, hd, hcompile⟩ := (Value.compile_eq_ok_iff v stages c).mp hc
  obtain ⟨d', hd', hsame⟩ := Document.Read.read_of_rearranged h hd
  obtain ⟨c', hc', hmodel⟩ :=
    Document.compile_of_sameDocument (Document.withinSchema_of_read hd) hsame hcompile
  exact ⟨c', (Value.compile_eq_ok_iff w stages c').mpr ⟨d', hd', hc'⟩, hmodel, by rw [hmodel]⟩

def shedFan : List (String × Value) :=
  [("idd_object_type", .string "FanVariableVolume"),
    ("component_values", .object [("fan_efficiency", .number (.int 1))])]

/-- Two categories that write one attribute of the air loop. -/
def shedMeasures : List (String × Value) :=
  [("hvac_controls", .object [("has_dcv", .bool true), ("cooling_setpoint", .number (.int 24))]),
    ("hvac_equipment", .object [("has_dcv", .bool true)])]

/-- The sections of a shed with one fan. -/
def shedSections (measures fan : List (String × Value)) : List (String × Value) :=
  [("measures", .object measures), ("hvac", Grammar.airSystem [] (.string "fan")),
    ("hvac_components", .object [("fan", .object fan),
      ("box", .object [("idd_object_type", .string "AirTerminalSingleDuctVAVReheat")])]),
    ("schedules", .object [])] ++ Grammar.buildingSections "Shed" "vav" [] []

/-- The shed. -/
def shed : Value := .object (shedSections shedMeasures shedFan)

/-- The shed with its sections, its measures and the fields of its fan in the opposite order. -/
def shedBackwards : Value :=
  .object (shedSections shedMeasures.reverse shedFan.reverse).reverse

theorem rearranged_shed : Rearranged .document shed shedBackwards := by
  have hmeasures : Rearranged .measures (.object shedMeasures) (.object shedMeasures.reverse) :=
    .record rfl (by decide) (List.reverse_perm _).symm
      (.cons (.same _ _) (.cons (.same _ _) (.nil _)))
  have hfan : Rearranged .component (.object shedFan) (.object shedFan.reverse) :=
    .record rfl (by decide) (List.reverse_perm _).symm
      (.cons (.same _ _) (.cons (.same _ _) (.nil _)))
  refine .record rfl (by decide) (List.reverse_perm _).symm ?_
  refine .cons (.same _ _) (.cons (.same _ _) (.cons (.same _ _) (.cons (.same _ _) (.cons (.same _ _)
    (.cons ?_ (.cons (.same _ _) (.cons hmeasures (.nil _))))))))
  exact .table rfl (.cons hfan (.cons (.same _ _) (.nil _)))

/-- Both categories in one stage, in either order. -/
theorem compile_shedBackwards :
    ∃ c c', shed.compile [[.hvacControls, .hvacEquipment]] = .ok c ∧
      shedBackwards.compile [[.hvacControls, .hvacEquipment]] = .ok c' ∧ c'.model = c.model := by
  obtain ⟨c, hc⟩ : ∃ c, shed.compile [[.hvacControls, .hvacEquipment]] = .ok c := ⟨_, rfl⟩
  obtain ⟨c', hc', hmodel, -⟩ :=
    Value.compile_of_rearranged shed shedBackwards _ c rearranged_shed hc
  exact ⟨c, c', hc, hc', hmodel⟩

end HvacModel
