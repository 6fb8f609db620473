import HvacModel.Proofs.Measure.Separate
import HvacModel.Proofs.Skeleton.Errors
import HvacModel.Proofs.Transcript.Names

/-! # Where categories overlap

Keys of different categories that reach a common entity and write the same attribute of it write one
of two attributes of an air loop (`targets_shared`).  Writes of a stage to one place come from
different categories when no two measures are of one category, which a document that is read makes
sure of.  So its measures can be in conflict only there, in a stage that holds both categories
(`Document.conflicts_of_read`), and never in stages that each hold one. -/

namespace HvacModel

open HvacModel.Measure

/-- The attributes of air loops that both categories of measures write. -/
def Measure.sharedNames : List String := ["has_dcv", "night_cycle"]

/-- A conflict in a stage of both categories, between the two, on an attribute of an air loop that
both write. -/
structure Measure.Conflict.BetweenCategories (skeleton : Skeleton)
    (stages : List (List MeasureCategory)) (k : Conflict) : Prop where
  place : k.second.place = k.first.place
  airLoop : ∃ system index l, k.first.place.entity = .airLoop system index ∧
    (skeleton.systems[system]?.bind fun s => s.airLoops[index]?) = some l ∧
    k.entity = "air loop '" ++ l.name ++ "'"
  name : k.first.place.name ∈ sharedNames
  stage : ∃ stage, stages[k.stage]? = some stage ∧ .hvacControls ∈ stage ∧ .hvacEquipment ∈ stage
  sources : (k.first.source.category, k.second.source.category) ∈
    [(MeasureCategory.hvacControls, MeasureCategory.hvacEquipment),
      (MeasureCategory.hvacEquipment, MeasureCategory.hvacControls)]

namespace Measure

variable {skeleton : Skeleton}

/-- Keys of different categories that write one attribute reach no common entity, or both write a
shared attribute of air loops. -/
theorem targets_shared {c c' : MeasureCategory} (hne : c ≠ c') :
    ∀ e ∈ targets c, ∀ e' ∈ targets c', e.2.name = e'.2.name →
      e.2.scope.apart e'.2.scope = true ∨ (e.2.scope = .airLoops ∧ e.2.name ∈ sharedNames) := by
  cases c <;> cases c'
  · exact absurd rfl hne
  · decide
  · decide
  · exact absurd rfl hne

/-- A target on air loops reaches nothing but air loops that are there. -/
theorem exists_airLoop_of_reaches {target : Target} {e : Entity} (hs : target.scope = .airLoops)
    (h : target.reaches skeleton e = true) : ∃ system index l, e = .airLoop system index ∧
      (skeleton.systems[system]?.bind fun s => s.airLoops[index]?) = some l := by
  unfold Target.reaches at h
  cases e with
  | component id => simp [hs] at h
  | airLoop system index =>
      rw [hs] at h
      obtain ⟨l, hl⟩ := Option.isSome_iff_exists.mp h
      exact ⟨system, index, l, rfl, hl⟩

/-- Where two categories write one place of a stage, it is a shared attribute of an air loop. -/
theorem exists_airLoop_of_place_eq (ha : skeleton.components.WellFormed)
    {measures : List Document.Measure} {stage : List MeasureCategory} {v w : Write}
    (hv : v ∈ stageWrites skeleton measures stage) (hw : w ∈ stageWrites skeleton measures stage)
    (hplace : v.place = w.place) (hne : v.source.category ≠ w.source.category) :
    v.place.name ∈ sharedNames ∧ ∃ system index l, v.place.entity = .airLoop system index ∧
      (skeleton.systems[system]?.bind fun s => s.airLoops[index]?) = some l := by
  obtain ⟨-, s, hs, hsname, hsreach⟩ := mem_stageWrites ha hv
  obtain ⟨-, t, ht, htname, htreach⟩ := mem_stageWrites ha hw
  rw [← hplace] at htname htreach
  rw [Document.Read.target?_eq_some_iff] at hs ht
  rcases targets_shared hne _ hs _ ht (hsname.symm.trans htname) with hapart | ⟨hscope, hname⟩
  · rw [not_reaches_of_apart hapart hsreach] at htreach
    cases htreach
  · exact ⟨hsname ▸ hname, exists_airLoop_of_reaches hscope hsreach⟩

/-- A conflict is between two writes of one of the stages to one place, the first one in front. -/
theorem exists_stage_of_mem_conflicts {measures : List Document.Measure}
    {stages : List (List MeasureCategory)} {k : Conflict}
    (hk : k ∈ skeleton.conflicts measures stages) :
    ∃ stage before after, stages[k.stage]? = some stage ∧ k.first ∈ before ∧
      stageWrites skeleton measures stage = before ++ k.second :: after ∧
      k.first.place = k.second.place ∧ k.entity = k.first.place.entity.describe skeleton := by
  obtain ⟨⟨stage, number⟩, hstage, hk⟩ := List.mem_flatMap.mp hk
  obtain ⟨⟨first, second⟩, hpair, rfl⟩ := List.mem_map.mp hk
  obtain ⟨⟨before, w⟩, hsplit, hpair⟩ := List.mem_filterMap.mp hpair
  obtain ⟨front, after, hbefore, heq⟩ := mem_splitsFrom_iff.mp hsplit
  obtain ⟨found, hfound, hdisagree⟩ := Option.bind_eq_some_iff.mp hpair
  split at hdisagree
  · cases hdisagree
  · cases hdisagree
    rw [List.nil_append] at hbefore
    rw [← hbefore] at heq
    refine ⟨stage, before, after, List.mk_mem_zipIdx_iff_getElem?.mp hstage,
      List.mem_of_find?_eq_some hfound, heq, ?_, rfl⟩
    simpa using List.find?_some hfound

/-- Measures of different categories are in conflict only where the categories overlap. -/
theorem betweenCategories_of_mem_conflicts (ha : skeleton.components.WellFormed)
    {measures : List Document.Measure} (hm : (measures.map Document.Measure.category).Nodup)
    {stages : List (List MeasureCategory)} {k : Conflict}
    (hk : k ∈ skeleton.conflicts measures stages) : k.BetweenCategories skeleton stages := by
  obtain ⟨stage, before, after, hstage, hmem, heq, hplace, hentity⟩ :=
    exists_stage_of_mem_conflicts hk
  have hfirst : k.first ∈ stageWrites skeleton measures stage := by simp [heq, hmem]
  have hsecond : k.second ∈ stageWrites skeleton measures stage := by simp [heq]
  have hne : k.first.source.category ≠ k.second.source.category := by
    have hpairwise := pairwise_stageWrites ha hm stage
    rw [heq] at hpairwise
    exact (List.pairwise_append.mp hpairwise).2.2 _ hmem _ List.mem_cons_self hplace
  obtain ⟨hname, system, index, l, hairLoop, hl⟩ :=
    exists_airLoop_of_place_eq ha hfirst hsecond hplace hne
  have hsources : (k.first.source.category, k.second.source.category) ∈
      [(MeasureCategory.hvacControls, MeasureCategory.hvacEquipment),
        (MeasureCategory.hvacEquipment, MeasureCategory.hvacControls)] := by
    revert hne
    cases k.first.source.category <;> cases k.second.source.category <;> decide
  have hboth : MeasureCategory.hvacControls ∈ stage ∧ MeasureCategory.hvacEquipment ∈ stage := by
    have hfirst := (mem_stageWrites ha hfirst).1
    have hsecond := (mem_stageWrites ha hsecond).1
    rw [List.mem_pair, Prod.mk.injEq, Prod.mk.injEq] at hsources
    rcases hsources with ⟨hc, he⟩ | ⟨he, hc⟩
    · exact ⟨hc ▸ hfirst, he ▸ hsecond⟩
    · exact ⟨hc ▸ hsecond, he ▸ hfirst⟩
  refine ⟨hplace.symm, ⟨system, index, l, hairLoop, hl, ?_⟩, hname, ⟨stage, hstage, hboth⟩,
    hsources⟩
  rw [hentity, hairLoop, Entity.describe, hl]
  rfl

end Measure

/-- The measures of a document that is read are in conflict only where the categories overlap, and
never where each stage holds one category.  A raw value repeats no key in an object, as no value of
a text does (`ConfigFile.distinctKeys_of_readValue`). -/
theorem Document.conflicts_of_read (v : Value) (hv : v.distinctKeys = true) (d : Document)
    (h : Document.read v = .ok d) (d' : Document) (skeleton : Skeleton)
    (hs : d'.resolve = .ok skeleton) (stages : List (List MeasureCategory)) :
    (∀ conflicts, skeleton.applyMeasures d.measures stages = .error conflicts →
      ∀ k ∈ conflicts, k.BetweenCategories skeleton stages) ∧
    ((∀ stage ∈ stages, ∀ c ∈ stage, ∀ c' ∈ stage, c = c') →
      ∃ applied, skeleton.applyMeasures d.measures stages = .ok applied) ∧
    ∃ applied, skeleton.applyMeasures d.measures defaultStages = .ok applied := by
  have ha := ((Document.resolve_eq_ok_iff d' skeleton).mp hs).wellFormed
  have hm := nodup_categories_of_read hv h
  have hsingle : ∀ stages : List (List MeasureCategory),
      (∀ stage ∈ stages, ∀ c ∈ stage, ∀ c' ∈ stage, c = c') →
        ∃ applied, skeleton.applyMeasures d.measures stages = .ok applied := by
    intro stages hstages
    exact ⟨_, (skeleton.applyMeasures_eq_ok_iff _ _ _).mpr
      ⟨conflictsFrom_eq_nil_of_single ha hm 0 hstages, rfl⟩⟩
  refine ⟨fun conflicts hc k hk => ?_, hsingle stages, hsingle defaultStages (by decide)⟩
  obtain ⟨rfl, -⟩ := ((skeleton.failsWith_applyMeasures d.measures stages).eq_error_iff _).mp hc
  exact betweenCategories_of_mem_conflicts ha hm hk

/-- A clinic with one air loop, on which its measures do not agree. -/
def disputedClinic : Value :=
  .object
    ([("measures", .object
        [("hvac_controls", .object [("has_dcv", .bool true)]),
          ("hvac_equipment", .object [("has_dcv", .bool false)])]),
      ("hvac", Grammar.airSystem [] (.string "fan")),
      ("hvac_components", .object
        [("fan", .object [("idd_object_type", .string "FanVariableVolume")]),
          ("box", .object [("idd_object_type", .string "AirTerminalSingleDuctVAVReheat")])]),
      ("schedules", .object [])] ++ Grammar.buildingSections "Clinic" "vav" [] [])

/-- In one stage the measures are in conflict, on an attribute of the air loop; in stages of their
own they are not. -/
theorem conflicts_disputedClinic :
    ∃ d skeleton k, Document.read disputedClinic = .ok d ∧ d.resolve = .ok skeleton ∧
      skeleton.applyMeasures d.measures [[.hvacControls, .hvacEquipment]] = .error [k] ∧
      k.entity = "air loop 'air'" ∧
      k.BetweenCategories skeleton [[.hvacControls, .hvacEquipment]] ∧
      ∃ applied, skeleton.applyMeasures d.measures defaultStages = .ok applied := by
  obtain ⟨d, hd⟩ : ∃ d, Document.read disputedClinic = .ok d := ⟨_, rfl⟩
  obtain ⟨skeleton, hs⟩ : ∃ skeleton, d.resolve = .ok skeleton := by
    cases hd
    exact ⟨_, rfl⟩
  obtain ⟨k, hk, hentity⟩ : ∃ k, skeleton.applyMeasures d.measures
      [[.hvacControls, .hvacEquipment]] = .error [k] ∧ k.entity = "air loop 'air'" := by
    cases hd
    cases hs
    exact ⟨_, rfl, rfl⟩
  obtain ⟨hconflicts, -, happlied⟩ := Document.conflicts_of_read disputedClinic (by decide) d hd d
    skeleton hs [[.hvacControls, .hvacEquipment]]
  exact ⟨d, skeleton, k, hd, hs, hk, hentity, hconflicts _ hk k List.mem_cons_self, happlied⟩

end HvacModel
