import HvacModel.Proofs.Skeleton.Reference
import HvacModel.Proofs.Skeleton.Resolve

/-! # The errors of a resolution

Resolving a document finds its faults, each once and in the order of the document
(`Skeleton.findings_ofDocument`): every step of the resolution finds the errors of the references
that it looks up, and steps that follow each other concatenate them.  So a document has a skeleton
exactly when it has no fault, and its errors are its faults otherwise (`Document.resolve_exact`). -/

namespace HvacModel

open Report

variable {α β : Type}

/-! ### Refused definitions -/

namespace Arena

/-- No definition is refused when each is accepted after those before it. -/
theorem refusals_eq_nil_iff (calls : List Document.Component) :
    refusals calls = [] ↔ ∀ before c rest, calls = before ++ c :: rest →
      ∃ b id, (after before).add c = .ok (b, id) := by
  have hrefusal : ∀ before c, refusal? before c = none ↔
      ∃ b id, (after before).add c = .ok (b, id) := by
    intro before c
    unfold refusal?
    cases (after before).add c with
    | ok added =>
        obtain ⟨b, id⟩ := added
        simp
    | error error => simp
  simp only [refusals, List.filterMap_eq_nil_iff, mem_splitsFrom_iff, List.nil_append, hrefusal]
  constructor
  · intro h before c rest heq
    exact h (before, c) ⟨before, rest, rfl, heq⟩
  · rintro h ⟨before, c⟩ ⟨front, rest, rfl, heq⟩
    exact h _ c rest heq

theorem findings_addComponents (before calls : List Document.Component) :
    (Skeleton.addComponents (after before) calls).findings =
      ((splitsFrom before calls).filterMap fun s => refusal? s.1 s.2).map .duplicate := by
  induction calls generalizing before with
  | nil => rfl
  | cons c rest ih =>
      have hnext := value_addComponents_append .empty before [c]
      rw [← after, ← after, Skeleton.addComponents] at hnext
      have hrest := ih (before ++ [c])
      rw [Skeleton.addComponents, splitsFrom, List.filterMap_cons, refusal?]
      cases hadd : (after before).add c with
      | ok added =>
          rw [hadd] at hnext
          rw [hnext] at hrest
          exact hrest
      | error error =>
          rw [hadd] at hnext
          rw [hnext] at hrest
          simp only [findings_bind]
          exact congrArg (.duplicate error :: ·) hrest

end Arena

/-! ### References -/

namespace Document

variable (d : Document)

theorem dangling_append (r s : List Reference) :
    d.dangling (r ++ s) = d.dangling r ++ d.dangling s := by
  rw [dangling, List.filter_append, List.map_append]
  rfl

theorem dangling_flatMap (f : α → List Reference) (list : List α) :
    d.dangling (list.flatMap f) = list.flatMap fun a => d.dangling (f a) := by
  induction list with
  | nil => rfl
  | cons a rest ih => rw [List.flatMap_cons, dangling_append, ih, List.flatMap_cons]

theorem dangling_eq_nil_iff (r : List Reference) :
    d.dangling r = [] ↔ ∀ s ∈ r, d.leads s = true := by
  rw [dangling, List.map_eq_nil_iff, List.filter_eq_nil_iff]
  simp

end Document

namespace Skeleton

variable (d : Document)

/-- A lookup finds the error of the reference that it looks up. -/
theorem findings_found {site : ReferenceSite} {scope : Document.Scope} {name : String}
    {result : Option α} (h : d.leads ⟨site, scope, name⟩ = result.isSome) :
    (found site name result).findings = d.dangling [⟨site, scope, name⟩] := by
  rw [Document.dangling]
  cases result with
  | none =>
      rw [List.filter_cons_of_pos (by simp [h])]
      rfl
  | some a =>
      rw [List.filter_cons_of_neg (by simp [h])]
      rfl

theorem findings_componentList (site : ReferenceSite) (names : List String) :
    (componentList (Arena.after d.components) site names).findings =
      d.dangling (Document.componentReferences site names) := by
  rw [componentList, findings_collect, Document.componentReferences, List.map_eq_flatMap,
    Document.dangling_flatMap]
  refine congrArg (names.flatMap ·) (funext fun name => ?_)
  exact findings_found d rfl

theorem findings_eachFrom {step : Nat → α → Resolving β} {errors : α → List ResolveError}
    (h : ∀ i a, (step i a).findings = errors a) (first : Nat) (list : List α) :
    (eachFrom step first list).findings = list.flatMap errors := by
  induction list generalizing first with
  | nil => rfl
  | cons a rest ih =>
      simp only [eachFrom, findings_bind, findings_pure, h, ih, List.append_nil,
        List.flatMap_cons]

theorem findings_airLoop (attributes : Attributes) (id : Nat) (l : Document.AirLoop) :
    (airLoop (Arena.after d.components) attributes id l).findings = d.dangling l.references := by
  simp only [airLoop, findings_bind, findings_pure, findings_each, findings_componentList,
    List.append_nil, Document.AirLoop.references, Document.dangling_append,
    Document.dangling_flatMap]

theorem findings_plantLoop (id : Nat) (l : Document.PlantLoop) :
    (plantLoop (Arena.after d.components) id l).findings = d.dangling l.references := by
  simp only [plantLoop, findings_bind, findings_pure, findings_componentList, List.append_nil,
    Document.PlantLoop.references, Document.dangling_append, List.append_assoc]

theorem findings_system (index firstLoop : Nat) (s : Document.System) :
    (system (Arena.after d.components) (scheduleIndex d) index firstLoop s).findings =
      d.dangling s.references := by
  have hschedule : ∀ name, (found (.availabilitySchedule s.name) name
      ((scheduleIndex d).find? name)).findings =
        d.dangling [⟨.availabilitySchedule s.name, .schedules, name⟩] := fun name =>
    findings_found d (NameIndex.isSome_find?_ofNames _ name).symm
  simp only [system, findings_bind, findings_pure, findings_whenSome, hschedule,
    findings_eachFrom (findings_airLoop d s.attributes), findings_eachFrom (findings_plantLoop d),
    List.append_nil, Document.System.references, Document.dangling_append,
    Document.dangling_flatMap, List.map_eq_flatMap, List.append_assoc]

theorem findings_systemsFrom (index firstLoop : Nat) (systems : List Document.System) :
    (systemsFrom (Arena.after d.components) (scheduleIndex d) index firstLoop systems).findings =
      d.dangling (systems.flatMap Document.System.references) := by
  induction systems generalizing index firstLoop with
  | nil => rfl
  | cons s rest ih =>
      simp only [systemsFrom, findings_bind, findings_pure, findings_system, ih, List.append_nil,
        List.flatMap_cons, Document.dangling_append]

theorem findings_ruleDay (s : Document.Schedule) (r : Document.Rule) :
    (ruleDay s r).findings = d.dangling (r.references s) := by
  unfold ruleDay Document.Rule.references
  cases r.day with
  | inline index => rfl
  | named key => exact findings_found d rfl

theorem findings_scheduleLinks (index : Nat) (s : Document.Schedule) :
    (scheduleLinks index s).findings = d.dangling s.references := by
  simp only [scheduleLinks, findings_bind, findings_pure, findings_collect, findings_ruleDay d,
    List.append_nil, Document.Schedule.references, Document.dangling_flatMap]

theorem findings_buildingLinks :
    (buildingLinks (spaceTypeIndex d) (constructionIndex d) (systemIndex d)
      d.buildingInfo).findings = d.dangling d.buildingInfo.references := by
  have hspace := @findings_found (Handle .spaceType) d .spaceType .spaceTypes _ _
    (NameIndex.isSome_find?_ofNames _ d.buildingInfo.spaceType).symm
  have hset := @findings_found (Handle .constructionSet) d .constructionSet .constructionSets _ _
    (NameIndex.isSome_find?_ofNames _ d.buildingInfo.constructionSet).symm
  have hsystem := @findings_found (Handle .system) d .hvacSystem .systems _ _
    (NameIndex.isSome_find?_ofNames _ d.buildingInfo.hvacSystem).symm
  have hsplit : d.buildingInfo.references =
      [⟨.spaceType, .spaceTypes, d.buildingInfo.spaceType⟩] ++
        ([⟨.constructionSet, .constructionSets, d.buildingInfo.constructionSet⟩] ++
          [⟨.hvacSystem, .systems, d.buildingInfo.hvacSystem⟩]) := rfl
  rw [hsplit, Document.dangling_append, Document.dangling_append, ← hspace, ← hset, ← hsystem]
  simp only [buildingLinks, findings_bind, findings_pure, List.append_nil]
  rfl

theorem findings_table {entity : Entity} (scope : String) (names : List String) :
    (table scope names : Resolving (NameIndex entity)).findings =
      Document.repeatedIn scope names := by
  rw [table, Document.repeatedIn, ← @NameIndex.ofNames_snd entity]

/-- A resolution finds the faults of its document, in their order. -/
theorem findings_ofDocument : (ofDocument d).findings = d.failures := by
  have hcomponents : (addComponents .empty d.components).findings =
      (Arena.refusals d.components).map .duplicate := Arena.findings_addComponents [] d.components
  have hsystems : (systemsFrom (addComponents .empty d.components).value
      (table "schedules" (d.schedules.map Document.Schedule.key)).value 0 0 d.systems).findings =
        d.dangling (d.systems.flatMap Document.System.references) :=
    findings_systemsFrom d 0 0 d.systems
  have hschedules : (eachFrom scheduleLinks 0 d.schedules).findings =
      d.dangling (d.schedules.flatMap Document.Schedule.references) := by
    rw [Document.dangling_flatMap]
    exact findings_eachFrom (findings_scheduleLinks d) 0 d.schedules
  have hbuilding : (buildingLinks
      (table "space_types" (d.spaceTypes.map Document.SpaceType.name)).value
      (table "construction_sets" (d.constructionSets.map Document.ConstructionSet.name)).value
      (table "hvac" (d.systems.map Document.System.name)).value d.buildingInfo).findings =
        d.dangling d.buildingInfo.references := findings_buildingLinks d
  simp only [ofDocument, findings_bind, findings_pure, List.append_nil, findings_table,
    hcomponents, hsystems, hschedules, hbuilding, Document.failures, Document.references,
    Document.dangling_append, List.append_assoc]

/-- A document without faults has a skeleton. -/
theorem exists_value_of_clean (h : (ofDocument d).Clean) : ∃ s, (ofDocument d).value = some s := by
  simp only [ofDocument, clean_bind, clean_pure, and_true] at h
  obtain ⟨-, -, -, -, -, -, -, hbuilding⟩ := h
  simp only [buildingLinks, clean_bind, clean_pure, and_true, clean_found] at hbuilding
  obtain ⟨⟨space, hspace⟩, ⟨set, hset⟩, ⟨system, hsystem⟩⟩ := hbuilding
  simp only [ofDocument, buildingLinks, value_bind, value_pure, value_found, hspace, hset, hsystem,
    Option.map_eq_some_iff]
  exact ⟨_, _, rfl, rfl⟩

end Skeleton

namespace Document

variable (d : Document)

theorem failures_eq_nil_iff : d.failures = [] ↔
    (∀ before c rest, d.components = before ++ c :: rest →
      ∃ b id, (Arena.after before).add c = .ok (b, id)) ∧
    (d.systems.map System.name).Nodup ∧ (d.schedules.map Schedule.key).Nodup ∧
    (d.constructionSets.map ConstructionSet.name).Nodup ∧
    (d.spaceTypes.map SpaceType.name).Nodup ∧ ∀ r ∈ d.references, d.leads r = true := by
  simp only [failures, repeatedIn, List.append_eq_nil_iff, List.map_eq_nil_iff,
    Arena.refusals_eq_nil_iff, repeats_eq_nil_iff, dangling_eq_nil_iff]

/-- A document has a skeleton when nothing in it is at fault. -/
theorem exists_skeleton_iff : (∃ s, d.resolve = .ok s) ↔ d.failures = [] := by
  simp only [resolve_eq_ok_iff, ← Skeleton.ofDocument_iff, ← Skeleton.findings_ofDocument]
  constructor
  · rintro ⟨s, hclean, -⟩
    exact hclean
  · intro hclean
    obtain ⟨s, hs⟩ := Skeleton.exists_value_of_clean d hclean
    exact ⟨s, hclean, hs⟩

/-- A document has a skeleton when nothing in it is at fault, and all its faults as errors
otherwise. -/
theorem resolve_exact :
    ((∃ s, d.resolve = .ok s) ↔
      (∀ before c rest, d.components = before ++ c :: rest →
        ∃ b id, (Arena.after before).add c = .ok (b, id)) ∧
      (d.systems.map System.name).Nodup ∧ (d.schedules.map Schedule.key).Nodup ∧
      (d.constructionSets.map ConstructionSet.name).Nodup ∧
      (d.spaceTypes.map SpaceType.name).Nodup ∧ ∀ r ∈ d.references, d.leads r = true) ∧
    ((¬∃ s, d.resolve = .ok s) → d.resolve = .error d.failures) := by
  rw [← failures_eq_nil_iff, exists_skeleton_iff]
  refine ⟨Iff.rfl, fun hne => ?_⟩
  rw [resolve, Skeleton.findings_ofDocument]
  cases (Skeleton.ofDocument d).value with
  | none => rfl
  | some s => exact if_neg (by simpa using hne)

end Document

end HvacModel
