import HvacModel.Proofs.Component.Arena
import HvacModel.Proofs.Report
import HvacModel.Skeleton.Resolve

/-! # Resolving without errors

A document resolves exactly when no step of the resolution finds an error, and its skeleton is then
what the steps make (`Document.resolve_eq_ok_iff`).  A list that is resolved without errors keeps
every member: `forall₂_eachFrom` follows the members with their positions, and
`Resolution.forall₂_schedules` the rules of each schedule to the positions of their days. -/

namespace HvacModel.Skeleton

open Report

variable {α β : Type}

/-! ### Steps -/

theorem clean_found {site : ReferenceSite} {name : String} {result : Option α} :
    (found site name result).Clean ↔ ∃ a, result = some a := by
  cases result <;> simp [found]

@[simp]
theorem value_found (site : ReferenceSite) (name : String) (result : Option α) :
    (found site name result).value = result := by
  cases result <;> rfl

theorem clean_table {entity : Entity} (scope : String) (names : List String) :
    (table scope names : Resolving (NameIndex entity)).Clean ↔
      (NameIndex.ofNames names : NameIndex entity × List String).2 = [] := by
  unfold table Clean
  exact List.map_eq_nil_iff

theorem forall₂_eachFrom {R : α → β → Prop} {step : Nat → α → Resolving β} {list : List α}
    (h : ∀ i, ∀ a ∈ list, (step i a).Clean → R a (step i a).value) (first : Nat)
    (hc : (eachFrom step first list).Clean) :
    List.Forall₂ R list (eachFrom step first list).value := by
  induction list generalizing first with
  | nil => exact .nil
  | cons a rest ih =>
      simp only [eachFrom, clean_bind, clean_pure, and_true] at hc
      obtain ⟨hstep, hrest⟩ := hc
      refine .cons (h first a List.mem_cons_self hstep) ?_
      exact ih (fun i b hb => h i b (List.mem_cons_of_mem _ hb)) (first + 1) hrest

theorem mem_value_eachFrom {step : Nat → α → Resolving β} {first : Nat} {list : List α} {b : β}
    (h : b ∈ (eachFrom step first list).value) : ∃ i, ∃ a ∈ list, b = (step i a).value := by
  induction list generalizing first with
  | nil => cases h
  | cons a rest ih =>
      rcases List.mem_cons.mp h with rfl | h
      · exact ⟨first, a, List.mem_cons_self, rfl⟩
      · obtain ⟨i, c, hc, rfl⟩ := ih h
        exact ⟨i, c, List.mem_cons_of_mem _ hc, rfl⟩

/-! ### Components -/

/-- Adding components one after the other keeps an arena well formed. -/
theorem wellFormed_addComponents {arena : Arena} (h : arena.WellFormed)
    (components : List Document.Component) : (addComponents arena components).value.WellFormed := by
  induction components generalizing arena with
  | nil => exact h
  | cons c rest ih =>
      rw [addComponents]
      cases hadd : arena.add c with
      | ok added =>
          obtain ⟨extended, id⟩ := added
          exact ih (h.add hadd)
      | error error => exact ih h

/-! ### Schedules -/

/-- The position that a rule selects. -/
def Selects (s : Document.Schedule) (r : Document.Rule) (i : Nat) : Prop :=
  match r.day with
  | .inline index => i = index
  | .named key => s.dayByKey? key = some i

theorem ruleDay_of_clean {s : Document.Schedule} {r : Document.Rule} (h : (ruleDay s r).Clean) :
    ∃ i, (ruleDay s r).value = some i ∧ Selects s r i := by
  unfold ruleDay Selects at *
  cases hday : r.day with
  | inline index => exact ⟨index, rfl, rfl⟩
  | named key =>
      rw [hday] at h
      obtain ⟨i, hi⟩ := clean_found.mp h
      exact ⟨i, by rw [value_found, hi], hi⟩

/-- The links of a schedule: its key, and for every rule the position that it selects. -/
def IsLinked (s : Document.Schedule) (l : ScheduleLinks) : Prop :=
  l.key = s.key ∧ List.Forall₂ (Selects s) s.rules l.ruleDays

theorem isLinked_of_clean (index : Nat) (s : Document.Schedule)
    (h : (scheduleLinks index s).Clean) : IsLinked s (scheduleLinks index s).value := by
  simp only [scheduleLinks, clean_bind, clean_collect, clean_pure, and_true] at h
  exact ⟨rfl, forall₂_collect fun r hr => ruleDay_of_clean (h r hr)⟩

/-! ### Documents -/

/-- The index of the schedules. -/
def scheduleIndex (d : Document) : NameIndex .schedule :=
  (NameIndex.ofNames (d.schedules.map Document.Schedule.key)).1

def systemIndex (d : Document) : NameIndex .system :=
  (NameIndex.ofNames (d.systems.map Document.System.name)).1

def constructionIndex (d : Document) : NameIndex .constructionSet :=
  (NameIndex.ofNames (d.constructionSets.map Document.ConstructionSet.name)).1

def spaceTypeIndex (d : Document) : NameIndex .spaceType :=
  (NameIndex.ofNames (d.spaceTypes.map Document.SpaceType.name)).1

/-- No table of a document repeats a name. -/
structure DistinctNames (d : Document) : Prop where
  schedules : (NameIndex.ofNames (d.schedules.map Document.Schedule.key) :
    NameIndex .schedule × List String).2 = []
  systems : (NameIndex.ofNames (d.systems.map Document.System.name) :
    NameIndex .system × List String).2 = []
  constructionSets : (NameIndex.ofNames (d.constructionSets.map Document.ConstructionSet.name) :
    NameIndex .constructionSet × List String).2 = []
  spaceTypes : (NameIndex.ofNames (d.spaceTypes.map Document.SpaceType.name) :
    NameIndex .spaceType × List String).2 = []

/-- A skeleton that is made of a document without errors. -/
structure Resolution (d : Document) (s : Skeleton) : Prop where
  distinct : DistinctNames d
  addsClean : (addComponents .empty d.components).Clean
  components : (addComponents .empty d.components).value = s.components
  systemsClean : (systemsFrom s.components (scheduleIndex d) 0 0 d.systems).Clean
  systems : (systemsFrom s.components (scheduleIndex d) 0 0 d.systems).value = s.systems
  schedulesClean : (eachFrom scheduleLinks 0 d.schedules).Clean
  schedules : (eachFrom scheduleLinks 0 d.schedules).value = s.schedules
  buildingClean : (buildingLinks (spaceTypeIndex d) (constructionIndex d) (systemIndex d)
    d.buildingInfo).Clean
  building : (buildingLinks (spaceTypeIndex d) (constructionIndex d) (systemIndex d)
    d.buildingInfo).value = some s.building

theorem ofDocument_iff (d : Document) (s : Skeleton) :
    (ofDocument d).Clean ∧ (ofDocument d).value = some s ↔ Resolution d s := by
  constructor
  · rintro ⟨hc, hv⟩
    simp only [ofDocument, clean_bind, clean_table, clean_pure, and_true] at hc
    obtain ⟨hadd, hsystems, hschedules, hsets, hspaces, hsys, hsched, hb⟩ := hc
    simp only [ofDocument, value_bind, value_pure, Option.map_eq_some_iff] at hv
    obtain ⟨building, hbuilding, rfl⟩ := hv
    exact ⟨⟨hschedules, hsystems, hsets, hspaces⟩, hadd, rfl, hsys, rfl, hsched, rfl, hb,
      hbuilding⟩
  · rintro ⟨⟨hschedules, hsystems, hsets, hspaces⟩, hadd, harena, hsys, hsystem, hsched, hlinks,
      hb, hbuilding⟩
    obtain ⟨components, systems, schedules, building⟩ := s
    dsimp only at *
    subst harena hsystem hlinks
    simp only [ofDocument, clean_bind, clean_table, clean_pure, and_true, value_bind, value_pure]
    refine ⟨⟨hadd, hsystems, hschedules, hsets, hspaces, hsys, hsched, hb⟩, ?_⟩
    exact Option.map_eq_some_iff.mpr ⟨building, hbuilding, rfl⟩

theorem Resolution.wellFormed {d : Document} {s : Skeleton} (h : Resolution d s) :
    s.components.WellFormed := by
  rw [← h.components]
  exact wellFormed_addComponents Arena.wellFormed_empty d.components

theorem Resolution.forall₂_schedules {d : Document} {s : Skeleton} (h : Resolution d s) :
    List.Forall₂ IsLinked d.schedules s.schedules := by
  rw [← h.schedules]
  exact forall₂_eachFrom (fun i s _ => isLinked_of_clean i s) 0 h.schedulesClean

end HvacModel.Skeleton

namespace HvacModel

/-- A document resolves to what its resolution makes without errors. -/
theorem Document.resolve_eq_ok_iff (d : Document) (s : Skeleton) :
    d.resolve = .ok s ↔ Skeleton.Resolution d s := by
  rw [← Skeleton.ofDocument_iff, ← Report.accepted_iff (Skeleton.ofDocument d) s, Document.resolve]
  cases (Skeleton.ofDocument d).value <;> rfl

end HvacModel
