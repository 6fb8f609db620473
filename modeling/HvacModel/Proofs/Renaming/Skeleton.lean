import HvacModel.Proofs.Renaming.Arena
import HvacModel.Proofs.Skeleton.Resolve
import HvacModel.Skeleton.LoopShape

/-! # Skeletons with other component handles

A reference leads to the renamed handle of what it led to (`Arena.Renames.resolve?_eq`), so every
step of the resolution makes the renamed result and finds the same errors: the steps of two runs
differ by a map over their results (`system_rename`).  The check of the loops looks at the types and
the paths of components only, and finds the same violations (`Renames.topologyErrors_eq`).

A document whose components are defined in another order, under distinct names, has a renamed
skeleton (`Resolution.exists_renames`). -/

namespace HvacModel

open Document (Component)
open Report

namespace Skeleton

/-! ### Renamed skeletons -/

section rename

variable (f : Handle .component → Handle .component)

def Branch.rename (b : Branch) : Branch := { b with components := b.components.map f }

def AirLoop.rename (l : AirLoop) : AirLoop :=
  { l with
    supply := l.supply.map f
    demandBranches := l.demandBranches.map (Branch.rename f) }

def PlantLoop.rename (l : PlantLoop) : PlantLoop :=
  { l with
    inletNode := l.inletNode.map f
    supplyBranches := l.supplyBranches.map f
    demandBranches := l.demandBranches.map f }

def System.rename (s : System) : System :=
  { s with
    airLoops := s.airLoops.map (AirLoop.rename f)
    plantLoops := s.plantLoops.map (PlantLoop.rename f) }

end rename

/-- A skeleton under renamed component handles. -/
structure Renames (π : Renaming) (s t : Skeleton) : Prop where
  components : s.components.Renames π t.components
  systems : t.systems = s.systems.map (System.rename π)
  schedules : t.schedules = s.schedules
  building : t.building = s.building

/-! ### Steps with renamed results -/

section steps

variable {ι α β γ : Type}

theorem collect_map (f : β → γ) {step : α → Report ι (Option β)} {step' : α → Report ι (Option γ)}
    (h : ∀ a, step' a = Option.map f <$> step a) (list : List α) :
    collect step' list = List.map f <$> collect step list := by
  apply Report.ext
  · rw [value_map, value_collect, value_collect, List.map_filterMap]
    refine List.filterMap_congr fun a _ => ?_
    rw [h, value_map]
  · rw [findings_map, findings_collect, findings_collect]
    refine List.flatMap_congr fun a _ => ?_
    rw [h, findings_map]

theorem each_map (f : β → γ) {step : α → Report ι β} {step' : α → Report ι γ}
    (h : ∀ a, step' a = f <$> step a) (list : List α) :
    each step' list = List.map f <$> each step list := by
  apply Report.ext
  · rw [value_map, value_each, value_each, List.map_map]
    refine List.map_congr_left fun a _ => ?_
    rw [h, value_map]
    rfl
  · rw [findings_map, findings_each, findings_each]
    refine List.flatMap_congr fun a _ => ?_
    rw [h, findings_map]

theorem eachFrom_map (f : β → γ) {step : Nat → α → Resolving β} {step' : Nat → α → Resolving γ}
    (h : ∀ i a, step' i a = f <$> step i a) (first : Nat) (list : List α) :
    eachFrom step' first list = List.map f <$> eachFrom step first list := by
  induction list generalizing first with
  | nil => rfl
  | cons a rest ih =>
      rw [eachFrom, eachFrom, ih, h]
      apply Report.ext
      · simp only [value_bind, value_map, value_pure, List.map_cons]
      · simp only [findings_bind, findings_map, findings_pure, value_map]

theorem found_map (f : α → β) (site : ReferenceSite) (name : String) (result : Option α) :
    found site name (result.map f) = Option.map f <$> found site name result := by
  cases result <;> rfl

end steps

/-! ### Resolution -/

section resolution

variable {π : Renaming} {a b : Arena}

theorem componentList_rename (h : a.Renames π b) (site : ReferenceSite) (names : List String) :
    componentList b site names = List.map π <$> componentList a site names := by
  refine collect_map π (fun name => ?_) names
  rw [h.resolve?_eq, found_map]

theorem airLoop_rename (h : a.Renames π b) (attributes : Attributes) (id : Nat)
    (l : Document.AirLoop) :
    airLoop b attributes id l = AirLoop.rename π <$> airLoop a attributes id l := by
  have hbranches : each (fun (r : Document.Branch) => do
        pure (⟨r.name, ← componentList b (.airBranch l.name r.name) r.components⟩ : Branch))
        l.demandBranches =
      List.map (Branch.rename π) <$> each (fun (r : Document.Branch) => do
        pure (⟨r.name, ← componentList a (.airBranch l.name r.name) r.components⟩ : Branch))
        l.demandBranches := by
    refine each_map _ (fun r => ?_) _
    rw [componentList_rename h]
    apply Report.ext
    · rfl
    · simp only [findings_bind, findings_map, findings_pure]
  rw [airLoop, airLoop, componentList_rename h, hbranches]
  apply Report.ext
  · rfl
  · simp only [findings_bind, findings_map, findings_pure]

theorem plantLoop_rename (h : a.Renames π b) (id : Nat) (l : Document.PlantLoop) :
    plantLoop b id l = PlantLoop.rename π <$> plantLoop a id l := by
  rw [plantLoop, plantLoop, componentList_rename h, componentList_rename h, componentList_rename h]
  apply Report.ext
  · rfl
  · simp only [findings_bind, findings_map, findings_pure]

theorem system_rename (h : a.Renames π b) (schedules : NameIndex .schedule)
    (index firstLoop : Nat) (s : Document.System) :
    system b schedules index firstLoop s =
      System.rename π <$> system a schedules index firstLoop s := by
  rw [system, system, eachFrom_map _ (airLoop_rename h s.attributes),
    eachFrom_map _ (plantLoop_rename h)]
  apply Report.ext
  · rfl
  · simp only [findings_bind, findings_map, findings_pure]

theorem systemsFrom_rename (h : a.Renames π b) (schedules : NameIndex .schedule)
    (index firstLoop : Nat) (systems : List Document.System) :
    systemsFrom b schedules index firstLoop systems =
      List.map (System.rename π) <$> systemsFrom a schedules index firstLoop systems := by
  induction systems generalizing index firstLoop with
  | nil => rfl
  | cons s rest ih =>
      rw [systemsFrom, systemsFrom, ih, system_rename h]
      apply Report.ext
      · rfl
      · simp only [findings_bind, findings_map, findings_pure]

end resolution

/-! ### Definitions in another order -/

/-- Definitions of distinct new names are accepted exactly when none repeats a name inside, and
laid out one after the other. -/
theorem addComponents_eq {a : Arena} {cs : List Component}
    (hn : (cs.map Component.name).Nodup) (hfree : ∀ c ∈ cs, a.names.find? c.name = none) :
    ((addComponents a cs).Clean ↔ ∀ c ∈ cs, c.repeatedName? c.name = none) ∧
      ((addComponents a cs).Clean → (addComponents a cs).value = cs.foldl Arena.extend a) := by
  induction cs generalizing a with
  | nil => exact ⟨by simp [addComponents], fun _ => rfl⟩
  | cons c rest ih =>
      obtain ⟨hc, hrest⟩ := List.nodup_cons.mp hn
      have hcontains : a.names.contains c.name = false := by
        rw [NameMap.contains, hfree c List.mem_cons_self]
        rfl
      rw [addComponents, Arena.add, hcontains]
      cases hrepeated : c.repeatedName? c.name with
      | some repeated =>
          have hunclean : ¬(Report.tell (ResolveError.duplicate repeated) >>= fun _ =>
              addComponents a rest).Clean := by simp
          refine ⟨iff_of_false hunclean fun h => ?_, fun h => absurd h hunclean⟩
          rw [h c List.mem_cons_self] at hrepeated
          cases hrepeated
      | none =>
          have hfree' : ∀ d ∈ rest, (a.extend c).names.find? d.name = none := by
            intro d hd
            have hne : d.name ≠ c.name := fun e => hc (List.mem_map.mpr ⟨d, hd, e⟩)
            rw [Arena.extend, NameMap.find?_insert, if_neg hne]
            exact hfree d (List.mem_cons_of_mem _ hd)
          rw [List.forall_mem_cons, iff_true_intro hrepeated, true_and]
          exact ih hrest hfree'

/-- The same definitions in another order, under distinct names, give a renamed skeleton. -/
theorem Resolution.exists_renames {d : Document} {s : Skeleton} (h : Resolution d s)
    {cs : List Component} (hn : (d.components.map Component.name).Nodup)
    (hp : d.components.Perm cs) :
    ∃ (π : Renaming) (t : Skeleton), s.Renames π t ∧ Resolution { d with components := cs } t := by
  have hn' : (cs.map Component.name).Nodup := (hp.map _).nodup_iff.mp hn
  have hfree : ∀ c : Component, Arena.empty.names.find? c.name = none := fun _ => rfl
  obtain ⟨hclean, hvalue⟩ := addComponents_eq hn fun c _ => hfree c
  obtain ⟨hclean', hvalue'⟩ := addComponents_eq hn' fun c _ => hfree c
  have hadds : (addComponents .empty cs).Clean :=
    hclean'.mpr fun c hc => hclean.mp h.addsClean c (hp.mem_iff.mpr hc)
  obtain ⟨π, hπ⟩ := Arena.exists_renames_of_perm hp Arena.wellFormed_empty (Arena.Renames.refl _) hn
  rw [← hvalue h.addsClean, ← hvalue' hadds, h.components] at hπ
  have hsystems := systemsFrom_rename hπ (scheduleIndex d) 0 0 d.systems
  refine ⟨π, ⟨_, s.systems.map (System.rename π), s.schedules, s.building⟩, ⟨hπ, rfl, rfl, rfl⟩, ?_⟩
  exact {
    distinct := ⟨h.distinct.schedules, h.distinct.systems, h.distinct.constructionSets,
      h.distinct.spaceTypes⟩
    addsClean := hadds
    components := rfl
    systemsClean := (congrArg Clean hsystems).mpr ((clean_map _ _).mpr h.systemsClean)
    systems := by
      rw [← h.systems]
      exact congrArg Report.value hsystems
    schedulesClean := h.schedulesClean
    schedules := h.schedules
    buildingClean := h.buildingClean
    building := h.building }

/-! ### Loop shapes -/

section topology

variable {π : Renaming} {a b : Arena}

theorem nodesOf_rename (h : a.Renames π b) (handles : List (Handle .component)) :
    nodesOf b (handles.map π) = (nodesOf a handles).map (ComponentNode.rename π) := by
  simp only [nodesOf, List.filterMap_map, List.map_filterMap, Function.comp_def, h.node?_eq]

theorem airSupplyViolations_rename (path : List ComponentNode) :
    airSupplyViolations (path.map (ComponentNode.rename π)) = airSupplyViolations path := by
  have hfans : fanCount (path.map (ComponentNode.rename π)) = fanCount path := by
    unfold fanCount
    rw [List.countP_map]
    rfl
  have hpath : supplyPathViolations (path.map (ComponentNode.rename π)) =
      supplyPathViolations path := by
    cases path with
    | nil => rfl
    | cons n rest =>
        rw [List.map_cons, supplyPathViolations, supplyPathViolations, List.filterMap_map]
        rfl
  have houtlet : outletViolations (path.map (ComponentNode.rename π)) = outletViolations path := by
    unfold outletViolations
    rw [hfans, List.getLast?_map]
    cases path.getLast? <;> rfl
  rw [airSupplyViolations, airSupplyViolations, hpath, houtlet, List.isEmpty_map]

theorem branchViolations_rename (name : String) (nodes : List ComponentNode) :
    branchViolations name (nodes.map (ComponentNode.rename π)) = branchViolations name nodes := by
  rw [branchViolations, branchViolations, List.isEmpty_map, List.filterMap_map]
  rfl

theorem airViolations_rename (h : a.Renames π b) (l : AirLoop) :
    airViolations b (l.rename π) = airViolations a l := by
  simp only [airViolations, AirLoop.rename, nodesOf_rename h, airSupplyViolations_rename,
    List.isEmpty_map, List.flatMap_map, Branch.rename, branchViolations_rename]

theorem inletViolations_rename (nodes : List ComponentNode) :
    inletViolations (nodes.map (ComponentNode.rename π)) = inletViolations nodes := by
  match nodes with
  | [] => rfl
  | [_] => rfl
  | _ :: _ :: _ =>
      simp only [List.map_cons, inletViolations, List.length_cons, List.length_map]

theorem plantSupplyViolations_rename (kind : LoopKind) (nodes : List ComponentNode) :
    plantSupplyViolations kind (nodes.map (ComponentNode.rename π)) =
      plantSupplyViolations kind nodes := by
  have hsources : sourceCount kind (nodes.map (ComponentNode.rename π)) =
      sourceCount kind nodes := by
    unfold sourceCount
    rw [List.countP_map]
    rfl
  rw [plantSupplyViolations, plantSupplyViolations, hsources, List.filterMap_map]
  rfl

theorem plantDemandViolations_rename (kind : LoopKind) (nodes : List ComponentNode) :
    plantDemandViolations kind (nodes.map (ComponentNode.rename π)) =
      plantDemandViolations kind nodes := by
  rw [plantDemandViolations, plantDemandViolations, List.isEmpty_map, List.filterMap_map]
  rfl

theorem plantViolations_rename (h : a.Renames π b) (l : PlantLoop) :
    plantViolations b (l.rename π) = plantViolations a l := by
  simp only [plantViolations, PlantLoop.rename, nodesOf_rename h, inletViolations_rename,
    plantSupplyViolations_rename, plantDemandViolations_rename]

/-- Renamed loops have the same violations. -/
theorem Renames.topologyErrors_eq {s t : Skeleton} (h : s.Renames π t) :
    t.topologyErrors = s.topologyErrors := by
  have hsystem : ∀ r : System, systemErrors t.components (r.rename π) =
      systemErrors s.components r := by
    intro r
    simp only [systemErrors, System.rename, List.flatMap_map, airViolations_rename h.components,
      plantViolations_rename h.components]
    rfl
  rw [topologyErrors, topologyErrors, h.systems, List.flatMap_map]
  exact List.flatMap_congr fun r _ => hsystem r

end topology

end Skeleton

end HvacModel
