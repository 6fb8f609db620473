import HvacModel.Proofs.Component.Extension
import HvacModel.Proofs.Skeleton.Handles
import HvacModel.Skeleton.LoopShape

/-! # Skeletons with more components

In an arena that extends another one references lead where they led before, so a step of the
resolution that finds no error makes the same result (`systemsFrom_extends`), and the check of the
loops looks at the same components (`Extends.topologyErrors_eq`).

So a document with one more definition at the end of its table, under a name of its own, has the
same skeleton but for the components (`Resolution.extend`). -/

namespace HvacModel

open Document (Component)
open Report

namespace Skeleton

/-! ### Resolution -/

section steps

variable {ι α β : Type}

theorem collect_congr {step step' : α → Report ι (Option β)} {list : List α}
    (h : ∀ a ∈ list, step' a = step a) : collect step' list = collect step list := by
  induction list with
  | nil => rfl
  | cons a rest ih =>
      rw [collect, collect, h a List.mem_cons_self, ih fun c hc => h c (List.mem_cons_of_mem _ hc)]

theorem each_congr {step step' : α → Report ι β} {list : List α}
    (h : ∀ a ∈ list, step' a = step a) : each step' list = each step list := by
  induction list with
  | nil => rfl
  | cons a rest ih =>
      rw [each, each, h a List.mem_cons_self, ih fun c hc => h c (List.mem_cons_of_mem _ hc)]

theorem eachFrom_congr {step step' : Nat → α → Resolving β} {first : Nat} {list : List α}
    (h : ∀ i, ∀ a ∈ list, (step i a).Clean → step' i a = step i a)
    (hc : (eachFrom step first list).Clean) :
    eachFrom step' first list = eachFrom step first list := by
  induction list generalizing first with
  | nil => rfl
  | cons a rest ih =>
      simp only [eachFrom, clean_bind, clean_pure, and_true] at hc
      obtain ⟨hstep, hrest⟩ := hc
      rw [eachFrom, eachFrom, h first a List.mem_cons_self hstep,
        ih (fun i c hc => h i c (List.mem_cons_of_mem _ hc)) hrest]

end steps

section resolution

variable {a b : Arena} (hab : a.Extends b) (ha : a.WellFormed)

include hab ha

theorem componentList_extends {site : ReferenceSite} {names : List String}
    (hc : (componentList a site names).Clean) :
    componentList b site names = componentList a site names := by
  rw [componentList, clean_collect] at hc
  refine collect_congr fun name hname => ?_
  obtain ⟨id, hid⟩ := clean_found.mp (hc name hname)
  rw [hid, hab.resolve?_eq_some ha hid]

theorem airLoop_extends {attributes : Attributes} {id : Nat} {l : Document.AirLoop}
    (hc : (airLoop a attributes id l).Clean) :
    airLoop b attributes id l = airLoop a attributes id l := by
  simp only [airLoop, clean_bind, clean_each, clean_pure, and_true] at hc
  obtain ⟨hsupply, hbranches⟩ := hc
  rw [airLoop, airLoop, componentList_extends hab ha hsupply]
  congr 2
  funext supply
  congr 1
  exact each_congr fun r hr => by rw [componentList_extends hab ha (hbranches r hr)]

theorem plantLoop_extends {id : Nat} {l : Document.PlantLoop} (hc : (plantLoop a id l).Clean) :
    plantLoop b id l = plantLoop a id l := by
  simp only [plantLoop, clean_bind, clean_pure, and_true] at hc
  obtain ⟨hinlet, hsupply, hdemand⟩ := hc
  rw [plantLoop, plantLoop, componentList_extends hab ha hinlet,
    componentList_extends hab ha hsupply, componentList_extends hab ha hdemand]

theorem system_extends {schedules : NameIndex .schedule} {index firstLoop : Nat}
    {s : Document.System} (hc : (system a schedules index firstLoop s).Clean) :
    system b schedules index firstLoop s = system a schedules index firstLoop s := by
  simp only [system, clean_bind, clean_pure, and_true] at hc
  obtain ⟨-, hair, hplant⟩ := hc
  rw [system, system, eachFrom_congr (fun _ _ _ => airLoop_extends hab ha) hair,
    eachFrom_congr (fun _ _ _ => plantLoop_extends hab ha) hplant]

theorem systemsFrom_extends {schedules : NameIndex .schedule} {index firstLoop : Nat}
    {systems : List Document.System}
    (hc : (systemsFrom a schedules index firstLoop systems).Clean) :
    systemsFrom b schedules index firstLoop systems =
      systemsFrom a schedules index firstLoop systems := by
  induction systems generalizing index firstLoop with
  | nil => rfl
  | cons s rest ih =>
      simp only [systemsFrom, clean_bind, clean_pure, and_true] at hc
      obtain ⟨hfirst, hrest⟩ := hc
      rw [systemsFrom, systemsFrom, system_extends hab ha hfirst, ih hrest]

end resolution

/-! ### One more definition -/

theorem Resolution.find?_names {d : Document} {s : Skeleton} (h : Resolution d s) {name : String}
    (hn : name ∉ d.components.map Component.name) : s.components.names.find? name = none := by
  rw [← h.components]
  exact Arena.find?_names_addComponents (NameMap.find?_empty name) hn

/-- A definition of a new name at the end of the table extends the arena, and nothing else changes
in the skeleton. -/
theorem Resolution.extend {d : Document} {s : Skeleton} (h : Resolution d s) {c : Component}
    (hn : c.name ∉ d.components.map Component.name) (hc : c.repeatedName? c.name = none) :
    Resolution { d with components := d.components ++ [c] }
      { s with components := s.components.extend c } := by
  have hfree := h.find?_names hn
  have hadd : s.components.add c = .ok (s.components.extend c, ⟨s.components.size⟩) :=
    (Arena.add_eq_ok_iff _ _ c _).mpr ⟨by rw [NameMap.contains, hfree]; rfl, hc, rfl, rfl⟩
  have hlast : addComponents s.components [c] = pure (s.components.extend c) := by
    rw [addComponents, hadd]
    rfl
  have hadds : addComponents .empty (d.components ++ [c]) =
      addComponents .empty d.components >>= fun _ => pure (s.components.extend c) := by
    rw [Arena.addComponents_append]
    apply Report.ext
    · rw [value_bind, value_bind, h.components, hlast]
    · rw [findings_bind, findings_bind, h.components, hlast]
  have hsystems := systemsFrom_extends (Arena.extends_extend hfree) h.wellFormed h.systemsClean
  exact {
    distinct := ⟨h.distinct.schedules, h.distinct.systems, h.distinct.constructionSets,
      h.distinct.spaceTypes⟩
    addsClean := by
      rw [hadds, clean_bind]
      exact ⟨h.addsClean, clean_pure _⟩
    components := by rw [hadds, value_bind, value_pure]
    systemsClean := (congrArg Clean hsystems).mpr h.systemsClean
    systems := (congrArg Report.value hsystems).trans h.systems
    schedulesClean := h.schedulesClean
    schedules := h.schedules
    buildingClean := h.buildingClean
    building := h.building }

/-! ### Loop shapes -/

section topology

variable {a b : Arena} (hab : a.Extends b)

include hab

theorem nodesOf_extends {handles : List (Handle .component)} (h : Below a.size handles) :
    nodesOf b handles = nodesOf a handles :=
  List.filterMap_congr fun id hid => hab.node?_eq (h id hid)

theorem airViolations_extends {l : AirLoop} (h : l.HandlesInRange a.size) :
    airViolations b l = airViolations a l := by
  have hbranches :
      (l.demandBranches.flatMap fun r => branchViolations r.name (nodesOf b r.components)) =
        l.demandBranches.flatMap fun r => branchViolations r.name (nodesOf a r.components) :=
    List.flatMap_congr fun r hr => by rw [nodesOf_extends hab (h.branches r hr)]
  rw [airViolations, airViolations, nodesOf_extends hab h.supply, hbranches]

theorem plantViolations_extends {l : PlantLoop} (h : l.HandlesInRange a.size) :
    plantViolations b l = plantViolations a l := by
  rw [plantViolations, plantViolations, nodesOf_extends hab h.inletNode,
    nodesOf_extends hab h.supplyBranches, nodesOf_extends hab h.demandBranches]

end topology

/-- A skeleton that is another one but for more components. -/
structure Extends (s t : Skeleton) : Prop where
  components : s.components.Extends t.components
  systems : t.systems = s.systems
  schedules : t.schedules = s.schedules
  building : t.building = s.building

/-- The loops have the same violations. -/
theorem Extends.topologyErrors_eq {d : Document} {s t : Skeleton} (h : s.Extends t)
    (hs : HandlesInRange d s) : t.topologyErrors = s.topologyErrors := by
  rw [topologyErrors, topologyErrors, h.systems]
  refine List.flatMap_congr fun r hr => ?_
  obtain ⟨hair, hplant, -⟩ := hs.systems r hr
  rw [systemErrors, systemErrors]
  congr 1
  · exact List.flatMap_congr fun l hl => by rw [airViolations_extends h.components (hair l hl)]
  · exact List.flatMap_congr fun l hl => by rw [plantViolations_extends h.components (hplant l hl)]

end Skeleton

end HvacModel
