import HvacModel.Proofs.NameIndex
import HvacModel.Proofs.Skeleton.Resolve

/-! # Handles of a skeleton

Every handle of a resolved skeleton is a position of its table (`Resolution.handlesInRange`).  The
handles come by three routes, each with its own reason: those in the arena from the layout of the
components, those in loops from references that the arena resolved, and those of schedules and of
the building from the index of their table. -/

namespace HvacModel.Skeleton

open Report

/-- All handles of a list are below a bound. -/
def Below {entity : Entity} (bound : Nat) (handles : List (Handle entity)) : Prop :=
  ∀ h ∈ handles, h.index < bound

structure AirLoop.HandlesInRange (components : Nat) (l : AirLoop) : Prop where
  supply : Below components l.supply
  branches : ∀ b ∈ l.demandBranches, Below components b.components

structure PlantLoop.HandlesInRange (components : Nat) (l : PlantLoop) : Prop where
  inletNode : Below components l.inletNode
  supplyBranches : Below components l.supplyBranches
  demandBranches : Below components l.demandBranches

structure System.HandlesInRange (components schedules : Nat) (s : System) : Prop where
  airLoops : ∀ l ∈ s.airLoops, l.HandlesInRange components
  plantLoops : ∀ l ∈ s.plantLoops, l.HandlesInRange components
  availability : ∀ h, s.availabilitySchedule = some h → h.index < schedules

structure BuildingLinks.HandlesInRange (spaceTypes constructionSets systems : Nat)
    (b : BuildingLinks) : Prop where
  spaceType : b.spaceType.index < spaceTypes
  constructionSet : b.constructionSet.index < constructionSets
  hvacSystem : b.hvacSystem.index < systems

/-! ### Loops -/

theorem below_componentList {arena : Arena} (ha : arena.WellFormed) (site : ReferenceSite)
    (names : List String) : Below arena.size (componentList arena site names).value := by
  intro h hmem
  rw [componentList, value_collect, List.mem_filterMap] at hmem
  obtain ⟨name, -, hfound⟩ := hmem
  rw [value_found] at hfound
  exact ha.resolve?_lt hfound

theorem airLoop_handlesInRange {arena : Arena} (ha : arena.WellFormed) (attributes : Attributes)
    (id : Nat) (l : Document.AirLoop) :
    (airLoop arena attributes id l).value.HandlesInRange arena.size where
  supply := below_componentList ha _ _
  branches b hb := by
    simp only [airLoop, value_bind, value_pure, value_each] at hb
    obtain ⟨branch, -, rfl⟩ := List.mem_map.mp hb
    exact below_componentList ha _ _

theorem plantLoop_handlesInRange {arena : Arena} (ha : arena.WellFormed) (id : Nat)
    (l : Document.PlantLoop) : (plantLoop arena id l).value.HandlesInRange arena.size where
  inletNode := below_componentList ha _ _
  supplyBranches := below_componentList ha _ _
  demandBranches := below_componentList ha _ _

/-! ### Systems -/

theorem system_handlesInRange {arena : Arena} (ha : arena.WellFormed)
    {schedules : NameIndex .schedule} {count : Nat}
    (hs : ∀ name h, schedules.find? name = some h → h.index < count) (index firstLoop : Nat)
    (s : Document.System) :
    (system arena schedules index firstLoop s).value.HandlesInRange arena.size count where
  airLoops l hl := by
    obtain ⟨id, loop, -, rfl⟩ := mem_value_eachFrom hl
    exact airLoop_handlesInRange ha _ id loop
  plantLoops l hl := by
    obtain ⟨id, loop, -, rfl⟩ := mem_value_eachFrom hl
    exact plantLoop_handlesInRange ha id loop
  availability h hh := by
    simp only [system, value_bind, value_pure, value_whenSome, value_found] at hh
    obtain ⟨name, -, hf⟩ := Option.bind_eq_some_iff.mp hh
    exact hs name h hf

theorem length_systemsFrom (arena : Arena) (schedules : NameIndex .schedule)
    (index firstLoop : Nat) (systems : List Document.System) :
    (systemsFrom arena schedules index firstLoop systems).value.length = systems.length := by
  induction systems generalizing index firstLoop with
  | nil => rfl
  | cons s rest ih => exact congrArg Nat.succ (ih _ _)

theorem systemsFrom_handlesInRange {arena : Arena} (ha : arena.WellFormed)
    {schedules : NameIndex .schedule} {count : Nat}
    (hs : ∀ name h, schedules.find? name = some h → h.index < count) (index firstLoop : Nat)
    (systems : List Document.System) :
    ∀ s ∈ (systemsFrom arena schedules index firstLoop systems).value,
      s.HandlesInRange arena.size count := by
  induction systems generalizing index firstLoop with
  | nil => exact fun s hs => nomatch hs
  | cons first rest ih =>
      rintro s (_ | ⟨_, hmem⟩)
      · exact system_handlesInRange ha hs index firstLoop first
      · exact ih _ _ s hmem

/-! ### Skeletons -/

/-- All handles of a skeleton of a document are positions of its tables. -/
structure HandlesInRange (d : Document) (s : Skeleton) : Prop where
  components : s.components.WellFormed
  systems : ∀ system ∈ s.systems, system.HandlesInRange s.components.size d.schedules.length
  building : s.building.HandlesInRange d.spaceTypes.length d.constructionSets.length
    s.systems.length

theorem Resolution.handlesInRange {d : Document} {s : Skeleton} (h : Resolution d s) :
    HandlesInRange d s where
  components := h.wellFormed
  systems := by
    rw [← h.systems]
    apply systemsFrom_handlesInRange h.wellFormed
    intro name handle hf
    simpa using NameIndex.lt_of_find?_ofNames hf
  building := by
    have hb := h.building
    simp only [buildingLinks, value_bind, value_found, value_pure, Option.bind_eq_bind,
      Option.bind_eq_some_iff, Option.some.injEq] at hb
    obtain ⟨space, hspace, set, hset, system, hsystem, heq⟩ := hb
    rw [← heq, ← h.systems, length_systemsFrom]
    refine ⟨?_, ?_, ?_⟩
    · simpa using NameIndex.lt_of_find?_ofNames hspace
    · simpa using NameIndex.lt_of_find?_ofNames hset
    · simpa using NameIndex.lt_of_find?_ofNames hsystem

end HvacModel.Skeleton
