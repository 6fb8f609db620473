import HvacModel.Proofs.Measure.Apply
import HvacModel.Proofs.NameIndex
import HvacModel.Proofs.Related

/-! # A skeleton in the order of its document

A skeleton has the tables of its document entry by entry: every entry has the name of the entry at
its place, and every list of handles has one handle for each name of the list at its place
(`Skeleton.Follows`).  Handles are given out in this order, so those of the systems, of the schedules
and of all loops are the positions from 0 on.

Resolving drops a name that leads nowhere, which would move the handles after it; without errors no
name is dropped (`Resolution.follows`).  Measures keep the order, because it does not depend on
attributes (`follows_bare_iff`). -/

namespace HvacModel

/-! ### Consecutive handles -/

namespace Handle

variable {entity : Entity}

/-- The handles of consecutive positions. -/
def positions (first count : Nat) : List (Handle entity) := (List.range' first count).map mk

theorem positions_succ (first count : Nat) :
    (positions first (count + 1) : List (Handle entity)) =
      ⟨first⟩ :: positions (first + 1) count := by
  rw [positions, List.range'_succ, List.map_cons]
  rfl

theorem positions_append (first m n : Nat) :
    (positions first m ++ positions (first + m) n : List (Handle entity)) =
      positions first (m + n) := by
  rw [positions, positions, positions, ← List.map_append, List.range'_append_1]

theorem getElem?_positions {first count i : Nat} {h : Handle entity}
    (hi : (positions first count)[i]? = some h) : h = ⟨first + i⟩ := by
  rw [positions, List.getElem?_map, Option.map_eq_some_iff] at hi
  obtain ⟨j, hj, rfl⟩ := hi
  obtain ⟨hlt, rfl⟩ := List.getElem?_eq_some_iff.mp hj
  rw [List.getElem_range', Nat.one_mul]

/-- In a table whose handles are its positions a handle leads to the entry that has it. -/
theorem eq_of_get?_positions {α : Type} {id : α → Handle entity} {table : List α} {count : Nat}
    (hids : table.map id = positions 0 count) {h : Handle entity} {a : α}
    (ha : h.get? table = some a) : id a = h := by
  have hat : (positions 0 count)[h.index]? = some (id a) := by
    rw [← hids, List.getElem?_map, ← Handle.get?, ha, Option.map_some]
  rw [getElem?_positions hat, Nat.zero_add]

theorem nodup_positions (first count : Nat) :
    (positions first count : List (Handle entity)).Nodup :=
  List.Nodup.map (fun _ _ h => congrArg index h) List.nodup_range'

end Handle

namespace Skeleton

open Report Handle

/-! ### Entries that stand for others -/

section Entries

variable (component : String → Option (Handle .component))
  (schedule : String → Option (Handle .schedule))

/-- Handles of components, one for each name. -/
def LeadTo (names : List String) (handles : List (Handle .component)) : Prop :=
  List.Forall₂ (fun name h => component name = some h) names handles

structure IsBranchOf (b : Document.Branch) (r : Branch) : Prop where
  name : r.name = b.name
  components : LeadTo component b.components r.components

structure IsAirLoopOf (l : Document.AirLoop) (r : AirLoop) : Prop where
  name : r.name = l.name
  supply : LeadTo component l.supply r.supply
  demandBranches : List.Forall₂ (IsBranchOf component) l.demandBranches r.demandBranches

structure IsPlantLoopOf (l : Document.PlantLoop) (r : PlantLoop) : Prop where
  name : r.name = l.name
  kind : r.kind = l.kind
  inletNode : LeadTo component l.inletNode r.inletNode
  supplyBranches : LeadTo component l.supplyBranches r.supplyBranches
  demandBranches : LeadTo component l.demandBranches r.demandBranches

/-- A system with the loops of one of a document, in their order, its references replaced by what
they lead to. -/
structure IsSystemOf (s : Document.System) (r : System) : Prop where
  name : r.name = s.name
  airLoops : List.Forall₂ (IsAirLoopOf component) s.airLoops r.airLoops
  plantLoops : List.Forall₂ (IsPlantLoopOf component) s.plantLoops r.plantLoops
  availability : Option.Rel (fun key h => schedule key = some h) s.availabilitySchedule
    r.availabilitySchedule
  attributes : r.attributes = s.attributes

end Entries

/-- The handles of the loops of a system, those of the air loops first. -/
def System.loopIds (s : System) : List (Handle .loop) :=
  s.airLoops.map AirLoop.id ++ s.plantLoops.map PlantLoop.id

/-- The number of loops of a document. -/
def loopCount (d : Document) : Nat :=
  d.systems.foldr (fun s count => s.airLoops.length + s.plantLoops.length + count) 0

/-- A skeleton has the entries of a document in their order. -/
structure Follows (d : Document) (s : Skeleton) : Prop where
  systems : List.Forall₂ (IsSystemOf s.components.resolve? (scheduleIndex d).find?) d.systems
    s.systems
  systemIds : s.systems.map System.id = positions 0 d.systems.length
  loopIds : s.systems.flatMap System.loopIds = positions 0 (loopCount d)
  schedules : List.Forall₂ IsLinked d.schedules s.schedules
  scheduleIds : s.schedules.map ScheduleLinks.id = positions 0 d.schedules.length
  hvacSystem : (systemIndex d).find? d.buildingInfo.hvacSystem = some s.building.hvacSystem

/-! ### Resolving keeps the order -/

section Resolving

variable {arena : Arena} {schedules : NameIndex .schedule}

theorem leadTo_of_clean {site : ReferenceSite} {names : List String}
    (h : (componentList arena site names).Clean) :
    LeadTo arena.resolve? names (componentList arena site names).value := by
  refine forall₂_collect fun name hname => ?_
  obtain ⟨id, hid⟩ := clean_found.mp ((clean_collect _ _).mp h name hname)
  exact ⟨id, by rw [value_found, hid], hid⟩

theorem isAirLoopOf_of_clean {attributes : Attributes} (id : Nat) (l : Document.AirLoop)
    (h : (airLoop arena attributes id l).Clean) :
    IsAirLoopOf arena.resolve? l (airLoop arena attributes id l).value := by
  simp only [airLoop, clean_bind, clean_each, clean_pure, and_true] at h
  obtain ⟨hsupply, hbranches⟩ := h
  refine ⟨rfl, leadTo_of_clean hsupply, ?_⟩
  simp only [airLoop, value_bind, value_each, value_pure]
  rw [List.forall₂_map_right_iff, List.forall₂_same]
  exact fun b hb => ⟨rfl, leadTo_of_clean (hbranches b hb)⟩

theorem isPlantLoopOf_of_clean (id : Nat) (l : Document.PlantLoop)
    (h : (plantLoop arena id l).Clean) :
    IsPlantLoopOf arena.resolve? l (plantLoop arena id l).value := by
  simp only [plantLoop, clean_bind, clean_pure, and_true] at h
  obtain ⟨hinlet, hsupply, hdemand⟩ := h
  exact ⟨rfl, rfl, leadTo_of_clean hinlet, leadTo_of_clean hsupply, leadTo_of_clean hdemand⟩

theorem isSystemOf_of_clean {index firstLoop : Nat} {s : Document.System}
    (h : (system arena schedules index firstLoop s).Clean) :
    IsSystemOf arena.resolve? schedules.find? s
      (system arena schedules index firstLoop s).value := by
  simp only [system, clean_bind, clean_pure, and_true] at h
  obtain ⟨havailable, hair, hplant⟩ := h
  have hairs := forall₂_eachFrom (fun i l _ => isAirLoopOf_of_clean i l) _ hair
  have hplants := forall₂_eachFrom (fun i l _ => isPlantLoopOf_of_clean i l) _ hplant
  refine ⟨rfl, hairs, hplants, ?_, rfl⟩
  simp only [system, value_bind, value_pure, value_whenSome, value_found]
  cases hs : s.availabilitySchedule with
  | none => exact .none
  | some key =>
      obtain ⟨id, hid⟩ := clean_found.mp ((clean_whenSome _ _).mp havailable key hs)
      rw [Option.bind_some, hid]
      exact .some hid

theorem forall₂_systemsFrom {index firstLoop : Nat} {systems : List Document.System}
    (h : (systemsFrom arena schedules index firstLoop systems).Clean) :
    List.Forall₂ (IsSystemOf arena.resolve? schedules.find?) systems
      (systemsFrom arena schedules index firstLoop systems).value := by
  induction systems generalizing index firstLoop with
  | nil => exact .nil
  | cons s rest ih =>
      simp only [systemsFrom, clean_bind, clean_pure, and_true] at h
      exact .cons (isSystemOf_of_clean h.1) (ih h.2)

end Resolving

/-! ### Handles in order -/

/-- Entries that are made one after the other have consecutive handles. -/
theorem map_id_eachFrom {α β : Type} {entity : Entity} {step : Nat → α → Resolving β}
    {id : β → Handle entity} (h : ∀ i a, id (step i a).value = ⟨i⟩) (first : Nat) (list : List α) :
    (eachFrom step first list).value.map id = positions first list.length := by
  induction list generalizing first with
  | nil => rfl
  | cons a rest ih =>
      rw [List.length_cons, positions_succ, ← ih, ← h first a]
      rfl

section Ids

variable (arena : Arena) (schedules : NameIndex .schedule)

theorem map_id_systemsFrom (index firstLoop : Nat) (systems : List Document.System) :
    (systemsFrom arena schedules index firstLoop systems).value.map System.id =
      positions index systems.length := by
  induction systems generalizing index firstLoop with
  | nil => rfl
  | cons s rest ih =>
      rw [List.length_cons, positions_succ,
        ← ih (index + 1) (firstLoop + s.airLoops.length + s.plantLoops.length)]
      rfl

theorem loopIds_system (index firstLoop : Nat) (s : Document.System) :
    (system arena schedules index firstLoop s).value.loopIds =
      positions firstLoop (s.airLoops.length + s.plantLoops.length) := by
  rw [← positions_append]
  exact congrArg₂ (· ++ ·) (map_id_eachFrom (fun _ _ => rfl) _ _)
    (map_id_eachFrom (fun _ _ => rfl) _ _)

/-- The next system goes on counting where the loops of the one before end. -/
theorem loopIds_systemsFrom (index firstLoop : Nat) (systems : List Document.System) :
    (systemsFrom arena schedules index firstLoop systems).value.flatMap System.loopIds =
      positions firstLoop
        (systems.foldr (fun s count => s.airLoops.length + s.plantLoops.length + count) 0) := by
  induction systems generalizing index firstLoop with
  | nil => rfl
  | cons s rest ih =>
      rw [List.foldr_cons, ← positions_append, ← loopIds_system arena schedules index,
        ← Nat.add_assoc, ← ih (index + 1)]
      rfl

end Ids

theorem Resolution.follows {d : Document} {s : Skeleton} (h : Resolution d s) : s.Follows d where
  systems := h.systems ▸ forall₂_systemsFrom h.systemsClean
  systemIds := by rw [← h.systems, map_id_systemsFrom]
  loopIds := by
    rw [← h.systems, loopIds_systemsFrom]
    rfl
  schedules := h.forall₂_schedules
  scheduleIds := by
    rw [← h.schedules]
    exact map_id_eachFrom (fun _ _ => rfl) 0 d.schedules
  hvacSystem := by
    have hb := h.building
    simp only [buildingLinks, value_bind, value_found, value_pure, Option.bind_eq_bind,
      Option.bind_eq_some_iff, Option.some.injEq] at hb
    obtain ⟨space, -, set, -, system, hsystem, heq⟩ := hb
    rw [← heq, hsystem]

/-! ### Measures keep the order -/

theorem isSystemOf_bare_iff {component : String → Option (Handle .component)}
    {schedule : String → Option (Handle .schedule)} (s : Document.System) (r : System) :
    IsSystemOf component schedule s r.bare ↔ IsSystemOf component schedule s r := by
  have hloops : List.Forall₂ (IsAirLoopOf component) s.airLoops r.bare.airLoops ↔
      List.Forall₂ (IsAirLoopOf component) s.airLoops r.airLoops := by
    rw [System.bare, List.forall₂_map_right_iff]
    exact ⟨List.Forall₂.imp fun _ _ h => ⟨h.name, h.supply, h.demandBranches⟩,
      List.Forall₂.imp fun _ _ h => ⟨h.name, h.supply, h.demandBranches⟩⟩
  constructor
  · rintro ⟨hname, hair, hplant, havailable, hattributes⟩
    exact ⟨hname, hloops.mp hair, hplant, havailable, hattributes⟩
  · rintro ⟨hname, hair, hplant, havailable, hattributes⟩
    exact ⟨hname, hloops.mpr hair, hplant, havailable, hattributes⟩

theorem System.loopIds_bare (s : System) : s.bare.loopIds = s.loopIds := by
  unfold loopIds bare
  rw [List.map_map]
  rfl

/-- The order of the entries does not depend on the attributes. -/
theorem follows_bare_iff {d : Document} {s : Skeleton} : s.bare.Follows d ↔ s.Follows d := by
  have hresolve : s.bare.components.resolve? = s.components.resolve? :=
    funext (Arena.resolve?_mapAttributes s.components _)
  have hsystems : List.Forall₂ (IsSystemOf s.components.resolve? (scheduleIndex d).find?) d.systems
        s.bare.systems ↔
      List.Forall₂ (IsSystemOf s.components.resolve? (scheduleIndex d).find?) d.systems
        s.systems := by
    rw [bare, List.forall₂_map_right_iff]
    simp only [isSystemOf_bare_iff]
  have hids : s.bare.systems.map System.id = s.systems.map System.id := List.map_map
  have hloops : s.bare.systems.flatMap System.loopIds = s.systems.flatMap System.loopIds := by
    rw [bare, List.flatMap_map]
    simp only [System.loopIds_bare]
  constructor
  · rintro ⟨hs, hi, hl, hschedules, hscheduleIds, hsystem⟩
    rw [hresolve, hsystems] at hs
    exact ⟨hs, hids ▸ hi, hloops ▸ hl, hschedules, hscheduleIds, hsystem⟩
  · rintro ⟨hs, hi, hl, hschedules, hscheduleIds, hsystem⟩
    refine ⟨?_, hids.trans hi, hloops.trans hl, hschedules, hscheduleIds, hsystem⟩
    rwa [hresolve, hsystems]

theorem Follows.applyMeasures {d : Document} {s : Skeleton} (h : s.Follows d)
    {measures : List Document.Measure} {stages : List (List MeasureCategory)}
    {applied : Measure.Applied} (happlied : s.applyMeasures measures stages = .ok applied) :
    applied.skeleton.Follows d := by
  obtain ⟨-, rfl⟩ := (applyMeasures_eq_ok_iff s measures stages applied).mp happlied
  rw [← follows_bare_iff, Measure.bare_writtenSkeleton, follows_bare_iff]
  exact h

end Skeleton

end HvacModel
