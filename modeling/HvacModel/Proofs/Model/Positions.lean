import HvacModel.Proofs.Model.Handles
import HvacModel.Proofs.Skeleton.Positions

/-! # A model in the order of its document

A compiled model has the systems, loops, branches and schedules of its document in their order, and
what it finds under a name is what the references to that name lead to (`Model.Follows`).  The
skeleton is in this order when it is resolved, measures keep it so, and the schedules are compiled
one by one with the links at their positions (`Document.follows_of_compile`). -/

namespace HvacModel

open Skeleton Handle HvacModel.Measure

namespace Model

/-- The handle of the component of a reference. -/
def componentId? (m : Model) (reference : String) : Option (Handle .component) :=
  (m.component? reference).map ComponentNode.id

/-- The handle of the schedule of a key. -/
def scheduleId? (m : Model) (key : String) : Option (Handle .schedule) :=
  (m.schedule? key).map CompiledSchedule.id

/-- The handles of all loops, system by system. -/
def loopIds (m : Model) : List (Handle .loop) := m.systems.flatMap System.loopIds

/-- A model has the entries of a document in their order and under their names; handles count them,
and a search by name finds the entry at the position that the name resolves to. -/
structure Follows (d : Document) (m : Model) : Prop where
  systems : List.Forall₂ (IsSystemOf m.componentId? m.scheduleId?) d.systems m.systems
  systemIds : m.systems.map System.id = positions 0 d.systems.length
  loopIds : m.loopIds = positions 0 (loopCount d)
  nodup_loopIds : m.loopIds.Nodup
  schedules : List.Forall₂ (fun s c => c.key = s.key ∧ c.name = s.name) d.schedules m.schedules
  scheduleIds : m.schedules.map CompiledSchedule.id = positions 0 d.schedules.length
  system? : ∀ name, Option.Rel (fun h s => h.get? m.systems = some s)
    ((systemIndex d).find? name) (m.system? name)
  schedule? : ∀ key, Option.Rel (fun h s => h.get? m.schedules = some s)
    ((scheduleIndex d).find? key) (m.schedule? key)
  hvacSystem : ∃ s, m.system? d.buildingInfo.hvacSystem = some s ∧ m.buildingSystem? = some s

end Model

/-! ### Schedules -/

theorem Schedule.header_of_compile {id : Handle .schedule} {s : Document.Schedule}
    {ruleDays : List Nat} {c : CompiledSchedule} (h : Schedule.compile id s ruleDays = .ok c) :
    c.id = id ∧ c.key = s.key ∧ c.name = s.name := by
  obtain ⟨week, -, rfl⟩ := (Schedule.compile_eq_ok_iff id s ruleDays c).mp h
  exact ⟨rfl, rfl, rfl⟩

section Stages

variable {d : Document} {stages : List (List MeasureCategory)} {skeleton : Skeleton}
  {applied : Applied} {schedules : List CompiledSchedule}

theorem Document.Stages.follows (h : d.Stages stages skeleton applied schedules) :
    applied.skeleton.Follows d :=
  ((Document.resolve_eq_ok_iff d skeleton).mp h.resolved).follows.applyMeasures h.applied

theorem Document.Stages.wellFormed (h : d.Stages stages skeleton applied schedules) :
    applied.skeleton.components.WellFormed := by
  obtain ⟨-, rfl⟩ := (applyMeasures_eq_ok_iff skeleton d.measures stages applied).mp h.applied
  have hresolved := ((Document.resolve_eq_ok_iff d skeleton).mp h.resolved).wellFormed
  exact hresolved.mapAttributes fun n => written _ (.component n.id) n.attributes

/-- Schedules have the handles of their links. -/
theorem Document.Stages.scheduleIds (h : d.Stages stages skeleton applied schedules) :
    schedules.map CompiledSchedule.id = positions 0 d.schedules.length := by
  have hfollows := ((Document.resolve_eq_ok_iff d skeleton).mp h.resolved).follows
  have hlength := hfollows.schedules.length_eq
  have hids : (d.schedules.zip skeleton.schedules).map (ScheduleLinks.id ∘ Prod.snd) =
      schedules.map CompiledSchedule.id :=
    (Schedule.forall₂_of_compileAll h.schedules).map_eq fun p c hc =>
      (Schedule.header_of_compile hc).1.symm
  rw [← hids, ← List.map_map, List.map_snd_zip hlength.ge, hfollows.scheduleIds]

end Stages

/-! ### Lookup -/

namespace Model

variable {d : Document} {m : Model}

theorem componentId?_eq (h : m.components.WellFormed) : m.componentId? = m.components.resolve? :=
  funext h.map_id_resolve?

theorem rel_system? (h : d.systems.map Document.System.name = m.systems.map System.name)
    (name : String) : Option.Rel (fun h s => h.get? m.systems = some s)
      ((systemIndex d).find? name) (m.system? name) := by
  rw [systemIndex, h]
  exact NameIndex.rel_find?_ofNames System.name m.systems name

theorem rel_schedule?
    (h : d.schedules.map Document.Schedule.key = m.schedules.map CompiledSchedule.key)
    (key : String) : Option.Rel (fun h s => h.get? m.schedules = some s)
      ((scheduleIndex d).find? key) (m.schedule? key) := by
  rw [scheduleIndex, h]
  exact NameIndex.rel_find?_ofNames CompiledSchedule.key m.schedules key

/-- The schedule found under a key has the handle that the key resolves to. -/
theorem scheduleId?_eq {count : Nat}
    (hids : m.schedules.map CompiledSchedule.id = positions 0 count)
    (hkeys : d.schedules.map Document.Schedule.key = m.schedules.map CompiledSchedule.key) :
    m.scheduleId? = (scheduleIndex d).find? := by
  funext key
  have hrel := rel_schedule? hkeys key
  unfold scheduleId?
  generalize (scheduleIndex d).find? key = bound, m.schedule? key = found at hrel ⊢
  cases hrel with
  | none => rfl
  | some hat => exact congrArg some (eq_of_get?_positions hids hat)

end Model

/-! ### Models -/

theorem Model.follows_of_stages {d : Document} {stages : List (List MeasureCategory)}
    {skeleton : Skeleton} {applied : Applied} {schedules : List CompiledSchedule}
    (h : d.Stages stages skeleton applied schedules) :
    (Compiled.assemble d applied schedules).model.Follows d := by
  obtain ⟨hsystems, hsystemIds, hloopIds, -, -, hbuilding⟩ := h.follows
  have hwellFormed : applied.skeleton.components.WellFormed := h.wellFormed
  have hschedules : List.Forall₂ (fun s c => c.key = s.key ∧ c.name = s.name) d.schedules
      schedules := h.forall₂_schedules.imp fun s c ⟨l, _, hc⟩ => (Schedule.header_of_compile hc).2
  have hnames : d.systems.map Document.System.name = applied.skeleton.systems.map System.name :=
    hsystems.map_eq fun s r hr => hr.name.symm
  have hkeys : d.schedules.map Document.Schedule.key = schedules.map CompiledSchedule.key :=
    hschedules.map_eq fun s c hc => hc.1.symm
  have hsystem := @rel_system? d (Compiled.assemble d applied schedules).model hnames
  refine
    { systems := ?_
      systemIds := hsystemIds
      loopIds := hloopIds
      nodup_loopIds := ?_
      schedules := hschedules
      scheduleIds := h.scheduleIds
      system? := hsystem
      schedule? := rel_schedule? hkeys
      hvacSystem := ?_ }
  · rw [componentId?_eq hwellFormed, scheduleId?_eq h.scheduleIds hkeys]
    exact hsystems
  · show (applied.skeleton.systems.flatMap System.loopIds).Nodup
    rw [hloopIds]
    exact nodup_positions 0 _
  · have hrel := hsystem d.buildingInfo.hvacSystem
    rw [hbuilding] at hrel
    generalize (Compiled.assemble d applied schedules).model.system? _ = found at hrel ⊢
    obtain ⟨hat⟩ := hrel
    exact ⟨_, rfl, hat⟩

/-- A document that compiles has a model in its order, and links with one day for every rule. -/
theorem Document.follows_of_compile (d : Document) (stages : List (List MeasureCategory))
    (c : Compiled) (h : d.compile stages = .ok c) :
    c.model.Follows d ∧
    ∃ skeleton, d.resolve = .ok skeleton ∧ List.Forall₂ IsLinked d.schedules skeleton.schedules ∧
      skeleton.schedules.map ScheduleLinks.id = positions 0 d.schedules.length ∧
      ∀ p ∈ d.schedules.zip skeleton.schedules, p.1.rules.length = p.2.ruleDays.length := by
  obtain ⟨skeleton, applied, schedules, hstages, rfl⟩ :=
    (Document.compile_eq_ok_iff d stages c).mp h
  have hfollows := ((Document.resolve_eq_ok_iff d skeleton).mp hstages.resolved).follows
  refine ⟨Model.follows_of_stages hstages, skeleton, hstages.resolved, hfollows.schedules,
    hfollows.scheduleIds, fun p hp => ?_⟩
  obtain ⟨-, hlinked⟩ := List.forall₂_iff_zip.mp hfollows.schedules
  exact (hlinked hp).2.length_eq

theorem school_follows :
    ∃ c, school.compile defaultStages = .ok c ∧ c.model.Follows school ∧
      c.model.loopIds = [⟨0⟩, ⟨1⟩] ∧
      c.model.plantLoops.map PlantLoop.demandBranches = [[⟨1⟩, ⟨0⟩]] ∧
      ∃ skeleton, school.resolve = .ok skeleton ∧
        skeleton.schedules.map ScheduleLinks.ruleDays = [[], [2, 1]] := by
  refine ⟨_, rfl, ?_⟩
  obtain ⟨hfollows, skeleton, hresolve, -⟩ :=
    Document.follows_of_compile school defaultStages _ rfl
  refine ⟨hfollows, hfollows.loopIds, rfl, skeleton, hresolve, ?_⟩
  cases hresolve
  rfl

end HvacModel
