import HvacModel.Proofs.Measure.Apply
import HvacModel.Proofs.Model.Compile
import HvacModel.Proofs.Schedule.Days
import HvacModel.Proofs.Schedule.Query
import HvacModel.Proofs.Skeleton.Handles

/-! # Handles of a compiled model

The handles of a compiled model are positions of its tables, whatever document it is made of
(`Model.HandlesInRange`): measures change attributes only, so the handles are those of the skeleton.
The positions of days are taken over from the document, so they are in range exactly when the
document uses no others; a document that is read from a raw value uses no others
(`Document.handles_of_compile`). -/

namespace HvacModel

open Skeleton HvacModel.Measure

/-- All handles of a model are positions of its tables. -/
structure Model.HandlesInRange (m : Model) : Prop where
  owners : ∀ n ∈ m.components.nodes, ∀ h, n.owner = some h → h.index < m.components.size
  subComponents : ∀ n ∈ m.components.nodes, Below m.components.size n.subComponents
  systems : ∀ s ∈ m.systems, s.HandlesInRange m.components.size m.schedules.length
  spaceType : m.building.spaceType.index < m.spaceTypes.length
  constructionSet : m.building.constructionSet.index < m.constructionSets.length
  hvacSystem : m.building.hvacSystem.index < m.systems.length

/-! ### Measures -/

/-- Measures leave the handles of a skeleton alone. -/
theorem Skeleton.HandlesInRange.written {d : Document} {s : Skeleton} (h : s.HandlesInRange d)
    (writes : List Write) : (writtenSkeleton writes s).HandlesInRange d := by
  obtain ⟨hcomponents, hsystems, hbuilding⟩ := h
  have hsize : (writtenSkeleton writes s).components.size = s.components.size := List.length_map _
  have hlength : (writtenSkeleton writes s).systems.length = s.systems.length :=
    length_mapFrom _ _ _
  have hwritten := hcomponents.mapAttributes fun n =>
    Measure.written writes (.component n.id) n.attributes
  refine ⟨hwritten, ?_, ?_⟩
  · intro system hmem
    obtain ⟨i, before, hbefore, rfl⟩ := mem_mapFrom hmem
    obtain ⟨hair, hplant, havailability⟩ := hsystems before hbefore
    rw [hsize]
    refine ⟨fun l hl => ?_, hplant, havailability⟩
    obtain ⟨j, loop, hloop, rfl⟩ := mem_mapFrom hl
    obtain ⟨hsupply, hbranches⟩ := hair loop hloop
    exact ⟨hsupply, hbranches⟩
  · rw [hlength]
    exact hbuilding

/-! ### Models -/

/-- The handles of a skeleton stay in range in the model that is assembled from it. -/
theorem handlesInRange_assemble {d : Document} {applied : Applied}
    {schedules : List CompiledSchedule} (h : applied.skeleton.HandlesInRange d)
    (hlength : schedules.length = d.schedules.length) :
    (Compiled.assemble d applied schedules).model.HandlesInRange := by
  obtain ⟨hcomponents, hsystems, hspace, hset, hsystem⟩ := h
  have hslot : ∀ n ∈ applied.skeleton.components.nodes,
      ∃ i, ∃ slot : Arena.Slot, slot.node = n ∧ i < applied.skeleton.components.size ∧
        slot.WellPlaced applied.skeleton.components.size i := by
    intro n hn
    obtain ⟨slot, hmem, rfl⟩ := List.mem_map.mp hn
    obtain ⟨i, hi⟩ := List.mem_iff_getElem?.mp hmem
    exact ⟨i, slot, rfl, (List.getElem?_eq_some_iff.mp hi).1, hcomponents.slots i slot hi⟩
  refine ⟨?_, ?_, ?_, hspace, hset, hsystem⟩
  · intro n hn id hid
    obtain ⟨i, slot, rfl, hi, hplaced⟩ := hslot n hn
    exact Nat.lt_trans (hplaced.owner id hid) hi
  · intro n hn id hid
    obtain ⟨i, slot, rfl, -, hplaced⟩ := hslot n hn
    exact (hplaced.subComponents id hid).2
  · show ∀ s ∈ applied.skeleton.systems,
      s.HandlesInRange applied.skeleton.components.size schedules.length
    rw [hlength]
    exact hsystems

/-- Each schedule of a document with what it is compiled into. -/
theorem Document.Stages.forall₂_schedules {d : Document} {stages : List (List MeasureCategory)}
    {skeleton : Skeleton} {applied : Applied} {schedules : List CompiledSchedule}
    (h : d.Stages stages skeleton applied schedules) :
    List.Forall₂ (fun s c => ∃ l, IsLinked s l ∧ Schedule.compile l.id s l.ruleDays = .ok c)
      d.schedules schedules :=
  have hlinked := ((Document.resolve_eq_ok_iff d skeleton).mp h.resolved).forall₂_schedules
  hlinked.of_zip (Schedule.forall₂_of_compileAll h.schedules)

theorem Model.handlesInRange_of_stages {d : Document} {stages : List (List MeasureCategory)}
    {skeleton : Skeleton} {applied : Applied} {schedules : List CompiledSchedule}
    (h : d.Stages stages skeleton applied schedules) :
    (Compiled.assemble d applied schedules).model.HandlesInRange := by
  have hresolution := (Document.resolve_eq_ok_iff d skeleton).mp h.resolved
  obtain ⟨-, rfl⟩ := (applyMeasures_eq_ok_iff skeleton d.measures stages applied).mp h.applied
  exact handlesInRange_assemble (hresolution.handlesInRange.written _)
    h.forall₂_schedules.length_eq.symm

/-! ### Days -/

/-- The positions of days in a model are in range when those that the document uses are. -/
theorem daysInRange_iff_of_stages {d : Document} {stages : List (List MeasureCategory)}
    {skeleton : Skeleton} {applied : Applied} {schedules : List CompiledSchedule}
    (h : d.Stages stages skeleton applied schedules) :
    (∀ c ∈ schedules, c.DaysInRange) ↔ ∀ s ∈ d.schedules, s.DaysDeclared := by
  have hall := h.forall₂_schedules
  constructor
  · intro hdays s hs
    obtain ⟨c, hc, l, hl, hcompile⟩ := hall.exists_right hs
    exact (CompiledSchedule.daysInRange_iff hl hcompile).mp (hdays c hc)
  · intro hdays c hc
    obtain ⟨s, hs, l, hl, hcompile⟩ := hall.exists_left hc
    exact (CompiledSchedule.daysInRange_iff hl hcompile).mpr (hdays s hs)

/-- A query finds its day where every schedule answers. -/
theorem Model.query_ne_dayMissing {m : Model} (h : ∀ s ∈ m.schedules, s.Answers) (key : String)
    (d : Weekday) (time : TimeOfDay) : m.query key d time ≠ .error .dayMissing := by
  unfold query
  cases hs : m.schedule? key with
  | none => simp
  | some s =>
      obtain ⟨x, hx⟩ := (h s (List.mem_of_find?_eq_some hs)).value d time
      simp [hx]

/-- The positions of days in a document that is read are in range. -/
theorem daysInRange_of_read {d : Document} {stages : List (List MeasureCategory)}
    {skeleton : Skeleton} {applied : Applied} {schedules : List CompiledSchedule}
    (h : d.Stages stages skeleton applied schedules) {v : Value}
    (hread : Document.read v = .ok d) : ∀ c ∈ schedules, c.DaysInRange := by
  intro c hc
  obtain ⟨entries, -, hentries⟩ := forall₂_schedules_of_read hread
  obtain ⟨s, hs, l, hl, hcompile⟩ := h.forall₂_schedules.exists_left hc
  obtain ⟨e, -, -, declared, rules, hof⟩ := hentries.exists_left hs
  have hdeclared : declared.length ≤ s.days.length := by
    rw [hof.days, List.length_append]
    exact Nat.le_add_right _ _
  obtain ⟨week, hweek, rfl⟩ := (Schedule.compile_eq_ok_iff l.id s l.ruleDays c).mp hcompile
  refine ⟨fun d => ?_, fun i hi => ?_, fun i hi => ?_⟩
  · obtain ⟨day, p, -, hp, -⟩ := dayOn?_of_holdingDay? hof hl.2 (hweek d)
    exact (List.getElem?_eq_some_iff.mp hp).1
  · exact Nat.lt_of_lt_of_le (hof.summer i hi) hdeclared
  · exact Nat.lt_of_lt_of_le (hof.winter i hi) hdeclared

/-- What holds of the handles of every compiled model, and when its days are in range. -/
theorem Document.handles_of_compile (d : Document) (stages : List (List MeasureCategory))
    (c : Compiled) (h : d.compile stages = .ok c) :
    c.model.HandlesInRange ∧ (∃ s, c.model.buildingSystem? = some s) ∧
    ((∀ s ∈ c.model.schedules, s.DaysInRange) ↔ ∀ s ∈ d.schedules, s.DaysDeclared) ∧
    ((∀ s ∈ c.model.schedules, s.Answers) ↔ ∀ s ∈ d.schedules, s.DaysDeclared) ∧
    ((∀ s ∈ d.schedules, s.DaysDeclared) →
      ∀ key weekday time, c.model.query key weekday time ≠ .error .dayMissing) ∧
    ∀ v, Document.read v = .ok d → ∀ s ∈ d.schedules, s.DaysDeclared := by
  obtain ⟨skeleton, applied, schedules, hstages, rfl⟩ :=
    (Document.compile_eq_ok_iff d stages c).mp h
  have hhandles := Model.handlesInRange_of_stages hstages
  have hdays := daysInRange_iff_of_stages hstages
  have hanswers : (∀ s ∈ schedules, s.Answers) ↔ ∀ s ∈ d.schedules, s.DaysDeclared := by
    simp only [CompiledSchedule.answers_iff, hdays]
  refine ⟨hhandles, ?_, hdays, hanswers, fun hdeclared => ?_, fun v hread => ?_⟩
  · exact (CompiledSchedule.exists_getElem?_iff _ _).mpr hhandles.hvacSystem
  · exact Model.query_ne_dayMissing (hanswers.mpr hdeclared)
  · exact hdays.mp (daysInRange_of_read hstages hread)

/-- A school whose terminal owns the coil that the heating loop serves, with a measure on its fan,
and a schedule with days for both seasons, whose rules select a day by its key and a day written in
place. -/
def school : Document :=
  { Document.passiveOffice "vav" with
    measures :=
      [⟨.hvacEquipment, .ofList [("fan_efficiency", .number 1), ("has_dcv", .flag true)]⟩]
    systems := [⟨"none", [], [], none, .empty⟩,
      ⟨"vav", [⟨"air", ["fan"], [⟨"east", ["rooms"]⟩, ⟨"west", ["hall"]⟩]⟩],
        [⟨"heating", .hotWater, ["pump"], ["pipe", "boiler"], ["rooms.coil", "rooms"]⟩],
        some "lessons", .empty⟩]
    components := [.mk "rooms" .reheatTerminal .empty [.mk "coil" .waterHeatingCoil .empty []],
      .mk "hall" .uncontrolledTerminal .empty [], .mk "fan" .variableVolumeFan .empty [],
      .mk "pump" .variableSpeedPump .empty [], .mk "boiler" .hotWaterBoiler .empty [],
      .mk "pipe" .adiabaticPipe .empty []]
    schedules := [⟨"always", "Always", [⟨"day", "day", [(.midnight, 1)]⟩], some 0, none, none, []⟩,
      ⟨"lessons", "Lessons",
        [⟨"off", "off", [(.midnight, 0)]⟩, ⟨"on", "on", [(.midnight, 1)]⟩,
          ⟨"short", "short", [(.midnight, 2)]⟩, ⟨"cold", "cold", [(.midnight, 3)]⟩],
        some 0, some 1, some 3,
        [⟨"weekend", "weekend", .ofList [.saturday], .inline 2⟩,
          ⟨"term", "term", .ofList [.monday, .friday], .named "on"⟩]⟩] }

/-- The coil of the school has an owner, its rules and seasons have days, and no query misses its
day. -/
theorem school_answers :
    ∃ c, school.compile defaultStages = .ok c ∧ c.model.HandlesInRange ∧
      (∀ s ∈ c.model.schedules, s.Answers) ∧
      (∀ key weekday time, c.model.query key weekday time ≠ .error .dayMissing) ∧
      c.model.components.nodes.map ComponentNode.owner =
        [none, some ⟨0⟩, none, none, none, none, none] ∧
      c.model.schedules.map (fun s => (s.week.get .monday, s.week.get .saturday)) =
        [(0, 0), (1, 2)] ∧
      c.model.schedules.map (fun s => (s.summerDesignDay, s.winterDesignDay)) =
        [(none, none), (some 1, some 3)] := by
  obtain ⟨c, hc⟩ : ∃ c, school.compile defaultStages = .ok c := ⟨_, rfl⟩
  obtain ⟨hhandles, -, -, hanswers, hqueries, -⟩ :=
    Document.handles_of_compile school defaultStages c hc
  have hdeclared : ∀ s ∈ school.schedules, s.DaysDeclared := by
    intro s hs
    simp only [school, List.mem_cons, List.not_mem_nil, or_false] at hs
    obtain rfl | rfl := hs
    all_goals
      refine ⟨fun d i hi => ?_, fun i hi => ?_, fun i hi => ?_⟩
      · cases d <;> cases hi <;> decide
      · cases hi <;> decide
      · cases hi <;> decide
  refine ⟨c, hc, hhandles, hanswers.mpr hdeclared, hqueries hdeclared, ?_⟩
  cases hc
  exact ⟨rfl, rfl, rfl⟩

/-- A building with one schedule of one day, whose default day is at a given position. -/
def meetingRoom (position : Nat) : Document :=
  { Document.passiveOffice "none" with
    schedules := [⟨"meetings", "meetings", [⟨"default_day", "default_day", [(.midnight, 5)]⟩],
      some position, none, none, []⟩] }

/-- A typed document may point beyond its days: it compiles, and its week has no day. -/
theorem meetingRoom_dayMissing :
    ∃ c, (meetingRoom 9).compile defaultStages = .ok c ∧
      (∃ s ∈ c.model.schedules, ¬s.week.get .monday < s.days.length) ∧
      c.model.query "meetings" .monday .midnight = .error .dayMissing := by
  refine ⟨_, rfl, ⟨_, List.mem_cons_self, ?_⟩, rfl⟩
  show ¬9 < 1
  decide

end HvacModel
