import Mathlib.Data.Finset.Card
import Mathlib.Data.List.Nodup
import HvacModel.Proofs.Measure.Targeted
import HvacModel.Proofs.Skeleton.Resolve

/-! # Applying measures

A stage is settled on the first write to each place (`find?_settle`), so the writes kept for a stage
have different places and the value kept for a place is the one that the stage writes first
(`find?_keptWrites`).  Making all kept writes in turn leaves the last one of a place
(`find?_written`).  Together they say what measures do to a skeleton
(`Skeleton.attributes_of_applyMeasures`): each attribute has the value of the last stage that
targets it or is what it was, all else is untouched, and one write is counted for each place that a
stage targets. -/

namespace HvacModel

namespace Measure

variable (skeleton : Skeleton)

/-! ### Entities of a target -/

theorem mem_airLoopsFrom (position : Nat) (systems : List Skeleton.System) (e : Entity) :
    e ∈ airLoopsFrom position systems ↔ ∃ i j s, e = .airLoop (position + i) j ∧
      systems[i]? = some s ∧ j < s.airLoops.length := by
  induction systems generalizing position with
  | nil => simp [airLoopsFrom]
  | cons s rest ih =>
      rw [airLoopsFrom, List.mem_append, List.mem_map, ih]
      constructor
      · rintro (⟨j, hj, rfl⟩ | ⟨i, j, t, rfl, ht, hj⟩)
        · exact ⟨0, j, s, rfl, rfl, List.mem_range.mp hj⟩
        · exact ⟨i + 1, j, t, by rw [Nat.add_assoc, Nat.add_comm 1], ht, hj⟩
      · rintro ⟨i, j, t, rfl, ht, hj⟩
        cases i with
        | zero =>
            cases ht
            exact .inl ⟨j, List.mem_range.mpr hj, rfl⟩
        | succ i => exact .inr ⟨i, j, t, by rw [Nat.add_assoc, Nat.add_comm 1], ht, hj⟩

variable {skeleton}

/-- In a well-formed arena a component is found by its handle. -/
theorem node?_eq_some_iff {a : Arena} (ha : a.WellFormed) (id : Handle .component)
    (n : ComponentNode) : a.node? id = some n ↔ n ∈ a.nodes ∧ n.id = id := by
  unfold Arena.node? Arena.nodes
  constructor
  · intro h
    obtain ⟨slot, hslot, rfl⟩ := Option.map_eq_some_iff.mp h
    exact ⟨List.mem_map_of_mem (List.mem_of_getElem? hslot), (ha.slots id.index slot hslot).id⟩
  · rintro ⟨hn, rfl⟩
    obtain ⟨slot, hslot, rfl⟩ := List.mem_map.mp hn
    obtain ⟨i, hi⟩ := List.mem_iff_getElem?.mp hslot
    rw [(ha.slots i slot hi).id, hi]
    rfl

/-- The entities listed for a target are those that it reaches. -/
theorem mem_entities (ha : skeleton.components.WellFormed) (target : Target) (e : Entity) :
    e ∈ target.entities skeleton ↔ target.reaches skeleton e = true := by
  unfold Target.entities Target.reaches
  cases target.scope with
  | airLoops =>
      rw [mem_airLoopsFrom]
      cases e with
      | airLoop system index =>
          simp only [Entity.airLoop.injEq, Nat.zero_add, Option.isSome_iff_exists,
            Option.bind_eq_some_iff]
          constructor
          · rintro ⟨i, j, s, ⟨rfl, rfl⟩, hs, hj⟩
            exact ⟨s.airLoops[index], s, hs, List.getElem?_eq_getElem hj⟩
          · rintro ⟨l, s, hs, hl⟩
            exact ⟨system, index, s, ⟨rfl, rfl⟩, hs, (List.getElem?_eq_some_iff.mp hl).1⟩
      | component id => simp
  | equipment classes =>
      cases e with
      | airLoop system index => simp
      | component id =>
          simp only [List.mem_map, List.mem_filter, Entity.component.injEq]
          constructor
          · rintro ⟨n, ⟨hn, hclass⟩, hid⟩
            rw [(node?_eq_some_iff ha id n).mpr ⟨hn, hid⟩]
            exact hclass
          · intro h
            cases hn : skeleton.components.node? id with
            | none => simp [hn] at h
            | some n =>
                rw [hn] at h
                obtain ⟨hmem, hid⟩ := (node?_eq_some_iff ha id n).mp hn
                exact ⟨n, ⟨hmem, h⟩, hid⟩

/-! ### Writes of a stage -/

theorem find?_overrideWrites (ha : skeleton.components.WellFormed) (o : Override) (place : Place) :
    ((overrideWrites skeleton o.category (o.key, o.value)).find? fun w => w.place = place).map
      Write.value = if o.hits skeleton place then some o.value else none := by
  unfold overrideWrites Override.hits
  dsimp only
  cases target? o.category o.key with
  | none => simp
  | some target =>
      obtain ⟨entity, name⟩ := place
      dsimp only
      rw [List.find?_map, Option.map_map]
      have hmem := mem_entities ha target entity
      cases hf : (target.entities skeleton).find?
          ((fun w : Write => decide (w.place = ⟨entity, name⟩)) ∘
            fun e => ⟨⟨e, target.name⟩, o.value, ⟨o.category, o.key⟩⟩) with
      | none =>
          rw [List.find?_eq_none] at hf
          have hmiss : ¬(decide (target.name = name) && target.reaches skeleton entity) = true := by
            rw [Bool.and_eq_true, decide_eq_true_eq, ← hmem]
            rintro ⟨rfl, he⟩
            exact hf entity he (by simp)
          rw [if_neg hmiss]
          rfl
      | some e =>
          have he := List.mem_of_find?_eq_some hf
          have hp := List.find?_some hf
          simp only [Function.comp_apply, decide_eq_true_eq, Place.mk.injEq] at hp
          obtain ⟨rfl, rfl⟩ := hp
          rw [if_pos (by simp [hmem.mp he])]
          rfl

theorem stageWrites_eq (measures : List Document.Measure) (stage : List MeasureCategory) :
    stageWrites skeleton measures stage = (stageOverrides measures stage).flatMap fun o =>
      overrideWrites skeleton o.category (o.key, o.value) := by
  unfold stageWrites stageOverrides
  rw [List.flatMap_assoc]
  simp only [List.flatMap_map]

/-- The first write of a stage to a place has the value of the first override that hits it. -/
theorem find?_stageWrites (ha : skeleton.components.WellFormed)
    (measures : List Document.Measure) (stage : List MeasureCategory) (place : Place) :
    ((stageWrites skeleton measures stage).find? fun w => w.place = place).map Write.value =
      firstWrite? skeleton measures place stage := by
  rw [stageWrites_eq, firstWrite?]
  induction stageOverrides measures stage with
  | nil => rfl
  | cons o rest ih =>
      have ho := find?_overrideWrites ha o place
      rw [List.flatMap_cons, List.find?_append, Option.map_or, ih, ho]
      by_cases h : o.hits skeleton place = true
      · rw [if_pos h, List.find?_cons_of_pos (by simpa using h)]
        rfl
      · rw [if_neg h, List.find?_cons_of_neg (by simpa using h)]
        rfl

/-! ### Settling a stage -/

/-- Settling keeps the first write to each place. -/
theorem find?_settle (kept writes : List Write) (place : Place) :
    (settle kept writes).1.find? (fun w => w.place = place) =
      (kept ++ writes).find? fun w => w.place = place := by
  induction writes generalizing kept with
  | nil => rw [settle, List.append_nil]
  | cons w rest ih =>
      rw [settle]
      cases hk : kept.find? fun k => k.place = w.place with
      | none =>
          dsimp only
          rw [ih, List.append_assoc]
          rfl
      | some first =>
          dsimp only
          rw [ih, List.find?_append, List.find?_append]
          by_cases h : w.place = place
          · rw [← h, hk]
            rfl
          · rw [List.find?_cons_of_neg (by simpa using h)]

/-- The places of the kept writes are different. -/
theorem nodup_settle {kept : List Write} (h : (kept.map Write.place).Nodup) (writes : List Write) :
    ((settle kept writes).1.map Write.place).Nodup := by
  induction writes generalizing kept with
  | nil => exact h
  | cons w rest ih =>
      rw [settle]
      cases hk : kept.find? fun k => k.place = w.place with
      | none =>
          apply ih
          rw [List.map_append, List.nodup_append]
          refine ⟨h, List.nodup_singleton _, ?_⟩
          rintro _ hmem _ hw rfl
          obtain ⟨k, hkmem, hplace⟩ := List.mem_map.mp hmem
          rw [List.map_singleton, List.mem_singleton] at hw
          exact List.find?_eq_none.mp hk k hkmem (by simpa using hplace.trans hw)
      | some first => exact ih h

theorem nodup_keptWrites (measures : List Document.Measure) (stage : List MeasureCategory) :
    ((keptWrites skeleton measures stage).map Write.place).Nodup :=
  @nodup_settle [] List.nodup_nil _

/-- The value that is kept for a place is the first that the stage writes there. -/
theorem find?_keptWrites (ha : skeleton.components.WellFormed) (measures : List Document.Measure)
    (stage : List MeasureCategory) (place : Place) :
    ((keptWrites skeleton measures stage).find? fun w => w.place = place).map Write.value =
      firstWrite? skeleton measures place stage := by
  rw [keptWrites, find?_settle, List.nil_append, find?_stageWrites ha]

/-! ### Making the writes -/

/-- After a sequence of writes a name has the value of the last one to it. -/
theorem find?_written (writes : List Write) (entity : Entity) (attributes : Attributes)
    (name : String) :
    (written writes entity attributes).find? name =
      ((writes.filter fun w => w.place = ⟨entity, name⟩).getLast?.map Write.value).or
        (attributes.find? name) := by
  unfold written
  induction writes generalizing attributes with
  | nil => rfl
  | cons w rest ih =>
      obtain ⟨⟨e, n⟩, value, source⟩ := w
      by_cases he : e = entity
      · subst he
        rw [List.filter_cons_of_pos (by simp), List.foldl_cons, ih, NameMap.find?_insert]
        by_cases hn : name = n
        · subst hn
          rw [if_pos rfl, List.filter_cons_of_pos (by simp), List.getLast?_cons]
          cases (rest.filter fun w => decide (w.place = ⟨e, name⟩)).getLast? <;> rfl
        · rw [if_neg hn, List.filter_cons_of_neg (by simpa using fun h => hn h.symm)]
      · rw [List.filter_cons_of_neg (by simpa using he), ih,
          List.filter_cons_of_neg (by simp [he])]

/-- Among writes to different places there is at most one to each. -/
theorem filter_place_eq {writes : List Write} (h : (writes.map Write.place).Nodup)
    (place : Place) : (writes.filter fun w => w.place = place) =
      (writes.find? fun w => w.place = place).toList := by
  induction writes with
  | nil => rfl
  | cons w rest ih =>
      obtain ⟨hw, hrest⟩ := List.nodup_cons.mp h
      by_cases hp : w.place = place
      · rw [List.filter_cons_of_pos (by simpa using hp), List.find?_cons_of_pos (by simpa using hp)]
        have hnone : rest.filter (fun w => w.place = place) = [] := by
          rw [List.filter_eq_nil_iff]
          intro v hv hplace
          exact hw (List.mem_map.mpr ⟨v, hv, by simpa [hp] using hplace⟩)
        rw [hnone]
        rfl
      · rw [List.filter_cons_of_neg (by simpa using hp), List.find?_cons_of_neg (by simpa using hp),
          ih hrest]

/-- Between stages the last one holds. -/
theorem getLast?_keptWrites (ha : skeleton.components.WellFormed)
    (measures : List Document.Measure) (stages : List (List MeasureCategory)) (place : Place) :
    ((stages.flatMap (keptWrites skeleton measures)).filter fun w => w.place = place).getLast?.map
      Write.value = lastWrite? skeleton measures stages place := by
  have hfilter : ((stages.flatMap (keptWrites skeleton measures)).filter fun w => w.place = place) =
      stages.filterMap fun stage =>
        (keptWrites skeleton measures stage).find? fun w => w.place = place := by
    rw [List.filter_flatMap, List.filterMap_eq_flatMap_toList]
    simp only [filter_place_eq (nodup_keptWrites measures _)]
  rw [hfilter, ← List.getLast?_map, List.map_filterMap, lastWrite?]
  simp only [find?_keptWrites ha]

theorem getElem?_mapFrom {α β : Type} (f : Nat → α → β) (first : Nat) (list : List α) (i : Nat) :
    (mapFrom f first list)[i]? = list[i]?.map (f (first + i)) := by
  induction list generalizing first i with
  | nil => rfl
  | cons a rest ih =>
      cases i with
      | zero => rfl
      | succ i =>
          rw [mapFrom, List.getElem?_cons_succ, List.getElem?_cons_succ, ih, Nat.add_assoc,
            Nat.add_comm 1]

/-- A member of a changed list is the change of a member. -/
theorem mem_mapFrom {α β : Type} {f : Nat → α → β} {first : Nat} {list : List α} {b : β}
    (h : b ∈ mapFrom f first list) : ∃ i, ∃ a ∈ list, b = f i a := by
  obtain ⟨i, hi⟩ := List.mem_iff_getElem?.mp h
  rw [getElem?_mapFrom, Option.map_eq_some_iff] at hi
  obtain ⟨a, ha, rfl⟩ := hi
  exact ⟨first + i, a, List.mem_of_getElem? ha, rfl⟩

theorem length_mapFrom {α β : Type} (f : Nat → α → β) (first : Nat) (list : List α) :
    (mapFrom f first list).length = list.length := by
  induction list generalizing first with
  | nil => rfl
  | cons a rest ih => exact congrArg Nat.succ (ih _)

/-- A change that another one forgets. -/
theorem map_mapFrom {α β γ : Type} {f : Nat → α → β} {g : β → γ} {h : α → γ}
    (hf : ∀ i a, g (f i a) = h a) (first : Nat) (list : List α) :
    (mapFrom f first list).map g = list.map h := by
  induction list generalizing first with
  | nil => rfl
  | cons a rest ih => rw [mapFrom, List.map_cons, List.map_cons, hf, ih]

theorem attributes?_writtenSkeleton (ha : skeleton.components.WellFormed) (writes : List Write)
    (entity : Entity) : entity.attributes? (writtenSkeleton writes skeleton) =
      (entity.attributes? skeleton).map (written writes entity) := by
  cases entity with
  | airLoop system index =>
      simp only [Entity.attributes?, writtenSkeleton, getElem?_mapFrom, Nat.zero_add]
      cases skeleton.systems[system]? with
      | none => rfl
      | some s =>
          simp only [Option.map_some, Option.bind_some, writtenSystem, getElem?_mapFrom,
            Nat.zero_add, Option.map_map]
          rfl
  | component id =>
      simp only [Entity.attributes?, writtenSkeleton, Arena.mapAttributes, Arena.node?,
        List.getElem?_map, Option.map_map]
      cases h : skeleton.components.slots[id.index]? with
      | none => rfl
      | some slot =>
          have hid : slot.node.id = id := (ha.slots id.index slot h).id
          simp only [Option.map_some, Function.comp_apply, hid]

/-- Writes touch attributes only. -/
theorem bare_writtenSkeleton (writes : List Write) :
    (writtenSkeleton writes skeleton).bare = skeleton.bare := by
  unfold Skeleton.bare writtenSkeleton
  have hsystems : (mapFrom (writtenSystem writes) 0 skeleton.systems).map Skeleton.System.bare =
      skeleton.systems.map Skeleton.System.bare := by
    apply map_mapFrom
    intro i s
    have hloops := map_mapFrom (f := writtenAirLoop writes i)
      (g := fun l => { l with attributes := .empty })
      (h := fun l => { l with attributes := .empty }) (fun j l => rfl) 0 s.airLoops
    exact congrArg (fun loops => { s with airLoops := loops }) hloops
  dsimp only
  rw [hsystems]
  simp only [Arena.mapAttributes, List.map_map, Function.comp_def]

/-! ### Counting the writes -/

/-- The places that the stages from a number on write to, with the numbers of the stages. -/
def touchedFrom (skeleton : Skeleton) (measures : List Document.Measure) (number : Nat) :
    List (List MeasureCategory) → List (Nat × Place)
  | [] => []
  | stage :: rest =>
    (keptWrites skeleton measures stage).map (fun w => (number, w.place)) ++
      touchedFrom skeleton measures (number + 1) rest

theorem length_touchedFrom (measures : List Document.Measure) (number : Nat)
    (stages : List (List MeasureCategory)) :
    (touchedFrom skeleton measures number stages).length =
      (stages.flatMap (keptWrites skeleton measures)).length := by
  induction stages generalizing number with
  | nil => rfl
  | cons stage rest ih =>
      rw [touchedFrom, List.flatMap_cons, List.length_append, List.length_append, List.length_map,
        ih]

theorem mem_touchedFrom (ha : skeleton.components.WellFormed) (measures : List Document.Measure)
    (number : Nat) (stages : List (List MeasureCategory)) (i : Nat) (place : Place) :
    (i, place) ∈ touchedFrom skeleton measures number stages ↔
      ∃ j stage, i = number + j ∧ stages[j]? = some stage ∧
        ∃ o ∈ stageOverrides measures stage, o.hits skeleton place = true := by
  have hkept : ∀ stage, (∃ w ∈ keptWrites skeleton measures stage, w.place = place) ↔
      ∃ o ∈ stageOverrides measures stage, o.hits skeleton place = true := by
    intro stage
    have h := congrArg Option.isSome (find?_keptWrites ha measures stage place)
    rw [firstWrite?, Option.isSome_map, Option.isSome_map, Bool.eq_iff_iff,
      List.find?_isSome, List.find?_isSome] at h
    simpa using h
  induction stages generalizing number with
  | nil => simp [touchedFrom]
  | cons stage rest ih =>
      rw [touchedFrom, List.mem_append, List.mem_map]
      constructor
      · rintro (⟨w, hw, heq⟩ | htouched)
        · rw [Prod.mk.injEq] at heq
          obtain ⟨rfl, hplace⟩ := heq
          exact ⟨0, stage, rfl, rfl, (hkept stage).mp ⟨w, hw, hplace⟩⟩
        · obtain ⟨j, later, rfl, hj, ho⟩ := (ih (number + 1)).mp htouched
          exact ⟨j + 1, later, by omega, hj, ho⟩
      · rintro ⟨j, later, rfl, hj, ho⟩
        cases j with
        | zero =>
            cases hj
            obtain ⟨w, hw, hplace⟩ := (hkept stage).mpr ho
            exact .inl ⟨w, hw, by rw [hplace]; rfl⟩
        | succ j => exact .inr ((ih (number + 1)).mpr ⟨j, later, by omega, hj, ho⟩)

theorem nodup_touchedFrom (ha : skeleton.components.WellFormed) (measures : List Document.Measure)
    (number : Nat) (stages : List (List MeasureCategory)) :
    (touchedFrom skeleton measures number stages).Nodup := by
  induction stages generalizing number with
  | nil => exact List.nodup_nil
  | cons stage rest ih =>
      rw [touchedFrom, List.nodup_append]
      refine ⟨?_, ih (number + 1), ?_⟩
      · have hplaces := (@nodup_keptWrites skeleton measures stage).map
          (f := fun place => (number, place)) fun p q h => (Prod.mk.inj h).2
        rwa [List.map_map] at hplaces
      · rintro _ hmem ⟨i, place⟩ htouched rfl
        obtain ⟨w, -, heq⟩ := List.mem_map.mp hmem
        obtain ⟨j, _, hi, -⟩ := (mem_touchedFrom ha measures _ _ i place).mp htouched
        have := (Prod.mk.inj heq).1
        omega

end Measure

/-! ### Skeletons with measures applied -/

open HvacModel.Measure

theorem Skeleton.applyMeasures_eq_ok_iff (skeleton : Skeleton) (measures : List Document.Measure)
    (stages : List (List MeasureCategory)) (applied : Applied) :
    skeleton.applyMeasures measures stages = .ok applied ↔
      conflictsFrom skeleton measures 0 stages = [] ∧
      applied = ⟨writtenSkeleton (stages.flatMap (keptWrites skeleton measures)) skeleton,
        (stages.flatMap (keptWrites skeleton measures)).length, unstaged measures stages⟩ := by
  unfold applyMeasures
  cases conflictsFrom skeleton measures 0 stages with
  | nil => simp [eq_comm]
  | cons conflict rest => simp

/-- What measures do to the skeleton of a document. -/
theorem Skeleton.attributes_of_applyMeasures (d : Document) (skeleton : Skeleton)
    (hd : d.resolve = .ok skeleton) (measures : List Document.Measure)
    (stages : List (List MeasureCategory)) (applied : Applied)
    (h : skeleton.applyMeasures measures stages = .ok applied) :
    (∀ (e : Measure.Entity) (before : Attributes), e.attributes? skeleton = some before →
      ∃ after, e.attributes? applied.skeleton = some after ∧ ∀ name, after.find? name =
        (lastWrite? skeleton measures stages ⟨e, name⟩).or (before.find? name)) ∧
    applied.skeleton.bare = skeleton.bare ∧
    ∃ targeted : Finset (Nat × Place), applied.writes = targeted.card ∧
      ∀ i place, (i, place) ∈ targeted ↔ ∃ stage, stages[i]? = some stage ∧
        ∃ o ∈ stageOverrides measures stage, o.hits skeleton place = true := by
  have ha := ((Document.resolve_eq_ok_iff d skeleton).mp hd).wellFormed
  obtain ⟨-, rfl⟩ := (applyMeasures_eq_ok_iff skeleton measures stages applied).mp h
  refine ⟨fun e before he => ?_, bare_writtenSkeleton _, ?_⟩
  · refine ⟨written (stages.flatMap (keptWrites skeleton measures)) e before, ?_, fun name => ?_⟩
    · rw [attributes?_writtenSkeleton ha, he]
      rfl
    · rw [find?_written, getLast?_keptWrites ha]
  · refine ⟨(touchedFrom skeleton measures 0 stages).toFinset, ?_, fun i place => ?_⟩
    · rw [List.toFinset_card_of_nodup (nodup_touchedFrom ha measures 0 stages),
        length_touchedFrom]
    · rw [List.mem_toFinset, mem_touchedFrom ha]
      simp only [Nat.zero_add]
      constructor
      · rintro ⟨j, stage, rfl, hj, ho⟩
        exact ⟨stage, hj, ho⟩
      · rintro ⟨stage, hj, ho⟩
        exact ⟨i, stage, rfl, hj, ho⟩

/-- A document of an office with one construction set and one type of rooms, which uses a system of
a given name, and has no loops and components. -/
def Document.passiveOffice (system : String) : Document :=
  { measures := []
    systems := [⟨"none", [], [], none, .empty⟩]
    components := []
    schedules := []
    constructionSets := [⟨"walls", ⟨"Office", 2004, "5A", "90.1"⟩, .empty⟩]
    spaceTypes := [⟨"room", "Room", ⟨"Office", 2004, "5A", "90.1"⟩, .empty⟩]
    runInfo := ⟨"u", "out", "tmp", 2024, 6, .empty⟩
    buildingInfo := ⟨"room", "walls", system, .empty⟩ }

/-- A system of one air loop with a fan, and a pump beside it. -/
def ventilation : Document :=
  { Document.passiveOffice "vav" with
    systems := [⟨"vav", [⟨"supply", ["fan"], []⟩], [], none, .empty⟩]
    components :=
      [.mk "fan" .variableVolumeFan .empty [], .mk "pump" .variableSpeedPump .empty []] }

/-- Measures of both stages that write one attribute of the air loop. -/
def ventilationMeasures : List Document.Measure :=
  [⟨.hvacControls, .ofList [("has_dcv", .flag true)]⟩,
    ⟨.hvacEquipment, .ofList [("has_dcv", .flag false), ("night_cycle", .text "CycleOnAny")]⟩]

/-- The later stage decides. -/
theorem has_dcv_of_ventilation :
    ∃ s a, ventilation.resolve = .ok s ∧
      s.applyMeasures ventilationMeasures defaultStages = .ok a ∧ a.skeleton.bare = s.bare ∧
      ∃ after, (Measure.Entity.airLoop 0 0).attributes? a.skeleton = some after ∧
        after.find? "has_dcv" = some (.flag false) := by
  refine ⟨_, _, rfl, rfl, ?_⟩
  obtain ⟨hwritten, hbare, -⟩ := Skeleton.attributes_of_applyMeasures ventilation _ rfl
    ventilationMeasures defaultStages _ rfl
  refine ⟨hbare, ?_⟩
  obtain ⟨after, hafter, hnames⟩ := hwritten (.airLoop 0 0) .empty rfl
  exact ⟨after, hafter, hnames "has_dcv"⟩

end HvacModel
