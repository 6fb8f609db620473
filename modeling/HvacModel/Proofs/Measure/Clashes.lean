import HvacModel.Proofs.Measure.Overlap
import HvacModel.Proofs.Rearrangement.Compile

/-! # Clashing overrides

The writes of a stage to one place are those of the overrides that hit it, in their order
(`filter_stageWrites`).  The conflicts of the stage there compare every one of them with the first
(`filter_disagreements`), so they are read off the overrides of the place alone (`Override.clashes`),
and writes to other places have no part in them.

Measures are refused exactly when two overrides of a stage write different values to one place, the
first one or not, whatever the order of the measures and of the categories of a stage; and the
conflicts of a stage at a place are one for each override whose value is not that of the first
(`Skeleton.conflicts_exact`). -/

namespace HvacModel

namespace Measure

variable {skeleton : Skeleton}

/-! ### Overrides of a place -/

/-- The write of an override to a place. -/
def Override.write (o : Override) (place : Place) : Write :=
  ⟨place, o.value, ⟨o.category, o.key⟩⟩

/-- The overrides of a stage that write to a place, in their order. -/
def overridesAt (skeleton : Skeleton) (measures : List Document.Measure)
    (stage : List MeasureCategory) (place : Place) : List Override :=
  (stageOverrides measures stage).filter fun o => o.hits skeleton place

/-- The conflicts of overrides that write to one place: each later one that does not have the value
of the first is in conflict with the first. -/
def Override.clashes (skeleton : Skeleton) (number : Nat) (place : Place) :
    List Override → List Conflict
  | [] => []
  | first :: later => (later.filter fun o => !first.value.same o.value).map fun o =>
      ⟨number, place.entity.describe skeleton, first.write place, o.write place⟩

/-- Two overrides of a stage that write different values to one place. -/
def Clash (skeleton : Skeleton) (measures : List Document.Measure)
    (stage : List MeasureCategory) : Prop :=
  ∃ (place : Place) (o o' : Override), [o, o'].Sublist (stageOverrides measures stage) ∧
    o.hits skeleton place = true ∧ o'.hits skeleton place = true ∧ ¬o.value.same o'.value = true

/-- An override writes to a place at most once. -/
theorem filter_overrideWrites (ha : skeleton.components.WellFormed) (o : Override) (place : Place) :
    (overrideWrites skeleton o.category (o.key, o.value)).filter (fun w => w.place = place) =
      if o.hits skeleton place then [o.write place] else [] := by
  have hplaces : ((overrideWrites skeleton o.category (o.key, o.value)).map Write.place).Nodup :=
    List.pairwise_map.mpr (pairwise_overrideWrites ha o.category (o.key, o.value))
  have hvalue := find?_overrideWrites ha o place
  rw [filter_place_eq hplaces]
  cases hf : (overrideWrites skeleton o.category (o.key, o.value)).find?
      fun w => w.place = place with
  | none =>
      rw [hf] at hvalue
      have hmiss : ¬o.hits skeleton place = true := fun h => by simp [h] at hvalue
      rw [if_neg hmiss]
      rfl
  | some w =>
      rw [hf] at hvalue
      have hhits : o.hits skeleton place = true := by
        by_contra h
        simp [h] at hvalue
      rw [if_pos hhits, Option.map_some, Option.some.injEq] at hvalue
      have hplace : w.place = place := by simpa using List.find?_some hf
      have hsource : w.source = ⟨o.category, o.key⟩ :=
        (mem_overrideWrites ha (List.mem_of_find?_eq_some hf)).1
      have hw : w = o.write place := by
        show w = ⟨place, o.value, ⟨o.category, o.key⟩⟩
        rw [← hplace, ← hvalue, ← hsource]
      rw [if_pos hhits, hw]
      rfl

/-- The writes of a stage to a place are those of the overrides that hit it. -/
theorem filter_stageWrites (ha : skeleton.components.WellFormed)
    (measures : List Document.Measure) (stage : List MeasureCategory) (place : Place) :
    (stageWrites skeleton measures stage).filter (fun w => w.place = place) =
      (overridesAt skeleton measures stage place).map fun o => o.write place := by
  rw [stageWrites_eq, overridesAt, List.filter_flatMap]
  induction stageOverrides measures stage with
  | nil => rfl
  | cons o rest ih =>
      rw [List.flatMap_cons, filter_overrideWrites ha, ih]
      by_cases h : o.hits skeleton place = true
      · rw [if_pos h, List.filter_cons_of_pos (by simpa using h)]
        rfl
      · rw [if_neg h, List.filter_cons_of_neg (by simpa using h)]
        rfl

/-! ### Whether there is a conflict -/

/-- Writes agree when those to each place have the same value. -/
theorem pairwise_agrees_iff (writes : List Write) : writes.Pairwise Write.Agrees ↔
    ∀ place, (writes.filter fun w => w.place = place).Pairwise
      fun v w => v.value.same w.value = true := by
  constructor
  · intro h place
    rw [List.pairwise_filter]
    refine h.imp fun hagree hv hw => hagree ?_
    rw [decide_eq_true_eq] at hv hw
    rw [hv, hw]
  · intro h
    rw [List.pairwise_iff_forall_sublist]
    intro v w hvw hplace
    have hat := List.pairwise_filter.mp (h w.place)
    exact (List.pairwise_iff_forall_sublist.mp hat) hvw (by simpa using hplace) (by simp)

/-- A stage has a conflict exactly when two of its overrides clash. -/
theorem not_pairwise_agrees_iff (ha : skeleton.components.WellFormed)
    (measures : List Document.Measure) (stage : List MeasureCategory) :
    ¬(stageWrites skeleton measures stage).Pairwise Write.Agrees ↔
      Clash skeleton measures stage := by
  have hpairs : (stageWrites skeleton measures stage).Pairwise Write.Agrees ↔
      ∀ (place : Place) (o o' : Override), [o, o'].Sublist (stageOverrides measures stage) →
        o.hits skeleton place = true → o'.hits skeleton place = true →
          o.value.same o'.value = true := by
    rw [pairwise_agrees_iff]
    refine forall_congr' fun place => ?_
    rw [filter_stageWrites ha, List.pairwise_map, overridesAt, List.pairwise_filter,
      List.pairwise_iff_forall_sublist]
    rfl
  rw [hpairs, Clash]
  simp only [not_forall, exists_prop]

/-! ### Which conflicts there are -/

/-- A write is compared with writes to its own place only. -/
theorem disagreement?_filter (before : List Write) (w : Write) :
    disagreement? (before.filter fun k => k.place = w.place) w = disagreement? before w := by
  unfold disagreement?
  simp only [List.find?_filter, and_self, decide_eq_true_eq]

/-- The later write of a disagreement is the one that was compared. -/
theorem snd_of_disagreement? {before : List Write} {w : Write} {pair : Write × Write}
    (h : disagreement? before w = some pair) : pair.2 = w := by
  obtain ⟨first, -, hpair⟩ := Option.bind_eq_some_iff.mp h
  split at hpair
  · cases hpair
  · cases hpair
    rfl

/-- The disagreements at a place are those among the writes to the place. -/
theorem filter_disagreements (before writes : List Write) (place : Place) :
    ((splitsFrom before writes).filterMap fun s => disagreement? s.1 s.2).filter
        (fun pair => pair.2.place = place) =
      (splitsFrom (before.filter fun w => w.place = place)
        (writes.filter fun w => w.place = place)).filterMap fun s => disagreement? s.1 s.2 := by
  induction writes generalizing before with
  | nil => rfl
  | cons w rest ih =>
      have hrest := ih (before ++ [w])
      rw [splitsFrom, List.filterMap_cons]
      by_cases hp : w.place = place
      · subst hp
        rw [List.filter_append, List.filter_cons_of_pos (by simp), List.filter_nil] at hrest
        rw [List.filter_cons_of_pos (by simp), splitsFrom, List.filterMap_cons,
          disagreement?_filter, ← hrest]
        cases hd : disagreement? before w with
        | none => rfl
        | some pair =>
            have hpair : decide (pair.2.place = w.place) = true := by
              simp [snd_of_disagreement? hd]
            exact List.filter_cons_of_pos hpair
      · rw [List.filter_append, List.filter_cons_of_neg (by simpa using hp), List.filter_nil,
          List.append_nil] at hrest
        rw [List.filter_cons_of_neg (by simpa using hp), ← hrest]
        cases hd : disagreement? before w with
        | none => rfl
        | some pair =>
            have hpair : ¬decide (pair.2.place = place) = true := by
              simpa [snd_of_disagreement? hd] using hp
            exact List.filter_cons_of_neg hpair

/-- Writes to the place of an earlier one disagree with it where their values differ. -/
theorem disagreements_eq {first : Write} {later : List Write}
    (h : ∀ w ∈ later, first.place = w.place) (before : List Write) :
    ((splitsFrom (first :: before) later).filterMap fun s => disagreement? s.1 s.2) =
      (later.filter fun w => !first.value.same w.value).map fun w => (first, w) := by
  induction later generalizing before with
  | nil => rfl
  | cons w rest ih =>
      obtain ⟨hw, hrest⟩ := List.forall_mem_cons.mp h
      have hfirst : disagreement? (first :: before) w =
          if first.value.same w.value then none else some (first, w) := by
        rw [disagreement?, List.find?_cons_of_pos (by simpa using hw), Option.bind_some]
      rw [splitsFrom, List.filterMap_cons, hfirst, List.cons_append, ih hrest]
      by_cases hs : first.value.same w.value = true
      · rw [if_pos hs, List.filter_cons_of_neg (by simpa using hs)]
      · rw [if_neg hs, List.filter_cons_of_pos (by simpa using hs)]
        rfl

/-- The conflicts of a stage at a place. -/
theorem filter_conflictsOfStage (ha : skeleton.components.WellFormed)
    (measures : List Document.Measure) (number : Nat) (stage : List MeasureCategory)
    (place : Place) :
    (skeleton.conflictsOfStage measures number stage).filter (fun k => k.second.place = place) =
      Override.clashes skeleton number place (overridesAt skeleton measures stage place) := by
  have hpairs := filter_disagreements [] (stageWrites skeleton measures stage) place
  rw [filter_stageWrites ha, List.filter_nil] at hpairs
  rw [Skeleton.conflictsOfStage, List.filter_map]
  have hcomp : ((fun k : Conflict => decide (k.second.place = place)) ∘ fun pair : Write × Write =>
      ⟨number, pair.1.place.entity.describe skeleton, pair.1, pair.2⟩) =
        fun pair => decide (pair.2.place = place) := rfl
  rw [hcomp, hpairs]
  cases overridesAt skeleton measures stage place with
  | nil => rfl
  | cons first later =>
      have hsame : ∀ w ∈ later.map fun o => o.write place,
          (first.write place).place = w.place := by
        intro w hw
        obtain ⟨o, -, rfl⟩ := List.mem_map.mp hw
        rfl
      have hlater := disagreements_eq hsame []
      rw [List.map_cons, splitsFrom, List.filterMap_cons]
      have hnone : disagreement? [] (first.write place) = none := rfl
      rw [hnone, List.nil_append]
      dsimp only
      rw [hlater, List.filter_map, List.map_map, List.map_map]
      rfl

/-- The conflicts of a stage have its number. -/
theorem filter_stage_conflictsOfStage (ha : skeleton.components.WellFormed)
    (measures : List Document.Measure) (number i : Nat) (stage : List MeasureCategory)
    (place : Place) :
    (skeleton.conflictsOfStage measures number stage).filter
        (fun k => k.stage = i ∧ k.second.place = place) =
      if number = i then
        Override.clashes skeleton number place (overridesAt skeleton measures stage place)
      else [] := by
  have hnumber : ∀ k ∈ skeleton.conflictsOfStage measures number stage, k.stage = number := by
    intro k hk
    obtain ⟨pair, -, rfl⟩ := List.mem_map.mp hk
    rfl
  by_cases hi : number = i
  · rw [if_pos hi, ← filter_conflictsOfStage ha]
    refine List.filter_congr fun k hk => ?_
    simp [hnumber k hk, hi]
  · rw [if_neg hi, List.filter_eq_nil_iff]
    intro k hk
    simp [hnumber k hk, hi]

theorem flatMap_zipIdx_ite {α β : Type} (f : α → List β) (list : List α) (first i : Nat) :
    ((list.zipIdx first).flatMap fun a => if a.2 = first + i then f a.1 else []) =
      (list[i]?.map f).getD [] := by
  induction list generalizing first i with
  | nil => rfl
  | cons a rest ih =>
      rw [List.zipIdx_cons, List.flatMap_cons]
      cases i with
      | zero =>
          have hrest : ((rest.zipIdx (first + 1)).flatMap fun a =>
              if a.2 = first + 0 then f a.1 else []) = [] := by
            rw [List.flatMap_eq_nil_iff]
            rintro ⟨b, j⟩ hb
            have hj := (List.mem_zipIdx hb).1
            exact if_neg (by omega)
          rw [hrest]
          simp
      | succ i =>
          have hrest := ih (first + 1) i
          rw [Nat.add_assoc, Nat.add_comm 1] at hrest
          rw [hrest]
          simp

/-- The conflicts with a number and a place are those of the stage at the place. -/
theorem filter_conflicts (ha : skeleton.components.WellFormed) (measures : List Document.Measure)
    (stages : List (List MeasureCategory)) (i : Nat) (place : Place) :
    (skeleton.conflicts measures stages).filter (fun k => k.stage = i ∧ k.second.place = place) =
      (stages[i]?.map fun stage =>
        Override.clashes skeleton i place (overridesAt skeleton measures stage place)).getD [] := by
  rw [Skeleton.conflicts, List.filter_flatMap]
  have h := flatMap_zipIdx_ite (fun stage =>
    Override.clashes skeleton i place (overridesAt skeleton measures stage place)) stages 0 i
  rw [← h]
  refine List.flatMap_congr fun stage _ => ?_
  rw [filter_stage_conflictsOfStage ha, Nat.zero_add]
  by_cases hi : stage.2 = i
  · rw [if_pos hi, if_pos hi, hi]
  · rw [if_neg hi, if_neg hi]

/-! ### Refused measures -/

/-- Measures are refused when the writes of some stage do not agree. -/
theorem exists_error_iff (skeleton : Skeleton) (measures : List Document.Measure)
    (stages : List (List MeasureCategory)) :
    (∃ found, skeleton.applyMeasures measures stages = .error found) ↔
      ∃ stage ∈ stages, ¬(stageWrites skeleton measures stage).Pairwise Write.Agrees := by
  have hfails := skeleton.failsWith_applyMeasures measures stages
  have hnil := conflictsFrom_eq_nil_iff skeleton measures 0 stages
  rw [conflictsFrom_eq] at hnil
  have herror : (∃ found, skeleton.applyMeasures measures stages = .error found) ↔
      skeleton.conflicts measures stages ≠ [] := by
    simp only [hfails.eq_error_iff, exists_eq_left]
  rw [herror, ne_eq, Skeleton.conflicts, hnil]
  simp only [not_forall, exists_prop]

/-- The order of the categories of a stage is of no account. -/
theorem stageWrites_perm_stage (measures : List Document.Measure)
    {stage stage' : List MeasureCategory} (h : stage.Perm stage') :
    stageWrites skeleton measures stage = stageWrites skeleton measures stage' := by
  have hfilter : (measures.filter fun m => m.category ∈ stage) =
      measures.filter fun m => m.category ∈ stage' := by
    refine List.filter_congr fun m _ => ?_
    rw [decide_eq_decide]
    exact h.mem_iff
  rw [stageWrites, stageWrites, hfilter]

theorem exists_error_perm {measures measures' : List Document.Measure}
    {stages stages' : List (List MeasureCategory)} (hm : measures.Perm measures')
    (hs : List.Forall₂ List.Perm stages stages') :
    (∃ found, skeleton.applyMeasures measures stages = .error found) ↔
      ∃ found, skeleton.applyMeasures measures' stages' = .error found := by
  have hagrees : ∀ stage stage', stage.Perm stage' →
      ((stageWrites skeleton measures stage).Pairwise Write.Agrees ↔
        (stageWrites skeleton measures' stage').Pairwise Write.Agrees) := by
    intro stage stage' hstage
    rw [stageWrites_perm_stage measures hstage]
    exact pairwise_agrees_perm (stageWrites_perm hm stage')
  rw [exists_error_iff, exists_error_iff]
  constructor
  · rintro ⟨stage, hmem, hclash⟩
    obtain ⟨stage', hmem', hperm⟩ := hs.exists_right hmem
    exact ⟨stage', hmem', fun h => hclash ((hagrees stage stage' hperm).mpr h)⟩
  · rintro ⟨stage', hmem', hclash⟩
    obtain ⟨stage, hmem, hperm⟩ := hs.exists_left hmem'
    exact ⟨stage, hmem, fun h => hclash ((hagrees stage stage' hperm).mp h)⟩

end Measure

open HvacModel.Measure

/-- Which measures are in conflict.  They are refused exactly when two overrides of one stage write
different values to one place, in whatever order the measures and the categories of the stages
stand.  Of each stage the overrides of a place are then in conflict with the first of them, one
conflict for each that has another value. -/
theorem Skeleton.conflicts_exact (d : Document) (skeleton : Skeleton)
    (hd : d.resolve = .ok skeleton) (measures : List Document.Measure)
    (stages : List (List MeasureCategory)) :
    ((∃ found, skeleton.applyMeasures measures stages = .error found) ↔
      ∃ stage ∈ stages, Clash skeleton measures stage) ∧
    (∀ (measures' : List Document.Measure) (stages' : List (List MeasureCategory)),
      measures.Perm measures' → List.Forall₂ List.Perm stages stages' →
        ((∃ found, skeleton.applyMeasures measures stages = .error found) ↔
          ∃ found, skeleton.applyMeasures measures' stages' = .error found)) ∧
    ∀ found, skeleton.applyMeasures measures stages = .error found →
      (∀ k ∈ found, k.stage < stages.length) ∧
      ∀ i stage place, stages[i]? = some stage →
        found.filter (fun k => k.stage = i ∧ k.second.place = place) =
          Override.clashes skeleton i place (overridesAt skeleton measures stage place) := by
  have ha := ((Document.resolve_eq_ok_iff d skeleton).mp hd).wellFormed
  refine ⟨?_, fun measures' stages' => exists_error_perm, fun found hfound => ?_⟩
  · simp only [exists_error_iff, not_pairwise_agrees_iff ha]
  · obtain ⟨rfl, -⟩ := ((skeleton.failsWith_applyMeasures measures stages).eq_error_iff _).mp hfound
    refine ⟨fun k hk => ?_, fun i stage place hstage => ?_⟩
    · obtain ⟨stage, -, -, hstage, -⟩ := exists_stage_of_mem_conflicts hk
      exact (List.getElem?_eq_some_iff.mp hstage).1
    · rw [filter_conflicts ha, hstage]
      rfl

/-- Three measures of one stage: the first two agree, the last has another value. -/
def divided : List Document.Measure :=
  [⟨.hvacControls, .ofList [("has_dcv", .flag true)]⟩,
    ⟨.hvacEquipment, .ofList [("has_dcv", .flag true), ("pump_head", .number 2)]⟩,
    ⟨.hvacControls, .ofList [("has_dcv", .flag false), ("heating_setpoint", .number 21)]⟩]

/-- The last measure is in conflict with the first, once, and nothing else is in conflict. -/
theorem conflicts_divided :
    ∃ s found, ventilation.resolve = .ok s ∧
      s.applyMeasures divided [[.hvacEquipment, .hvacControls]] = .error found ∧
      found.filter (fun k => k.stage = 0 ∧ k.second.place = ⟨.airLoop 0 0, "has_dcv"⟩) =
        [⟨0, "air loop 'supply'",
          ⟨⟨.airLoop 0 0, "has_dcv"⟩, .flag true, ⟨.hvacControls, "has_dcv"⟩⟩,
          ⟨⟨.airLoop 0 0, "has_dcv"⟩, .flag false, ⟨.hvacControls, "has_dcv"⟩⟩⟩] ∧
      ∃ found', s.applyMeasures divided.reverse [[.hvacControls, .hvacEquipment]] =
        .error found' := by
  obtain ⟨s, hs⟩ : ∃ s, ventilation.resolve = .ok s := ⟨_, rfl⟩
  obtain ⟨found, hfound⟩ : ∃ found,
      s.applyMeasures divided [[.hvacEquipment, .hvacControls]] = .error found := by
    cases hs
    exact ⟨_, rfl⟩
  obtain ⟨-, hperm, hclashes⟩ := Skeleton.conflicts_exact ventilation s hs divided
    [[.hvacEquipment, .hvacControls]]
  obtain ⟨-, hat⟩ := hclashes found hfound
  have hplace := hat 0 _ ⟨.airLoop 0 0, "has_dcv"⟩ rfl
  have hreverse := (hperm divided.reverse [[.hvacControls, .hvacEquipment]]
    (List.reverse_perm divided).symm (.cons (List.Perm.swap _ _ _) .nil)).mp ⟨found, hfound⟩
  refine ⟨s, found, hs, hfound, hplace.trans ?_, hreverse⟩
  cases hs
  rfl

end HvacModel
