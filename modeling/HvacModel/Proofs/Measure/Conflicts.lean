import HvacModel.Measure.Apply
import HvacModel.Proofs.Report
import HvacModel.Proofs.Skeleton.Reference

/-! # The conflicts of measures

A write is in conflict when the first write before it, in its stage and to its place, has another
value.  `Skeleton.conflicts` lists these pairs stage by stage, in the order of the later writes.
Settling a stage passes on exactly these pairs (`settle_snd`), because the writes that it has kept
find the same first write to a place as all the writes that it has seen.  So measures are refused
with the whole list, and only when there is something on it (`failsWith_applyMeasures`). -/

namespace HvacModel

namespace Measure

/-- A write with the first one before it that goes to its place, if they do not agree. -/
def disagreement? (before : List Write) (w : Write) : Option (Write × Write) :=
  (before.find? fun k => k.place = w.place).bind fun first =>
    if first.value.same w.value then none else some (first, w)

/-- Settling passes on every disagreement with the writes before. -/
theorem settle_snd {kept before : List Write}
    (h : ∀ place, kept.find? (fun w => w.place = place) = before.find? fun w => w.place = place)
    (writes : List Write) : (settle kept writes).2 =
      (splitsFrom before writes).filterMap fun s => disagreement? s.1 s.2 := by
  induction writes generalizing kept before with
  | nil => rfl
  | cons w rest ih =>
      rw [settle, splitsFrom, List.filterMap_cons, disagreement?, ← h w.place]
      cases hk : kept.find? fun k => k.place = w.place with
      | none =>
          refine ih fun place => ?_
          rw [List.find?_append, List.find?_append, h]
      | some first =>
          have hrest : ∀ place, kept.find? (fun w => w.place = place) =
              (before ++ [w]).find? fun w => w.place = place := by
            intro place
            rw [List.find?_append, ← h]
            by_cases hp : w.place = place
            · rw [← hp, hk]
              rfl
            · rw [List.find?_cons_of_neg (by simpa using hp)]
              exact (Option.or_none).symm
          dsimp only [Option.bind_some]
          rw [ih hrest]
          by_cases hs : first.value.same w.value = true
          · rw [if_pos hs, if_pos hs]
          · rw [if_neg hs, if_neg hs]

end Measure

open HvacModel.Measure

/-- The conflicts of a stage of a number: the writes that do not agree with the first one before
them. -/
def Skeleton.conflictsOfStage (skeleton : Skeleton) (measures : List Document.Measure)
    (number : Nat) (stage : List MeasureCategory) : List Conflict :=
  ((splitsFrom [] (stageWrites skeleton measures stage)).filterMap fun s =>
    disagreement? s.1 s.2).map fun pair =>
      ⟨number, pair.1.place.entity.describe skeleton, pair.1, pair.2⟩

/-- The conflicts of all stages. -/
def Skeleton.conflicts (skeleton : Skeleton) (measures : List Document.Measure)
    (stages : List (List MeasureCategory)) : List Conflict :=
  stages.zipIdx.flatMap fun stage => skeleton.conflictsOfStage measures stage.2 stage.1

theorem Measure.conflictsFrom_eq (skeleton : Skeleton) (measures : List Document.Measure)
    (number : Nat) (stages : List (List MeasureCategory)) :
    conflictsFrom skeleton measures number stages =
      (stages.zipIdx number).flatMap fun stage =>
        skeleton.conflictsOfStage measures stage.2 stage.1 := by
  induction stages generalizing number with
  | nil => rfl
  | cons stage rest ih =>
      rw [conflictsFrom, List.zipIdx_cons, List.flatMap_cons, ih, stageConflicts,
        settle_snd fun _ => rfl, Skeleton.conflictsOfStage]

/-- Measures are refused with their conflicts, and applied when there are none. -/
theorem Skeleton.failsWith_applyMeasures (skeleton : Skeleton)
    (measures : List Document.Measure) (stages : List (List MeasureCategory)) :
    FailsWith (skeleton.applyMeasures measures stages) (skeleton.conflicts measures stages) := by
  rw [Skeleton.conflicts, ← conflictsFrom_eq]
  unfold applyMeasures
  cases conflictsFrom skeleton measures 0 stages with
  | nil => exact .ok _
  | cons conflict rest => exact .error (List.cons_ne_nil _ _)

end HvacModel
