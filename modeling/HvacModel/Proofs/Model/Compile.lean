import HvacModel.Model.Compile

/-! # What a compilation consists of

A document compiles exactly when every stage succeeds, and the model is then assembled from the
results of the stages (`Document.compile_eq_ok_iff`). -/

namespace HvacModel

/-- The results of the stages of a compilation. -/
structure Document.Stages (d : Document) (stages : List (List MeasureCategory))
    (skeleton : Skeleton) (applied : Measure.Applied) (schedules : List CompiledSchedule) :
    Prop where
  resolved : d.resolve = .ok skeleton
  topology : skeleton.topologyErrors = []
  applied : skeleton.applyMeasures d.measures stages = .ok applied
  schedules : Schedule.compileAll (d.schedules.zip skeleton.schedules) = .ok schedules

theorem Document.compile_eq_ok_iff (d : Document) (stages : List (List MeasureCategory))
    (c : Compiled) :
    d.compile stages = .ok c ↔
      ∃ skeleton applied schedules, d.Stages stages skeleton applied schedules ∧
        c = .assemble d applied schedules := by
  constructor
  · intro h
    unfold Document.compile at h
    cases hr : d.resolve with
    | error errors => simp [hr] at h
    | ok skeleton =>
        cases ht : skeleton.topologyErrors with
        | cons error errors => simp [hr, ht] at h
        | nil =>
            simp only [hr, ht] at h
            split at h
            · rename_i applied schedules ha hs
              cases h
              exact ⟨skeleton, applied, schedules, ⟨hr, ht, ha, hs⟩, rfl⟩
            all_goals cases h
  · rintro ⟨skeleton, applied, schedules, ⟨hr, ht, ha, hs⟩, rfl⟩
    simp only [Document.compile, hr, ht, ha, hs]

theorem Value.compile_eq_ok_iff (v : Value) (stages : List (List MeasureCategory))
    (c : Compiled) :
    v.compile stages = .ok c ↔ ∃ d, Document.read v = .ok d ∧ d.compile stages = .ok c := by
  unfold Value.compile
  cases Document.read v with
  | error issues => simp
  | ok d => simp

end HvacModel
