import Mathlib
import HvacModel.Proofs.Measure.Agreement
import HvacModel.Proofs.Reading.Systems

/-! # Categories that write apart

The keys of one category go to different places: where two of them write the same attribute, they
write it on classes of equipment that have no component in common (`targets_apart`).  So the writes
of one measure all go to different places (`pairwise_measureWrites`), and where the measures are of
different categories two writes of a stage to one place come from two categories
(`pairwise_stageWrites`).  Such measures are never in conflict as long as no stage holds more than
one category (`conflictsFrom_eq_nil_of_single`). -/

namespace HvacModel.Measure

variable {skeleton : Skeleton}

/-! ### Entities -/

theorem nodup_airLoopsFrom (position : Nat) (systems : List Skeleton.System) :
    (airLoopsFrom position systems).Nodup := by
  induction systems generalizing position with
  | nil => exact List.nodup_nil
  | cons s rest ih =>
      rw [airLoopsFrom, List.nodup_append]
      refine ⟨List.nodup_range.map fun i j h => (Entity.airLoop.inj h).2, ih _, ?_⟩
      rintro _ hfirst _ hmore rfl
      obtain ⟨j, -, rfl⟩ := List.mem_map.mp hfirst
      obtain ⟨i, _, _, hsame, -⟩ := (mem_airLoopsFrom _ _ _).mp hmore
      have := (Entity.airLoop.inj hsame).1
      omega

theorem nodup_entities (ha : skeleton.components.WellFormed) (target : Target) :
    (target.entities skeleton).Nodup := by
  unfold Target.entities
  cases target.scope with
  | airLoops => exact nodup_airLoopsFrom 0 _
  | equipment classes =>
      have hmap : (fun n : ComponentNode => Entity.component n.id) =
          Entity.component ∘ ComponentNode.id := rfl
      dsimp only
      rw [hmap, ← List.map_map]
      refine List.Nodup.map (fun _ _ h => Entity.component.inj h) ?_
      exact ha.nodup_ids.sublist (List.filter_sublist.map _)

/-! ### Keys that reach the same place -/

/-- No entity is in both scopes. -/
def Scope.apart : Scope → Scope → Bool
  | airLoops, airLoops => false
  | equipment classes, equipment classes' => classes.all fun c => !classes'.contains c
  | _, _ => true

theorem not_reaches_of_apart {target target' : Target}
    (h : target.scope.apart target'.scope = true) {e : Entity}
    (hr : target.reaches skeleton e = true) : target'.reaches skeleton e = false := by
  unfold Target.reaches at hr ⊢
  cases e with
  | airLoop system index =>
      cases hs : target.scope with
      | equipment classes => simp [hs] at hr
      | airLoops =>
          cases hs' : target'.scope with
          | equipment classes' => rfl
          | airLoops =>
              rw [hs, hs'] at h
              cases h
  | component id =>
      cases hs : target.scope with
      | airLoops => simp [hs] at hr
      | equipment classes =>
          cases hs' : target'.scope with
          | airLoops => rfl
          | equipment classes' =>
              cases hn : skeleton.components.node? id with
              | none => simp [hn]
              | some n =>
                  simp only [hs, hn, Bool.and_eq_true, decide_eq_true_eq] at hr
                  simp only [hs, hs', Scope.apart, List.all_eq_true] at h
                  have hclass := h _ hr.1
                  simp_all

/-- Two keys that write one attribute are one key, or keys of two categories that write no number,
or reach no common entity. -/
theorem targets_apart (c c' : MeasureCategory) : ∀ e ∈ targets c, ∀ e' ∈ targets c',
    e.2.name = e'.2.name → (c = c' ∧ e.1 = e'.1) ∨ (c ≠ c' ∧ e.2.kind ≠ .number) ∨
      e.2.scope.apart e'.2.scope = true := by
  cases c <;> cases c' <;> decide

/-- Keys of one category that reach one place are one key. -/
theorem key_eq_of_reaches {c : MeasureCategory} {key key' : String} {s t : Target}
    (hs : target? c key = some s) (ht : target? c key' = some t) (hname : s.name = t.name)
    {e : Entity} (hse : s.reaches skeleton e = true) (hte : t.reaches skeleton e = true) :
    key = key' := by
  rw [Document.Read.target?_eq_some_iff] at hs ht
  rcases targets_apart c c _ hs _ ht hname with ⟨-, h⟩ | ⟨h, -⟩ | h
  · exact h
  · exact absurd rfl h
  · rw [not_reaches_of_apart h hse] at hte
    cases hte

/-! ### Writes -/

theorem mem_overrideWrites (ha : skeleton.components.WellFormed) {c : MeasureCategory}
    {entry : String × AttributeValue} {w : Write} (h : w ∈ overrideWrites skeleton c entry) :
    w.source = ⟨c, entry.1⟩ ∧ ∃ target, target? c entry.1 = some target ∧
      w.place.name = target.name ∧ target.reaches skeleton w.place.entity = true := by
  unfold overrideWrites at h
  cases ht : target? c entry.1 with
  | none => simp [ht] at h
  | some target =>
      rw [ht] at h
      obtain ⟨e, he, rfl⟩ := List.mem_map.mp h
      exact ⟨rfl, target, rfl, rfl, (mem_entities ha target e).mp he⟩

theorem pairwise_overrideWrites (ha : skeleton.components.WellFormed) (c : MeasureCategory)
    (entry : String × AttributeValue) :
    (overrideWrites skeleton c entry).Pairwise fun v w => v.place ≠ w.place := by
  unfold overrideWrites
  cases target? c entry.1 with
  | none => exact .nil
  | some target =>
      rw [List.pairwise_map]
      exact (nodup_entities ha target).imp fun hne hplace => hne (Place.mk.inj hplace).1

/-- All writes of a measure go to different places. -/
theorem pairwise_measureWrites (ha : skeleton.components.WellFormed) (m : Document.Measure) :
    (m.overrides.entries.flatMap (overrideWrites skeleton m.category)).Pairwise
      fun v w => v.place ≠ w.place := by
  rw [List.pairwise_flatMap]
  refine ⟨fun entry _ => pairwise_overrideWrites ha m.category entry, ?_⟩
  refine m.overrides.sorted.imp fun {a b} hlt v hv w hw hplace => ?_
  obtain ⟨-, s, hs, hsname, hsreach⟩ := mem_overrideWrites ha hv
  obtain ⟨-, t, ht, htname, htreach⟩ := mem_overrideWrites ha hw
  rw [hplace] at hsname hsreach
  have hkey := key_eq_of_reaches hs ht (hsname.symm.trans htname) hsreach htreach
  exact String.lt_irrefl _ (hkey ▸ hlt)

/-- A write of a measure comes from a key of its category, whose target reaches the place. -/
theorem mem_measureWrites (ha : skeleton.components.WellFormed) {m : Document.Measure} {w : Write}
    (h : w ∈ m.overrides.entries.flatMap (overrideWrites skeleton m.category)) :
    w.source.category = m.category ∧ ∃ target, target? w.source.category w.source.key = some target ∧
      w.place.name = target.name ∧ target.reaches skeleton w.place.entity = true := by
  obtain ⟨entry, -, hw⟩ := List.mem_flatMap.mp h
  obtain ⟨hsource, htarget⟩ := mem_overrideWrites ha hw
  rw [hsource]
  exact ⟨rfl, htarget⟩

theorem mem_stageWrites (ha : skeleton.components.WellFormed) {measures : List Document.Measure}
    {stage : List MeasureCategory} {w : Write} (h : w ∈ stageWrites skeleton measures stage) :
    w.source.category ∈ stage ∧ ∃ target, target? w.source.category w.source.key = some target ∧
      w.place.name = target.name ∧ target.reaches skeleton w.place.entity = true := by
  obtain ⟨m, hm, hw⟩ := List.mem_flatMap.mp h
  obtain ⟨hcategory, htarget⟩ := mem_measureWrites ha hw
  have hmem : m.category ∈ stage := by simpa using (List.mem_filter.mp hm).2
  exact ⟨hcategory ▸ hmem, htarget⟩

/-- Writes of a stage to one place come from different categories, if the measures do. -/
theorem pairwise_stageWrites (ha : skeleton.components.WellFormed)
    {measures : List Document.Measure} (hm : (measures.map Document.Measure.category).Nodup)
    (stage : List MeasureCategory) : (stageWrites skeleton measures stage).Pairwise fun v w =>
      v.place = w.place → v.source.category ≠ w.source.category := by
  rw [stageWrites, List.pairwise_flatMap]
  constructor
  · intro m _
    exact (pairwise_measureWrites ha m).imp fun hne hplace => absurd hplace hne
  · refine List.Pairwise.filter _ ((List.pairwise_map.mp hm).imp fun {m m'} hne v hv w hw _ => ?_)
    rw [(mem_measureWrites ha hv).1, (mem_measureWrites ha hw).1]
    exact hne

/-- Measures of different categories have no conflict in stages that each hold one category. -/
theorem conflictsFrom_eq_nil_of_single (ha : skeleton.components.WellFormed)
    {measures : List Document.Measure} (hm : (measures.map Document.Measure.category).Nodup)
    (number : Nat) {stages : List (List MeasureCategory)}
    (hs : ∀ stage ∈ stages, ∀ c ∈ stage, ∀ c' ∈ stage, c = c') :
    conflictsFrom skeleton measures number stages = [] := by
  rw [conflictsFrom_eq_nil_iff]
  intro stage hstage
  refine (pairwise_stageWrites ha hm stage).imp_of_mem fun {v w} hv hw hne hplace => ?_
  have hsame := hs stage hstage _ (mem_stageWrites ha hv).1 _ (mem_stageWrites ha hw).1
  exact absurd hsame (hne hplace)

end HvacModel.Measure
