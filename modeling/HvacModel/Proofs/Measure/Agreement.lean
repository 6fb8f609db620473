import Mathlib
import HvacModel.Proofs.Measure.Apply
import HvacModel.Proofs.Measure.Conflicts

/-! # Writes that agree

Two writes agree when they go to different places or have the same value.  Settling a stage compares
a write with the first one to its place only, but values that are the same as a third one are the
same (`AttributeValue.same_trans`), so a stage is without conflicts exactly when all its writes
agree with each other (`settle_snd_eq_nil_iff`).  Put this way the order of the writes is of no
account.

Skeletons under measures are compared place by place: they are equal if the last write to every
place has the same value (`writtenSkeleton_congr`). -/

namespace HvacModel

namespace AttributeValue

theorem same_symm {v w : AttributeValue} (h : v.same w = true) : w.same v = true := by
  cases v <;> cases w <;> simp_all [same, BEq.comm]

theorem same_trans {u v w : AttributeValue} (h : u.same v = true) (h' : v.same w = true) :
    u.same w = true := by
  cases u with
  | number x =>
      cases v with
      | number y =>
          cases w with
          | number z => exact BEq.trans h h'
          | _ => cases h'
      | _ => cases h
  | _ => cases v <;> cases w <;> simp_all [same]

/-- But for numbers the same values are equal. -/
theorem eq_of_same {v w : AttributeValue} (h : v.same w = true) (hv : v.kind ≠ .number) :
    v = w := by
  cases v <;> cases w <;> simp_all [same, kind]

end AttributeValue

namespace Measure

/-! ### Agreement -/

/-- Two writes do not write different values to one place. -/
def Write.Agrees (v w : Write) : Prop := v.place = w.place → v.value.same w.value = true

theorem Write.Agrees.symm {v w : Write} (h : v.Agrees w) : w.Agrees v := fun hp =>
  AttributeValue.same_symm (h hp.symm)

instance : Std.Symm Write.Agrees := ⟨fun _ _ => Write.Agrees.symm⟩

/-- Settling passes nothing on exactly when the writes agree, with those that were kept and with
each other. -/
theorem settle_snd_eq_nil {kept : List Write} (hn : (kept.map Write.place).Nodup)
    (writes : List Write) : (settle kept writes).2 = [] ↔
      (∀ k ∈ kept, ∀ w ∈ writes, k.Agrees w) ∧ writes.Pairwise Write.Agrees := by
  induction writes generalizing kept with
  | nil => simp [settle]
  | cons w rest ih =>
      rw [settle, List.pairwise_cons]
      cases hk : kept.find? fun k => k.place = w.place with
      | none =>
          have hw : ∀ k ∈ kept, k.place ≠ w.place := by simpa using hk
          have hn' : ((kept ++ [w]).map Write.place).Nodup := by
            rw [List.map_append, List.nodup_append]
            refine ⟨hn, List.nodup_singleton _, ?_⟩
            rintro _ hmem _ hplace rfl
            obtain ⟨k, hkmem, hkw⟩ := List.mem_map.mp hmem
            exact hw k hkmem (hkw.trans (List.mem_singleton.mp hplace))
          dsimp only
          rw [ih hn']
          simp only [List.forall_mem_append, List.forall_mem_singleton, List.forall_mem_cons]
          have hvacuous : ∀ k ∈ kept, k.Agrees w := fun k hk hp => absurd hp (hw k hk)
          constructor
          · rintro ⟨⟨hkept, hrest⟩, hpair⟩
            exact ⟨fun k hk => ⟨hvacuous k hk, hkept k hk⟩, hrest, hpair⟩
          · rintro ⟨hkept, hrest, hpair⟩
            exact ⟨⟨fun k hk => (hkept k hk).2, hrest⟩, hpair⟩
      | some first =>
          have hmem := List.mem_of_find?_eq_some hk
          have hplace : first.place = w.place := by simpa using List.find?_some hk
          -- the kept write to the place of `w` is the first one
          have hunique : ∀ k ∈ kept, k.place = w.place → k = first := fun k hk hp =>
            List.inj_on_of_nodup_map hn hk hmem (hp.trans hplace.symm)
          dsimp only
          by_cases hs : first.value.same w.value = true
          · rw [if_pos hs, ih hn]
            simp only [List.forall_mem_cons]
            constructor
            · rintro ⟨hkept, hpair⟩
              refine ⟨fun k hk => ⟨fun hp => hunique k hk hp ▸ hs, hkept k hk⟩, ?_, hpair⟩
              intro w' hw' hp
              exact AttributeValue.same_trans (AttributeValue.same_symm hs)
                (hkept first hmem w' hw' (hplace.trans hp))
            · rintro ⟨hkept, -, hpair⟩
              exact ⟨fun k hk => (hkept k hk).2, hpair⟩
          · rw [if_neg hs]
            refine iff_of_false (List.cons_ne_nil _ _) ?_
            rintro ⟨hkept, -⟩
            exact hs (hkept first hmem w List.mem_cons_self hplace)

theorem settle_snd_eq_nil_iff (writes : List Write) :
    (settle [] writes).2 = [] ↔ writes.Pairwise Write.Agrees := by
  rw [@settle_snd_eq_nil [] List.nodup_nil]
  simp

/-- Measures are applied without conflict exactly when the writes of each stage agree. -/
theorem conflictsFrom_eq_nil_iff (skeleton : Skeleton) (measures : List Document.Measure)
    (number : Nat) (stages : List (List MeasureCategory)) :
    conflictsFrom skeleton measures number stages = [] ↔
      ∀ stage ∈ stages, (stageWrites skeleton measures stage).Pairwise Write.Agrees := by
  induction stages generalizing number with
  | nil => simp [conflictsFrom]
  | cons stage rest ih =>
      rw [conflictsFrom, List.append_eq_nil_iff, ih, stageConflicts, List.map_eq_nil_iff,
        settle_snd_eq_nil_iff, List.forall_mem_cons]

/-- Whether writes agree does not depend on their order. -/
theorem pairwise_agrees_perm {writes writes' : List Write} (h : writes.Perm writes') :
    writes.Pairwise Write.Agrees ↔ writes'.Pairwise Write.Agrees :=
  h.pairwise_iff fun hab => hab.symm

/-- Agreeing writes to one place have the same value, or are the same write. -/
theorem eq_or_same_of_agrees {writes : List Write} (h : writes.Pairwise Write.Agrees)
    {v w : Write} (hv : v ∈ writes) (hw : w ∈ writes) (hp : v.place = w.place) :
    v = w ∨ v.value.same w.value = true := by
  by_cases heq : v = w
  · exact .inl heq
  · exact .inr (h.forall hv hw heq hp)

/-! ### Equal writes -/

variable {skeleton : Skeleton}

/-- The attributes of an entity depend on the last writes to its names only. -/
theorem written_congr {writes writes' : List Write} {entity : Entity}
    (h : ∀ name,
      ((writes.filter fun w => w.place = ⟨entity, name⟩).getLast?.map Write.value) =
        (writes'.filter fun w => w.place = ⟨entity, name⟩).getLast?.map Write.value)
    (attributes : Attributes) : written writes entity attributes = written writes' entity attributes := by
  apply NameMap.ext_find?
  intro name
  rw [find?_written, find?_written, h]

theorem writtenSkeleton_congr {writes writes' : List Write}
    (h : ∀ place,
      ((writes.filter fun w => w.place = place).getLast?.map Write.value) =
        (writes'.filter fun w => w.place = place).getLast?.map Write.value) :
    writtenSkeleton writes skeleton = writtenSkeleton writes' skeleton := by
  have hloop : writtenAirLoop writes = writtenAirLoop writes' := by
    funext system index l
    rw [writtenAirLoop, writtenAirLoop, written_congr fun name => h _]
  have hsystem : writtenSystem writes = writtenSystem writes' := by
    funext position s
    rw [writtenSystem, writtenSystem, hloop]
  have hnode : (fun n : ComponentNode => written writes (.component n.id) n.attributes) =
      fun n => written writes' (.component n.id) n.attributes := by
    funext n
    exact written_congr (fun name => h _) n.attributes
  rw [writtenSkeleton, writtenSkeleton, hsystem, hnode]

end Measure

end HvacModel
