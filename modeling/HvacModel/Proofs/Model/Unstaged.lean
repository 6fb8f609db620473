import Mathlib.Data.List.Destutter
import HvacModel.Proofs.Model.Gating
import HvacModel.Proofs.Transcript.Names

/-! # Measures that no stage applies

The categories of measures that are in no stage are listed measure by measure (`Measure.pending`),
and a category is left out where it repeats the one before it.  So a category is listed once for
each time it begins, at the front or behind another category (`Measure.count_eraseRepeats`), and
none is listed twice only if the measures of each category stand together
(`Measure.nodup_eraseRepeats_iff`).  The warnings of a compilation repeat the list
(`Document.count_unstagedMeasure`).  In a document that is read no two measures are of one category,
so there is one warning for each. -/

namespace HvacModel

namespace Measure

/-- The categories of the measures that no stage applies, measure by measure. -/
def pending (measures : List Document.Measure) (stages : List (List MeasureCategory)) :
    List MeasureCategory :=
  (measures.map Document.Measure.category).filter fun c =>
    !stages.any fun stage => stage.contains c

section Repeats

variable {α : Type}

/-- Between two equal members stands no other one. -/
def Together (list : List α) : Prop := ∀ a b, [a, b, a].Sublist list → a = b

/-- Where no member repeats the one before it, equal members have another one between them. -/
theorem exists_between {list : List α} (hl : list.IsChain (· ≠ ·)) {a : α}
    (h : [a, a].Sublist list) : ∃ b, a ≠ b ∧ [a, b, a].Sublist list := by
  induction list with
  | nil => cases h
  | cons c rest ih =>
      rcases List.sublist_cons_iff.mp h with hrest | ⟨more, heq, hmore⟩
      · obtain ⟨b, hne, hb⟩ := ih hl.of_cons hrest
        exact ⟨b, hne, hb.cons c⟩
      · obtain ⟨rfl, rfl⟩ := List.cons.inj heq
        have ha : a ∈ rest := List.singleton_sublist.mp hmore
        cases rest with
        | nil => cases ha
        | cons b others =>
            have hne := (List.isChain_cons_cons.mp hl).1
            have hothers := (List.mem_cons.mp ha).resolve_left hne
            exact ⟨b, hne, ((List.singleton_sublist.mpr hothers).cons_cons b).cons_cons a⟩

variable [DecidableEq α]

/-- Whether a member begins anew behind the members before it. -/
def begins (a : α) (s : List α × α) : Bool := s.2 = a && s.1.getLast? ≠ some a

/-- How often a member begins in a list, at the front or behind another member. -/
def beginnings (a : α) (list : List α) : Nat := (splitsFrom [] list).countP (begins a)

/-! ### Beginnings -/

/-- What begins depends on the last member before it only. -/
theorem countP_begins_congr (a : α) {before before' : List α}
    (h : before.getLast? = before'.getLast?) (list : List α) :
    (splitsFrom before list).countP (begins a) = (splitsFrom before' list).countP (begins a) := by
  induction list generalizing before before' with
  | nil => rfl
  | cons b rest ih =>
      have hrest : (before ++ [b]).getLast? = (before' ++ [b]).getLast? := by simp
      rw [splitsFrom, splitsFrom, List.countP_cons, List.countP_cons, ih hrest, begins, begins, h]

theorem count_eraseRepeats (list : List α) (a : α) :
    (eraseRepeats list).count a = beginnings a list := by
  unfold beginnings
  induction list using eraseRepeats.induct with
  | case1 b rest ih =>
      have hlast : [b].getLast? = [b, b].getLast? := rfl
      have hrest := countP_begins_congr a hlast rest
      have hrepeat : ¬begins a ([b], b) = true := by
        simp only [begins, Bool.and_eq_true, decide_eq_true_eq]
        rintro ⟨rfl, h⟩
        exact h rfl
      rw [eraseRepeats, if_pos rfl, ih]
      simp only [splitsFrom, List.nil_append, List.singleton_append, List.countP_cons, hrest,
        if_neg hrepeat, Nat.add_zero]
  | case2 b c rest hne ih =>
      have hlast : [c].getLast? = [b, c].getLast? := rfl
      have hrest := countP_begins_congr a hlast rest
      have hfirst : begins a ([b], c) = begins a ([], c) := by
        by_cases hc : c = a
        · subst hc
          simp [begins, hne]
        · simp [begins, hc]
      rw [eraseRepeats, if_neg hne, List.count_cons, ih]
      simp only [splitsFrom, List.nil_append, List.singleton_append, List.countP_cons, hrest,
        hfirst]
      simp [begins]
  | case3 short hshort =>
      rcases short with _ | ⟨b, _ | ⟨c, rest⟩⟩
      · rfl
      · simp [eraseRepeats, splitsFrom, begins, List.count_cons]
      · exact absurd rfl (hshort b c rest)

/-! ### Members that stand together -/

theorem eraseRepeats_eq_destutter (list : List α) : eraseRepeats list = list.destutter (· ≠ ·) := by
  induction list using eraseRepeats.induct with
  | case1 b rest ih =>
      rw [eraseRepeats, if_pos rfl, ih, List.destutter_cons', List.destutter_cons',
        List.destutter'_cons, if_neg (by simp)]
  | case2 b c rest hne ih =>
      rw [eraseRepeats, if_neg hne, ih, List.destutter_cons', List.destutter_cons',
        List.destutter'_cons, if_pos hne]
  | case3 short hshort =>
      rcases short with _ | ⟨b, _ | ⟨c, rest⟩⟩
      · rfl
      · rfl
      · exact absurd rfl (hshort b c rest)

/-- Members in which none repeats the one before it are all kept. -/
theorem sublist_eraseRepeats {part : List α} (hp : part.IsChain (· ≠ ·)) {list : List α}
    (h : part.Sublist list) : part.Sublist (eraseRepeats list) := by
  induction list using eraseRepeats.induct generalizing part with
  | case1 b rest ih =>
      rw [eraseRepeats, if_pos rfl]
      refine ih hp ?_
      rcases List.sublist_cons_iff.mp h with hrest | ⟨more, rfl, hmore⟩
      · exact hrest
      rcases List.sublist_cons_iff.mp hmore with hrest | ⟨others, rfl, -⟩
      · exact hrest.cons_cons b
      · exact absurd rfl (List.isChain_cons_cons.mp hp).1
  | case2 b c rest hne ih =>
      rw [eraseRepeats, if_neg hne]
      rcases List.sublist_cons_iff.mp h with hrest | ⟨more, rfl, hmore⟩
      · exact (ih hp hrest).cons b
      · exact (ih hp.of_cons hmore).cons_cons b
  | case3 short hshort =>
      rwa [eraseRepeats]
      exact hshort

/-- Nothing is listed twice when equal members stand together. -/
theorem nodup_eraseRepeats_iff (list : List α) : (eraseRepeats list).Nodup ↔ Together list := by
  constructor
  · intro hnodup a b h
    by_contra hne
    have hchain : [a, b, a].IsChain (· ≠ ·) := by simp [hne, Ne.symm hne]
    have hkept := hnodup.sublist (sublist_eraseRepeats hchain h)
    simp at hkept
  · intro htogether
    rw [List.nodup_iff_sublist]
    intro a ha
    rw [eraseRepeats_eq_destutter] at ha
    obtain ⟨b, hne, hb⟩ := exists_between (List.isChain_destutter _ list) ha
    exact hne (htogether a b (hb.trans (List.destutter_sublist _ list)))

end Repeats

/-! ### The list of categories -/

theorem unstaged_eq (measures : List Document.Measure) (stages : List (List MeasureCategory)) :
    unstaged measures stages = eraseRepeats (pending measures stages) := rfl

/-- Measures of different categories list each of them once. -/
theorem nodup_unstaged {measures : List Document.Measure}
    (h : (measures.map Document.Measure.category).Nodup) (stages : List (List MeasureCategory)) :
    (unstaged measures stages).Nodup := by
  have hpending : (pending measures stages).Nodup := h.filter _
  rw [unstaged_eq, eraseRepeats_eq_destutter]
  exact hpending.sublist (List.destutter_sublist _ _)

end Measure

open HvacModel.Measure

/-! ### Warnings -/

theorem Diagnostic.unstagedMeasure_injective : Function.Injective Diagnostic.unstagedMeasure := by
  intro c c' h
  have hentity := congrArg Diagnostic.entity h
  cases c <;> cases c'
  · rfl
  · exact absurd hentity (by decide)
  · exact absurd hentity (by decide)
  · rfl

/-- A compilation warns of the categories as often as they are listed. -/
theorem Document.count_unstagedMeasure {d : Document} {stages : List (List MeasureCategory)}
    {c : Compiled} (h : d.compile stages = .ok c) (category : MeasureCategory) :
    c.warnings.count (.unstagedMeasure category) =
      (Measure.unstaged d.measures stages).count category := by
  obtain ⟨skeleton, applied, schedules, hstages, rfl⟩ := (d.compile_eq_ok_iff stages c).mp h
  have hunstaged : applied.unstaged = Measure.unstaged d.measures stages := by
    obtain ⟨-, rfl⟩ :=
      (skeleton.applyMeasures_eq_ok_iff d.measures stages applied).mp hstages.applied
    rfl
  have hinert : (schedules.flatMap Compiled.inertWarnings).count (.unstagedMeasure category) = 0 := by
    rw [List.count_eq_zero]
    intro hmem
    obtain ⟨s, -, hs⟩ := List.mem_flatMap.mp hmem
    obtain ⟨rule, -, hrule⟩ := List.mem_map.mp hs
    have hkind := congrArg Diagnostic.kind hrule
    cases hkind
  have hwarnings : (Compiled.assemble d applied schedules).warnings =
      applied.unstaged.map .unstagedMeasure ++ schedules.flatMap Compiled.inertWarnings := rfl
  rw [hwarnings, List.count_append, hinert, Nat.add_zero, hunstaged,
    List.count_map_of_injective _ _ Diagnostic.unstagedMeasure_injective]

/-- How often the categories of measures that no stage applies are listed, and warned of: once for
each time that one begins in the order of the measures.  None is listed twice exactly when the
measures of each category stand together, as they do in a document that is read. -/
theorem Measure.unstaged_exact (stages : List (List MeasureCategory)) :
    (∀ (skeleton : Skeleton) (measures : List Document.Measure) (applied : Applied),
      skeleton.applyMeasures measures stages = .ok applied →
        (∀ category, category ∈ applied.unstaged ↔
          (∃ m ∈ measures, m.category = category) ∧ ∀ stage ∈ stages, category ∉ stage) ∧
        (∀ category, applied.unstaged.count category =
          beginnings category (pending measures stages)) ∧
        (applied.unstaged.Nodup ↔ Together (pending measures stages))) ∧
    (∀ (d : Document) (c : Compiled), d.compile stages = .ok c → ∀ category,
      c.warnings.count (.unstagedMeasure category) =
        beginnings category (pending d.measures stages)) ∧
    ∀ (v : Value) (d : Document) (c : Compiled), v.distinctKeys = true → Document.read v = .ok d →
      d.compile stages = .ok c → ∀ m ∈ d.measures, (∀ stage ∈ stages, m.category ∉ stage) →
        c.warnings.count (.unstagedMeasure m.category) = 1 := by
  refine ⟨fun skeleton measures applied h => ?_, fun d c h category => ?_, ?_⟩
  · obtain ⟨-, rfl⟩ := (skeleton.applyMeasures_eq_ok_iff measures stages applied).mp h
    exact ⟨mem_unstaged measures stages, count_eraseRepeats _, nodup_eraseRepeats_iff _⟩
  · rw [Document.count_unstagedMeasure h, unstaged_eq, count_eraseRepeats]
  · intro v d c hv hread hc m hm hstages
    have hlisted := (mem_unstaged d.measures stages m.category).mpr ⟨⟨m, hm, rfl⟩, hstages⟩
    rw [Document.count_unstagedMeasure hc]
    exact List.count_eq_one_of_mem
      (nodup_unstaged (Document.nodup_categories_of_read hv hread) stages) hlisted

/-- A document without loops, whose measures of one category stand around those of the other. -/
def scattered : Document :=
  { Document.passiveOffice "none" with
    measures := [⟨.hvacEquipment, .empty⟩, ⟨.hvacControls, .empty⟩, ⟨.hvacEquipment, .empty⟩] }

/-- Without stages there are two warnings of one category and one of the other; as soon as a stage
applies the other, there is one. -/
theorem unstaged_scattered :
    ∃ c c', scattered.compile [] = .ok c ∧
      c.warnings.count (.unstagedMeasure .hvacEquipment) = 2 ∧
      c.warnings.count (.unstagedMeasure .hvacControls) = 1 ∧
      scattered.compile [[.hvacControls]] = .ok c' ∧
      c'.warnings.count (.unstagedMeasure .hvacEquipment) = 1 := by
  obtain ⟨c, hc⟩ : ∃ c, scattered.compile [] = .ok c := ⟨_, rfl⟩
  obtain ⟨c', hc'⟩ : ∃ c', scattered.compile [[.hvacControls]] = .ok c' := ⟨_, rfl⟩
  have hnone := (Measure.unstaged_exact []).2.1 scattered c hc
  have hcontrols := (Measure.unstaged_exact [[.hvacControls]]).2.1 scattered c' hc'
  exact ⟨c, c', hc, (hnone _).trans (by decide), (hnone _).trans (by decide), hc',
    (hcontrols _).trans (by decide)⟩

end HvacModel
