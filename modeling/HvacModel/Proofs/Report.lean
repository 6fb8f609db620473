import Mathlib.Data.List.Forall2
import HvacModel.Report

/-! # Clean reports

A report is clean when nothing was found on the way to its value.  A pass that reports everything
accepts its input exactly when its report is clean, so what a pass accepts is computed step by
step: a sequence is clean when every step is (`clean_bind`), a pass over a list when the step is
clean on every member (`clean_collect`).

The value of a report never depends on its findings, so the lemmas about values need no cleanness;
that a pass leaves no member out does (`forall₂_collect`). -/

namespace HvacModel.Report

variable {ι α β : Type}

/-- Nothing was found. -/
def Clean (r : Report ι α) : Prop := r.findings = []

@[simp]
theorem clean_pure (a : α) : (pure a : Report ι α).Clean := rfl

@[simp]
theorem clean_bind (r : Report ι α) (f : α → Report ι β) :
    (r >>= f).Clean ↔ r.Clean ∧ (f r.value).Clean := List.append_eq_nil_iff

@[simp]
theorem not_clean_tell (finding : ι) : ¬(tell finding).Clean := List.cons_ne_nil _ _

@[simp]
theorem value_map (f : α → β) (r : Report ι α) : (f <$> r).value = f r.value := rfl

@[simp]
theorem findings_map (f : α → β) (r : Report ι α) : (f <$> r).findings = r.findings := by
  rw [← bind_pure_comp, findings_bind]
  exact List.append_nil _

@[simp]
theorem clean_map (f : α → β) (r : Report ι α) : (f <$> r).Clean ↔ r.Clean := by
  rw [← bind_pure_comp, clean_bind]
  exact and_iff_left (clean_pure _)

/-- The steps after a choice do not depend on how the choice was made. -/
theorem ite_bind (c : Prop) [Decidable c] (r s : Report ι α) (f : α → Report ι β) :
    (if c then r >>= f else s >>= f) = (if c then r else s) >>= f := by
  by_cases h : c
  · rw [if_pos h, if_pos h]
  · rw [if_neg h, if_neg h]

/-! ### Optional values -/

@[simp]
theorem value_whenSome (value : Option α) (step : α → Report ι (Option β)) :
    (whenSome value step).value = value.bind fun a => (step a).value := by
  cases value <;> rfl

@[simp]
theorem whenSome_none (step : α → Report ι (Option β)) : whenSome none step = pure none := rfl

@[simp]
theorem whenSome_some (a : α) (step : α → Report ι (Option β)) :
    whenSome (some a) step = step a := rfl

theorem clean_whenSome (value : Option α) (step : α → Report ι (Option β)) :
    (whenSome value step).Clean ↔ ∀ a, value = some a → (step a).Clean := by
  cases value with
  | none => simp
  | some a => simp

/-- A report that is turned into a value or its findings gives the value when it is clean. -/
theorem accepted_iff (r : Report ι (Option α)) (a : α) :
    (match r.value with
      | some b => if r.findings.isEmpty then .ok b else .error r.findings
      | none => .error r.findings : Except (List ι) α) = .ok a ↔ r.Clean ∧ r.value = some a := by
  unfold Clean
  cases r.value with
  | none => simp
  | some b =>
      by_cases h : r.findings = []
      · simp [h]
      · simp [h]

/-! ### Lists -/

theorem clean_collect (step : α → Report ι (Option β)) (list : List α) :
    (collect step list).Clean ↔ ∀ a ∈ list, (step a).Clean := by
  induction list with
  | nil => simp [collect]
  | cons a rest ih => simp [collect, ← ih]

theorem value_collect (step : α → Report ι (Option β)) (list : List α) :
    (collect step list).value = list.filterMap fun a => (step a).value := by
  induction list with
  | nil => rfl
  | cons a rest ih =>
      simp only [collect, value_bind, value_pure, ih, List.filterMap_cons]
      cases (step a).value <;> rfl

theorem mem_value_collect {step : α → Report ι (Option β)} {list : List α} {b : β}
    (h : b ∈ (collect step list).value) : ∃ a ∈ list, (step a).value = some b := by
  rw [value_collect] at h
  exact List.mem_filterMap.mp h

/-- A step that makes something related of every member keeps the relation along the list. -/
theorem forall₂_collect {R : α → β → Prop} {step : α → Report ι (Option β)} {list : List α}
    (h : ∀ a ∈ list, ∃ b, (step a).value = some b ∧ R a b) :
    List.Forall₂ R list (collect step list).value := by
  induction list with
  | nil => exact .nil
  | cons a rest ih =>
      obtain ⟨b, hb, hab⟩ := h a List.mem_cons_self
      have hrest := ih fun c hc => h c (List.mem_cons_of_mem _ hc)
      simp only [collect, value_bind, value_pure, hb]
      exact .cons hab hrest

theorem findings_whenSome (value : Option α) (step : α → Report ι (Option β)) :
    (whenSome value step).findings = value.toList.flatMap fun a => (step a).findings := by
  cases value with
  | none => rfl
  | some a => simp

theorem findings_collect (step : α → Report ι (Option β)) (list : List α) :
    (collect step list).findings = list.flatMap fun a => (step a).findings := by
  induction list with
  | nil => rfl
  | cons a rest ih =>
      simp only [collect, findings_bind, findings_pure, ih, List.append_nil, List.flatMap_cons]

theorem findings_each (step : α → Report ι β) (list : List α) :
    (each step list).findings = list.flatMap fun a => (step a).findings := by
  induction list with
  | nil => rfl
  | cons a rest ih =>
      simp only [each, findings_bind, findings_pure, ih, List.append_nil, List.flatMap_cons]

theorem value_each (step : α → Report ι β) (list : List α) :
    (each step list).value = list.map fun a => (step a).value := by
  induction list with
  | nil => rfl
  | cons a rest ih => simp [each, ← ih]

theorem clean_each (step : α → Report ι β) (list : List α) :
    (each step list).Clean ↔ ∀ a ∈ list, (step a).Clean := by
  unfold Clean
  rw [findings_each, List.flatMap_eq_nil_iff]

end HvacModel.Report

namespace HvacModel

/-! ### Results -/

/-- A result that is refused with everything on a list, and is there when nothing is on it. -/
inductive FailsWith {ι α : Type} : Except (List ι) α → List ι → Prop where
  | ok (a : α) : FailsWith (.ok a) []
  | error {found : List ι} : found ≠ [] → FailsWith (.error found) found

namespace FailsWith

variable {ι α : Type} {r : Except (List ι) α} {found : List ι}

theorem exists_ok_iff (h : FailsWith r found) : (∃ a, r = .ok a) ↔ found = [] := by
  cases h with
  | ok a => simp
  | error hne => simpa using hne

theorem eq_error_iff (h : FailsWith r found) (errors : List ι) :
    r = .error errors ↔ errors = found ∧ found ≠ [] := by
  cases h with
  | ok a => simp
  | error hne => simp [hne, eq_comm]

/-- The findings of a report are all that it can be refused with, if a clean one has a value. -/
theorem of_report {r : Report ι (Option α)} (h : r.Clean → r.value.isSome) :
    FailsWith (match r.value with
      | some a => if r.findings.isEmpty then .ok a else .error r.findings
      | none => .error r.findings) r.findings := by
  by_cases hf : r.findings = []
  · obtain ⟨a, ha⟩ := Option.isSome_iff_exists.mp (h hf)
    rw [ha, hf]
    exact .ok a
  · cases r.value with
    | none => exact .error hf
    | some a =>
        dsimp only
        rw [if_neg (by simpa using hf)]
        exact .error hf

end FailsWith

end HvacModel
