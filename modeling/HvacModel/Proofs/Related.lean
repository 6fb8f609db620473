import Mathlib.Data.List.Forall2

/-! # Lists that are related member by member

Every pass from one representation of a table to the next keeps the members and their order, so the
tables are related by `List.Forall₂`.  What is chosen or found in one of them is chosen or found in
the other. -/

namespace List.Forall₂

variable {α β γ : Type} {R : α → β → Prop} {as : List α} {bs : List β}

theorem exists_right (h : Forall₂ R as bs) {a : α} (ha : a ∈ as) : ∃ b ∈ bs, R a b := by
  induction h with
  | nil => cases ha
  | @cons a' b as bs hab _ ih =>
      rcases List.mem_cons.mp ha with rfl | ha
      · exact ⟨b, List.mem_cons_self, hab⟩
      · obtain ⟨b', hb', hr⟩ := ih ha
        exact ⟨b', List.mem_cons_of_mem _ hb', hr⟩

theorem exists_left (h : Forall₂ R as bs) {b : β} (hb : b ∈ bs) : ∃ a ∈ as, R a b :=
  h.flip.exists_right hb

theorem rel_getElem? (h : Forall₂ R as bs) (i : Nat) : Option.Rel R as[i]? bs[i]? := by
  induction h generalizing i with
  | nil => exact .none
  | cons hab _ ih =>
      cases i with
      | zero => exact .some hab
      | succ i => exact ih i

/-- Related lists agree on the first member that satisfies a predicate, if the predicates agree on
related members. -/
theorem find? {p : α → Bool} {q : β → Bool} (h : Forall₂ R as bs)
    (hpq : ∀ a b, R a b → p a = q b) :
    (∃ a b, as.find? p = some a ∧ bs.find? q = some b ∧ R a b) ∨
      (as.find? p = none ∧ bs.find? q = none) := by
  induction h with
  | nil => exact .inr ⟨rfl, rfl⟩
  | @cons a b as bs hab _ ih =>
      by_cases hp : p a = true
      · refine .inl ⟨a, b, List.find?_cons_of_pos hp, List.find?_cons_of_pos ?_, hab⟩
        rw [← hpq a b hab, hp]
      · rw [List.find?_cons_of_neg hp, List.find?_cons_of_neg (by rwa [← hpq a b hab])]
        exact ih

/-- A member found in one list has a related one found in the other. -/
theorem find?_eq_some {p : α → Bool} {q : β → Bool} (h : Forall₂ R as bs)
    (hpq : ∀ a b, R a b → p a = q b) {a : α} (ha : as.find? p = some a) :
    ∃ b, bs.find? q = some b ∧ R a b := by
  rcases h.find? hpq with ⟨a', b, ha', hb, hr⟩ | ⟨hnone, -⟩
  · rw [ha, Option.some.injEq] at ha'
    exact ⟨b, hb, ha' ▸ hr⟩
  · rw [ha] at hnone
    cases hnone

/-- What related members have in common is the same along the lists. -/
theorem map_eq {f : α → γ} {g : β → γ} (h : Forall₂ R as bs) (hfg : ∀ a b, R a b → f a = g b) :
    as.map f = bs.map g := by
  rw [← List.forall₂_eq_eq_eq, List.forall₂_map_left_iff, List.forall₂_map_right_iff]
  exact h.imp hfg

/-- What is made of the pairs of two related lists is related to the first one. -/
theorem of_zip {S : α × β → γ → Prop} {cs : List γ} (h : Forall₂ R as bs)
    (hz : Forall₂ S (as.zip bs) cs) : Forall₂ (fun a c => ∃ b, R a b ∧ S (a, b) c) as cs := by
  induction h generalizing cs with
  | nil =>
      cases hz
      exact .nil
  | cons hab _ ih =>
      obtain _ | ⟨hs, hrest⟩ := hz
      exact .cons ⟨_, hab, hs⟩ (ih hrest)

end List.Forall₂

theorem Option.Rel.bind {α β γ δ : Type} {R : α → β → Prop} {S : γ → δ → Prop} {a : Option α}
    {b : Option β} {f : α → Option γ} {g : β → Option δ} (h : Option.Rel R a b)
    (hfg : ∀ a b, R a b → Option.Rel S (f a) (g b)) : Option.Rel S (a.bind f) (b.bind g) := by
  cases h with
  | none => exact .none
  | some hab => exact hfg _ _ hab
