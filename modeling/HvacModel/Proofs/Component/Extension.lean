import HvacModel.Proofs.Component.Representation

/-! # Arenas with more components

An arena extends another one when it has all its components in the same positions and binds all its
names.  Additions extend an arena, whether they are accepted or refused (`extends_addComponents`).

A reference may fall back to the names that nobody owns at every segment, but only where nothing was
found before, so in a larger arena it leads to the same component (`Extends.resolve?_eq_some`). -/

namespace HvacModel.Arena

open Document (Component)

/-- An arena with all components of another one in the same positions, and all its names. -/
structure Extends (a b : Arena) : Prop where
  slots : a.slots <+: b.slots
  names : ∀ name h, a.names.find? name = some h → b.names.find? name = some h

theorem extends_extend {a : Arena} {c : Component} (hfree : a.names.find? c.name = none) :
    a.Extends (a.extend c) where
  slots := List.prefix_append _ _
  names name h hf := by
    have hne : name ≠ c.name := by
      rintro rfl
      rw [hfree] at hf
      cases hf
    rw [extend, NameMap.find?_insert, if_neg hne, hf]

namespace Extends

theorem refl (a : Arena) : a.Extends a := ⟨List.prefix_refl _, fun _ _ hf => hf⟩

theorem trans {a b c : Arena} (hab : a.Extends b) (hbc : b.Extends c) : a.Extends c :=
  ⟨hab.slots.trans hbc.slots, fun name h hf => hbc.names name h (hab.names name h hf)⟩

variable {a b : Arena} {h : Handle .component}

theorem slots_getElem? (hab : a.Extends b) {i : Nat} (hi : i < a.size) :
    b.slots[i]? = a.slots[i]? := by
  obtain ⟨more, hmore⟩ := hab.slots
  rw [← hmore, List.getElem?_append_left hi]

theorem node?_eq (hab : a.Extends b) (hlt : h.index < a.size) : b.node? h = a.node? h := by
  rw [node?, node?, hab.slots_getElem? hlt]

/-- A component sees under a name what it saw before. -/
theorem inScope?_eq_some (hab : a.Extends b) {owner : Handle .component}
    (hlt : owner.index < a.size) {name : String} (hf : a.inScope? owner name = some h) :
    b.inScope? owner name = some h := by
  unfold inScope? at hf ⊢
  rw [hab.slots_getElem? hlt]
  rcases Option.or_eq_some_iff.mp hf with hown | ⟨hnone, hglobal⟩
  · rw [hown, Option.some_or]
  · rw [hnone, Option.none_or]
    exact hab.names name h hglobal

/-- A reference leads where it led before. -/
theorem resolve?_eq_some (hab : a.Extends b) (ha : a.WellFormed) {reference : String}
    (hr : a.resolve? reference = some h) : b.resolve? reference = some h := by
  -- the names of a reference are looked up from a component that is in both arenas
  have hfold : ∀ (names : List String) (found found' : Option (Handle .component)),
      (∀ o, found = some o → o.index < a.size ∧ found' = some o) →
      names.foldl (fun found name => found.bind fun o => a.inScope? o name) found = some h →
      names.foldl (fun found name => found.bind fun o => b.inScope? o name) found' = some h := by
    intro names
    induction names with
    | nil => exact fun found found' hsame hfound => (hsame h hfound).2
    | cons name names ih =>
        intro found found' hsame hfound
        refine ih _ _ (fun id hid => ?_) hfound
        obtain ⟨o, ho, hid⟩ := Option.bind_eq_some_iff.mp hid
        obtain ⟨hlt, ho'⟩ := hsame o ho
        refine ⟨ha.inScope?_lt hid, ?_⟩
        rw [ho']
        exact hab.inScope?_eq_some hlt hid
  unfold resolve? at hr ⊢
  cases hsegments : (segments reference.toList).map String.ofList with
  | nil => simp [hsegments] at hr
  | cons first rest =>
      rw [hsegments] at hr
      exact hfold rest _ _ (fun o ho => ⟨ha.names first o ho, hab.names first o ho⟩) hr

end Extends

/-! ### Additions -/

/-- Additions keep what is there. -/
theorem extends_addComponents (a : Arena) (cs : List Component) :
    a.Extends (Skeleton.addComponents a cs).value := by
  induction cs generalizing a with
  | nil => exact .refl a
  | cons c rest ih =>
      rw [Skeleton.addComponents]
      cases hadd : a.add c with
      | ok added =>
          obtain ⟨hcontains, -, hb, -⟩ := (add_eq_ok_iff a added.1 c added.2).mp hadd
          have hfree : a.names.find? c.name = none := by simpa [NameMap.contains] using hcontains
          have hfirst : a.Extends added.1 := hb ▸ extends_extend hfree
          exact hfirst.trans (ih added.1)
      | error error => exact ih a

/-- A name that no definition has is not bound. -/
theorem find?_names_addComponents {a : Arena} {cs : List Component} {name : String}
    (ha : a.names.find? name = none) (hcs : name ∉ cs.map Component.name) :
    (Skeleton.addComponents a cs).value.names.find? name = none := by
  induction cs generalizing a with
  | nil => exact ha
  | cons c rest ih =>
      obtain ⟨hne, hrest⟩ := not_or.mp (mt List.mem_cons.mpr hcs)
      rw [Skeleton.addComponents]
      cases hadd : a.add c with
      | ok added =>
          obtain ⟨-, -, hb, -⟩ := (add_eq_ok_iff a added.1 c added.2).mp hadd
          refine ih ?_ hrest
          rw [hb, NameMap.find?_insert, if_neg hne, ha]
      | error error => exact ih ha hrest

end HvacModel.Arena
