import HvacModel.Proofs.Component.Arena

/-! # Definitions in an arena

The components of a definition in the order in which they are written, an owner directly before what
it owns, are its `preorder`.  A definition *stands* in an arena at a position when the slots from
there on are its layout (`Arena.Stands`).  Everything below a definition that stands stands too, at
the position that the preorder gives it and directly under its owner (`Stands.exists_under`), so
what a layout says about its first slot holds of every slot of the arena.

`made` lists the definition of every slot of an arena: a slot does not hold the definitions of the
components it owns. -/

namespace HvacModel

open Document (Component)

namespace Document.Component

/-! ### Preorder -/

mutual

/-- The components of a definition, itself included, each before what it owns. -/
def preorder : Component → List Component
  | .mk name type attributes subs => .mk name type attributes subs :: preorderList subs

def preorderList : List Component → List Component
  | [] => []
  | c :: rest => preorder c ++ preorderList rest

end

mutual

theorem length_preorder (c : Component) : c.preorder.length = c.count := by
  match c with
  | .mk name type attributes subs =>
      rw [preorder, count, List.length_cons, length_preorderList subs]

theorem length_preorderList (cs : List Component) :
    (preorderList cs).length = countList cs := by
  match cs with
  | [] => rfl
  | c :: rest =>
      rw [preorderList, countList, List.length_append, length_preorder c, length_preorderList rest]

end

theorem preorder_eq_cons (c : Component) : c.preorder = c :: preorderList c.subComponents := by
  cases c
  rfl

theorem count_eq_succ (c : Component) : c.count = countList c.subComponents + 1 := by
  cases c
  rfl

theorem preorderList_append (cs ds : List Component) :
    preorderList (cs ++ ds) = preorderList cs ++ preorderList ds := by
  induction cs with
  | nil => rfl
  | cons c rest ih =>
      rw [List.cons_append, preorderList, preorderList, ih, List.append_assoc]

theorem preorderList_singleton (c : Component) : preorderList [c] = c.preorder := by
  rw [preorderList, preorderList, List.append_nil]

/-! ### Repeated names -/

mutual

/-- Nothing is repeated when no component of a definition owns two of one name. -/
theorem repeatedName?_eq_none_iff (path : String) (c : Component) :
    c.repeatedName? path = none ↔ ∀ d ∈ c.preorder, (d.subComponents.map name).Nodup := by
  match c with
  | .mk name type attributes subs =>
      rw [repeatedName?, repeatedNameIn?_eq_none_iff path [] subs, preorder, List.forall_mem_cons,
        subComponents]
      simp

theorem repeatedNameIn?_eq_none_iff (path : String) (seen : List String) (cs : List Component) :
    repeatedNameIn? path seen cs = none ↔ (∀ c ∈ cs, c.name ∉ seen) ∧ (cs.map name).Nodup ∧
      ∀ d ∈ preorderList cs, (d.subComponents.map name).Nodup := by
  match cs with
  | [] => simp [repeatedNameIn?, preorderList]
  | c :: rest =>
      rw [repeatedNameIn?]
      by_cases hseen : c.name ∈ seen
      · simp [hseen]
      · rw [if_neg hseen, Option.or_eq_none_iff, repeatedName?_eq_none_iff _ c,
          repeatedNameIn?_eq_none_iff path (c.name :: seen) rest, preorderList, List.map_cons,
          List.nodup_cons, List.forall_mem_cons, List.forall_mem_append]
        have hfresh : (∀ d ∈ rest, d.name ∉ c.name :: seen) ↔
            c.name ∉ rest.map name ∧ ∀ d ∈ rest, d.name ∉ seen := by
          simp only [List.mem_cons, not_or, List.mem_map, not_exists, not_and, forall_and]
        rw [hfresh]
        tauto

end

/-! ### Handles of what is owned -/

theorem length_handlesFrom (first : Nat) (cs : List Component) :
    (handlesFrom first cs).length = cs.length := by
  induction cs generalizing first with
  | nil => rfl
  | cons c rest ih => exact congrArg Nat.succ (ih _)

theorem handlesFrom_increasing (first : Nat) (cs : List Component) :
    (handlesFrom first cs).Pairwise fun h k => h.index < k.index := by
  induction cs generalizing first with
  | nil => exact .nil
  | cons c rest ih =>
      refine .cons (fun k hk => ?_) (ih _)
      have hpos := c.count_pos
      have := (bounds_of_mem_handlesFrom hk).1
      dsimp only
      omega

theorem exists_mem_zip_handlesFrom {first : Nat} {cs : List Component} {h : Handle .component}
    (hmem : h ∈ handlesFrom first cs) : ∃ c, (h, c) ∈ (handlesFrom first cs).zip cs := by
  obtain ⟨k, hk⟩ := List.mem_iff_getElem?.mp hmem
  have hlt : k < cs.length := by
    rw [← length_handlesFrom first cs]
    exact (List.getElem?_eq_some_iff.mp hk).1
  exact ⟨cs[k], List.mem_iff_getElem?.mpr
    ⟨k, List.getElem?_zip_eq_some.mpr ⟨hk, List.getElem?_eq_getElem hlt⟩⟩⟩

/-- Where no name is repeated, a scope binds the names of what is owned and no others. -/
theorem find?_scopeFrom_eq_some_iff {first : Nat} {scope : NameIndex .component}
    {cs : List Component} (hn : (cs.map name).Nodup) (hfree : ∀ c ∈ cs, scope.find? c.name = none)
    (key : String) (h : Handle .component) :
    (scopeFrom first scope cs).find? key = some h ↔
      scope.find? key = some h ∨ ∃ c, (h, c) ∈ (handlesFrom first cs).zip cs ∧ c.name = key := by
  induction cs generalizing first scope with
  | nil => simp [scopeFrom]
  | cons c rest ih =>
      obtain ⟨hc, hrest⟩ := List.nodup_cons.mp hn
      have hbind : (scope.insertNew c.name ⟨first⟩).toOption.getD scope =
          scope.insert c.name ⟨first⟩ := by
        rw [NameIndex.insertNew, hfree c List.mem_cons_self]
        rfl
      have hfree' : ∀ d ∈ rest, (scope.insert c.name ⟨first⟩).find? d.name = none := by
        intro d hd
        have hne : d.name ≠ c.name := fun e => hc (List.mem_map.mpr ⟨d, hd, e⟩)
        rw [NameMap.find?_insert, if_neg hne, hfree d (List.mem_cons_of_mem _ hd)]
      rw [scopeFrom, hbind, ih hrest hfree', NameMap.find?_insert, handlesFrom, List.zip_cons_cons]
      by_cases hkey : key = c.name
      · subst hkey
        simp only [if_true, Option.some.injEq, hfree c List.mem_cons_self, reduceCtorEq, false_or,
          List.mem_cons, Prod.mk.injEq]
        constructor
        · rintro (rfl | ⟨d, hd, hname⟩)
          · exact ⟨c, .inl ⟨rfl, rfl⟩, rfl⟩
          · exact ⟨d, .inr hd, hname⟩
        · rintro ⟨d, ⟨rfl, rfl⟩ | hd, hname⟩
          · exact .inl rfl
          · exact .inr ⟨d, hd, hname⟩
      · rw [if_neg hkey]
        refine or_congr_right ⟨?_, ?_⟩
        · rintro ⟨d, hd, hname⟩
          exact ⟨d, List.mem_cons_of_mem _ hd, hname⟩
        · rintro ⟨d, hd, hname⟩
          rcases List.mem_cons.mp hd with heq | hd
          · cases heq
            exact absurd hname.symm hkey
          · exact ⟨d, hd, hname⟩

end Document.Component

open Document.Component

/-! ### Pieces of a list -/

/-- A piece stands in a list from a position on. -/
def HeldAt {α : Type} (list : List α) (first : Nat) (piece : List α) : Prop :=
  ∀ i x, piece[i]? = some x → list[first + i]? = some x

namespace HeldAt

variable {α : Type} {list : List α} {first : Nat}

theorem cons_iff {x : α} {rest : List α} :
    HeldAt list first (x :: rest) ↔ list[first]? = some x ∧ HeldAt list (first + 1) rest := by
  constructor
  · intro h
    refine ⟨h 0 x rfl, fun i y hy => ?_⟩
    rw [Nat.add_assoc, Nat.add_comm 1]
    exact h (i + 1) y hy
  · rintro ⟨hx, hrest⟩ i y hy
    cases i with
    | zero =>
        cases hy
        exact hx
    | succ i =>
        rw [Nat.add_comm i, ← Nat.add_assoc]
        exact hrest i y hy

theorem append_iff {xs ys : List α} :
    HeldAt list first (xs ++ ys) ↔ HeldAt list first xs ∧ HeldAt list (first + xs.length) ys := by
  induction xs generalizing first with
  | nil => simp [HeldAt]
  | cons x rest ih =>
      rw [List.cons_append, cons_iff, cons_iff, ih, and_assoc, List.length_cons,
        Nat.add_assoc, Nat.add_comm 1]

/-- A piece stays where it is when the list grows. -/
theorem append {piece : List α} (h : HeldAt list first piece) (more : List α) :
    HeldAt (list ++ more) first piece := by
  intro i x hx
  have hat := h i x hx
  rw [List.getElem?_append_left (List.getElem?_eq_some_iff.mp hat).1, hat]

theorem append_self (list piece : List α) : HeldAt (list ++ piece) list.length piece := by
  intro i x hx
  rw [List.getElem?_append_right (Nat.le_add_right _ _), Nat.add_sub_cancel_left, hx]

theorem take_drop_eq {piece : List α} (h : HeldAt list first piece) :
    (list.drop first).take piece.length = piece := by
  apply List.ext_getElem?
  intro i
  rw [List.getElem?_take, List.getElem?_drop]
  by_cases hi : i < piece.length
  · rw [if_pos hi, List.getElem?_eq_getElem hi]
    exact h i _ (List.getElem?_eq_getElem hi)
  · rw [if_neg hi, List.getElem?_eq_none (Nat.le_of_not_lt hi)]

end HeldAt

/-! ### Definitions that stand -/

namespace Arena

/-- A definition stands in an arena at a position, with an owner and a path. -/
structure Stands (a : Arena) (made : List Component) (first : Nat)
    (owner : Option (Handle .component)) (path : String) (c : Component) : Prop where
  slots : HeldAt a.slots first (c.layout first owner path)
  made : HeldAt made first c.preorder

/-- The definitions of one owner stand in an arena one after the other. -/
structure StandAll (a : Arena) (made : List Component) (first : Nat) (owner : Handle .component)
    (path : String) (cs : List Component) : Prop where
  slots : HeldAt a.slots first (layoutList first owner path cs)
  made : HeldAt made first (preorderList cs)

/-- A definition stands at the second position directly under the one that stands at the first. -/
def StandsUnder (a : Arena) (made : List Component) (o p : Nat) (d : Component) : Prop :=
  ∃ owner path e, a.Stands made o owner path e ∧
    ((⟨p⟩ : Handle .component), d) ∈ (handlesFrom (o + 1) e.subComponents).zip e.subComponents ∧
    a.Stands made p (some ⟨o⟩) (path ++ "." ++ d.name) d

/-- The slot that a definition gets at a position. -/
def slotAt (first : Nat) (owner : Option (Handle .component)) (path : String) (c : Component) :
    Slot :=
  { node :=
      { id := ⟨first⟩
        name := c.name
        path := path
        type := c.type
        attributes := c.attributes
        owner := owner
        subComponents := handlesFrom (first + 1) c.subComponents }
    scope := scopeFrom (first + 1) .empty c.subComponents }

variable {a : Arena} {made : List Component} {first : Nat} {owner : Option (Handle .component)}
  {path : String} {c : Component}

theorem stands_iff : a.Stands made first owner path c ↔
    a.slots[first]? = some (slotAt first owner path c) ∧ made[first]? = some c ∧
      a.StandAll made (first + 1) ⟨first⟩ path c.subComponents := by
  have hlayout : c.layout first owner path =
      slotAt first owner path c :: layoutList (first + 1) ⟨first⟩ path c.subComponents := by
    cases c
    rfl
  constructor
  · rintro ⟨hslots, hmade⟩
    rw [hlayout, HeldAt.cons_iff] at hslots
    rw [preorder_eq_cons, HeldAt.cons_iff] at hmade
    exact ⟨hslots.1, hmade.1, hslots.2, hmade.2⟩
  · rintro ⟨hslot, hdef, hslots, hmade⟩
    constructor
    · rw [hlayout, HeldAt.cons_iff]
      exact ⟨hslot, hslots⟩
    · rw [preorder_eq_cons, HeldAt.cons_iff]
      exact ⟨hdef, hmade⟩

theorem standAll_cons_iff {o : Handle .component} {rest : List Component} :
    a.StandAll made first o path (c :: rest) ↔
      a.Stands made first (some o) (path ++ "." ++ c.name) c ∧
        a.StandAll made (first + c.count) o path rest := by
  constructor
  · rintro ⟨hslots, hmade⟩
    rw [layoutList, HeldAt.append_iff, length_layout] at hslots
    rw [preorderList, HeldAt.append_iff, length_preorder] at hmade
    exact ⟨⟨hslots.1, hmade.1⟩, hslots.2, hmade.2⟩
  · rintro ⟨⟨hslot, hdef⟩, hslots, hmade⟩
    constructor
    · rw [layoutList, HeldAt.append_iff, length_layout]
      exact ⟨hslot, hslots⟩
    · rw [preorderList, HeldAt.append_iff, length_preorder]
      exact ⟨hdef, hmade⟩

/-- What stands in an arena stands in it when it grows. -/
theorem Stands.append (h : a.Stands made first owner path c) (slots : List Slot)
    (more : List Component) (names : NameIndex .component) :
    (⟨a.slots ++ slots, names⟩ : Arena).Stands (made ++ more) first owner path c :=
  ⟨h.slots.append slots, h.made.append more⟩

theorem StandsUnder.append {o p : Nat} {d : Component} (h : a.StandsUnder made o p d)
    (slots : List Slot) (more : List Component) (names : NameIndex .component) :
    (⟨a.slots ++ slots, names⟩ : Arena).StandsUnder (made ++ more) o p d := by
  obtain ⟨owner, path, e, he, hmem, hd⟩ := h
  exact ⟨owner, path, e, he.append slots more names, hmem, hd.append slots more names⟩

/-- What follows an arena is laid out from its size on. -/
theorem stands_append (a : Arena) (made : List Component) (hmade : made.length = a.size)
    (owner : Option (Handle .component)) (path : String) (c : Component)
    (names : NameIndex .component) :
    (⟨a.slots ++ c.layout a.size owner path, names⟩ : Arena).Stands (made ++ c.preorder) a.size
      owner path c := by
  refine ⟨HeldAt.append_self a.slots _, ?_⟩
  rw [← hmade]
  exact HeldAt.append_self made _

theorem StandAll.of_mem {o h : Handle .component} {cs : List Component} {d : Component}
    (hs : a.StandAll made first o path cs) (hmem : (h, d) ∈ (handlesFrom first cs).zip cs) :
    a.Stands made h.index (some o) (path ++ "." ++ d.name) d := by
  induction cs generalizing first with
  | nil => cases hmem
  | cons c rest ih =>
      obtain ⟨hc, hrest⟩ := standAll_cons_iff.mp hs
      rw [handlesFrom, List.zip_cons_cons] at hmem
      rcases List.mem_cons.mp hmem with heq | hmem
      · cases heq
        exact hc
      · exact ih hrest hmem

/-- The handles of what an owner lists lead to the definitions that it lists. -/
theorem StandAll.map_made {o : Handle .component} {cs : List Component}
    (h : a.StandAll made first o path cs) :
    (handlesFrom first cs).map (fun h => made[h.index]?) = cs.map some := by
  induction cs generalizing first with
  | nil => rfl
  | cons c rest ih =>
      obtain ⟨hc, hrest⟩ := standAll_cons_iff.mp h
      rw [handlesFrom, List.map_cons, List.map_cons, ih hrest, (stands_iff.mp hc).2.1]

/-- What a definition owns stands directly under it. -/
theorem Stands.under (h : a.Stands made first owner path c) {p : Handle .component} {d : Component}
    (hmem : (p, d) ∈ (handlesFrom (first + 1) c.subComponents).zip c.subComponents) :
    a.StandsUnder made first p.index d := by
  obtain ⟨-, -, hall⟩ := stands_iff.mp h
  exact ⟨owner, path, c, h, hmem, hall.of_mem hmem⟩

mutual

/-- Every position of a definition that stands is its own, or is that of a component directly under
one of the definition, with all it owns in the definition too. -/
theorem Stands.exists_under {first : Nat} {owner : Option (Handle .component)} {path : String}
    (c : Component) (h : a.Stands made first owner path c) {p : Nat} (hp : first ≤ p)
    (hlt : p < first + c.count) : p = first ∨ ∃ o d, first ≤ o ∧ o < p ∧ a.StandsUnder made o p d ∧
      p + d.count ≤ first + c.count := by
  match c with
  | .mk name type attributes subs =>
      obtain ⟨-, -, hall⟩ := stands_iff.mp h
      rw [count] at hlt ⊢
      rcases Nat.eq_or_lt_of_le hp with heq | hfirst
      · exact .inl heq.symm
      · right
        rcases StandAll.exists_under subs hall hfirst (by omega) with
          ⟨d, hmem, hd, hbound⟩ | ⟨o, d, ho, hop, hd, hbound⟩
        · exact ⟨first, d, Nat.le_refl _, hfirst, ⟨owner, path, _, h, hmem, hd⟩, by omega⟩
        · exact ⟨o, d, by omega, hop, hd, by omega⟩

theorem StandAll.exists_under {first : Nat} {owner : Handle .component} {path : String}
    (cs : List Component) (h : a.StandAll made first owner path cs) {p : Nat} (hp : first ≤ p)
    (hlt : p < first + countList cs) :
    (∃ d, ((⟨p⟩ : Handle .component), d) ∈ (handlesFrom first cs).zip cs ∧
      a.Stands made p (some owner) (path ++ "." ++ d.name) d ∧
      p + d.count ≤ first + countList cs) ∨
    ∃ o d, first ≤ o ∧ o < p ∧ a.StandsUnder made o p d ∧
      p + d.count ≤ first + countList cs := by
  match cs with
  | [] => exact absurd hlt (Nat.not_lt.mpr hp)
  | c :: rest =>
      obtain ⟨hc, hrest⟩ := standAll_cons_iff.mp h
      rw [countList] at hlt ⊢
      rcases Nat.lt_or_ge p (first + c.count) with hin | hout
      · rcases Stands.exists_under c hc hp hin with rfl | ⟨o, d, ho, hop, hd, hbound⟩
        · exact .inl ⟨c, List.mem_cons_self, hc, by omega⟩
        · exact .inr ⟨o, d, ho, hop, hd, by omega⟩
      · rcases StandAll.exists_under rest hrest hout (by omega) with
          ⟨d, hmem, hd, hbound⟩ | ⟨o, d, ho, hop, hd, hbound⟩
        · exact .inl ⟨d, List.mem_cons_of_mem _ hmem, hd, by omega⟩
        · exact .inr ⟨o, d, by omega, hop, hd, by omega⟩

end

end Arena

end HvacModel
