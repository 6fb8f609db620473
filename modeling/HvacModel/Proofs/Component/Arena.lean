import Mathlib.Data.List.Nodup
import Mathlib.Tactic.Tauto
import HvacModel.Component.Arena

/-! # Well-formed arenas

In a `WellFormed` arena the handle of every component is its position, and every handle that a
component or a name leads to is the position of a component.  The empty arena is well formed
(`wellFormed_empty`) and adding a component keeps it so (`WellFormed.add`): the slots of a
definition occupy the positions from the end of the arena on, one for each component
(`length_layout`), and refer to no other (`wellPlaced_layout`). -/

namespace HvacModel

open Document (Component)

/-- A slot that stands at a position of an arena of a size: an owner stands before what it owns,
and the scope binds names to what is owned. -/
structure Arena.Slot.WellPlaced (size position : Nat) (s : Arena.Slot) : Prop where
  id : s.node.id = ⟨position⟩
  owner : ∀ h, s.node.owner = some h → h.index < position
  subComponents : ∀ h ∈ s.node.subComponents, position < h.index ∧ h.index < size
  scope : ∀ name h, s.scope.find? name = some h → h ∈ s.node.subComponents

theorem Arena.Slot.WellPlaced.mono {size size' position : Nat} {s : Arena.Slot}
    (h : s.WellPlaced size position) (hle : size ≤ size') : s.WellPlaced size' position where
  id := h.id
  owner := h.owner
  subComponents id hid := by
    obtain ⟨hafter, hlt⟩ := h.subComponents id hid
    exact ⟨hafter, Nat.lt_of_lt_of_le hlt hle⟩
  scope := h.scope

/-! ### The layout of a definition -/

namespace Document.Component

theorem count_pos (c : Component) : 0 < c.count := by
  cases c
  exact Nat.succ_pos _

mutual

theorem length_layout (first : Nat) (owner : Option (Handle .component)) (path : String)
    (c : Component) : (c.layout first owner path).length = c.count := by
  match c with
  | .mk name type attributes subs =>
      rw [layout, count, List.length_cons, length_layoutList (first + 1) ⟨first⟩ path subs]

theorem length_layoutList (first : Nat) (owner : Handle .component) (path : String)
    (cs : List Component) : (layoutList first owner path cs).length = countList cs := by
  match cs with
  | [] => rfl
  | c :: rest =>
      rw [layoutList, countList, List.length_append,
        length_layout first (some owner) (path ++ "." ++ c.name) c,
        length_layoutList (first + c.count) owner path rest]

end

theorem bounds_of_mem_handlesFrom {first : Nat} {cs : List Component} {h : Handle .component}
    (hmem : h ∈ handlesFrom first cs) : first ≤ h.index ∧ h.index < first + countList cs := by
  induction cs generalizing first with
  | nil => cases hmem
  | cons c rest ih =>
      have hpos := c.count_pos
      rw [countList]
      rcases List.mem_cons.mp hmem with rfl | hmem
      · dsimp only
        omega
      · have := ih hmem
        omega

theorem find?_scopeFrom {first : Nat} {scope : NameIndex .component} {cs : List Component}
    {name : String} {h : Handle .component} (hf : (scopeFrom first scope cs).find? name = some h) :
    scope.find? name = some h ∨ h ∈ handlesFrom first cs := by
  induction cs generalizing first scope with
  | nil => exact .inl hf
  | cons c rest ih =>
      rw [scopeFrom] at hf
      rcases ih hf with hf | hmem
      · unfold NameIndex.insertNew at hf
        cases hbound : scope.find? c.name with
        | some bound =>
            rw [hbound] at hf
            exact .inl hf
        | none =>
            rw [hbound] at hf
            have hf : (scope.insert c.name ⟨first⟩).find? name = some h := hf
            rw [NameMap.find?_insert] at hf
            by_cases hname : name = c.name
            · rw [if_pos hname, Option.some.injEq] at hf
              exact .inr (hf ▸ List.mem_cons_self)
            · rw [if_neg hname] at hf
              exact .inl hf
      · exact .inr (List.mem_cons_of_mem _ hmem)

mutual

theorem wellPlaced_layout (first : Nat) (owner : Option (Handle .component)) (path : String)
    (c : Component) (howner : ∀ h, owner = some h → h.index < first) (i : Nat) (s : Arena.Slot)
    (hs : (c.layout first owner path)[i]? = some s) :
    s.WellPlaced (first + c.count) (first + i) := by
  match c with
  | .mk name type attributes subs =>
      rw [layout] at hs
      rw [count]
      cases i with
      | zero =>
          cases hs
          refine ⟨rfl, howner, fun h hmem => ?_, fun name h hf => ?_⟩
          · have := bounds_of_mem_handlesFrom hmem
            omega
          · exact (find?_scopeFrom hf).resolve_left (by simp)
      | succ i =>
          rw [List.getElem?_cons_succ] at hs
          have hplaced := wellPlaced_layoutList (first + 1) ⟨first⟩ path subs
            (Nat.lt_succ_self first) i s hs
          rwa [Nat.add_assoc, Nat.add_assoc, Nat.add_comm 1, Nat.add_comm 1] at hplaced

theorem wellPlaced_layoutList (first : Nat) (owner : Handle .component) (path : String)
    (cs : List Component) (howner : owner.index < first) (i : Nat) (s : Arena.Slot)
    (hs : (layoutList first owner path cs)[i]? = some s) :
    s.WellPlaced (first + countList cs) (first + i) := by
  match cs with
  | [] => simp [layoutList] at hs
  | c :: rest =>
      have hlength := length_layout first (some owner) (path ++ "." ++ c.name) c
      rw [layoutList] at hs
      rw [countList]
      by_cases hi : i < c.count
      · rw [List.getElem?_append_left (by omega)] at hs
        refine (wellPlaced_layout first (some owner) _ c ?_ i s hs).mono (by omega)
        rintro h ⟨⟩
        exact howner
      · rw [List.getElem?_append_right (by omega), hlength] at hs
        have hplaced := wellPlaced_layoutList (first + c.count) owner path rest (by omega)
          (i - c.count) s hs
        rwa [Nat.add_assoc, show first + c.count + (i - c.count) = first + i by omega] at hplaced

end

end Document.Component

/-! ### Arenas -/

namespace Arena

/-- Handles are positions, and lead to positions of the arena. -/
structure WellFormed (a : Arena) : Prop where
  slots : ∀ i (s : Slot), a.slots[i]? = some s → s.WellPlaced a.size i
  names : ∀ name h, a.names.find? name = some h → h.index < a.size

theorem wellFormed_empty : empty.WellFormed where
  slots i s hs := by simp [empty] at hs
  names name h hf := by simp [empty] at hf

theorem add_eq_ok_iff (a b : Arena) (c : Component) (id : Handle .component) :
    a.add c = .ok (b, id) ↔ a.names.contains c.name = false ∧ c.repeatedName? c.name = none ∧
      b = ⟨a.slots ++ c.layout a.size none c.name, a.names.insert c.name ⟨a.size⟩⟩ ∧
      id = ⟨a.size⟩ := by
  unfold add
  by_cases h : a.names.contains c.name = true
  · simp [h]
  · rw [if_neg h]
    cases c.repeatedName? c.name with
    | some repeated => simp
    | none => simp [h, eq_comm]

/-- An arena with a definition laid out at its end and its name bound. -/
def extend (a : Arena) (c : Component) : Arena :=
  ⟨a.slots ++ c.layout a.size none c.name, a.names.insert c.name ⟨a.size⟩⟩

theorem size_extend (a : Arena) (c : Component) : (a.extend c).size = a.size + c.count := by
  rw [extend, size, List.length_append, c.length_layout]
  rfl

theorem WellFormed.extend {a : Arena} (h : a.WellFormed) (c : Component) :
    (a.extend c).WellFormed := by
  constructor
  · intro i s hs
    rw [size_extend]
    by_cases hi : i < a.size
    · rw [Arena.extend, List.getElem?_append_left hi] at hs
      exact (h.slots i s hs).mono (Nat.le_add_right _ _)
    · rw [Arena.extend, List.getElem?_append_right (Nat.le_of_not_lt hi)] at hs
      have hplaced := c.wellPlaced_layout a.size none c.name (by simp) _ s hs
      rwa [show a.size + (i - a.slots.length) = i by unfold size at hi ⊢; omega] at hplaced
  · intro name handle hf
    rw [size_extend]
    rw [Arena.extend, NameMap.find?_insert] at hf
    have hpos := c.count_pos
    by_cases hname : name = c.name
    · rw [if_pos hname, Option.some.injEq] at hf
      rw [← hf]
      dsimp only
      omega
    · rw [if_neg hname] at hf
      have := h.names name handle hf
      omega

/-- Adding a component keeps an arena well formed. -/
theorem WellFormed.add {a b : Arena} {c : Component} {id : Handle .component} (h : a.WellFormed)
    (hadd : a.add c = .ok (b, id)) : b.WellFormed := by
  obtain ⟨-, -, rfl, -⟩ := (add_eq_ok_iff a b c id).mp hadd
  exact h.extend c

theorem size_mapAttributes (a : Arena) (f : ComponentNode → Attributes) :
    (a.mapAttributes f).size = a.size := List.length_map _

/-- Attributes do not matter. -/
theorem WellFormed.mapAttributes {a : Arena} (h : a.WellFormed) (f : ComponentNode → Attributes) :
    (a.mapAttributes f).WellFormed := by
  constructor
  · intro i s hs
    obtain ⟨slot, hslot, rfl⟩ := Option.map_eq_some_iff.mp ((List.getElem?_map ..).symm.trans hs)
    obtain ⟨hid, howner, hsubs, hscope⟩ := h.slots i slot hslot
    rw [size_mapAttributes]
    exact ⟨hid, howner, hsubs, hscope⟩
  · rw [size_mapAttributes]
    exact h.names

/-! ### Lookup -/

/-- What a name leads to from a component is a component. -/
theorem WellFormed.inScope?_lt {a : Arena} (h : a.WellFormed) {owner id : Handle .component}
    {name : String} (hf : a.inScope? owner name = some id) : id.index < a.size := by
  unfold inScope? at hf
  rcases Option.or_eq_some_iff.mp hf with hf | ⟨-, hf⟩
  · obtain ⟨slot, hslot, hf⟩ := Option.bind_eq_some_iff.mp hf
    have hplaced := h.slots owner.index slot hslot
    exact (hplaced.subComponents id (hplaced.scope name id hf)).2
  · exact h.names name id hf

/-- What a reference leads to is a component. -/
theorem WellFormed.resolve?_lt {a : Arena} (h : a.WellFormed) {reference : String}
    {id : Handle .component} (hr : a.resolve? reference = some id) : id.index < a.size := by
  unfold resolve? at hr
  split at hr
  · cases hr
  · rename_i first rest _
    -- every name of the reference is looked up from a component already found
    have hfold : ∀ (names : List String) (found : Option (Handle .component)),
        (∀ id, found = some id → id.index < a.size) → ∀ id,
        names.foldl (fun found name => found.bind fun id => a.inScope? id name) found = some id →
        id.index < a.size := by
      intro names
      induction names with
      | nil => exact fun found hfound => hfound
      | cons name names ih =>
          intro found hfound
          apply ih
          intro id hid
          obtain ⟨_, -, hid⟩ := Option.bind_eq_some_iff.mp hid
          exact h.inScope?_lt hid
    exact hfold rest _ (fun id hid => h.names first id hid) id hr

/-- The component that a reference leads to has the handle that the reference resolves to. -/
theorem WellFormed.map_id_resolve? {a : Arena} (h : a.WellFormed) (reference : String) :
    ((a.resolve? reference).bind a.node?).map ComponentNode.id = a.resolve? reference := by
  cases hr : a.resolve? reference with
  | none => rfl
  | some id =>
      have hslot := List.getElem?_eq_getElem (h.resolve?_lt hr)
      rw [Option.bind_some, node?, hslot]
      exact congrArg some (h.slots id.index _ hslot).id

theorem WellFormed.map_id_nodes {a : Arena} (h : a.WellFormed) :
    a.nodes.map ComponentNode.id = (List.range a.size).map Handle.mk := by
  apply List.ext_getElem?
  intro i
  rw [nodes, List.map_map, List.getElem?_map, List.getElem?_map]
  cases hs : a.slots[i]? with
  | none =>
      have hi : a.size ≤ i := List.getElem?_eq_none_iff.mp hs
      rw [List.getElem?_eq_none (by simpa using hi)]
      rfl
  | some s =>
      have hi : i < a.size := (List.getElem?_eq_some_iff.mp hs).1
      rw [List.getElem?_range hi]
      exact congrArg some (h.slots i s hs).id

/-- The components of a well-formed arena have different handles. -/
theorem WellFormed.nodup_ids {a : Arena} (h : a.WellFormed) :
    (a.nodes.map ComponentNode.id).Nodup := by
  rw [h.map_id_nodes]
  exact List.nodup_range.map fun _ _ => Handle.mk.inj

/-! ### Lookup and attributes -/

theorem inScope?_mapAttributes (a : Arena) (f : ComponentNode → Attributes)
    (owner : Handle .component) (name : String) :
    (a.mapAttributes f).inScope? owner name = a.inScope? owner name := by
  unfold inScope? mapAttributes
  rw [List.getElem?_map, Option.bind_map]
  rfl

/-- Names lead to the same components whatever attributes these have. -/
theorem resolve?_mapAttributes (a : Arena) (f : ComponentNode → Attributes) (reference : String) :
    (a.mapAttributes f).resolve? reference = a.resolve? reference := by
  simp only [resolve?, inScope?_mapAttributes]
  rfl

end Arena

end HvacModel
