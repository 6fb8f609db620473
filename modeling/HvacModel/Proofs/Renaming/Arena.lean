import Mathlib.Data.List.Nodup
import Mathlib.Logic.Equiv.Defs
import HvacModel.Proofs.Component.Representation
import HvacModel.Proofs.Related

/-! # Arenas with other handles

The handle of a component is its position, so components that are added in another order have other
handles.  `Arena.Renames π a b` says that `b` is `a` with its handles renamed by a permutation `π`:
the slot of a handle in `a` and that of the renamed handle in `b` hold the same component up to the
renaming, and names lead to renamed handles.

What is laid out at another position is renamed by the shift (`renames_layout`), so exchanging two
definitions exchanges two blocks of handles (`renames_swap`), and by induction on the permutation
every order of the definitions gives a renamed arena (`exists_renames_of_perm`). -/

namespace HvacModel

open Document (Component)
open Document.Component

/-- A change of the handles of components. -/
abbrev Renaming := Equiv.Perm (Handle .component)

/-- A component under renamed handles. -/
def ComponentNode.rename (f : Handle .component → Handle .component) (n : ComponentNode) :
    ComponentNode :=
  { n with
    id := f n.id
    owner := n.owner.map f
    subComponents := n.subComponents.map f }

namespace Arena

/-- A slot under renamed handles. -/
structure Slot.Renames (f : Handle .component → Handle .component) (s t : Slot) : Prop where
  node : t.node = s.node.rename f
  scope : ∀ name, t.scope.find? name = (s.scope.find? name).map f

/-- An arena under renamed handles; handles beyond the arena are left alone. -/
structure Renames (π : Renaming) (a b : Arena) : Prop where
  size : b.size = a.size
  fixes : ∀ h, a.size ≤ h.index → π h = h
  slots : ∀ h, Option.Rel (Slot.Renames π) a.slots[h.index]? b.slots[(π h).index]?
  names : ∀ name, b.names.find? name = (a.names.find? name).map π

/-! ### Definitions at other positions -/

section layout

variable {f : Handle .component → Handle .component}

theorem handlesFrom_shift {first first' : Nat} {cs : List Component}
    (hf : ∀ i < countList cs, f ⟨first + i⟩ = ⟨first' + i⟩) :
    handlesFrom first' cs = (handlesFrom first cs).map f := by
  induction cs generalizing first first' with
  | nil => rfl
  | cons c rest ih =>
      have hpos := c.count_pos
      rw [countList] at hf
      have hrest : ∀ i < countList rest, f ⟨first + c.count + i⟩ = ⟨first' + c.count + i⟩ := by
        intro i hi
        rw [Nat.add_assoc, Nat.add_assoc]
        exact hf (c.count + i) (by omega)
      rw [handlesFrom, handlesFrom, List.map_cons, ih hrest]
      exact congrArg (· :: _) (hf 0 (by omega)).symm

theorem find?_scopeFrom_shift {first first' : Nat} {scope scope' : NameIndex .component}
    {cs : List Component} (hf : ∀ i < countList cs, f ⟨first + i⟩ = ⟨first' + i⟩)
    (hscope : ∀ name, scope'.find? name = (scope.find? name).map f) (name : String) :
    (scopeFrom first' scope' cs).find? name = ((scopeFrom first scope cs).find? name).map f := by
  induction cs generalizing first first' scope scope' with
  | nil => exact hscope name
  | cons c rest ih =>
      have hpos := c.count_pos
      rw [countList] at hf
      rw [scopeFrom, scopeFrom]
      refine ih (fun i hi => ?_) fun other => ?_
      · rw [Nat.add_assoc, Nat.add_assoc]
        exact hf (c.count + i) (by omega)
      · have hc := hscope c.name
        unfold NameIndex.insertNew
        rw [hc]
        cases scope.find? c.name with
        | some bound => exact hscope other
        | none =>
            show (scope'.insert c.name ⟨first'⟩).find? other =
              ((scope.insert c.name ⟨first⟩).find? other).map f
            rw [NameMap.find?_insert, NameMap.find?_insert]
            by_cases ho : other = c.name
            · rw [if_pos ho, if_pos ho, Option.map_some]
              exact congrArg some (hf 0 (by omega)).symm
            · rw [if_neg ho, if_neg ho, hscope]

mutual

/-- A definition that is laid out elsewhere has renamed slots. -/
theorem renames_layout {first first' : Nat} (owner : Option (Handle .component)) (path : String)
    (c : Component) (hf : ∀ i < c.count, f ⟨first + i⟩ = ⟨first' + i⟩) :
    List.Forall₂ (Slot.Renames f) (c.layout first owner path)
      (c.layout first' (owner.map f) path) := by
  match c with
  | .mk name type attributes subs =>
      rw [count] at hf
      have hsubs : ∀ i < countList subs, f ⟨first + 1 + i⟩ = ⟨first' + 1 + i⟩ := by
        intro i hi
        rw [Nat.add_assoc, Nat.add_assoc, Nat.add_comm 1]
        exact hf (i + 1) (by omega)
      have hfirst : f ⟨first⟩ = ⟨first'⟩ := hf 0 (by omega)
      have hrest := renames_layoutList ⟨first⟩ path subs hsubs
      rw [hfirst] at hrest
      rw [layout, layout]
      refine .cons ⟨?_, find?_scopeFrom_shift hsubs fun _ => rfl⟩ hrest
      simp only [ComponentNode.rename, hfirst, handlesFrom_shift hsubs]

theorem renames_layoutList {first first' : Nat} (owner : Handle .component) (path : String)
    (cs : List Component) (hf : ∀ i < countList cs, f ⟨first + i⟩ = ⟨first' + i⟩) :
    List.Forall₂ (Slot.Renames f) (layoutList first owner path cs)
      (layoutList first' (f owner) path cs) := by
  match cs with
  | [] => exact .nil
  | c :: rest =>
      rw [countList] at hf
      rw [layoutList, layoutList]
      refine List.rel_append (renames_layout (some owner) _ c fun i hi => hf i (by omega)) ?_
      refine renames_layoutList owner path rest fun i hi => ?_
      rw [Nat.add_assoc, Nat.add_assoc]
      exact hf (c.count + i) (by omega)

end

/-- A slot whose handles stay where they are. -/
theorem Slot.renames_self {s : Slot} (hid : f s.node.id = s.node.id)
    (howner : ∀ h, s.node.owner = some h → f h = h)
    (hsubs : ∀ h ∈ s.node.subComponents, f h = h)
    (hscope : ∀ name h, s.scope.find? name = some h → f h = h) : s.Renames f s := by
  have ho : s.node.owner.map f = s.node.owner := by
    cases h : s.node.owner with
    | none => rfl
    | some o => rw [Option.map_some, howner o h]
  have hs : s.node.subComponents.map f = s.node.subComponents := by
    conv_rhs => rw [← List.map_id s.node.subComponents]
    exact List.map_congr_left hsubs
  refine ⟨?_, fun name => ?_⟩
  · rw [ComponentNode.rename, hid, ho, hs]
  · cases h : s.scope.find? name with
    | none => rfl
    | some id => rw [Option.map_some, hscope name id h]

end layout

/-! ### Renamed arenas -/

namespace Renames

variable {π ρ : Renaming} {a b c : Arena}

theorem lt_iff (h : a.Renames π b) (id : Handle .component) :
    (π id).index < a.size ↔ id.index < a.size := by
  have hrel := h.slots id
  have ha : a.slots[id.index]?.isSome ↔ id.index < a.size := by simp [Arena.size]
  have hb : b.slots[(π id).index]?.isSome ↔ (π id).index < a.size := by
    rw [← h.size]
    simp [Arena.size]
  rw [← ha, ← hb]
  generalize a.slots[id.index]? = s, b.slots[(π id).index]? = t at hrel
  cases hrel <;> rfl

theorem node_rename (n : ComponentNode) :
    (n.rename π).rename ρ = n.rename (π.trans ρ) := by
  simp only [ComponentNode.rename, Option.map_map, List.map_map]
  rfl

theorem trans (h : a.Renames π b) (h' : b.Renames ρ c) : a.Renames (π.trans ρ) c where
  size := h'.size.trans h.size
  fixes id hid := by
    rw [Equiv.trans_apply, h.fixes id hid]
    exact h'.fixes id (h.size ▸ hid)
  slots id := by
    have hab := h.slots id
    have hbc := h'.slots (π id)
    rw [Equiv.trans_apply]
    generalize a.slots[id.index]? = s, b.slots[(π id).index]? = t at hab hbc
    generalize c.slots[(ρ (π id)).index]? = u at hbc
    cases hab with
    | none =>
        cases hbc
        exact .none
    | some hst =>
        cases hbc with
        | some htu =>
            refine .some ⟨?_, fun name => ?_⟩
            · rw [htu.node, hst.node, node_rename]
            · rw [htu.scope, hst.scope, Option.map_map]
              rfl
  names name := by
    rw [h'.names, h.names, Option.map_map]
    rfl

theorem refl (a : Arena) : a.Renames (Equiv.refl _) a where
  size := rfl
  fixes _ _ := rfl
  slots id := by
    rw [Equiv.refl_apply]
    cases a.slots[id.index]? with
    | none => exact .none
    | some s =>
        exact .some (Slot.renames_self rfl (fun _ _ => rfl) (fun _ _ => rfl) fun _ _ _ => rfl)
  names name := by
    cases a.names.find? name <;> rfl

/-- The same definition at the end of both. -/
theorem extend (h : a.Renames π b) (d : Component) : (a.extend d).Renames π (b.extend d) where
  size := by rw [size_extend, size_extend, h.size]
  fixes id hid := h.fixes id (by rw [size_extend] at hid; omega)
  slots id := by
    have hlt := h.lt_iff id
    have hsize := h.size
    unfold Arena.extend
    by_cases hid : id.index < a.size
    · have hid' : (π id).index < b.size := by omega
      rw [List.getElem?_append_left hid, List.getElem?_append_left hid']
      exact h.slots id
    · have hfix : π id = id := h.fixes id (by omega)
      have hid' : ¬id.index < b.size := by omega
      rw [hfix, List.getElem?_append_right (Nat.le_of_not_lt hid),
        List.getElem?_append_right (Nat.le_of_not_lt hid')]
      have hnew : List.Forall₂ (Slot.Renames π) (d.layout a.size none d.name)
          (d.layout a.size none d.name) :=
        renames_layout none d.name d fun i _ => h.fixes _ (Nat.le_add_right _ _)
      show Option.Rel _ (d.layout a.size none d.name)[id.index - a.size]?
        (d.layout b.size none d.name)[id.index - b.size]?
      rw [hsize]
      exact hnew.rel_getElem? _
  names name := by
    unfold Arena.extend
    dsimp only
    rw [NameMap.find?_insert, NameMap.find?_insert]
    by_cases hn : name = d.name
    · rw [if_pos hn, if_pos hn, Option.map_some, h.size]
      exact congrArg some (h.fixes _ (Nat.le_refl _)).symm
    · rw [if_neg hn, if_neg hn, h.names]

end Renames

/-! ### Definitions in another order -/

/-- Exchange two neighbouring blocks of positions, the first of `m` and the second of `n`. -/
def exchange (first m n i : Nat) : Nat :=
  if i < first then i
  else if i < first + m then i + n
  else if i < first + m + n then i - m
  else i

theorem exchange_exchange (first m n i : Nat) :
    exchange first n m (exchange first m n i) = i := by
  unfold exchange
  grind

/-- The exchange of two blocks of handles. -/
def exchangeHandles (first m n : Nat) : Renaming where
  toFun h := ⟨exchange first m n h.index⟩
  invFun h := ⟨exchange first n m h.index⟩
  left_inv h := by simp only [exchange_exchange]
  right_inv h := by simp only [exchange_exchange]

theorem exchangeHandles_apply (first m n : Nat) (h : Handle .component) :
    exchangeHandles first m n h = ⟨exchange first m n h.index⟩ := rfl

section exchange

variable (first m n : Nat) {h : Handle .component}

theorem exchangeHandles_before (hlt : h.index < first) : exchangeHandles first m n h = h := by
  rw [exchangeHandles_apply, exchange, if_pos hlt]

theorem exchangeHandles_after (hle : first + m + n ≤ h.index) :
    exchangeHandles first m n h = h := by
  rw [exchangeHandles_apply, exchange, if_neg (by omega), if_neg (by omega), if_neg (by omega)]

theorem exchangeHandles_left {i : Nat} (hi : i < m) :
    exchangeHandles first m n ⟨first + i⟩ = ⟨first + n + i⟩ := by
  rw [exchangeHandles_apply, exchange]
  dsimp only
  rw [if_neg (by omega), if_pos (by omega), Nat.add_right_comm]

theorem exchangeHandles_right {i : Nat} (hi : i < n) :
    exchangeHandles first m n ⟨first + m + i⟩ = ⟨first + i⟩ := by
  rw [exchangeHandles_apply, exchange]
  dsimp only
  rw [if_neg (by omega), if_neg (by omega), if_pos (by omega)]
  exact congrArg Handle.mk (by omega)

end exchange

theorem WellFormed.renames_slot {a : Arena} (ha : a.WellFormed)
    {f : Handle .component → Handle .component} (hf : ∀ h, h.index < a.size → f h = h) (i : Nat) :
    Option.Rel (Slot.Renames f) a.slots[i]? a.slots[i]? := by
  cases hs : a.slots[i]? with
  | none => exact .none
  | some s =>
      have hi : i < a.size := (List.getElem?_eq_some_iff.mp hs).1
      have hplaced := ha.slots i s hs
      have hsubs := fun h hmem => hf h (hplaced.subComponents h hmem).2
      refine .some (Slot.renames_self ?_ ?_ hsubs fun name h hn => hsubs h (hplaced.scope name h hn))
      · rw [hplaced.id]
        exact hf _ hi
      · exact fun h ho => hf h (Nat.lt_trans (hplaced.owner h ho) hi)

theorem getElem?_extend_before {a : Arena} (c : Component) {i : Nat} (hi : i < a.size) :
    (a.extend c).slots[i]? = a.slots[i]? :=
  List.getElem?_append_left hi

theorem getElem?_extend_after (a : Arena) (c : Component) (i : Nat) :
    (a.extend c).slots[a.size + i]? = (c.layout a.size none c.name)[i]? := by
  rw [extend, size, List.getElem?_append_right (Nat.le_add_right _ _), Nat.add_sub_cancel_left]

/-- The slots of two definitions that are added in the other order. -/
theorem slots_swap {a : Arena} (ha : a.WellFormed) (c d : Component) (i : Nat) :
    Option.Rel (Slot.Renames (exchangeHandles a.size c.count d.count))
      ((a.extend c).extend d).slots[i]?
      ((a.extend d).extend c).slots[(exchangeHandles a.size c.count d.count ⟨i⟩).index]? := by
  have hc := renames_layout none c.name c fun i hi =>
    exchangeHandles_left a.size c.count d.count hi
  have hd := renames_layout none d.name d fun i hi =>
    exchangeHandles_right a.size c.count d.count hi
  have hac := size_extend a c
  have had := size_extend a d
  -- the position is in the old arena, in the first block, in the second one, or in none
  by_cases hi : i < a.size
  · rw [exchangeHandles_before _ _ _ hi, getElem?_extend_before _ (by omega),
      getElem?_extend_before _ hi,
      getElem?_extend_before _ (by dsimp only; omega), getElem?_extend_before _ hi]
    exact ha.renames_slot (fun h hlt => exchangeHandles_before _ _ _ hlt) i
  obtain ⟨j, rfl⟩ := Nat.exists_eq_add_of_le (Nat.le_of_not_lt hi)
  by_cases hj : j < c.count
  · rw [exchangeHandles_left _ _ _ hj, getElem?_extend_before _ (by omega),
      getElem?_extend_after, ← had, getElem?_extend_after, had]
    exact hc.rel_getElem? j
  obtain ⟨k, rfl⟩ := Nat.exists_eq_add_of_le (Nat.le_of_not_lt hj)
  by_cases hk : k < d.count
  · rw [← Nat.add_assoc, exchangeHandles_right _ _ _ hk, ← hac, getElem?_extend_after, hac,
      getElem?_extend_before _ (by dsimp only; omega), getElem?_extend_after]
    exact hd.rel_getElem? k
  · rw [exchangeHandles_after _ _ _ (by dsimp only; omega)]
    have hnone : ∀ b : Arena, b.size = a.size + c.count + d.count →
        b.slots[a.size + (c.count + k)]? = none := by
      intro b hb
      rw [List.getElem?_eq_none_iff]
      unfold Arena.size at *
      omega
    rw [hnone _ (by rw [size_extend, hac]), hnone _ (by rw [size_extend, had]; omega)]
    exact .none

/-- The names of two definitions that are added in the other order. -/
theorem names_swap {a : Arena} (ha : a.WellFormed) {c d : Component} (hne : c.name ≠ d.name)
    (name : String) :
    ((a.extend d).extend c).names.find? name =
      (((a.extend c).extend d).names.find? name).map
        (exchangeHandles a.size c.count d.count) := by
  have hac := size_extend a c
  have had := size_extend a d
  have hc := exchangeHandles_left a.size c.count d.count c.count_pos
  have hd := exchangeHandles_right a.size c.count d.count d.count_pos
  simp only [Nat.add_zero] at hc hd
  show ((a.names.insert d.name ⟨a.size⟩).insert c.name ⟨(a.extend d).size⟩).find? name =
    (((a.names.insert c.name ⟨a.size⟩).insert d.name ⟨(a.extend c).size⟩).find? name).map _
  simp only [NameMap.find?_insert, hac, had]
  by_cases hnc : name = c.name
  · rw [if_pos hnc, if_neg (hnc ▸ hne), if_pos hnc, Option.map_some, hc]
  · by_cases hnd : name = d.name
    · rw [if_neg hnc, if_pos hnd, if_pos hnd, Option.map_some, hd]
    · rw [if_neg hnc, if_neg hnd, if_neg hnd, if_neg hnc]
      cases hf : a.names.find? name with
      | none => rfl
      | some id => rw [Option.map_some, exchangeHandles_before _ _ _ (ha.names name id hf)]

/-- Two definitions in the other order. -/
theorem renames_swap {a : Arena} (ha : a.WellFormed) {c d : Component} (hne : c.name ≠ d.name) :
    ((a.extend c).extend d).Renames (exchangeHandles a.size c.count d.count)
      ((a.extend d).extend c) where
  size := by
    simp only [size_extend]
    omega
  fixes id hid := by
    rw [size_extend, size_extend] at hid
    exact exchangeHandles_after _ _ _ hid
  slots id := slots_swap ha c d id.index
  names := names_swap ha hne

/-- Definitions of different names in another order give a renamed arena. -/
theorem exists_renames_of_perm {cs ds : List Component} (hp : cs.Perm ds) {a b : Arena}
    {π : Renaming} (hb : b.WellFormed) (h : a.Renames π b) (hn : (cs.map name).Nodup) :
    ∃ ρ : Renaming, (cs.foldl extend a).Renames ρ (ds.foldl extend b) := by
  induction hp generalizing a b π with
  | nil => exact ⟨π, h⟩
  | cons c _ ih => exact ih (hb.extend c) (h.extend c) (List.nodup_cons.mp hn).2
  | swap c d rest =>
      have hne : d.name ≠ c.name := by
        rintro heq
        exact (List.nodup_cons.mp hn).1 (by rw [heq]; exact List.mem_cons_self)
      have hswap := ((h.extend d).extend c).trans (renames_swap hb hne)
      have hrest : ∀ (list : List Component) {a b : Arena} {π : Renaming}, a.Renames π b →
          (list.foldl extend a).Renames π (list.foldl extend b) := by
        intro list
        induction list with
        | nil => exact fun h => h
        | cons e list ih => exact fun h => ih (h.extend e)
      exact ⟨_, hrest rest hswap⟩
  | trans hp₁ _ ih₁ ih₂ =>
      obtain ⟨ρ, hρ⟩ := ih₁ hb h hn
      obtain ⟨σ, hσ⟩ := ih₂ hb (Renames.refl b) ((hp₁.map name).nodup_iff.mp hn)
      exact ⟨_, hρ.trans hσ⟩

/-! ### Lookups -/

theorem WellFormed.nodup_nodes {a : Arena} (h : a.WellFormed) : a.nodes.Nodup :=
  List.Nodup.of_map ComponentNode.id h.nodup_ids

namespace Renames

variable {π : Renaming} {a b : Arena}

theorem node?_eq (h : a.Renames π b) (id : Handle .component) :
    b.node? (π id) = (a.node? id).map (ComponentNode.rename π) := by
  have hrel := h.slots id
  unfold node?
  generalize a.slots[id.index]? = s, b.slots[(π id).index]? = t at hrel
  cases hrel with
  | none => rfl
  | some hst => exact congrArg some hst.node

theorem inScope?_eq (h : a.Renames π b) (owner : Handle .component) (name : String) :
    b.inScope? (π owner) name = (a.inScope? owner name).map π := by
  have hrel := h.slots owner
  unfold inScope? global?
  rw [h.names, Option.map_or]
  generalize a.slots[owner.index]? = s, b.slots[(π owner).index]? = t at hrel
  cases hrel with
  | none => rfl
  | some hst => rw [Option.bind_some, Option.bind_some, hst.scope]

/-- A reference leads to the renamed handle of what it led to. -/
theorem resolve?_eq (h : a.Renames π b) (reference : String) :
    b.resolve? reference = (a.resolve? reference).map π := by
  have hfold : ∀ (names : List String) (found : Option (Handle .component)),
      names.foldl (fun found name => found.bind fun id => b.inScope? id name) (found.map π) =
        (names.foldl (fun found name => found.bind fun id => a.inScope? id name) found).map π := by
    intro names
    induction names with
    | nil => exact fun _ => rfl
    | cons name rest ih =>
        intro found
        rw [List.foldl_cons, List.foldl_cons, ← ih]
        cases found with
        | none => rfl
        | some id => rw [Option.map_some, Option.bind_some, Option.bind_some, h.inScope?_eq]
  unfold resolve?
  cases (segments reference.toList).map String.ofList with
  | nil => rfl
  | cons first rest =>
      dsimp only
      rw [← hfold, global?, global?, h.names]

theorem mem_nodes_iff (h : a.Renames π b) (n : ComponentNode) :
    n ∈ b.nodes ↔ n ∈ a.nodes.map (ComponentNode.rename π) := by
  rw [Arena.mem_nodes_iff, List.mem_map]
  constructor
  · rintro ⟨id, hid⟩
    rw [← π.apply_symm_apply id, h.node?_eq, Option.map_eq_some_iff] at hid
    obtain ⟨m, hm, rfl⟩ := hid
    exact ⟨m, (Arena.mem_nodes_iff m).mpr ⟨_, hm⟩, rfl⟩
  · rintro ⟨m, hm, rfl⟩
    obtain ⟨id, hid⟩ := (Arena.mem_nodes_iff m).mp hm
    exact ⟨π id, by rw [h.node?_eq, hid, Option.map_some]⟩

/-- The components are the renamed ones in another order. -/
theorem nodes_perm (h : a.Renames π b) (ha : a.WellFormed) (hb : b.WellFormed) :
    (a.nodes.map (ComponentNode.rename π)).Perm b.nodes := by
  refine (List.perm_ext_iff_of_nodup ?_ hb.nodup_nodes).mpr fun n => (h.mem_nodes_iff n).symm
  refine List.Nodup.of_map ComponentNode.id ?_
  have hrenamed := ha.nodup_ids.map π.injective
  rwa [List.map_map] at hrenamed ⊢

/-- Attributes that are carried along. -/
theorem mapAttributes (h : a.Renames π b) {f g : ComponentNode → Attributes}
    (hfg : ∀ n ∈ a.nodes, g (n.rename π) = f n) :
    (a.mapAttributes f).Renames π (b.mapAttributes g) where
  size := by rw [size_mapAttributes, size_mapAttributes, h.size]
  fixes id hid := h.fixes id (by rwa [size_mapAttributes] at hid)
  slots id := by
    have hrel := h.slots id
    have hmem : ∀ s, a.slots[id.index]? = some s → s.node ∈ a.nodes := fun s hs =>
      List.mem_map_of_mem (List.mem_of_getElem? hs)
    rw [Arena.mapAttributes, Arena.mapAttributes, List.getElem?_map, List.getElem?_map]
    generalize a.slots[id.index]? = s, b.slots[(π id).index]? = t at hrel hmem
    cases hrel with
    | none => exact .none
    | @some s t hst =>
        refine .some ⟨?_, hst.scope⟩
        dsimp only
        rw [hst.node, hfg _ (hmem s rfl)]
        rfl
  names := h.names

end Renames

end Arena

end HvacModel
