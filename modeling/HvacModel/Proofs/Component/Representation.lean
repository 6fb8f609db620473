import Mathlib.Data.List.Sort
import HvacModel.Proofs.Component.Subtree
import HvacModel.Skeleton.Resolve

/-! # What an arena represents

After any sequence of additions, refused ones included, an arena represents the definitions that it
accepted (`Arena.Represents`): the components stand in the preorder of the definitions, owners and
owned ones refer to each other, names and scopes bind exactly what they should, and paths follow the
owners.  An addition is refused exactly when its name is taken or an owner in it repeats a name, and
it leaves the arena as it was.

The invariant behind it (`Arena.Built`) says of every position which definition stands there and why
(`Built.node_eq`); an addition appends one definition that stands at the end (`Built.add`). -/

namespace HvacModel

open Document (Component)
open Document.Component

namespace Arena

/-- The arena after a sequence of additions, those that are refused included. -/
def after (calls : List Component) : Arena := (Skeleton.addComponents .empty calls).value

/-- The definitions that an arena accepts of a sequence. -/
def accepted (a : Arena) : List Component → List Component
  | [] => []
  | c :: rest =>
    match a.add c with
    | .ok (extended, _) => c :: accepted extended rest
    | .error _ => accepted a rest

/-- A component is another one or is owned, directly or through others, by it. -/
inductive Within (a : Arena) (top : Handle .component) : Handle .component → Prop
  | self : Within a top top
  | owned {h o : Handle .component} {n : ComponentNode} (hn : a.node? h = some n)
      (ho : n.owner = some o) (within : Within a top o) : Within a top h

/-- An arena represents definitions: its components are theirs in preorder. -/
structure Represents (a : Arena) (tops : List Component) : Prop where
  id : ∀ (i : Nat) (n : ComponentNode), a.nodes[i]? = some n → n.id = ⟨i⟩
  scopes : a.scopes.length = a.nodes.length
  /-- The names bound are those of the components that nobody owns. -/
  names : ∀ name h, a.names.find? name = some h ↔
    ∃ n, a.node? h = some n ∧ n.owner = none ∧ n.name = name
  /-- A scope binds the names of what its component owns. -/
  scope : ∀ h n, a.node? h = some n → ∀ s : NameIndex .component, a.scopes[h.index]? = some s →
    ∀ name sub, s.find? name = some sub ↔
      sub ∈ n.subComponents ∧ ∃ m, a.node? sub = some m ∧ m.name = name
  /-- What a component owns is listed in the order of the arena. -/
  subComponents : ∀ h n, a.node? h = some n →
    n.subComponents = (a.nodes.filter fun m => m.owner = some h).map ComponentNode.id
  owner : ∀ h n o, a.node? h = some n → n.owner = some o → o.index < h.index
  path : ∀ h n, a.node? h = some n → (n.owner = none ∧ n.path = n.name) ∨
    ∃ o m, n.owner = some o ∧ a.node? o = some m ∧ n.path = m.path ++ "." ++ n.name
  size : a.size = (preorderList tops).length
  /-- A component has the data of its definition and owns what the definition owns, in its order. -/
  definition : ∀ (i : Nat) (n : ComponentNode) (d : Component), a.nodes[i]? = some n →
    (preorderList tops)[i]? = some d →
    n.name = d.name ∧ n.type = d.type ∧ n.attributes = d.attributes ∧
      n.subComponents.map (fun h => (preorderList tops)[h.index]?) = d.subComponents.map some
  /-- Everything within a component stands in the positions from it on, in preorder. -/
  subtree : ∀ (i : Nat) (d : Component), (preorderList tops)[i]? = some d →
    ((preorderList tops).drop i).take d.count = d.preorder ∧
      ∀ j, a.Within ⟨i⟩ ⟨j⟩ ↔ i ≤ j ∧ j < i + d.count

/-! ### The invariant of additions -/

/-- Every position of an arena is that of an accepted definition whose name is bound, or stands
directly under an earlier one. -/
structure Built (a : Arena) (tops : List Component) : Prop where
  size : (preorderList tops).length = a.size
  distinct : ∀ d ∈ preorderList tops, (d.subComponents.map name).Nodup
  stands : ∀ p < a.size,
    (∃ d, a.Stands (preorderList tops) p none d.name d ∧ a.names.find? d.name = some ⟨p⟩) ∨
      ∃ o d, o < p ∧ a.StandsUnder (preorderList tops) o p d
  names : ∀ name h, a.names.find? name = some h →
    ∃ d, a.Stands (preorderList tops) h.index none name d ∧ d.name = name

theorem built_empty : empty.Built [] where
  size := rfl
  distinct := nofun
  stands := nofun
  names name h hf := by simp [empty] at hf

/-- An accepted definition stands at the end; the rest stays as it is. -/
theorem Built.add {a b : Arena} {tops : List Component} {c : Component} {id : Handle .component}
    (h : a.Built tops) (hadd : a.add c = .ok (b, id)) : b.Built (tops ++ [c]) := by
  obtain ⟨hfree, hrepeated, rfl, -⟩ := (add_eq_ok_iff a b c id).mp hadd
  have hmade : preorderList (tops ++ [c]) = preorderList tops ++ c.preorder := by
    rw [preorderList_append, preorderList_singleton]
  have hfree : a.names.find? c.name = none := by
    simpa [NameMap.contains] using hfree
  have hnew := stands_append a (preorderList tops) h.size none c.name c
    (a.names.insert c.name ⟨a.size⟩)
  have hsize : (⟨a.slots ++ c.layout a.size none c.name,
      a.names.insert c.name ⟨a.size⟩⟩ : Arena).size = a.size + c.count := by
    rw [Arena.size, List.length_append, length_layout]
    rfl
  constructor
  · rw [hmade, List.length_append, h.size, length_preorder, hsize]
  · rw [hmade, List.forall_mem_append]
    exact ⟨h.distinct, (repeatedName?_eq_none_iff c.name c).mp hrepeated⟩
  · rw [hmade, hsize]
    intro p hp
    rcases Nat.lt_or_ge p a.size with hold | hge
    · rcases h.stands p hold with ⟨d, hd, hbound⟩ | ⟨o, d, ho, hd⟩
      · refine .inl ⟨d, hd.append _ _ _, ?_⟩
        have hne : d.name ≠ c.name := fun e => by simp [e, hfree] at hbound
        rw [NameMap.find?_insert, if_neg hne, hbound]
      · exact .inr ⟨o, d, ho, hd.append _ _ _⟩
    · rcases hnew.exists_under c hge hp with rfl | ⟨o, d, -, ho, hd, -⟩
      · exact .inl ⟨c, hnew, by rw [NameMap.find?_insert, if_pos rfl]⟩
      · exact .inr ⟨o, d, ho, hd⟩
  · rw [hmade]
    intro name handle hf
    rw [NameMap.find?_insert] at hf
    by_cases hname : name = c.name
    · rw [if_pos hname, Option.some.injEq] at hf
      subst hname hf
      exact ⟨c, hnew, rfl⟩
    · rw [if_neg hname] at hf
      obtain ⟨d, hd, hdname⟩ := h.names name handle hf
      exact ⟨d, hd.append _ _ _, hdname⟩

/-- A sequence of additions builds on what is there. -/
theorem Built.addComponents {a : Arena} {tops : List Component} (h : a.Built tops)
    (calls : List Component) :
    (Skeleton.addComponents a calls).value.Built (tops ++ a.accepted calls) := by
  induction calls generalizing a tops with
  | nil => rwa [accepted, List.append_nil]
  | cons c rest ih =>
      rw [Skeleton.addComponents, accepted]
      cases hadd : a.add c with
      | ok added =>
          obtain ⟨extended, id⟩ := added
          have hrest := ih (h.add hadd)
          rwa [List.append_assoc] at hrest
      | error error => exact ih h

theorem built_after (calls : List Component) : (after calls).Built (accepted .empty calls) :=
  built_empty.addComponents calls

/-! ### Nodes of an arena that is built -/

variable {a : Arena} {tops : List Component}

theorem node?_eq_getElem? (a : Arena) (h : Handle .component) :
    a.node? h = a.nodes[h.index]? := (List.getElem?_map ..).symm

theorem mem_nodes_iff (n : ComponentNode) : n ∈ a.nodes ↔ ∃ h, a.node? h = some n := by
  simp only [node?_eq_getElem?, List.mem_iff_getElem?]
  constructor
  · rintro ⟨i, hi⟩
    exact ⟨⟨i⟩, hi⟩
  · rintro ⟨h, hn⟩
    exact ⟨h.index, hn⟩

theorem lt_size_of_node? {h : Handle .component} {n : ComponentNode} (hn : a.node? h = some n) :
    h.index < a.size := by
  rw [node?_eq_getElem?] at hn
  have := (List.getElem?_eq_some_iff.mp hn).1
  rwa [nodes, List.length_map] at this

theorem Stands.node? {made : List Component} {first : Nat} {owner : Option (Handle .component)}
    {path : String} {d : Component} (h : a.Stands made first owner path d) :
    a.node? ⟨first⟩ = some (slotAt first owner path d).node := by
  rw [Arena.node?, (stands_iff.mp h).1]
  rfl

/-- What a definition that stands owns has the definition as its owner. -/
theorem StandsUnder.node? {made : List Component} {o p : Nat} {d : Component}
    (h : a.StandsUnder made o p d) : ∃ n m, a.node? ⟨p⟩ = some n ∧ a.node? ⟨o⟩ = some m ∧
      n.owner = some ⟨o⟩ ∧ n.name = d.name ∧ n.path = m.path ++ "." ++ d.name ∧
      ⟨p⟩ ∈ m.subComponents := by
  obtain ⟨owner, path, e, he, hmem, hd⟩ := h
  exact ⟨_, _, hd.node?, he.node?, rfl, rfl, rfl, (List.of_mem_zip hmem).1⟩

/-- Every node is that of a definition, whose name is bound or whose owner lists it. -/
theorem Built.node_eq (h : a.Built tops) {id : Handle .component} {n : ComponentNode}
    (hn : a.node? id = some n) :
    ∃ d, a.Stands (preorderList tops) id.index n.owner n.path d ∧
      n = (slotAt id.index n.owner n.path d).node ∧
      ((n.owner = none ∧ n.path = n.name ∧ a.names.find? n.name = some id) ∨
        ∃ o m, n.owner = some o ∧ o.index < id.index ∧ a.node? o = some m ∧
          n.path = m.path ++ "." ++ n.name ∧ id ∈ m.subComponents) := by
  rcases h.stands id.index (lt_size_of_node? hn) with ⟨d, hd, hbound⟩ | ⟨o, d, ho, hd⟩
  · have hnode := hd.node?
    rw [hn, Option.some.injEq] at hnode
    subst hnode
    exact ⟨d, hd, rfl, .inl ⟨rfl, rfl, hbound⟩⟩
  · obtain ⟨n', m, hn', hm, howner, hname, hpath, hmem⟩ := hd.node?
    obtain ⟨owner, path, e, he, hsub, hstands⟩ := hd
    have hnode := hstands.node?
    rw [hn, Option.some.injEq] at hn'
    subst hn'
    rw [hn, Option.some.injEq] at hnode
    subst hnode
    exact ⟨d, hstands, rfl, .inr ⟨⟨o⟩, m, rfl, ho, hm, hpath, hmem⟩⟩

theorem Built.id_of_node? (h : a.Built tops) {id : Handle .component} {n : ComponentNode}
    (hn : a.node? id = some n) : n.id = id := by
  obtain ⟨d, -, heq, -⟩ := h.node_eq hn
  rw [heq]
  rfl

/-- A component lists what it owns and nothing else. -/
theorem Built.mem_subComponents_iff (h : a.Built tops) {id : Handle .component}
    {n : ComponentNode} (hn : a.node? id = some n) (sub : Handle .component) :
    sub ∈ n.subComponents ↔ ∃ m, a.node? sub = some m ∧ m.owner = some id := by
  obtain ⟨d, hd, heq, -⟩ := h.node_eq hn
  constructor
  · intro hmem
    rw [heq] at hmem
    obtain ⟨e, he⟩ := exists_mem_zip_handlesFrom hmem
    obtain ⟨m, -, hm, -, howner, -⟩ := (hd.under he).node?
    exact ⟨m, hm, howner⟩
  · rintro ⟨m, hm, howner⟩
    obtain ⟨-, -, -, ⟨hnone, -⟩ | ⟨o, m', ho, -, hm', -, hmem⟩⟩ := h.node_eq hm
    · rw [hnone] at howner
      cases howner
    · rw [howner, Option.some.injEq] at ho
      subst ho
      rw [hn, Option.some.injEq] at hm'
      rwa [hm']

theorem Built.nodes_increasing (h : a.Built tops) :
    a.nodes.Pairwise fun n m => n.id.index < m.id.index := by
  rw [List.pairwise_iff_getElem]
  intro i j hi hj hij
  have hn : a.node? ⟨i⟩ = some a.nodes[i] := by
    rw [node?_eq_getElem?, List.getElem?_eq_getElem hi]
  have hm : a.node? ⟨j⟩ = some a.nodes[j] := by
    rw [node?_eq_getElem?, List.getElem?_eq_getElem hj]
  rw [h.id_of_node? hn, h.id_of_node? hm]
  exact hij

theorem Built.subComponents_eq (h : a.Built tops) {id : Handle .component} {n : ComponentNode}
    (hn : a.node? id = some n) :
    n.subComponents = (a.nodes.filter fun m => m.owner = some id).map ComponentNode.id := by
  have : Std.Irrefl fun h k : Handle .component => h.index < k.index := ⟨fun h => Nat.lt_irrefl _⟩
  have : Std.Antisymm fun h k : Handle .component => h.index < k.index :=
    ⟨fun h k hlt hgt => absurd hlt (Nat.lt_asymm hgt)⟩
  refine List.Pairwise.eq_of_mem_iff (r := fun h k => h.index < k.index) ?_ ?_ fun sub => ?_
  · obtain ⟨d, -, heq, -⟩ := h.node_eq hn
    rw [heq]
    exact handlesFrom_increasing _ _
  · rw [List.pairwise_map]
    exact h.nodes_increasing.filter _
  · rw [h.mem_subComponents_iff hn, List.mem_map]
    constructor
    · rintro ⟨m, hm, howner⟩
      refine ⟨m, List.mem_filter.mpr ⟨(mem_nodes_iff m).mpr ⟨sub, hm⟩, ?_⟩, h.id_of_node? hm⟩
      exact decide_eq_true howner
    · rintro ⟨m, hmem, rfl⟩
      obtain ⟨hmem, howner⟩ := List.mem_filter.mp hmem
      obtain ⟨sub, hm⟩ := (mem_nodes_iff m).mp hmem
      rw [h.id_of_node? hm]
      exact ⟨m, hm, of_decide_eq_true howner⟩

/-! ### Lookups -/

theorem Built.names_iff (h : a.Built tops) (key : String) (id : Handle .component) :
    a.names.find? key = some id ↔ ∃ n, a.node? id = some n ∧ n.owner = none ∧ n.name = key := by
  constructor
  · intro hf
    obtain ⟨d, hd, hname⟩ := h.names key id hf
    exact ⟨_, hd.node?, rfl, hname⟩
  · rintro ⟨n, hn, hnone, rfl⟩
    obtain ⟨-, -, -, ⟨-, -, hbound⟩ | ⟨o, -, ho, -⟩⟩ := h.node_eq hn
    · exact hbound
    · rw [hnone] at ho
      cases ho

theorem Built.scope_iff (h : a.Built tops) {id : Handle .component} {n : ComponentNode}
    (hn : a.node? id = some n) {s : NameIndex .component} (hs : a.scopes[id.index]? = some s)
    (key : String) (sub : Handle .component) :
    s.find? key = some sub ↔
      sub ∈ n.subComponents ∧ ∃ m, a.node? sub = some m ∧ m.name = key := by
  obtain ⟨d, hd, heq, -⟩ := h.node_eq hn
  have hmem : n.subComponents = handlesFrom (id.index + 1) d.subComponents := by rw [heq]; rfl
  have hscope : s = scopeFrom (id.index + 1) .empty d.subComponents := by
    rw [scopes, List.getElem?_map, (stands_iff.mp hd).1] at hs
    cases hs
    rfl
  have hdistinct := h.distinct d (List.mem_of_getElem? (stands_iff.mp hd).2.1)
  rw [hscope, hmem, find?_scopeFrom_eq_some_iff hdistinct fun c _ => NameMap.find?_empty _,
    NameMap.find?_empty]
  simp only [reduceCtorEq, false_or]
  constructor
  · rintro ⟨c, hc, rfl⟩
    obtain ⟨m, -, hm, -, -, hname, -⟩ := (hd.under hc).node?
    exact ⟨(List.of_mem_zip hc).1, m, hm, hname⟩
  · rintro ⟨hsub, m, hm, rfl⟩
    obtain ⟨c, hc⟩ := exists_mem_zip_handlesFrom hsub
    obtain ⟨m', -, hm', -, -, hname, -⟩ := (hd.under hc).node?
    have hm' : a.node? sub = some m' := hm'
    rw [hm, Option.some.injEq] at hm'
    exact ⟨c, hc, by rw [hm', hname]⟩

/-! ### Definitions and their subtrees -/

theorem Built.exists_stands (h : a.Built tops) {i : Nat} {d : Component}
    (hd : (preorderList tops)[i]? = some d) :
    ∃ owner path, a.Stands (preorderList tops) i owner path d := by
  have hi : i < a.size := by
    rw [← h.size]
    exact (List.getElem?_eq_some_iff.mp hd).1
  rcases h.stands i hi with ⟨e, he, -⟩ | ⟨o, e, -, -, path, -, -, -, he⟩
  all_goals
    have hmade := (stands_iff.mp he).2.1
    rw [hd, Option.some.injEq] at hmade
    exact ⟨_, _, hmade ▸ he⟩

theorem Built.definition (h : a.Built tops) {i : Nat} {n : ComponentNode} {d : Component}
    (hn : a.nodes[i]? = some n) (hd : (preorderList tops)[i]? = some d) :
    n.name = d.name ∧ n.type = d.type ∧ n.attributes = d.attributes ∧
      n.subComponents.map (fun h => (preorderList tops)[h.index]?) = d.subComponents.map some := by
  obtain ⟨owner, path, hs⟩ := h.exists_stands hd
  have hnode := hs.node?
  rw [node?_eq_getElem?, hn, Option.some.injEq] at hnode
  subst hnode
  obtain ⟨-, -, hall⟩ := stands_iff.mp hs
  exact ⟨rfl, rfl, rfl, hall.map_made⟩

/-- What is owned within a definition stands among its positions. -/
theorem Built.lt_of_owner (h : a.Built tops) {i : Nat} {owner : Option (Handle .component)}
    {path : String} {d : Component} (hd : a.Stands (preorderList tops) i owner path d)
    {sub o : Handle .component} {n : ComponentNode} (hn : a.node? sub = some n)
    (ho : n.owner = some o) (hle : i ≤ o.index) (hlt : o.index < i + d.count) :
    i < sub.index ∧ sub.index < i + d.count := by
  obtain ⟨-, -, -, ⟨hnone, -⟩ | ⟨o', m, ho', hsub, hm, -, hmem⟩⟩ := h.node_eq hn
  · rw [hnone] at ho
    cases ho
  · rw [ho, Option.some.injEq] at ho'
    subst ho'
    refine ⟨Nat.lt_of_le_of_lt hle hsub, ?_⟩
    -- the owner is the definition itself or stands in it with all that it owns
    rcases hd.exists_under d hle hlt with heq | ⟨_, e, -, -, ⟨_, path', _, -, -, he⟩, hbound⟩
    · have hnode := hd.node?
      rw [← heq, hm, Option.some.injEq] at hnode
      subst hnode
      have := (bounds_of_mem_handlesFrom hmem).2
      rw [count_eq_succ]
      omega
    · have hnode := he.node?
      rw [hm, Option.some.injEq] at hnode
      subst hnode
      have := (bounds_of_mem_handlesFrom hmem).2
      rw [count_eq_succ e] at hbound
      omega

theorem Built.within_iff (h : a.Built tops) {i : Nat} {owner : Option (Handle .component)}
    {path : String} {d : Component} (hd : a.Stands (preorderList tops) i owner path d) (j : Nat) :
    a.Within ⟨i⟩ ⟨j⟩ ↔ i ≤ j ∧ j < i + d.count := by
  have hpos := d.count_pos
  constructor
  · suffices ∀ k, a.Within ⟨i⟩ k → i ≤ k.index ∧ k.index < i + d.count from this ⟨j⟩
    intro k hk
    induction hk with
    | self =>
        dsimp only
        omega
    | owned hn ho _ ih =>
        have := h.lt_of_owner hd hn ho ih.1 ih.2
        omega
  · rintro ⟨hle, hlt⟩
    -- from a position to its owner, until the definition itself is reached
    induction j using Nat.strongRecOn with
    | ind j ih =>
        rcases hd.exists_under d hle hlt with rfl | ⟨o, e, ho, hoj, he, -⟩
        · exact .self
        · obtain ⟨n, -, hn, -, howner, -⟩ := he.node?
          exact .owned hn howner (ih o hoj ho (by omega))

/-! ### Arenas after additions -/

/-- An arena that is built represents its definitions. -/
theorem Built.represents (h : a.Built tops) : a.Represents tops where
  id i n hn := h.id_of_node? ((node?_eq_getElem? a ⟨i⟩).trans hn)
  scopes := (List.length_map _).trans (List.length_map _).symm
  names := h.names_iff
  scope _ _ hn _ hs := h.scope_iff hn hs
  subComponents _ _ := h.subComponents_eq
  owner id n o hn ho := by
    obtain ⟨-, -, -, ⟨hnone, -⟩ | ⟨o', -, ho', hlt, -⟩⟩ := h.node_eq hn
    · rw [hnone] at ho
      cases ho
    · rw [ho, Option.some.injEq] at ho'
      exact ho' ▸ hlt
  path id n hn := by
    obtain ⟨-, -, -, ⟨hnone, hpath, -⟩ | ⟨o, m, ho, -, hm, hpath, -⟩⟩ := h.node_eq hn
    · exact .inl ⟨hnone, hpath⟩
    · exact .inr ⟨o, m, ho, hm, hpath⟩
  size := h.size.symm
  definition _ _ _ := h.definition
  subtree i d hd := by
    obtain ⟨owner, path, hs⟩ := h.exists_stands hd
    refine ⟨?_, h.within_iff hs⟩
    rw [← length_preorder]
    exact hs.made.take_drop_eq

/-- An addition is refused when the name is taken or an owner in the definition repeats a name. -/
theorem Built.add_eq_error_iff (h : a.Built tops) (c : Component) :
    (∃ e, a.add c = .error e) ↔ (∃ n ∈ a.nodes, n.owner = none ∧ n.name = c.name) ∨
      ∃ d ∈ c.preorder, ¬(d.subComponents.map name).Nodup := by
  have htaken : a.names.contains c.name = true ↔
      ∃ n ∈ a.nodes, n.owner = none ∧ n.name = c.name := by
    simp only [NameMap.contains, Option.isSome_iff_exists, h.names_iff, mem_nodes_iff]
    constructor
    · rintro ⟨id, n, hn, hfound⟩
      exact ⟨n, ⟨id, hn⟩, hfound⟩
    · rintro ⟨n, ⟨id, hn⟩, hfound⟩
      exact ⟨id, n, hn, hfound⟩
  have hrepeats : c.repeatedName? c.name ≠ none ↔
      ∃ d ∈ c.preorder, ¬(d.subComponents.map name).Nodup := by
    rw [ne_eq, repeatedName?_eq_none_iff]
    push Not
    rfl
  rw [← htaken, ← hrepeats, Arena.add]
  by_cases hname : a.names.contains c.name = true
  · simp [hname]
  · rw [if_neg hname]
    cases c.repeatedName? c.name <;> simp [hname]

theorem addComponents_append (a : Arena) (cs ds : List Component) :
    Skeleton.addComponents a (cs ++ ds) =
      Skeleton.addComponents a cs >>= fun b => Skeleton.addComponents b ds := by
  induction cs generalizing a with
  | nil => exact (pure_bind _ _).symm
  | cons c rest ih =>
      rw [List.cons_append, Skeleton.addComponents, Skeleton.addComponents]
      cases a.add c with
      | ok added => exact ih added.1
      | error error =>
          dsimp only
          rw [ih, bind_assoc]

theorem value_addComponents_append (a : Arena) (cs ds : List Component) :
    (Skeleton.addComponents a (cs ++ ds)).value =
      (Skeleton.addComponents (Skeleton.addComponents a cs).value ds).value := by
  rw [addComponents_append]
  rfl

theorem accepted_append (a : Arena) (cs ds : List Component) :
    a.accepted (cs ++ ds) =
      a.accepted cs ++ (Skeleton.addComponents a cs).value.accepted ds := by
  induction cs generalizing a with
  | nil => rfl
  | cons c rest ih =>
      rw [List.cons_append, accepted, accepted, Skeleton.addComponents]
      cases a.add c with
      | ok added => exact congrArg (c :: ·) (ih added.1)
      | error error => exact ih a

/-- What every sequence of additions makes, and what the next one does. -/
theorem represents_after (calls : List Component) :
    (after calls).Represents (accepted .empty calls) ∧ ∀ c,
      ((∃ e, (after calls).add c = .error e) ↔
        (∃ n ∈ (after calls).nodes, n.owner = none ∧ n.name = c.name) ∨
          ∃ d ∈ c.preorder, ¬(d.subComponents.map name).Nodup) ∧
      (∀ e, (after calls).add c = .error e → after (calls ++ [c]) = after calls ∧
        accepted .empty (calls ++ [c]) = accepted .empty calls) ∧
      ∀ b id, (after calls).add c = .ok (b, id) → after (calls ++ [c]) = b ∧
        accepted .empty (calls ++ [c]) = accepted .empty calls ++ [c] ∧
        b.global? c.name = some id := by
  have hbuilt := built_after calls
  refine ⟨hbuilt.represents, fun c => ⟨hbuilt.add_eq_error_iff c, fun e he => ?_,
    fun b id hadd => ?_⟩⟩
  · rw [after, value_addComponents_append, accepted_append, ← after, Skeleton.addComponents, he,
      accepted, he]
    exact ⟨rfl, List.append_nil _⟩
  · rw [after, value_addComponents_append, accepted_append, ← after, Skeleton.addComponents, hadd,
      accepted, hadd]
    refine ⟨rfl, rfl, ?_⟩
    obtain ⟨-, -, rfl, rfl⟩ := (add_eq_ok_iff _ b c id).mp hadd
    rw [global?, NameMap.find?_insert, if_pos rfl]

end Arena

end HvacModel
