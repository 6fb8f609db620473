import HvacModel.Skeleton.LoopShape
import HvacModel.Proofs.Skeleton.Handles

/-! # Components of a list of handles

The checks of loops go over `nodesOf`, the components that a list of handles leads to.  Where every
handle is a position of the arena, none is lost: what holds of the components holds of the handles,
member by member and position by position. -/

namespace HvacModel

/-- The class of the component at a handle. -/
def Arena.class? (a : Arena) (id : Handle .component) : Option EquipmentClass :=
  (a.node? id).map ComponentNode.equipmentClass

namespace Skeleton

variable {arena : Arena} {handles : List (Handle .component)}

instance {bound : Nat} : Decidable (Below bound handles) :=
  inferInstanceAs (Decidable (∀ h ∈ handles, h.index < bound))

theorem class?_eq_some_iff {id : Handle .component} {c : EquipmentClass} :
    arena.class? id = some c ↔ ∃ n, arena.node? id = some n ∧ n.equipmentClass = c :=
  Option.map_eq_some_iff

theorem mem_nodesOf {n : ComponentNode} :
    n ∈ nodesOf arena handles ↔ ∃ id ∈ handles, arena.node? id = some n :=
  List.mem_filterMap

/-- No handle below the size of the arena is lost. -/
theorem map_node?_eq (h : Below arena.size handles) :
    handles.map arena.node? = (nodesOf arena handles).map some := by
  induction handles with
  | nil => rfl
  | cons id rest ih =>
      have hid : id.index < arena.slots.length := h id List.mem_cons_self
      have hnode : arena.node? id = some arena.slots[id.index].node := by
        rw [Arena.node?, List.getElem?_eq_getElem hid, Option.map_some]
      have hnodes : nodesOf arena (id :: rest) = arena.slots[id.index].node :: nodesOf arena rest :=
        List.filterMap_cons_some hnode
      have hrest := ih fun other hother => h other (List.mem_cons_of_mem _ hother)
      rw [List.map_cons, hrest, hnodes, hnode, List.map_cons]

theorem exists_node?_of_map_eq {nodes : List ComponentNode}
    (h : handles.map arena.node? = nodes.map some) {id : Handle .component} (hid : id ∈ handles) :
    ∃ n ∈ nodes, arena.node? id = some n := by
  have hmem : arena.node? id ∈ nodes.map some := h ▸ List.mem_map_of_mem hid
  obtain ⟨n, hn, hnode⟩ := List.mem_map.mp hmem
  exact ⟨n, hn, hnode.symm⟩

theorem forall_mem_nodesOf {p : ComponentNode → Prop} (h : Below arena.size handles) :
    (∀ n ∈ nodesOf arena handles, p n) ↔ ∀ id ∈ handles, ∃ n, arena.node? id = some n ∧ p n := by
  constructor
  · intro hall id hid
    obtain ⟨n, hn, hnode⟩ := exists_node?_of_map_eq (map_node?_eq h) hid
    exact ⟨n, hnode, hall n hn⟩
  · intro hall n hn
    obtain ⟨id, hid, hnode⟩ := mem_nodesOf.mp hn
    obtain ⟨m, hm, hp⟩ := hall id hid
    rw [hnode] at hm
    exact Option.some.inj hm ▸ hp

theorem length_nodesOf (h : Below arena.size handles) :
    (nodesOf arena handles).length = handles.length := by
  have hlength := congrArg List.length (map_node?_eq h)
  rw [List.length_map, List.length_map] at hlength
  exact hlength.symm

theorem nodesOf_eq_nil_iff (h : Below arena.size handles) :
    nodesOf arena handles = [] ↔ handles = [] := by
  rw [← List.length_eq_zero_iff, ← List.length_eq_zero_iff, length_nodesOf h]

theorem getElem?_nodesOf (h : Below arena.size handles) (i : Nat) :
    (nodesOf arena handles)[i]? = handles[i]?.bind arena.node? := by
  have hget := congrArg (fun nodes => nodes[i]?.join) (map_node?_eq h)
  simp only [List.getElem?_map] at hget
  cases hn : (nodesOf arena handles)[i]? <;> cases hh : handles[i]? <;> simp_all

theorem getLast?_nodesOf (h : Below arena.size handles) :
    (nodesOf arena handles).getLast? = handles.getLast?.bind arena.node? := by
  rw [List.getLast?_eq_getElem?, List.getLast?_eq_getElem?, length_nodesOf h, getElem?_nodesOf h]

theorem map_class?_eq (h : Below arena.size handles) :
    handles.map arena.class? =
      ((nodesOf arena handles).map ComponentNode.equipmentClass).map some := by
  have hmap := congrArg (List.map (Option.map ComponentNode.equipmentClass)) (map_node?_eq h)
  rw [List.map_map, List.map_map] at hmap
  rw [List.map_map]
  exact hmap

theorem exists_nodesOf_eq_singleton_iff (h : Below arena.size handles)
    {p : ComponentNode → Prop} :
    (∃ n, nodesOf arena handles = [n] ∧ p n) ↔
      ∃ id, handles = [id] ∧ ∃ n, arena.node? id = some n ∧ p n := by
  have hmap := map_node?_eq h
  constructor
  · rintro ⟨n, hn, hp⟩
    rw [hn, List.map_singleton, List.map_eq_singleton_iff] at hmap
    obtain ⟨id, rfl, hnode⟩ := hmap
    exact ⟨id, rfl, n, hnode, hp⟩
  · rintro ⟨id, rfl, n, hnode, hp⟩
    exact ⟨n, List.filterMap_cons_some hnode, hp⟩

/-- One component among others, with the handles that lead to them. -/
theorem exists_nodesOf_eq_append_cons_iff (h : Below arena.size handles)
    {p q : ComponentNode → Prop} :
    (∃ front n back, nodesOf arena handles = front ++ n :: back ∧ p n ∧
        ∀ m ∈ front ++ back, q m) ↔
      ∃ front id back, handles = front ++ id :: back ∧ (∃ n, arena.node? id = some n ∧ p n) ∧
        ∀ other ∈ front ++ back, ∃ m, arena.node? other = some m ∧ q m := by
  constructor
  · rintro ⟨front, n, back, hnodes, hn, hothers⟩
    have hmap := map_node?_eq h
    rw [hnodes, List.map_append, List.map_cons] at hmap
    obtain ⟨before, rest, rfl, hbefore, hrest⟩ := List.map_eq_append_iff.mp hmap
    obtain ⟨id, after, rfl, hid, hafter⟩ := List.map_eq_cons_iff.mp hrest
    refine ⟨before, id, after, rfl, ⟨n, hid, hn⟩, fun other hother => ?_⟩
    have hall : (before ++ after).map arena.node? = (front ++ back).map some := by
      rw [List.map_append, List.map_append, hbefore, hafter]
    obtain ⟨m, hm, hnode⟩ := exists_node?_of_map_eq hall hother
    exact ⟨m, hnode, hothers m hm⟩
  · rintro ⟨front, id, back, rfl, ⟨n, hid, hn⟩, hothers⟩
    refine ⟨nodesOf arena front, n, nodesOf arena back, ?_, hn, fun m hm => ?_⟩
    · rw [nodesOf, List.filterMap_append, List.filterMap_cons_some hid]
      rfl
    · have hm : m ∈ nodesOf arena (front ++ back) := by
        rwa [nodesOf, List.filterMap_append]
      obtain ⟨other, hother, hnode⟩ := mem_nodesOf.mp hm
      obtain ⟨m', hnode', hq⟩ := hothers other hother
      rw [hnode] at hnode'
      exact Option.some.inj hnode' ▸ hq

/-- The equipment of a gym, at the handles from `0` on. -/
def gym : Arena :=
  (addComponents .empty
    [.mk "oa" .outdoorAirSystem .empty [], .mk "coil" .waterCoolingCoil .empty [],
      .mk "fan" .variableVolumeFan .empty [], .mk "box" .reheatTerminal .empty [],
      .mk "pump" .variableSpeedPump .empty [], .mk "chiller" .electricChiller .empty [],
      .mk "pipe" .adiabaticPipe .empty [], .mk "boiler" .hotWaterBoiler .empty []]).value

end Skeleton

end HvacModel
