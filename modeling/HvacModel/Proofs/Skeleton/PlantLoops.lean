import HvacModel.Proofs.Skeleton.Nodes

/-! # Plant loops of the right shape

A sound plant loop is driven by one pump, one source of its kind stands among pipes on its supply
branches, and all it serves are consumers of its kind.  The check tells sources by their class, the
right ones by what the catalog says they feed, and consumers by their type; the views of the catalog
fit together (`ObjectType.source_eq_some_iff`), so a loop has no violations exactly when it has the
shape (`plantViolations_exact`). -/

namespace HvacModel

/-- The class of the equipment that feeds a kind of loop. -/
def LoopKind.sourceClass? : LoopKind → Option EquipmentClass
  | air => none
  | hotWater => some .boiler
  | chilledWater => some .chiller
  | condenserWater => some .coolingTower

/-- A type is a source for the loops that its class feeds. -/
theorem ObjectType.source_eq_some_iff {t : ObjectType} {k : LoopKind} :
    t.entry.source = some k ↔ k.sourceClass? = some t.equipmentClass := by
  cases t <;> cases k <;> decide

namespace Skeleton

/-! ### Supply branches of plant loops -/

theorem source_ne_of_pipe {n : ComponentNode} (h : n.equipmentClass = .pipe) (k : LoopKind) :
    n.type.entry.source ≠ some k := by
  intro hsource
  have hclass := (ObjectType.isSource_of_source hsource).1
  rw [ComponentNode.equipmentClass] at h
  rw [h] at hclass
  cases hclass

theorem sourceViolation?_eq_none_iff {kind : LoopKind} {n : ComponentNode} :
    sourceViolation? kind n = none ↔
      n.equipmentClass = .pipe ∨ n.type.entry.source = some kind := by
  rw [sourceViolation?, ObjectType.isSourceFor]
  by_cases hsource : n.type.entry.source = some kind
  · have hclass : n.equipmentClass.isSource = true := (ObjectType.isSource_of_source hsource).1
    simp [hsource, hclass]
  · cases n.equipmentClass <;> simp [hsource, EquipmentClass.isSource]

theorem sourceCount_eq_countP (kind : LoopKind) (nodes : List ComponentNode) :
    sourceCount kind nodes = nodes.countP fun n => n.type.entry.source = some kind := by
  refine List.countP_congr fun n _ => ?_
  rw [Bool.and_eq_true, ObjectType.isSourceFor]
  constructor
  · exact And.right
  · exact fun h => ⟨(ObjectType.isSource_of_source (of_decide_eq_true h)).1, h⟩

/-- A single member with a property stands between others without it. -/
theorem countP_eq_one_iff {α : Type} {p : α → Bool} {list : List α} :
    list.countP p = 1 ↔ ∃ front a back, list = front ++ a :: back ∧ p a = true ∧
      ∀ b ∈ front ++ back, ¬p b = true := by
  simp only [List.countP_eq_length_filter, List.length_eq_one_iff, List.filter_eq_cons_iff,
    List.filter_eq_nil_iff, List.forall_mem_append]
  constructor
  · rintro ⟨a, front, back, rfl, hfront, ha, hback⟩
    exact ⟨front, a, back, rfl, ha, hfront, hback⟩
  · rintro ⟨front, a, back, rfl, ha, hfront, hback⟩
    exact ⟨a, front, back, rfl, hfront, ha, hback⟩

/-- What is not among the others stands at the place between them. -/
theorem eq_length_of_getElem? {α : Type} {front back : List α} {a b : α} {i : Nat}
    (hi : (front ++ a :: back)[i]? = some b) (hb : b ∉ front ++ back) : i = front.length := by
  by_contra hne
  rcases Nat.lt_or_gt_of_ne hne with hlt | hgt
  · rw [List.getElem?_append_left hlt] at hi
    exact hb (List.mem_append_left back (List.mem_of_getElem? hi))
  · obtain ⟨offset, rfl⟩ : ∃ offset, i = front.length + (offset + 1) :=
      ⟨i - front.length - 1, by omega⟩
    rw [List.getElem?_append_right (Nat.le_add_right _ _), Nat.add_sub_cancel_left,
      List.getElem?_cons_succ] at hi
    exact hb (List.mem_append_right front (List.mem_of_getElem? hi))

/-- Supply branches are without violations when one source of the kind stands among pipes. -/
theorem plantSupplyViolations_eq_nil_iff {kind : LoopKind} {nodes : List ComponentNode} :
    plantSupplyViolations kind nodes = [] ↔ ∃ front source back,
      nodes = front ++ source :: back ∧ source.type.entry.source = some kind ∧
        ∀ n ∈ front ++ back, n.equipmentClass = .pipe := by
  have hcount : (if sourceCount kind nodes = 1 then ([] : List Violation)
      else [.sourceCount kind (sourceCount kind nodes)]) = [] ↔ sourceCount kind nodes = 1 := by
    split <;> simp_all
  rw [plantSupplyViolations, List.append_eq_nil_iff, hcount, sourceCount_eq_countP,
    countP_eq_one_iff, List.filterMap_eq_nil_iff]
  simp only [sourceViolation?_eq_none_iff, decide_eq_true_eq]
  constructor
  · rintro ⟨hplace, front, source, back, rfl, hsource, hothers⟩
    refine ⟨front, source, back, rfl, hsource, fun n hn => ?_⟩
    have hmem : n ∈ front ++ source :: back := by
      simp only [List.mem_append, List.mem_cons] at hn ⊢
      tauto
    exact (hplace n hmem).resolve_right (hothers n hn)
  · rintro ⟨front, source, back, rfl, hsource, hpipes⟩
    refine ⟨fun n hn => ?_, front, source, back, rfl, hsource,
      fun n hn => source_ne_of_pipe (hpipes n hn) kind⟩
    rcases List.mem_append.mp hn with hn | hn
    · exact .inl (hpipes n (List.mem_append_left back hn))
    · rcases List.mem_cons.mp hn with rfl | hn
      · exact .inr hsource
      · exact .inl (hpipes n (List.mem_append_right front hn))

/-! ### Plant loops -/

/-- The component at a handle feeds loops of a kind. -/
def IsSourceOf (arena : Arena) (kind : LoopKind) (id : Handle .component) : Prop :=
  ∃ n, arena.node? id = some n ∧ n.type.entry.source = some kind ∧
    kind.sourceClass? = some n.equipmentClass

/-- A plant loop of the right shape. -/
structure PlantLoop.Shaped (arena : Arena) (l : PlantLoop) : Prop where
  inletNode : ∃ id, l.inletNode = [id] ∧ arena.class? id = some .pump
  supply : ∃ front source back, l.supplyBranches = front ++ source :: back ∧
    IsSourceOf arena l.kind source ∧ ∀ id ∈ front ++ back, arena.class? id = some .pipe
  demand : l.demandBranches ≠ []
  consumers : ∀ id ∈ l.demandBranches, ∃ n, arena.node? id = some n ∧
    l.kind ∈ n.type.entry.consumes

section Plant

variable {arena : Arena} {l : PlantLoop}

theorem inletViolations_eq_nil_iff {nodes : List ComponentNode} :
    inletViolations nodes = [] ↔ ∃ n, nodes = [n] ∧ n.equipmentClass = .pump := by
  match nodes with
  | [] => simp [inletViolations]
  | [n] => by_cases hn : n.equipmentClass = .pump <;> simp [inletViolations, hn]
  | _ :: _ :: _ => simp [inletViolations]

theorem plantDemandViolations_eq_nil_iff {kind : LoopKind} {nodes : List ComponentNode} :
    plantDemandViolations kind nodes = [] ↔
      nodes ≠ [] ∧ ∀ n ∈ nodes, kind ∈ n.type.entry.consumes := by
  rw [plantDemandViolations, List.append_eq_nil_iff, List.filterMap_eq_nil_iff]
  refine and_congr ?_ (forall₂_congr fun n _ => ?_)
  · cases nodes <;> simp
  · by_cases hn : kind ∈ n.type.entry.consumes <;> simp [ObjectType.isConsumerOf, hn]

theorem plantViolations_eq_nil_iff (h : l.HandlesInRange arena.size) :
    plantViolations arena l = [] ↔ l.Shaped arena := by
  have hsource : ∀ n : ComponentNode, n.type.entry.source = some l.kind ↔
      n.type.entry.source = some l.kind ∧ l.kind.sourceClass? = some n.equipmentClass :=
    fun n => ⟨fun hn => ⟨hn, ObjectType.source_eq_some_iff.mp hn⟩, And.left⟩
  rw [plantViolations, List.append_eq_nil_iff, List.append_eq_nil_iff,
    inletViolations_eq_nil_iff, exists_nodesOf_eq_singleton_iff h.inletNode,
    plantSupplyViolations_eq_nil_iff, exists_nodesOf_eq_append_cons_iff h.supplyBranches,
    plantDemandViolations_eq_nil_iff, ne_eq, nodesOf_eq_nil_iff h.demandBranches,
    forall_mem_nodesOf h.demandBranches]
  simp only [← class?_eq_some_iff]
  constructor
  · rintro ⟨⟨hinlet, front, source, back, heq, ⟨n, hn, hfeeds⟩, hpipes⟩, hne, hall⟩
    exact ⟨hinlet, ⟨front, source, back, heq, ⟨n, hn, (hsource n).mp hfeeds⟩, hpipes⟩, hne, hall⟩
  · rintro ⟨hinlet, ⟨front, source, back, heq, ⟨n, hn, hfeeds, -⟩, hpipes⟩, hne, hall⟩
    exact ⟨⟨hinlet, front, source, back, heq, ⟨n, hn, hfeeds⟩, hpipes⟩, hne, hall⟩

/-- No equipment feeds a loop of air. -/
theorem PlantLoop.Shaped.kind_ne_air (h : l.Shaped arena) : l.kind ≠ .air := by
  intro hair
  obtain ⟨-, -, -, -, ⟨n, -, -, hclass⟩, -⟩ := h.supply
  rw [hair] at hclass
  cases hclass

/-- A loop of the right shape has its source at one position. -/
theorem PlantLoop.Shaped.eq_of_source (h : l.Shaped arena) {i j : Nat}
    {id other : Handle .component} (hi : l.supplyBranches[i]? = some id)
    (hj : l.supplyBranches[j]? = some other) {c d : EquipmentClass}
    (hc : arena.class? id = some c) (hd : arena.class? other = some d)
    (hsource : c.isSource = true) (hother : d.isSource = true) : i = j := by
  obtain ⟨front, source, back, heq, -, hpipes⟩ := h.supply
  have hnot : ∀ {id : Handle .component} {c : EquipmentClass},
      arena.class? id = some c → c.isSource = true → id ∉ front ++ back := by
    intro id c hc hsource hmem
    rw [hpipes id hmem, Option.some.injEq] at hc
    rw [← hc] at hsource
    cases hsource
  rw [heq] at hi hj
  rw [eq_length_of_getElem? hi (hnot hc hsource), eq_length_of_getElem? hj (hnot hd hother)]

/-- A plant loop has no violations exactly when it has the right shape; so it is no loop of air, and
a source of its kind stands beside no other source. -/
theorem plantViolations_exact (arena : Arena) (l : PlantLoop) (h : l.HandlesInRange arena.size) :
    (plantViolations arena l = [] ↔ l.Shaped arena) ∧
      (l.kind = .air → plantViolations arena l ≠ []) ∧
      ∀ (i j : Nat) (id other : Handle .component) (c : EquipmentClass), i ≠ j →
        l.supplyBranches[i]? = some id → l.supplyBranches[j]? = some other →
        IsSourceOf arena l.kind id → arena.class? other = some c → c.isSource = true →
        plantViolations arena l ≠ [] := by
  have hshaped := plantViolations_eq_nil_iff h
  refine ⟨hshaped, fun hair hnil => (hshaped.mp hnil).kind_ne_air hair, ?_⟩
  intro i j id other c hne hi hj hid hother hsource hnil
  obtain ⟨n, hn, hfeeds, -⟩ := hid
  have hclass : n.equipmentClass.isSource = true := (ObjectType.isSource_of_source hfeeds).1
  exact hne ((hshaped.mp hnil).eq_of_source hi hj (class?_eq_some_iff.mpr ⟨n, hn, rfl⟩) hother
    hclass hsource)

end Plant

/-- A plant loop of the gym on the pump, by the positions on its two sides. -/
def gymPlant (kind : LoopKind) (supply demand : List Nat) : PlantLoop :=
  ⟨⟨1⟩, "plant", kind, [⟨4⟩], supply.map Handle.mk, demand.map Handle.mk⟩

/-- A chiller among pipes passes; with a boiler beside it, or on a loop of air, it does not. -/
theorem plantViolations_gym :
    ((gymPlant .chilledWater [6, 5, 6] [1]).HandlesInRange gym.size ∧
      (gymPlant .chilledWater [6, 5, 6] [1]).Shaped gym) ∧
      ((gymPlant .chilledWater [5, 7] [1]).HandlesInRange gym.size ∧
        plantViolations gym (gymPlant .chilledWater [5, 7] [1]) ≠ []) ∧
      ((gymPlant .air [5] [1]).HandlesInRange gym.size ∧
        plantViolations gym (gymPlant .air [5] [1]) ≠ []) := by
  have hgood : (gymPlant .chilledWater [6, 5, 6] [1]).HandlesInRange gym.size :=
    ⟨by decide, by decide, by decide⟩
  have hboth : (gymPlant .chilledWater [5, 7] [1]).HandlesInRange gym.size :=
    ⟨by decide, by decide, by decide⟩
  have hair : (gymPlant .air [5] [1]).HandlesInRange gym.size :=
    ⟨by decide, by decide, by decide⟩
  have hchiller : IsSourceOf gym .chilledWater ⟨5⟩ := ⟨_, rfl, rfl, rfl⟩
  refine ⟨⟨hgood, (plantViolations_exact gym _ hgood).1.mp (by decide)⟩, ⟨hboth, ?_⟩, hair, ?_⟩
  · exact (plantViolations_exact gym _ hboth).2.2 0 1 ⟨5⟩ ⟨7⟩ .boiler (by decide) rfl rfl hchiller
      rfl rfl
  · exact (plantViolations_exact gym _ hair).2.1 rfl

end Skeleton

end HvacModel
