import Mathlib.Computability.RegularExpressions
import HvacModel.Proofs.Skeleton.Nodes

/-! # Air loops of the right shape

The classes along the supply path of a sound air loop match the regular expression `airSupply`, and
its branches hold terminals.  The check follows another plan: it looks at every position, counts the
fans, and looks at the last component if there is one fan.  Both come to the same
(`mem_airSupply_iff_places`), so a loop has no violations exactly when it has the shape, and it has
those violations that are true of it (`airViolations_exact`). -/

namespace HvacModel

namespace Skeleton

/-! ### Supply paths of air loops -/

open EquipmentClass RegularExpression in
/-- The classes along the supply path of an air loop: an outdoor air system or none, any number of
coils, one fan. -/
def airSupply : RegularExpression EquipmentClass :=
  (1 + char outdoorAirSystem) * star (char coil) * char fan

theorem mem_star_char_iff {α : Type} {a : α} {word : List α} :
    word ∈ (RegularExpression.star (.char a)).matches' ↔ ∀ b ∈ word, b = a := by
  rw [RegularExpression.matches'_star, RegularExpression.matches'_char, Language.mem_kstar]
  constructor
  · rintro ⟨parts, rfl, hparts⟩ b hb
    obtain ⟨part, hpart, hb⟩ := List.mem_flatten.mp hb
    rw [hparts part hpart] at hb
    exact List.mem_singleton.mp hb
  · intro h
    refine ⟨word.map fun b => [b], (List.flatMap_singleton' word).symm, fun part hpart => ?_⟩
    obtain ⟨b, hb, rfl⟩ := List.mem_map.mp hpart
    rw [h b hb]
    rfl

/-- The words of the expression. -/
theorem mem_airSupply_iff {classes : List EquipmentClass} :
    classes ∈ airSupply.matches' ↔ ∃ coils, (∀ c ∈ coils, c = .coil) ∧
      (classes = coils ++ [.fan] ∨ classes = .outdoorAirSystem :: (coils ++ [.fan])) := by
  rw [airSupply, RegularExpression.matches'_mul, RegularExpression.matches'_mul,
    RegularExpression.matches'_add, Language.mem_mul]
  constructor
  · rintro ⟨front, hfront, _, rfl, rfl⟩
    obtain ⟨air, hair, coils, hcoils, rfl⟩ := Language.mem_mul.mp hfront
    refine ⟨coils, mem_star_char_iff.mp hcoils, ?_⟩
    rcases hair with rfl | rfl
    · exact .inl rfl
    · exact .inr rfl
  · rintro ⟨coils, hcoils, rfl | rfl⟩
    · exact ⟨coils, ⟨[], .inl rfl, coils, mem_star_char_iff.mpr hcoils, rfl⟩, [.fan], rfl, rfl⟩
    · exact ⟨.outdoorAirSystem :: coils,
        ⟨[.outdoorAirSystem], .inr rfl, coils, mem_star_char_iff.mpr hcoils, rfl⟩, [.fan], rfl, rfl⟩

theorem supplyViolation?_eq_some_iff {first : Bool} {n : ComponentNode} {v : Violation} :
    supplyViolation? first n = some v ↔
      (n.equipmentClass = .outdoorAirSystem ∧ first = false ∧
        v = .outdoorAirSystemNotFirst n.path) ∨
      (n.equipmentClass.isAirSupply = false ∧
        v = .notAirSupplyEquipment n.path n.equipmentClass) := by
  rw [supplyViolation?]
  cases n.equipmentClass <;> cases first <;> simp [EquipmentClass.isAirSupply, eq_comm]

/-- What is reported of a supply path, position by position. -/
theorem mem_supplyPathViolations {path : List ComponentNode} {v : Violation} :
    v ∈ supplyPathViolations path ↔
      ∃ (i : Nat) (n : ComponentNode), path[i]? = some n ∧
        supplyViolation? (decide (i = 0)) n = some v := by
  cases path with
  | nil => simp [supplyPathViolations]
  | cons n rest =>
      rw [supplyPathViolations, List.mem_append, Option.mem_toList, List.mem_filterMap]
      constructor
      · rintro (h | ⟨m, hm, h⟩)
        · exact ⟨0, n, rfl, h⟩
        · obtain ⟨i, hi⟩ := List.mem_iff_getElem?.mp hm
          exact ⟨i + 1, m, hi, h⟩
      · rintro ⟨_ | i, m, hm, h⟩
        · cases hm
          exact .inl h
        · exact .inr ⟨m, List.mem_iff_getElem?.mpr ⟨i, hm⟩, h⟩

/-- A class has its place at a position: coils and fans anywhere, an outdoor air system in front. -/
def HasPlace (i : Nat) (c : EquipmentClass) : Prop :=
  c = .coil ∨ c = .fan ∨ c = .outdoorAirSystem ∧ i = 0

theorem places_of_mem_airSupply {classes : List EquipmentClass}
    (h : classes ∈ airSupply.matches') :
    (∀ (i : Nat) c, classes[i]? = some c → HasPlace i c) ∧
      classes.count .fan = 1 ∧ classes.getLast? = some .fan := by
  obtain ⟨coils, hcoils, hclasses⟩ := mem_airSupply_iff.mp h
  have hcount : (coils ++ [EquipmentClass.fan]).count .fan = 1 := by
    have hnone : coils.count .fan = 0 :=
      List.count_eq_zero.mpr fun hfan => nomatch hcoils _ hfan
    rw [List.count_append, hnone]
    rfl
  have hplace : ∀ c ∈ coils ++ [EquipmentClass.fan], c = .coil ∨ c = .fan := by
    intro c hc
    rcases List.mem_append.mp hc with hc | hc
    · exact .inl (hcoils c hc)
    · exact .inr (List.mem_singleton.mp hc)
  rcases hclasses with rfl | rfl
  · refine ⟨fun i c hc => ?_, hcount, by simp⟩
    exact (hplace c (List.mem_of_getElem? hc)).imp_right .inl
  · refine ⟨fun i c hc => ?_, by simpa using hcount, by simp [List.getLast?_cons]⟩
    cases i with
    | zero => exact .inr (.inr ⟨(Option.some.inj hc).symm, rfl⟩)
    | succ i => exact (hplace c (List.mem_of_getElem? hc)).imp_right .inl

theorem mem_airSupply_of_places {classes : List EquipmentClass}
    (hplace : ∀ (i : Nat) c, classes[i]? = some c → HasPlace i c)
    (hcount : classes.count .fan = 1) (hlast : classes.getLast? = some .fan) :
    classes ∈ airSupply.matches' := by
  -- the one fan is the last component, so there is none before it
  obtain ⟨front, rfl⟩ := List.getLast?_eq_some_iff.mp hlast
  have hfan : EquipmentClass.fan ∉ front := by
    rw [List.count_append, List.count_singleton_self] at hcount
    exact List.count_eq_zero.mp (by omega)
  have hfront : ∀ (i : Nat) c, front[i]? = some c →
      c = .coil ∨ c = .outdoorAirSystem ∧ i = 0 := by
    intro i c hc
    have hi : i < front.length := (List.getElem?_eq_some_iff.mp hc).1
    rcases hplace i c (by rw [List.getElem?_append_left hi, hc]) with h | h | h
    · exact .inl h
    · exact absurd (h ▸ List.mem_of_getElem? hc) hfan
    · exact .inr h
  rw [mem_airSupply_iff]
  cases front with
  | nil => exact ⟨[], by simp, .inl rfl⟩
  | cons first coils =>
      have hcoils : ∀ c ∈ coils, c = .coil := by
        intro c hc
        obtain ⟨i, hi⟩ := List.mem_iff_getElem?.mp hc
        exact (hfront (i + 1) c hi).resolve_right fun h => nomatch h.2
      rcases hfront 0 first rfl with rfl | ⟨rfl, -⟩
      · exact ⟨.coil :: coils, List.forall_mem_cons.mpr ⟨rfl, hcoils⟩, .inl rfl⟩
      · exact ⟨coils, hcoils, .inr rfl⟩

/-- A path matches the expression when every class has its place on it, one is a fan, and the last
one is. -/
theorem mem_airSupply_iff_places {classes : List EquipmentClass} :
    classes ∈ airSupply.matches' ↔ (∀ (i : Nat) c, classes[i]? = some c → HasPlace i c) ∧
      classes.count .fan = 1 ∧ classes.getLast? = some .fan :=
  ⟨places_of_mem_airSupply, fun ⟨hplace, hcount, hlast⟩ =>
    mem_airSupply_of_places hplace hcount hlast⟩

theorem fanCount_eq_count (path : List ComponentNode) :
    fanCount path = (path.map ComponentNode.equipmentClass).count .fan := by
  rw [fanCount, List.count_eq_countP, List.countP_map]
  rfl

/-- What is reported of the fans of a supply path. -/
theorem mem_outletViolations {path : List ComponentNode} {v : Violation} :
    v ∈ outletViolations path ↔
      (fanCount path ≠ 1 ∧ v = .airMoverCount (fanCount path)) ∨
      (fanCount path = 1 ∧ ∃ n, path.getLast? = some n ∧ n.equipmentClass ≠ .fan ∧
        v = .outletNotFan n.path) := by
  rw [outletViolations]
  by_cases hcount : fanCount path = 1
  · rw [if_neg (not_not_intro hcount)]
    cases hlast : path.getLast? with
    | none => simp [hcount]
    | some n => by_cases hn : n.equipmentClass = .fan <;> simp [hcount, hn]
  · simp [hcount]

theorem outletViolations_eq_nil_iff {path : List ComponentNode} (h : path ≠ []) :
    outletViolations path = [] ↔ fanCount path = 1 ∧
      (path.map ComponentNode.equipmentClass).getLast? = some .fan := by
  rw [outletViolations, List.getLast?_map, List.getLast?_eq_some_getLast h]
  by_cases hcount : fanCount path = 1 <;> simp [hcount]

theorem supplyViolation?_eq_none_iff {i : Nat} {n : ComponentNode} :
    supplyViolation? (decide (i = 0)) n = none ↔ HasPlace i n.equipmentClass := by
  rw [supplyViolation?, HasPlace]
  cases n.equipmentClass <;> simp [EquipmentClass.isAirSupply]

theorem supplyPathViolations_eq_nil_iff {path : List ComponentNode} :
    supplyPathViolations path = [] ↔
      ∀ (i : Nat) c, (path.map ComponentNode.equipmentClass)[i]? = some c → HasPlace i c := by
  simp only [List.eq_nil_iff_forall_not_mem, mem_supplyPathViolations, List.getElem?_map,
    Option.map_eq_some_iff]
  constructor
  · rintro h i _ ⟨n, hn, rfl⟩
    refine supplyViolation?_eq_none_iff.mp (Option.eq_none_iff_forall_ne_some.mpr fun v hv => ?_)
    exact h v ⟨i, n, hn, hv⟩
  · rintro h v ⟨i, n, hn, hv⟩
    have hnone := supplyViolation?_eq_none_iff.mpr (h i _ ⟨n, hn, rfl⟩)
    rw [hnone] at hv
    cases hv

/-- A supply path is without violations when it matches the expression. -/
theorem airSupplyViolations_eq_nil_iff {path : List ComponentNode} :
    airSupplyViolations path = [] ↔
      path.map ComponentNode.equipmentClass ∈ airSupply.matches' := by
  rw [mem_airSupply_iff_places, airSupplyViolations]
  cases path with
  | nil => simp
  | cons n rest =>
      rw [List.isEmpty_cons, if_neg Bool.false_ne_true, List.append_eq_nil_iff,
        supplyPathViolations_eq_nil_iff, outletViolations_eq_nil_iff (List.cons_ne_nil n rest),
        fanCount_eq_count]

/-! ### Air loops -/

/-- What is reported of a branch. -/
theorem mem_branchViolations {name : String} {nodes : List ComponentNode} {v : Violation} :
    v ∈ branchViolations name nodes ↔ (nodes = [] ∧ v = .emptyBranch name) ∨
      ∃ n ∈ nodes, n.equipmentClass ≠ .terminal ∧
        v = .nonTerminalOnBranch name n.path n.equipmentClass := by
  rw [branchViolations, List.mem_append, List.mem_filterMap]
  refine or_congr ?_ (exists_congr fun n => and_congr_right fun _ => ?_)
  · cases nodes <;> simp
  · by_cases hn : n.equipmentClass = .terminal <;> simp [hn, eq_comm]

theorem branchViolations_eq_nil_iff {name : String} {nodes : List ComponentNode} :
    branchViolations name nodes = [] ↔
      nodes ≠ [] ∧ ∀ n ∈ nodes, n.equipmentClass = .terminal := by
  rw [branchViolations, List.append_eq_nil_iff, List.filterMap_eq_nil_iff]
  refine and_congr ?_ (forall₂_congr fun n _ => ?_)
  · cases nodes <;> simp
  · by_cases hn : n.equipmentClass = .terminal <;> simp [hn]

/-- An air loop of the right shape. -/
structure AirLoop.Shaped (arena : Arena) (l : AirLoop) : Prop where
  supply : ∃ classes ∈ airSupply.matches', l.supply.map arena.class? = classes.map some
  demand : l.demandBranches ≠ []
  branches : ∀ b ∈ l.demandBranches, b.components ≠ [] ∧
    ∀ id ∈ b.components, arena.class? id = some .terminal

/-- The number of fans among the components at handles. -/
def fansAt (arena : Arena) (handles : List (Handle .component)) : Nat :=
  handles.countP fun id => arena.class? id = some .fan

/-- What a violation says of an air loop that it is reported for. -/
inductive AirLoop.Misses (arena : Arena) (l : AirLoop) : Violation → Prop where
  | emptySupplyPath : l.supply = [] → Misses arena l .emptySupplyPath
  | outdoorAirSystemNotFirst {i : Nat} {id : Handle .component} {n : ComponentNode} :
      l.supply[i]? = some id → 0 < i → arena.node? id = some n →
      n.equipmentClass = .outdoorAirSystem → Misses arena l (.outdoorAirSystemNotFirst n.path)
  | notAirSupplyEquipment {id : Handle .component} {n : ComponentNode} :
      id ∈ l.supply → arena.node? id = some n → n.equipmentClass.isAirSupply = false →
      Misses arena l (.notAirSupplyEquipment n.path n.equipmentClass)
  | airMoverCount : l.supply ≠ [] → fansAt arena l.supply ≠ 1 →
      Misses arena l (.airMoverCount (fansAt arena l.supply))
  | outletNotFan {id : Handle .component} {n : ComponentNode} :
      fansAt arena l.supply = 1 → l.supply.getLast? = some id → arena.node? id = some n →
      n.equipmentClass ≠ .fan → Misses arena l (.outletNotFan n.path)
  | noDemandBranches : l.demandBranches = [] → Misses arena l .noDemandBranches
  | emptyBranch {b : Branch} : b ∈ l.demandBranches → b.components = [] →
      Misses arena l (.emptyBranch b.name)
  | nonTerminalOnBranch {b : Branch} {id : Handle .component} {n : ComponentNode} :
      b ∈ l.demandBranches → id ∈ b.components → arena.node? id = some n →
      n.equipmentClass ≠ .terminal →
      Misses arena l (.nonTerminalOnBranch b.name n.path n.equipmentClass)

section Air

variable {arena : Arena} {l : AirLoop}

theorem fanCount_nodesOf (handles : List (Handle .component)) :
    fanCount (nodesOf arena handles) = fansAt arena handles := by
  rw [fanCount, nodesOf, List.countP_filterMap, fansAt]
  refine List.countP_congr fun id _ => ?_
  rw [Arena.class?]
  cases arena.node? id <;> simp

theorem exists_matches_iff (h : Below arena.size l.supply) :
    (∃ classes ∈ airSupply.matches', l.supply.map arena.class? = classes.map some) ↔
      airSupplyViolations (nodesOf arena l.supply) = [] := by
  rw [airSupplyViolations_eq_nil_iff, map_class?_eq h]
  constructor
  · rintro ⟨classes, hclasses, heq⟩
    rwa [List.map_injective_iff.mpr (Option.some_injective _) heq]
  · intro hclasses
    exact ⟨_, hclasses, rfl⟩

theorem airViolations_eq_nil_iff (h : l.HandlesInRange arena.size) :
    airViolations arena l = [] ↔ l.Shaped arena := by
  have hbranch : ∀ b ∈ l.demandBranches,
      branchViolations b.name (nodesOf arena b.components) = [] ↔ b.components ≠ [] ∧
        ∀ id ∈ b.components, arena.class? id = some .terminal := by
    intro b hb
    rw [branchViolations_eq_nil_iff, ne_eq, nodesOf_eq_nil_iff (h.branches b hb),
      forall_mem_nodesOf (h.branches b hb)]
    simp only [class?_eq_some_iff]
  have hdemand : (if l.demandBranches.isEmpty then [Violation.noDemandBranches] else []) = [] ↔
      l.demandBranches ≠ [] := by
    cases l.demandBranches <;> simp
  rw [airViolations, List.append_eq_nil_iff, List.append_eq_nil_iff, ← exists_matches_iff h.supply,
    hdemand, List.flatMap_eq_nil_iff]
  constructor
  · rintro ⟨⟨hsupply, hne⟩, hall⟩
    exact ⟨hsupply, hne, fun b hb => (hbranch b hb).mp (hall b hb)⟩
  · rintro ⟨hsupply, hne, hall⟩
    exact ⟨⟨hsupply, hne⟩, fun b hb => (hbranch b hb).mpr (hall b hb)⟩

/-- What is reported of the components at the handles of a supply path. -/
theorem mem_airSupplyViolations (h : Below arena.size l.supply) {v : Violation} :
    v ∈ airSupplyViolations (nodesOf arena l.supply) ↔
      (l.supply = [] ∧ v = .emptySupplyPath) ∨ (l.supply ≠ [] ∧
        ((∃ (i : Nat) (n : ComponentNode), (∃ id, l.supply[i]? = some id ∧
            arena.node? id = some n) ∧ supplyViolation? (decide (i = 0)) n = some v) ∨
          (fansAt arena l.supply ≠ 1 ∧ v = .airMoverCount (fansAt arena l.supply)) ∨
          (fansAt arena l.supply = 1 ∧ ∃ n, (∃ id, l.supply.getLast? = some id ∧
            arena.node? id = some n) ∧ n.equipmentClass ≠ .fan ∧ v = .outletNotFan n.path))) := by
  have hmem : ∀ path, v ∈ airSupplyViolations path ↔ (path = [] ∧ v = .emptySupplyPath) ∨
      (path ≠ [] ∧ (v ∈ supplyPathViolations path ∨ v ∈ outletViolations path)) := by
    intro path
    rw [airSupplyViolations]
    cases path <;> simp
  rw [hmem, ne_eq, nodesOf_eq_nil_iff h, mem_supplyPathViolations, mem_outletViolations,
    fanCount_nodesOf, getLast?_nodesOf h]
  simp only [getElem?_nodesOf h, Option.bind_eq_some_iff]

/-- What is reported of an air loop is true of it. -/
theorem misses_of_mem_airViolations (h : l.HandlesInRange arena.size) {v : Violation}
    (hv : v ∈ airViolations arena l) : l.Misses arena v := by
  rw [airViolations, List.mem_append, List.mem_append, mem_airSupplyViolations h.supply,
    List.mem_flatMap] at hv
  obtain ((⟨hempty, rfl⟩ | ⟨hne, hsupply⟩) | hdemand) | ⟨b, hb, hbranch⟩ := hv
  · exact .emptySupplyPath hempty
  · rcases hsupply with ⟨i, n, ⟨id, hid, hn⟩, hplace⟩ | ⟨hcount, rfl⟩ |
      ⟨hcount, n, ⟨id, hid, hn⟩, hclass, rfl⟩
    · rcases supplyViolation?_eq_some_iff.mp hplace with ⟨hclass, hi, rfl⟩ | ⟨hclass, rfl⟩
      · have hpos : 0 < i := Nat.pos_of_ne_zero (of_decide_eq_false hi)
        exact .outdoorAirSystemNotFirst hid hpos hn hclass
      · exact .notAirSupplyEquipment (List.mem_of_getElem? hid) hn hclass
    · exact .airMoverCount hne hcount
    · exact .outletNotFan hcount hid hn hclass
  · cases hbranches : l.demandBranches with
    | nil =>
        rw [hbranches] at hdemand
        rw [List.mem_singleton.mp hdemand]
        exact .noDemandBranches hbranches
    | cons b rest =>
        rw [hbranches] at hdemand
        cases hdemand
  · rcases mem_branchViolations.mp hbranch with ⟨hempty, rfl⟩ | ⟨n, hn, hclass, rfl⟩
    · exact .emptyBranch hb ((nodesOf_eq_nil_iff (h.branches b hb)).mp hempty)
    · obtain ⟨id, hid, hnode⟩ := mem_nodesOf.mp hn
      exact .nonTerminalOnBranch hb hid hnode hclass

/-- What is wrong with an air loop is reported. -/
theorem mem_airViolations_of_misses (h : l.HandlesInRange arena.size) {v : Violation}
    (hmiss : l.Misses arena v) : v ∈ airViolations arena l := by
  rw [airViolations, List.mem_append, List.mem_append, mem_airSupplyViolations h.supply,
    List.mem_flatMap]
  cases hmiss with
  | emptySupplyPath hempty => exact .inl (.inl (.inl ⟨hempty, rfl⟩))
  | @outdoorAirSystemNotFirst i id n hid hi hn hclass =>
      have hfirst : decide (i = 0) = false := decide_eq_false hi.ne'
      refine .inl (.inl (.inr ⟨List.ne_nil_of_mem (List.mem_of_getElem? hid), .inl ?_⟩))
      exact ⟨i, n, ⟨id, hid, hn⟩, supplyViolation?_eq_some_iff.mpr (.inl ⟨hclass, hfirst, rfl⟩)⟩
  | @notAirSupplyEquipment id n hid hn hclass =>
      obtain ⟨i, hi⟩ := List.mem_iff_getElem?.mp hid
      refine .inl (.inl (.inr ⟨List.ne_nil_of_mem hid, .inl ?_⟩))
      exact ⟨i, n, ⟨id, hi, hn⟩, supplyViolation?_eq_some_iff.mpr (.inr ⟨hclass, rfl⟩)⟩
  | airMoverCount hne hcount => exact .inl (.inl (.inr ⟨hne, .inr (.inl ⟨hcount, rfl⟩)⟩))
  | outletNotFan hcount hid hn hclass =>
      refine .inl (.inl (.inr ⟨List.ne_nil_of_mem (List.mem_of_getLast? hid), .inr (.inr ?_)⟩))
      exact ⟨hcount, _, ⟨_, hid, hn⟩, hclass, rfl⟩
  | noDemandBranches hempty =>
      rw [hempty]
      exact .inl (.inr (List.mem_singleton_self _))
  | @emptyBranch b hb hempty =>
      refine .inr ⟨b, hb, mem_branchViolations.mpr (.inl ⟨?_, rfl⟩)⟩
      exact (nodesOf_eq_nil_iff (h.branches b hb)).mpr hempty
  | @nonTerminalOnBranch b id n hb hid hn hclass =>
      refine .inr ⟨b, hb, mem_branchViolations.mpr (.inr ?_)⟩
      exact ⟨n, mem_nodesOf.mpr ⟨id, hid, hn⟩, hclass, rfl⟩

/-- An air loop has no violations exactly when its supply path matches `airSupply` and every branch
holds terminals, and it has those violations that are true of it. -/
theorem airViolations_exact (arena : Arena) (l : AirLoop) (h : l.HandlesInRange arena.size) :
    (airViolations arena l = [] ↔ l.Shaped arena) ∧
      ∀ v, v ∈ airViolations arena l ↔ l.Misses arena v :=
  ⟨airViolations_eq_nil_iff h, fun _ =>
    ⟨misses_of_mem_airViolations h, mem_airViolations_of_misses h⟩⟩

end Air

/-- An air loop of the gym, by the positions along its supply path and on its branch. -/
def gymAir (supply branch : List Nat) : AirLoop :=
  ⟨⟨0⟩, "air", supply.map Handle.mk, [⟨"court", branch.map Handle.mk⟩], .empty⟩

/-- A loop that passes, and one that is told what is wrong with it. -/
theorem airViolations_gym :
    ((gymAir [0, 1, 2] [3]).HandlesInRange gym.size ∧ (gymAir [0, 1, 2] [3]).Shaped gym) ∧
      (gymAir [2, 1, 0] []).HandlesInRange gym.size ∧
      airViolations gym (gymAir [2, 1, 0] []) =
        [.outdoorAirSystemNotFirst "oa", .outletNotFan "oa", .emptyBranch "court"] ∧
      (gymAir [2, 1, 0] []).Misses gym (.outdoorAirSystemNotFirst "oa") := by
  have hgood : (gymAir [0, 1, 2] [3]).HandlesInRange gym.size := ⟨by decide, by decide⟩
  have hbad : (gymAir [2, 1, 0] []).HandlesInRange gym.size := ⟨by decide, by decide⟩
  have hviolations : airViolations gym (gymAir [2, 1, 0] []) =
      [.outdoorAirSystemNotFirst "oa", .outletNotFan "oa", .emptyBranch "court"] := by decide
  refine ⟨⟨hgood, (airViolations_exact gym _ hgood).1.mp (by decide)⟩, hbad, hviolations, ?_⟩
  refine ((airViolations_exact gym _ hbad).2 _).mp ?_
  rw [hviolations]
  exact List.mem_cons_self

end Skeleton

end HvacModel
