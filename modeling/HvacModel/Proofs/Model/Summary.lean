import HvacModel.Proofs.Model.Handles
import HvacModel.Proofs.Skeleton.Positions
import HvacModel.Proofs.Component.Subtree

/-! # What a summary counts

A summary is taken of the handles of a model, and counts what is written in its document
(`Document.summary_of_compile`).  The arena holds one component for each definition, and a component
has an owner exactly when its definition stands inside of another one
(`ownedCount_addComponents`); without errors no definition is refused.  The loops of the model are
those of the document in its order, with one handle for each name in their lists. -/

namespace HvacModel

open Document (Component)
open Document.Component Skeleton HvacModel.Measure

/-! ### What is written -/

namespace Document

/-- The definitions written inside of others, at any depth. -/
def Component.nested (cs : List Component) : List Component :=
  cs.flatMap fun c => preorderList c.subComponents

/-- The names written in the lists of an air loop. -/
def AirLoop.written (l : AirLoop) : List String :=
  l.supply ++ l.demandBranches.flatMap Branch.components

/-- The names written in the lists of a plant loop. -/
def PlantLoop.written (l : PlantLoop) : List String :=
  l.inletNode ++ l.supplyBranches ++ l.demandBranches

end Document

/-- A summary counts the entries of a document. -/
structure Summary.Counts (d : Document) (s : Summary) : Prop where
  systems : s.systemCount = d.systems.length
  schedules : s.scheduleCount = d.schedules.length
  components : s.componentCount = d.components.length
  subComponents : s.subComponentCount = (nested d.components).length
  /-- The air loops of all systems, then the plant loops of all systems. -/
  loops : s.loops =
    (d.systems.flatMap Document.System.airLoops).map
        (fun l => ⟨l.name, .air, l.written.length⟩) ++
      (d.systems.flatMap Document.System.plantLoops).map
        (fun l => ⟨l.name, l.kind, l.written.length⟩)

/-! ### Definitions -/

theorem length_preorderList_eq_add (cs : List Component) :
    (preorderList cs).length = cs.length + (nested cs).length := by
  induction cs with
  | nil => rfl
  | cons c rest ih =>
      unfold nested at ih ⊢
      rw [preorderList, preorder_eq_cons, List.flatMap_cons, List.length_append, List.length_append,
        List.length_cons, List.length_cons, ih]
      omega

mutual

theorem isSome_owner_of_mem_layout {first : Nat} {owner : Handle .component} {path : String}
    (c : Component) {s : Arena.Slot} (hs : s ∈ c.layout first (some owner) path) :
    s.node.owner.isSome := by
  match c with
  | .mk name type attributes subs =>
      rw [layout] at hs
      rcases List.mem_cons.mp hs with rfl | hs
      · rfl
      · exact isSome_owner_of_mem_layoutList subs hs

theorem isSome_owner_of_mem_layoutList {first : Nat} {owner : Handle .component} {path : String}
    (cs : List Component) {s : Arena.Slot} (hs : s ∈ layoutList first owner path cs) :
    s.node.owner.isSome := by
  match cs with
  | [] => cases hs
  | c :: rest =>
      rw [layoutList] at hs
      rcases List.mem_append.mp hs with hs | hs
      · exact isSome_owner_of_mem_layout c hs
      · exact isSome_owner_of_mem_layoutList rest hs

end

/-! ### Arenas -/

namespace Summary

theorem ownedCount_eq (a : Arena) :
    ownedCount a = a.slots.countP fun s => s.node.owner.isSome := List.countP_map

theorem ownedCount_le_size (a : Arena) : ownedCount a ≤ a.size := by
  rw [ownedCount_eq]
  exact List.countP_le_length

theorem ownedCount_mapAttributes (a : Arena) (f : ComponentNode → Attributes) :
    ownedCount (a.mapAttributes f) = ownedCount a := by
  rw [ownedCount_eq, ownedCount_eq, Arena.mapAttributes, List.countP_map]
  rfl

/-- A definition brings in one owned component for each definition inside of it. -/
theorem ownedCount_extend (a : Arena) (c : Component) :
    ownedCount (a.extend c) = ownedCount a + (preorderList c.subComponents).length := by
  obtain ⟨name, type, attributes, subs⟩ := c
  have howned : ((layoutList (a.size + 1) ⟨a.size⟩ name subs).countP fun s =>
      s.node.owner.isSome) = (preorderList subs).length := by
    rw [List.countP_eq_length.mpr fun s hs => isSome_owner_of_mem_layoutList subs hs,
      length_layoutList, length_preorderList]
  rw [ownedCount_eq, ownedCount_eq, Arena.extend, List.countP_append, layout]
  exact congrArg (_ + ·) howned

/-- Definitions that are all accepted bring in one component each, and one owned component for each
definition inside of them. -/
theorem ownedCount_addComponents {a : Arena} {cs : List Component}
    (h : (addComponents a cs).Clean) :
    ownedCount (addComponents a cs).value = ownedCount a + (nested cs).length ∧
      (addComponents a cs).value.size = a.size + (preorderList cs).length := by
  induction cs generalizing a with
  | nil => exact ⟨rfl, rfl⟩
  | cons c rest ih =>
      rw [addComponents] at h ⊢
      cases hadd : a.add c with
      | error error => simp [hadd] at h
      | ok added =>
          obtain ⟨extended, id⟩ := added
          simp only [hadd] at h ⊢
          obtain ⟨-, -, heq, -⟩ := (Arena.add_eq_ok_iff a extended c id).mp hadd
          have hextended : extended = a.extend c := heq
          obtain ⟨howned, hsize⟩ := ih h
          rw [hextended] at howned hsize ⊢
          constructor
          · rw [howned, ownedCount_extend, nested, nested, List.flatMap_cons, List.length_append,
              Nat.add_assoc]
          · rw [hsize, Arena.size_extend, preorderList, List.length_append, length_preorder,
              Nat.add_assoc]

/-! ### Loops -/

section Loops

variable {component : String → Option (Handle .component)}
  {schedule : String → Option (Handle .schedule)}

theorem ofAirLoop_eq {l : Document.AirLoop} {r : AirLoop} (h : IsAirLoopOf component l r) :
    ofAirLoop r = ⟨l.name, .air, l.written.length⟩ := by
  have hbranches : l.demandBranches.map (fun b => b.components.length) =
      r.demandBranches.map (fun b => b.components.length) :=
    h.demandBranches.map_eq fun b q hb => hb.components.length_eq
  rw [ofAirLoop, Document.AirLoop.written, h.name, List.length_append, List.length_flatMap,
    List.length_flatMap, h.supply.length_eq, hbranches]

theorem ofPlantLoop_eq {l : Document.PlantLoop} {r : PlantLoop}
    (h : IsPlantLoopOf component l r) : ofPlantLoop r = ⟨l.name, l.kind, l.written.length⟩ := by
  rw [ofPlantLoop, Document.PlantLoop.written, h.name, h.kind, List.length_append,
    List.length_append, h.inletNode.length_eq, h.supplyBranches.length_eq,
    h.demandBranches.length_eq]

/-- The loops of systems in the order of a document are summed up in that order. -/
theorem map_loops_eq {ss : List Document.System} {rs : List System}
    (h : List.Forall₂ (IsSystemOf component schedule) ss rs) :
    (rs.flatMap System.airLoops).map ofAirLoop =
        (ss.flatMap Document.System.airLoops).map (fun l => ⟨l.name, .air, l.written.length⟩) ∧
      (rs.flatMap System.plantLoops).map ofPlantLoop =
        (ss.flatMap Document.System.plantLoops).map
          (fun l => ⟨l.name, l.kind, l.written.length⟩) := by
  induction h with
  | nil => exact ⟨rfl, rfl⟩
  | @cons s r ss rs hs _ ih =>
      obtain ⟨hair, hplant⟩ := ih
      constructor
      · rw [List.flatMap_cons, List.flatMap_cons, List.map_append, List.map_append, hair,
          hs.airLoops.map_eq fun l q hl => (ofAirLoop_eq hl).symm]
      · rw [List.flatMap_cons, List.flatMap_cons, List.map_append, List.map_append, hplant,
          hs.plantLoops.map_eq fun l q hl => (ofPlantLoop_eq hl).symm]

end Loops

end Summary

/-! ### Models -/

open Summary in
/-- The summary of a model counts its document, and of the components no more have an owner than
there are. -/
theorem Document.summary_of_compile (d : Document) (stages : List (List MeasureCategory))
    (c : Compiled) (h : d.compile stages = .ok c) :
    (Summary.ofModel c.model).Counts d ∧
      ownedCount c.model.components ≤ c.model.components.size := by
  obtain ⟨skeleton, applied, schedules, hstages, rfl⟩ :=
    (Document.compile_eq_ok_iff d stages c).mp h
  have hresolution := (Document.resolve_eq_ok_iff d skeleton).mp hstages.resolved
  obtain ⟨hsystems, -⟩ := hresolution.follows.applyMeasures hstages.applied
  obtain ⟨-, happlied⟩ :=
    (applyMeasures_eq_ok_iff skeleton d.measures stages applied).mp hstages.applied
  obtain ⟨howned, hsize⟩ := ownedCount_addComponents hresolution.addsClean
  rw [hresolution.components] at howned hsize
  have howned' : ownedCount applied.skeleton.components = (nested d.components).length := by
    rw [happlied, writtenSkeleton, ownedCount_mapAttributes, howned]
    exact Nat.zero_add _
  have hsize' : applied.skeleton.components.size =
      d.components.length + (nested d.components).length := by
    rw [happlied, writtenSkeleton, Arena.size_mapAttributes, hsize, length_preorderList_eq_add]
    exact Nat.zero_add _
  obtain ⟨hair, hplant⟩ := map_loops_eq hsystems
  refine ⟨?_, ownedCount_le_size _⟩
  exact
    { systems := hsystems.length_eq.symm
      schedules := hstages.forall₂_schedules.length_eq.symm
      components := by
        show applied.skeleton.components.size - ownedCount applied.skeleton.components = _
        omega
      subComponents := howned'
      loops := congrArg₂ (· ++ ·) hair hplant }

/-- A museum with a terminal that owns two components one inside of the other, and with the air loop
of its store written after the heating of its halls. -/
def museum : Document :=
  { Document.passiveOffice "halls" with
    systems := [⟨"halls", [⟨"air", ["fan"], [⟨"east", ["box"]⟩, ⟨"west", ["box", "grille"]⟩]⟩],
        [⟨"heating", .hotWater, ["pump"], ["pipe", "boiler", "pipe"], ["box.coil"]⟩], none, .empty⟩,
      ⟨"store", [⟨"cold", ["fan"], [⟨"shelves", ["grille"]⟩]⟩], [], none, .empty⟩]
    components := [.mk "fan" .variableVolumeFan .empty [],
      .mk "box" .reheatTerminal .empty
        [.mk "coil" .waterHeatingCoil .empty [.mk "valve" .adiabaticPipe .empty []]],
      .mk "grille" .uncontrolledTerminal .empty [], .mk "pump" .variableSpeedPump .empty [],
      .mk "pipe" .adiabaticPipe .empty [], .mk "boiler" .hotWaterBoiler .empty []]
    schedules :=
      [⟨"always", "Always", [⟨"day", "day", [(.midnight, 1)]⟩], some 0, none, none, []⟩] }

theorem summary_museum : ∃ c, museum.compile defaultStages = .ok c ∧
    (Summary.ofModel c.model).componentCount = 6 ∧
    (Summary.ofModel c.model).subComponentCount = 2 ∧
    (Summary.ofModel c.model).loops =
      [⟨"air", .air, 4⟩, ⟨"cold", .air, 2⟩, ⟨"heating", .hotWater, 5⟩] := by
  obtain ⟨c, hc⟩ : ∃ c, museum.compile defaultStages = .ok c := ⟨_, rfl⟩
  obtain ⟨hcounts, -⟩ := museum.summary_of_compile defaultStages c hc
  exact ⟨c, hc, hcounts.components, hcounts.subComponents, hcounts.loops⟩

end HvacModel
