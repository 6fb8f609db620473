import HvacModel.Proofs.Extension.Skeleton
import HvacModel.Proofs.Measure.Overlap
import HvacModel.Proofs.Model.Compile

/-! # Compiling with one more component

Measures act on every component of a class, so a new component is written to as well.  What they
write to the entities that were there is decided by the overrides that hit them, and stays the same
(`written_extends`).  There is no new conflict either: writes of a stage to one place are writes to
an air loop, if the measures are of different categories, and the writes to air loops are those that
were made before (`filter_stageWrites_extends`).

So a document that compiles does so with one more definition at the end of its component table, and
the models differ by the components of the definition only (`Document.compile_append`). -/

namespace HvacModel

open Document (Component)

namespace Measure

variable {s t : Skeleton} {measures : List Document.Measure}

/-! ### Written values -/

/-- An entity that is not one of the components after those of a skeleton. -/
def Entity.Within (s : Skeleton) : Entity → Prop
  | airLoop _ _ => True
  | component id => id.index < s.components.size

theorem reaches_extends (h : s.Extends t) {e : Entity} (he : e.Within s) (target : Target) :
    target.reaches t e = target.reaches s e := by
  unfold Target.reaches
  cases e with
  | airLoop system index => rw [h.systems]
  | component id =>
      have hnode := h.components.node?_eq he
      dsimp only
      rw [hnode]

theorem hits_extends (h : s.Extends t) {place : Place} (he : place.entity.Within s)
    (o : Override) : o.hits t place = o.hits s place := by
  unfold Override.hits
  cases target? o.category o.key with
  | none => rfl
  | some target =>
      dsimp only
      rw [reaches_extends h he]

theorem lastWrite?_extends (h : s.Extends t) {place : Place} (he : place.entity.Within s)
    (stages : List (List MeasureCategory)) :
    lastWrite? t measures stages place = lastWrite? s measures stages place := by
  unfold lastWrite?
  congr 1
  refine List.filterMap_congr fun stage _ => ?_
  simp only [firstWrite?, hits_extends h he]

/-- An entity that was there has the same attributes after all stages. -/
theorem written_extends (h : s.Extends t) (hs : s.components.WellFormed)
    (ht : t.components.WellFormed) (stages : List (List MeasureCategory)) {e : Entity}
    (he : e.Within s) (attributes : Attributes) :
    written (stages.flatMap (keptWrites t measures)) e attributes =
      written (stages.flatMap (keptWrites s measures)) e attributes := by
  apply NameMap.ext_find?
  intro name
  rw [find?_written, find?_written, getLast?_keptWrites ht, getLast?_keptWrites hs,
    lastWrite?_extends h he]

theorem systems_writtenSkeleton_extends (h : s.Extends t) (hs : s.components.WellFormed)
    (ht : t.components.WellFormed) (measures : List Document.Measure)
    (stages : List (List MeasureCategory)) :
    (writtenSkeleton (stages.flatMap (keptWrites t measures)) t).systems =
      (writtenSkeleton (stages.flatMap (keptWrites s measures)) s).systems := by
  have hloop : writtenAirLoop (stages.flatMap (keptWrites t measures)) =
      writtenAirLoop (stages.flatMap (keptWrites s measures)) := by
    funext system index l
    have hwithin : (Entity.airLoop system index).Within s := trivial
    rw [writtenAirLoop, writtenAirLoop, written_extends h hs ht stages hwithin]
  have hsystem : writtenSystem (stages.flatMap (keptWrites t measures)) =
      writtenSystem (stages.flatMap (keptWrites s measures)) := by
    funext position r
    rw [writtenSystem, writtenSystem, hloop]
  rw [writtenSkeleton, writtenSkeleton, hsystem, h.systems]

/-- A component after a sequence of writes. -/
def writtenNode (writes : List Write) (n : ComponentNode) : ComponentNode :=
  { n with attributes := written writes (.component n.id) n.attributes }

/-- The components that were there stand in front as they were, and the others follow. -/
theorem nodes_writtenSkeleton_extends (h : s.Extends t) (hs : s.components.WellFormed)
    (ht : t.components.WellFormed) (measures : List Document.Measure)
    (stages : List (List MeasureCategory)) {more : List Arena.Slot}
    (hmore : t.components.slots = s.components.slots ++ more) :
    (writtenSkeleton (stages.flatMap (keptWrites t measures)) t).components.nodes =
      (writtenSkeleton (stages.flatMap (keptWrites s measures)) s).components.nodes ++
        more.map fun slot => writtenNode (stages.flatMap (keptWrites t measures)) slot.node := by
  simp only [writtenSkeleton, Arena.mapAttributes, Arena.nodes, hmore, List.map_append,
    List.map_map]
  congr 1
  refine List.map_congr_left fun slot hslot => ?_
  have hwithin : (Entity.component slot.node.id).Within s := by
    obtain ⟨i, hi⟩ := List.mem_iff_getElem?.mp hslot
    rw [(hs.slots i slot hi).id]
    exact (List.getElem?_eq_some_iff.mp hi).1
  dsimp only [Function.comp_apply]
  rw [written_extends h hs ht stages hwithin]

/-! ### Conflicts -/

/-- A write to an air loop. -/
def Write.onAirLoop (w : Write) : Bool :=
  match w.place.entity with
  | .airLoop _ _ => true
  | .component _ => false

theorem filter_overrideWrites_extends (h : s.Extends t) (category : MeasureCategory)
    (entry : String × AttributeValue) :
    (overrideWrites t category entry).filter Write.onAirLoop =
      (overrideWrites s category entry).filter Write.onAirLoop := by
  unfold overrideWrites
  cases target? category entry.1 with
  | none => rfl
  | some target =>
      dsimp only
      unfold Target.entities
      cases target.scope with
      | airLoops =>
          dsimp only
          rw [h.systems]
      | equipment classes =>
          -- these are writes to components, of which neither list keeps any
          simp only [List.map_map, List.filter_map]
          simp [Function.comp_def, Write.onAirLoop]

/-- The writes to air loops are those that were made before. -/
theorem filter_stageWrites_extends (h : s.Extends t) (measures : List Document.Measure)
    (stage : List MeasureCategory) :
    (stageWrites t measures stage).filter Write.onAirLoop =
      (stageWrites s measures stage).filter Write.onAirLoop := by
  simp only [stageWrites, List.filter_flatMap, filter_overrideWrites_extends h]

/-- Writes that agreed before agree with more components. -/
theorem pairwise_agrees_extends (h : s.Extends t) (ht : t.components.WellFormed)
    (hm : (measures.map Document.Measure.category).Nodup) {stage : List MeasureCategory}
    (hs : (stageWrites s measures stage).Pairwise Write.Agrees) :
    (stageWrites t measures stage).Pairwise Write.Agrees := by
  have hair : ((stageWrites t measures stage).filter Write.onAirLoop).Pairwise Write.Agrees := by
    rw [filter_stageWrites_extends h]
    exact hs.filter _
  rw [List.pairwise_filter] at hair
  refine (hair.and (pairwise_stageWrites ht hm stage)).imp_of_mem ?_
  rintro v w hv hw ⟨hagree, hne⟩ hplace
  obtain ⟨-, system, index, l, hentity, -⟩ :=
    exists_airLoop_of_place_eq ht hv hw hplace (hne hplace)
  have honv : v.onAirLoop = true := by rw [Write.onAirLoop, hentity]
  have honw : w.onAirLoop = true := by rw [Write.onAirLoop, ← hplace, hentity]
  exact hagree honv honw hplace

end Measure

open HvacModel.Measure

theorem Skeleton.Extends.applyMeasures {s t : Skeleton} (h : s.Extends t)
    (ht : t.components.WellFormed) {measures : List Document.Measure}
    (hm : (measures.map Document.Measure.category).Nodup) {stages : List (List MeasureCategory)}
    {applied : Applied}
    (ha : s.applyMeasures measures stages = .ok applied) :
    ∃ applied', t.applyMeasures measures stages = .ok applied' ∧
      applied.skeleton = writtenSkeleton (stages.flatMap (keptWrites s measures)) s ∧
      applied'.skeleton = writtenSkeleton (stages.flatMap (keptWrites t measures)) t ∧
      applied'.unstaged = applied.unstaged := by
  obtain ⟨hnil, rfl⟩ := (applyMeasures_eq_ok_iff s measures stages applied).mp ha
  have hnil' : conflictsFrom t measures 0 stages = [] := by
    rw [conflictsFrom_eq_nil_iff] at hnil ⊢
    exact fun stage hstage => pairwise_agrees_extends h ht hm (hnil stage hstage)
  exact ⟨_, (applyMeasures_eq_ok_iff t measures stages _).mpr ⟨hnil', rfl⟩, rfl, rfl, rfl⟩

/-! ### Models -/

/-- A component without its attributes. -/
def ComponentNode.bare (n : ComponentNode) : ComponentNode := { n with attributes := .empty }

/-- A model with the components of one more definition at the end; all else is the same. -/
structure Model.ExtendsBy (c : Component) (m m' : Model) : Prop where
  components : ∃ added, m'.components.nodes = m.components.nodes ++ added ∧
    added.map ComponentNode.bare =
      (c.layout m.components.size none c.name).map fun slot => slot.node.bare
  systems : m'.systems = m.systems
  schedules : m'.schedules = m.schedules
  constructionSets : m'.constructionSets = m.constructionSets
  spaceTypes : m'.spaceTypes = m.spaceTypes
  building : m'.building = m.building
  runInfo : m'.runInfo = m.runInfo

namespace Document

/-- A document that compiles does so with one more definition of a new name. -/
theorem compile_append {d : Document} {stages : List (List MeasureCategory)} {compiled : Compiled}
    (h : d.compile stages = .ok compiled) (hm : (d.measures.map Measure.category).Nodup)
    {c : Component} (hn : c.name ∉ d.components.map Component.name)
    (hc : c.repeatedName? c.name = none) :
    ∃ compiled', { d with components := d.components ++ [c] }.compile stages = .ok compiled' ∧
      compiled.model.ExtendsBy c compiled'.model ∧ compiled'.warnings = compiled.warnings := by
  obtain ⟨s, applied, schedules, hstages, rfl⟩ := (compile_eq_ok_iff d stages compiled).mp h
  have hs := (resolve_eq_ok_iff d s).mp hstages.resolved
  have ht := hs.extend hn hc
  have hext : s.Extends { s with components := s.components.extend c } :=
    ⟨Arena.extends_extend (hs.find?_names hn), rfl, rfl, rfl⟩
  obtain ⟨applied', happlied, heq, heq', hunstaged⟩ :=
    hext.applyMeasures ht.wellFormed hm hstages.applied
  have hstages' : { d with components := d.components ++ [c] }.Stages stages
      { s with components := s.components.extend c } applied' schedules :=
    { resolved := (resolve_eq_ok_iff _ _).mpr ht
      topology := (hext.topologyErrors_eq hs.handlesInRange).trans hstages.topology
      applied := happlied
      schedules := hstages.schedules }
  refine ⟨_, (compile_eq_ok_iff _ stages _).mpr ⟨_, applied', schedules, hstages', rfl⟩, ?_, ?_⟩
  · have hnodes :=
      nodes_writtenSkeleton_extends hext hs.wellFormed ht.wellFormed d.measures stages rfl
    have hsystems :=
      systems_writtenSkeleton_extends hext hs.wellFormed ht.wellFormed d.measures stages
    have hsize : applied.skeleton.components.size = s.components.size := by
      rw [heq]
      exact Arena.size_mapAttributes _ _
    rw [← heq, ← heq'] at hnodes hsystems
    refine ⟨⟨_, hnodes, ?_⟩, hsystems, rfl, rfl, rfl, ?_, rfl⟩
    · simp only [Compiled.assemble, hsize, List.map_map]
      rfl
    · simp only [Compiled.assemble, heq, heq']
      rfl
  · simp only [Compiled.assemble, hunstaged]

end Document

end HvacModel
