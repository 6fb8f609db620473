import HvacModel.Proofs.Measure.Agreement
import HvacModel.Proofs.Model.Compile
import HvacModel.Proofs.Renaming.Skeleton

/-! # The order of the component table

Under renamed handles a target reaches the renamed entities, so a stage writes to the renamed places
(`stageWrites_perm_rename`), though in another order where components are concerned: the writes
agree in one order exactly when they agree in the other, and what is written to a place is decided
by the overrides that hit it (`firstWrite?_rename`), whose order has not changed.  With the renaming
of the skeletons this gives the models of a document whose components are defined in another order:
one compiles exactly when the other does, and the models differ by a renaming of the component
handles (`Document.compile_perm_components`). -/

namespace HvacModel

open Document (Component)

namespace Measure

/-! ### Renamed places -/

section rename

variable (f : Handle .component → Handle .component)

def Entity.rename : Entity → Entity
  | airLoop system index => airLoop system index
  | component id => component (f id)

def Place.rename (p : Place) : Place := { p with entity := p.entity.rename f }

def Write.rename (w : Write) : Write := { w with place := w.place.rename f }

end rename

variable {π : Renaming} {s t : Skeleton} {measures : List Document.Measure}
  {stage : List MeasureCategory}

theorem rename_injective (π : Renaming) : Function.Injective (Place.rename π) := by
  rintro ⟨e, name⟩ ⟨e', name'⟩ h
  obtain ⟨he, rfl⟩ := Place.mk.inj h
  cases e with
  | airLoop system index =>
      cases e' with
      | airLoop system' index' => rw [Entity.rename, Entity.rename] at he; rw [he]
      | component id => cases he
  | component id =>
      cases e' with
      | airLoop system index => cases he
      | component id' => rw [π.injective (Entity.component.inj he)]

theorem agrees_rename_iff (v w : Write) :
    (v.rename π).Agrees (w.rename π) ↔ v.Agrees w := by
  unfold Write.Agrees
  exact imp_congr_left (rename_injective π).eq_iff

/-! ### Writes -/

theorem airLoopsFrom_rename (f : Handle .component → Handle .component) (position : Nat)
    (systems : List Skeleton.System) :
    airLoopsFrom position (systems.map (Skeleton.System.rename f)) =
      (airLoopsFrom position systems).map (Entity.rename f) := by
  induction systems generalizing position with
  | nil => rfl
  | cons r rest ih =>
      rw [List.map_cons, airLoopsFrom, airLoopsFrom, ih, List.map_append, List.map_map,
        Skeleton.System.rename, List.length_map]
      rfl

/-- The entities of a target are the renamed ones, the components in another order. -/
theorem entities_perm_rename (h : s.Renames π t) (hs : s.components.WellFormed)
    (ht : t.components.WellFormed) (target : Target) :
    ((target.entities s).map (Entity.rename π)).Perm (target.entities t) := by
  unfold Target.entities
  cases target.scope with
  | airLoops =>
      dsimp only
      rw [h.systems, airLoopsFrom_rename]
  | equipment classes =>
      have hnodes := h.components.nodes_perm hs ht
      refine List.Perm.trans (List.Perm.of_eq ?_) ((hnodes.filter _).map _)
      rw [List.filter_map, List.map_map, List.map_map]
      rfl

theorem stageWrites_perm_rename (h : s.Renames π t) (hs : s.components.WellFormed)
    (ht : t.components.WellFormed) (measures : List Document.Measure)
    (stage : List MeasureCategory) :
    ((stageWrites s measures stage).map (Write.rename π)).Perm (stageWrites t measures stage) := by
  rw [stageWrites_eq, stageWrites_eq, List.map_flatMap]
  refine List.Perm.flatMap_left _ fun o _ => ?_
  unfold overrideWrites
  cases target? o.category o.key with
  | none => exact .nil
  | some target =>
      have hentities := entities_perm_rename h hs ht target
      refine List.Perm.trans (List.Perm.of_eq ?_) (hentities.map _)
      rw [List.map_map, List.map_map]
      rfl

theorem agrees_stageWrites_iff (h : s.Renames π t) (hs : s.components.WellFormed)
    (ht : t.components.WellFormed) :
    (stageWrites t measures stage).Pairwise Write.Agrees ↔
      (stageWrites s measures stage).Pairwise Write.Agrees := by
  rw [← pairwise_agrees_perm (stageWrites_perm_rename h hs ht measures stage), List.pairwise_map]
  simp only [agrees_rename_iff]

/-! ### Written values -/

theorem reaches_rename (h : s.Renames π t) (target : Target) (e : Entity) :
    target.reaches t (e.rename π) = target.reaches s e := by
  unfold Target.reaches
  cases e with
  | airLoop system index =>
      simp only [Entity.rename, h.systems, List.getElem?_map]
      cases s.systems[system]? with
      | none => rfl
      | some r => simp [Skeleton.System.rename]
  | component id =>
      simp only [Entity.rename, h.components.node?_eq]
      cases s.components.node? id <;> cases target.scope <;> rfl

theorem hits_rename (h : s.Renames π t) (o : Override) (place : Place) :
    o.hits t (place.rename π) = o.hits s place := by
  unfold Override.hits
  cases target? o.category o.key with
  | none => rfl
  | some target =>
      have hreaches := reaches_rename h target place.entity
      dsimp only
      rw [← hreaches]
      rfl

theorem firstWrite?_rename (h : s.Renames π t) (measures : List Document.Measure) (place : Place)
    (stage : List MeasureCategory) :
    firstWrite? t measures (place.rename π) stage = firstWrite? s measures place stage := by
  simp only [firstWrite?, hits_rename h]

/-- A renamed entity has the same attributes after all stages. -/
theorem written_rename (h : s.Renames π t) (hs : s.components.WellFormed)
    (ht : t.components.WellFormed) (stages : List (List MeasureCategory)) (e : Entity)
    (attributes : Attributes) :
    written (stages.flatMap (keptWrites t measures)) (e.rename π) attributes =
      written (stages.flatMap (keptWrites s measures)) e attributes := by
  apply NameMap.ext_find?
  intro name
  have hlast : lastWrite? t measures stages ⟨e.rename π, name⟩ =
      lastWrite? s measures stages ⟨e, name⟩ := by
    unfold lastWrite?
    congr 1
    exact List.filterMap_congr fun stage _ => firstWrite?_rename h measures ⟨e, name⟩ stage
  rw [find?_written, find?_written, getLast?_keptWrites ht, getLast?_keptWrites hs, hlast]

theorem mapFrom_map {α β γ δ : Type} {f : Nat → α → β} {f' : Nat → γ → δ} {g : α → γ} {g' : β → δ}
    (h : ∀ i a, f' i (g a) = g' (f i a)) (first : Nat) (list : List α) :
    mapFrom f' first (list.map g) = (mapFrom f first list).map g' := by
  induction list generalizing first with
  | nil => rfl
  | cons a rest ih => rw [List.map_cons, mapFrom, mapFrom, List.map_cons, h, ih]

/-- Measures keep skeletons renamed. -/
theorem renames_writtenSkeleton (h : s.Renames π t) (hs : s.components.WellFormed)
    (ht : t.components.WellFormed) (stages : List (List MeasureCategory)) :
    (writtenSkeleton (stages.flatMap (keptWrites s measures)) s).Renames π
      (writtenSkeleton (stages.flatMap (keptWrites t measures)) t) where
  components := Arena.Renames.mapAttributes h.components
    (f := fun n => written (stages.flatMap (keptWrites s measures)) (.component n.id) n.attributes)
    (g := fun n => written (stages.flatMap (keptWrites t measures)) (.component n.id) n.attributes)
    fun n _ => written_rename h hs ht stages (.component n.id) n.attributes
  systems := by
    unfold writtenSkeleton
    dsimp only
    rw [h.systems]
    refine mapFrom_map (fun i r => ?_) 0 s.systems
    unfold writtenSystem
    simp only [Skeleton.System.rename]
    congr 1
    refine mapFrom_map (fun j l => ?_) 0 r.airLoops
    unfold writtenAirLoop
    simp only [Skeleton.AirLoop.rename]
    congr 1
    exact written_rename h hs ht stages (.airLoop i j) l.attributes
  schedules := h.schedules
  building := h.building

end Measure

open HvacModel.Measure

theorem Skeleton.Renames.applyMeasures {π : Renaming} {s t : Skeleton} (h : s.Renames π t)
    (hs : s.components.WellFormed) (ht : t.components.WellFormed)
    {measures : List Document.Measure} {stages : List (List MeasureCategory)} {applied : Applied}
    (ha : s.applyMeasures measures stages = .ok applied) :
    ∃ applied', t.applyMeasures measures stages = .ok applied' ∧
      applied.skeleton.Renames π applied'.skeleton ∧ applied'.unstaged = applied.unstaged := by
  obtain ⟨hnil, rfl⟩ := (applyMeasures_eq_ok_iff s measures stages applied).mp ha
  have hnil' : conflictsFrom t measures 0 stages = [] := by
    rw [conflictsFrom_eq_nil_iff] at hnil ⊢
    exact fun stage hstage => (agrees_stageWrites_iff h hs ht).mpr (hnil stage hstage)
  exact ⟨_, (applyMeasures_eq_ok_iff t measures stages _).mpr ⟨hnil', rfl⟩,
    renames_writtenSkeleton h hs ht stages, rfl⟩

/-! ### Models -/

/-- A model under renamed component handles; all else is the same. -/
structure Model.Renames (π : Renaming) (m m' : Model) : Prop where
  components : m.components.Renames π m'.components
  systems : m'.systems = m.systems.map (Skeleton.System.rename π)
  schedules : m'.schedules = m.schedules
  constructionSets : m'.constructionSets = m.constructionSets
  spaceTypes : m'.spaceTypes = m.spaceTypes
  building : m'.building = m.building
  runInfo : m'.runInfo = m.runInfo

namespace Document

variable {d : Document} {components : List Component} {stages : List (List MeasureCategory)}

theorem exists_compile_of_perm (hn : (d.components.map Component.name).Nodup)
    (hp : d.components.Perm components) {c : Compiled} (hc : d.compile stages = .ok c) :
    ∃ c' π, { d with components := components }.compile stages = .ok c' ∧
      c.model.Renames π c'.model ∧ c'.warnings = c.warnings := by
  obtain ⟨s, applied, schedules, hstages, rfl⟩ := (compile_eq_ok_iff d stages c).mp hc
  have hs := (resolve_eq_ok_iff d s).mp hstages.resolved
  obtain ⟨π, t, hst, ht⟩ := hs.exists_renames hn hp
  obtain ⟨applied', happlied, hrenames, hunstaged⟩ :=
    hst.applyMeasures hs.wellFormed ht.wellFormed hstages.applied
  have hstages' : { d with components := components }.Stages stages t applied' schedules :=
    { resolved := (resolve_eq_ok_iff _ t).mpr ht
      topology := hst.topologyErrors_eq.trans hstages.topology
      applied := happlied
      schedules := by
        rw [hst.schedules]
        exact hstages.schedules }
  refine ⟨_, π, (compile_eq_ok_iff _ stages _).mpr ⟨t, applied', schedules, hstages', rfl⟩, ?_, ?_⟩
  · exact {
      components := hrenames.components
      systems := hrenames.systems
      schedules := rfl
      constructionSets := rfl
      spaceTypes := rfl
      building := by simp only [Compiled.assemble, hrenames.building]
      runInfo := rfl }
  · simp only [Compiled.assemble, hunstaged]

/-- The order of the component table does not matter.  A document with distinct component names
compiles exactly when it compiles with its components in another order, and the two models differ by
a renaming of the component handles: what a handle leads to in the one, the renamed handle leads to
in the other, and all else is the same, as are the warnings. -/
theorem compile_perm_components (d : Document) (components : List Component)
    (stages : List (List MeasureCategory)) (hn : (d.components.map Component.name).Nodup)
    (hp : d.components.Perm components) :
    ((∃ c, d.compile stages = .ok c) ↔
      ∃ c, { d with components := components }.compile stages = .ok c) ∧
    ∀ c c', d.compile stages = .ok c →
      { d with components := components }.compile stages = .ok c' →
      ∃ π : Renaming, c.model.Renames π c'.model ∧ c'.warnings = c.warnings := by
  have hn' : (components.map Component.name).Nodup := (hp.map _).nodup_iff.mp hn
  refine ⟨⟨fun ⟨c, hc⟩ => ?_, fun ⟨c, hc⟩ => ?_⟩, fun c c' hc hc' => ?_⟩
  · obtain ⟨c', -, hc', -⟩ := exists_compile_of_perm hn hp hc
    exact ⟨c', hc'⟩
  · obtain ⟨c', -, hc', -⟩ := exists_compile_of_perm (d := { d with components := components })
      hn' hp.symm hc
    exact ⟨c', hc'⟩
  · obtain ⟨c'', π, hc'', hrenames, hwarnings⟩ := exists_compile_of_perm hn hp hc
    rw [hc', Except.ok.injEq] at hc''
    subst hc''
    exact ⟨π, hrenames, hwarnings⟩

/-- A fan and a box that owns a coil, with a measure on the fan. -/
def workshop (components : List Component) : Document :=
  { passiveOffice "vav" with
    measures := [⟨.hvacEquipment, .ofList [("fan_efficiency", .number 0)]⟩]
    systems := [⟨"vav", [⟨"supply", ["fan"], [⟨"room", ["box"]⟩]⟩],
      [⟨"hot", .hotWater, ["pump"], ["boiler"], ["box.coil"]⟩], none, .empty⟩]
    components := components }

def workshopComponents : List Component :=
  [.mk "fan" .variableVolumeFan .empty [],
    .mk "box" .reheatTerminal .empty [.mk "coil" .waterHeatingCoil .empty []],
    .mk "pump" .variableSpeedPump .empty [], .mk "boiler" .hotWaterBoiler .empty []]

/-- The workshop with its components in the opposite order. -/
theorem compile_workshop_reverse :
    ∃ c c' π, (workshop workshopComponents).compile Measure.defaultStages = .ok c ∧
      (workshop workshopComponents.reverse).compile Measure.defaultStages = .ok c' ∧
      c.model.Renames π c'.model := by
  obtain ⟨hiff, hmodels⟩ := compile_perm_components (workshop workshopComponents)
    workshopComponents.reverse Measure.defaultStages (by decide) (List.reverse_perm _).symm
  obtain ⟨c, hc⟩ : ∃ c, (workshop workshopComponents).compile Measure.defaultStages = .ok c :=
    ⟨_, rfl⟩
  obtain ⟨c', hc'⟩ := hiff.mp ⟨c, hc⟩
  obtain ⟨π, hrenames, -⟩ := hmodels c c' hc hc'
  exact ⟨c, c', π, hc, hc', hrenames⟩

end Document

end HvacModel
