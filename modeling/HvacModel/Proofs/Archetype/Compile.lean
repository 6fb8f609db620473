import HvacModel.Proofs.Archetype.Reading
import HvacModel.Proofs.Measure.Separate
import HvacModel.Proofs.Model.Compile
import HvacModel.Proofs.Skeleton.Errors

/-! # Compiling the configurations of archetypes

The typed document of an archetype compiles without warnings whatever its parameters are
(`SystemArchetype.compile_document`): its names and loops do not depend on them, its two measures
are in stages of their own, and its schedule has a default day.  So a configuration compiles when it
is read, and it is read exactly when its numbers are finite (`SystemArchetype.compile_config`). -/

namespace HvacModel.SystemArchetype

variable (a : SystemArchetype) (p : ArchetypeParams)

/-! ### Names -/

theorem references_document : (a.document p).references = (a.document .default).references := by
  simp only [Document.references, document, List.flatMap_cons, List.flatMap_nil,
    Document.System.references, documentSystem, Document.Schedule.references, documentSchedule,
    Document.Rule.references, documentBuilding, Document.BuildingInfo.references]

theorem leads_document : (a.document p).leads = (a.document .default).leads := by
  funext ⟨site, scope, name⟩
  simp only [Document.leads, document, List.map_cons, List.map_nil, documentSystem,
    documentSchedule, documentConstructionSet, documentSpaceType]

/-- The faults of a generated document do not depend on the parameters, so those of the default
parameters tell that there are none. -/
theorem failures_document : (a.document p).failures = [] := by
  have hdefault : (a.document p).failures = (a.document .default).failures := by
    simp only [Document.failures, Document.dangling, leads_document a p, references_document a p]
    simp only [document, List.map_cons, List.map_nil, documentSystem, documentSchedule,
      documentConstructionSet, documentSpaceType]
  rw [hdefault]
  cases a <;> decide +kernel

/-! ### Loops -/

theorem systemErrors_document (arena : Arena) (schedules : NameIndex .schedule) :
    Skeleton.systemErrors arena (Skeleton.system arena schedules 0 0 (a.documentSystem p)).value =
      Skeleton.systemErrors arena
        (Skeleton.system arena schedules 0 0 (a.documentSystem .default)).value := by
  simp only [Skeleton.system, documentSystem, Report.value_bind, Report.value_pure,
    Skeleton.systemErrors, Skeleton.eachFrom, Skeleton.airLoop, Skeleton.airViolations,
    List.flatMap_cons, List.flatMap_nil]

variable {a p} in
/-- Every loop of a generated document has its shape. -/
theorem topologyErrors_document {s : Skeleton} (h : Skeleton.Resolution (a.document p) s) :
    s.topologyErrors = [] := by
  have hsystems : s.systems =
      [(Skeleton.system s.components (Skeleton.scheduleIndex (a.document p)) 0 0
        (a.documentSystem p)).value] := h.systems.symm
  have hshape : Skeleton.systemErrors (Skeleton.addComponents .empty a.documentComponents).value
      (Skeleton.system (Skeleton.addComponents .empty a.documentComponents).value
        (NameIndex.ofNames ["hvac_operation"]).1 0 0 (a.documentSystem .default)).value = [] := by
    cases a <;> decide +kernel
  rw [Skeleton.topologyErrors, hsystems, List.flatMap_singleton, systemErrors_document,
    ← h.components]
  exact hshape

/-! ### Schedules -/

/-- The schedule of a generated document has a day on every weekday and no inert rule. -/
theorem compileAll_document :
    ∃ c, Schedule.compileAll ((a.document p).schedules.zip
      (Skeleton.eachFrom Skeleton.scheduleLinks 0 (a.document p).schedules).value) = .ok [c] ∧
      c.inertRules = [] :=
  ⟨_, rfl, rfl⟩

/-! ### The document -/

/-- A generated document compiles whatever its numbers are. -/
theorem compile_document :
    ∃ c, (a.document p).compile Measure.defaultStages = .ok c ∧ c.warnings = [] := by
  obtain ⟨s, hs⟩ := (Document.exists_skeleton_iff _).mpr (a.failures_document p)
  have hresolution := (Document.resolve_eq_ok_iff _ _).mp hs
  obtain ⟨schedule, hschedule, hinert⟩ := a.compileAll_document p
  rw [hresolution.schedules] at hschedule
  have hcategories : ((a.document p).measures.map Document.Measure.category).Nodup :=
    (by decide : [MeasureCategory.hvacControls, .hvacEquipment].Nodup)
  have hconflicts := @Measure.conflictsFrom_eq_nil_of_single s hresolution.wellFormed _ hcategories
    0 Measure.defaultStages (by decide)
  have happlied := (Skeleton.applyMeasures_eq_ok_iff s (a.document p).measures
    Measure.defaultStages _).mpr ⟨hconflicts, rfl⟩
  refine ⟨_, (Document.compile_eq_ok_iff _ _ _).mpr ⟨s, _, _,
    ⟨hs, topologyErrors_document hresolution, happlied, hschedule⟩, rfl⟩, ?_⟩
  simp only [Compiled.assemble, List.flatMap_singleton, Compiled.inertWarnings, hinert]
  rfl

/-! ### Finite numbers -/

/-- A scalar written from a double is not null, so the double is finite. -/
theorem isFinite_of_isScalar {x : Float} (h : Grammar.IsScalar (.ofFloat x)) :
    x.isFinite = true := by
  by_contra hx
  have hnull : Value.ofFloat x = .null := if_neg hx
  rw [hnull] at h
  rcases h with ⟨_, h⟩ | ⟨_, h⟩ | ⟨_, h⟩ <;> cases h

/-- The numbers of a configuration of the grammar are finite. -/
theorem isFinite_of_isDocument (h : Grammar.IsDocument (a.configValue p)) :
    ∀ x ∈ p.numbers, x.isFinite = true := by
  obtain ⟨_, ⟨⟩, -, -, -, -, -, -, ⟨_, ⟨⟩, _, ⟨⟩, hspace⟩, -,
    ⟨_, ⟨⟩, _, ⟨⟩, -, -, -, hbuilding⟩⟩ := h
  obtain ⟨_, ⟨⟩, -, -, hspace⟩ := hspace _ List.mem_cons_self
  have hattribute : ∀ {except : List String} {fields : Grammar.Fields} {key : String} {x : Float},
      Grammar.OpenAttributes except fields → key ∉ except → (key, Value.ofFloat x) ∈ fields →
        x.isFinite = true :=
    fun h hkey hmem => isFinite_of_isScalar ((h _ hmem).resolve_left hkey)
  simp only [ArchetypeParams.numbers, List.forall_mem_cons]
  refine ⟨?_, ?_, ?_, ?_, ?_, ?_, ?_, by simp⟩
  · exact @hattribute _ _ "cooling_setpoint" _ hspace (by decide) (by simp)
  · exact @hattribute _ _ "heating_setpoint" _ hspace (by decide) (by simp)
  · exact @hattribute _ _ "floor_height" _ hbuilding (by decide) (by simp)
  · exact @hattribute _ _ "ext_lighting_intensity" _ hbuilding (by decide) (by simp)
  · exact @hattribute _ _ "length1" _ hbuilding (by decide) (by simp)
  · exact @hattribute _ _ "width1" _ hbuilding (by decide) (by simp)
  · exact @hattribute _ _ "core_offset" _ hbuilding (by decide) (by simp)

/-! ### Configurations -/

/-- A configuration whose numbers are finite compiles without warnings; any other one is refused by
the reader. -/
theorem compile_config (v : Value) (h : a.config p = .ok v) :
    ((∀ x ∈ p.numbers, x.isFinite = true) →
      ∃ c, v.compile Measure.defaultStages = .ok c ∧ c.warnings = []) ∧
    ((∃ x ∈ p.numbers, x.isFinite = false) →
      ∃ issues, v.compile Measure.defaultStages = .error (.parse issues)) := by
  obtain ⟨hcheck, rfl⟩ := (a.config_eq_ok_iff p v).mp h
  constructor
  · intro hfinite
    obtain ⟨c, hc, hwarnings⟩ := a.compile_document p
    have hread := a.read_configValue p hcheck hfinite
    exact ⟨c, (Value.compile_eq_ok_iff _ _ c).mpr ⟨_, hread, hc⟩, hwarnings⟩
  · rintro ⟨x, hx, hinfinite⟩
    cases hread : Document.read (a.configValue p) with
    | error issues => exact ⟨issues, by rw [Value.compile, hread]⟩
    | ok d =>
        obtain ⟨-, -, hdocument, -⟩ := Document.isReadFrom_of_read hread
        rw [a.isFinite_of_isDocument p hdocument x hx] at hinfinite
        cases hinfinite

/-- A building of ten floors whose area is the least positive double. -/
def speck : ArchetypeParams := { ArchetypeParams.default with buildingArea := 5e-324 }

/-- The default building compiles; the floors of the smallest one have no length. -/
theorem compile_config_speck :
    (∃ v c, packagedTerminal.config .default = .ok v ∧
      v.compile Measure.defaultStages = .ok c ∧ c.warnings = []) ∧
    ∃ v issues, packagedTerminal.config speck = .ok v ∧
      v.compile Measure.defaultStages = .error (.parse issues) := by
  have hdefault : packagedTerminal.config .default = .ok (packagedTerminal.configValue .default) :=
    (config_eq_ok_iff _ _ _).mpr
      ⟨(ArchetypeParams.check_eq_ok_iff _).mpr (by decide +kernel), rfl⟩
  have hspeck : packagedTerminal.config speck = .ok (packagedTerminal.configValue speck) :=
    (config_eq_ok_iff _ _ _).mpr
      ⟨(ArchetypeParams.check_eq_ok_iff _).mpr (by decide +kernel), rfl⟩
  obtain ⟨c, hc⟩ := (compile_config packagedTerminal .default _ hdefault).1 (by decide +kernel)
  obtain ⟨issues, hissues⟩ := (compile_config packagedTerminal speck _ hspeck).2 (by decide +kernel)
  exact ⟨⟨_, c, hdefault, hc⟩, _, issues, hspeck, hissues⟩

end HvacModel.SystemArchetype
