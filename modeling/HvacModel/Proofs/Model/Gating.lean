import HvacModel.Proofs.Measure.Conflicts
import HvacModel.Proofs.Model.Handles
import HvacModel.Proofs.Reading.Issues
import HvacModel.Proofs.Schedule.Coverage
import HvacModel.Proofs.Skeleton.Errors

/-! # The gates of a compilation

Every stage of a compilation fails with a list that is read off its input: a document with its
faults, a skeleton with the violations of its loops, measures with their conflicts, schedules with
the weekdays that they leave uncovered.  A stage stops the ones after it, and the last two stages
fail together (`Document.Gated`).

A failure becomes one diagnostic for each `Finding`, in order, and there is always one; a success
warns of what had no effect, the measures of no stage before the rules without a weekday
(`Document.gated_of_compile`). -/

namespace HvacModel

open Document.Read

/-! ### Loops -/

namespace Skeleton

/-- A loop of either kind. -/
inductive Loop where
  | air (loop : AirLoop)
  | plant (loop : PlantLoop)

namespace Loop

def name : Loop → String
  | air l => l.name
  | plant l => l.name

/-- What is wrong with a loop. -/
def violations (arena : Arena) : Loop → List Violation
  | air l => airViolations arena l
  | plant l => plantViolations arena l

end Loop

/-- All loops in the order of the document. -/
def loops (s : Skeleton) : List Loop :=
  s.systems.flatMap fun r => r.airLoops.map .air ++ r.plantLoops.map .plant

/-- The errors of a skeleton are the violations of its loops, loop by loop. -/
theorem topologyErrors_eq (s : Skeleton) : s.topologyErrors =
    s.loops.flatMap fun l => (l.violations s.components).map fun v => ⟨l.name, v⟩ := by
  unfold topologyErrors loops
  rw [List.flatMap_assoc]
  simp only [List.flatMap_append, List.flatMap_map]
  rfl

theorem topologyErrors_eq_nil_iff (s : Skeleton) :
    s.topologyErrors = [] ↔ ∀ l ∈ s.loops, l.violations s.components = [] := by
  simp only [topologyErrors_eq, List.flatMap_eq_nil_iff, List.map_eq_nil_iff]

end Skeleton

/-! ### Stages -/

namespace Document

/-- The weekdays on which no day holds, schedule by schedule. -/
def unresolved (d : Document) : List UnresolvedWeekday := d.schedules.flatMap Schedule.uncovered

theorem failsWith_read (v : Value) : FailsWith (Document.read v) (issues v) := by
  have hreport := FailsWith.of_report (r := Read.document v) fun hclean =>
    value_document_isSome ((clean_document v).mp hclean)
  rw [issues_eq]
  unfold Document.read
  cases hv : (Read.document v).value with
  | none => simpa only [hv] using hreport
  | some d => simpa only [hv] using hreport

theorem failsWith_resolve (d : Document) : FailsWith d.resolve d.failures := by
  have hreport := FailsWith.of_report (r := Skeleton.ofDocument d) fun hclean =>
    Option.isSome_iff_exists.mpr (Skeleton.exists_value_of_clean d hclean)
  rw [← Skeleton.findings_ofDocument]
  unfold Document.resolve
  cases hv : (Skeleton.ofDocument d).value with
  | none => simpa only [hv] using hreport
  | some s => simpa only [hv] using hreport

theorem failsWith_compileAll {d : Document} {s : Skeleton} (h : d.resolve = .ok s) :
    FailsWith (HvacModel.Schedule.compileAll (d.schedules.zip s.schedules)) d.unresolved := by
  have hlinked := ((resolve_eq_ok_iff d s).mp h).forall₂_schedules
  have hlength : ∀ p ∈ d.schedules.zip s.schedules, p.2.ruleDays.length = p.1.rules.length :=
    fun p hp => ((List.forall₂_iff_zip.mp hlinked).2 hp).2.length_eq.symm
  have hall := HvacModel.Schedule.failsWith_compileAll hlength
  have hzip : (d.schedules.zip s.schedules).map Prod.fst = d.schedules :=
    List.map_fst_zip hlinked.length_eq.le
  rwa [← List.flatMap_map Prod.fst Schedule.uncovered, hzip] at hall

/-- What a compilation comes to: the stages are tried in turn, and the last two together. -/
inductive Outcome (d : Document) (stages : List (List MeasureCategory)) :
    Except CompileError Compiled → Prop where
  | unresolved : d.failures ≠ [] → Outcome d stages (.error (.resolve d.failures))
  | misshapen {s : Skeleton} : d.resolve = .ok s → s.topologyErrors ≠ [] →
      Outcome d stages (.error (.topology s.topologyErrors))
  | refused {s : Skeleton} : d.resolve = .ok s → s.topologyErrors = [] →
      ¬(s.conflicts d.measures stages = [] ∧ d.unresolved = []) →
      Outcome d stages (.error (.rules (s.conflicts d.measures stages) d.unresolved))
  | compiled {s : Skeleton} {applied : Measure.Applied} {schedules : List CompiledSchedule} :
      d.Stages stages s applied schedules → Outcome d stages (.ok (.assemble d applied schedules))

theorem outcome (d : Document) (stages : List (List MeasureCategory)) :
    d.Outcome stages (d.compile stages) := by
  unfold compile
  cases hr : d.resolve with
  | error errors =>
      obtain ⟨rfl, hne⟩ := (d.failsWith_resolve.eq_error_iff errors).mp hr
      exact .unresolved hne
  | ok s =>
      cases ht : s.topologyErrors with
      | cons error errors =>
          have hmisshapen : d.Outcome stages (.error (.topology s.topologyErrors)) :=
            .misshapen hr (by simp [ht])
          simpa only [ht] using hmisshapen
      | nil =>
          have hmeasures := s.failsWith_applyMeasures d.measures stages
          have hschedules := failsWith_compileAll hr
          have hrefused : ¬(s.conflicts d.measures stages = [] ∧ d.unresolved = []) →
              d.Outcome stages (.error (.rules (s.conflicts d.measures stages) d.unresolved)) :=
            .refused hr ht
          simp only [ht]
          generalize ha : s.applyMeasures d.measures stages = measured,
            s.conflicts d.measures stages = conflicts at hmeasures hrefused ⊢
          generalize hs : HvacModel.Schedule.compileAll (d.schedules.zip s.schedules) = compiled,
            d.unresolved = weekdays at hschedules hrefused ⊢
          cases hmeasures with
          | ok applied =>
              cases hschedules with
              | ok schedules => exact .compiled ⟨hr, ht, ha, hs⟩
              | error hne => exact hrefused fun h => hne h.2
          | error hne =>
              cases hschedules with
              | ok schedules => exact hrefused fun h => hne h.1
              | error _ => exact hrefused fun h => hne h.1

/-- How a document passes the gates of a compilation.  The two lists of the last gate are those of
its stages, whichever of them fails. -/
structure Gated (d : Document) (stages : List (List MeasureCategory)) : Prop where
  parse : ∀ issues, d.compile stages ≠ .error (.parse issues)
  resolve : ∀ errors, d.compile stages = .error (.resolve errors) ↔ d.resolve = .error errors
  topology : ∀ errors, d.compile stages = .error (.topology errors) ↔
    ∃ s, d.resolve = .ok s ∧ (∃ l ∈ s.loops, l.violations s.components ≠ []) ∧
      errors = s.loops.flatMap fun l => (l.violations s.components).map fun v => ⟨l.name, v⟩
  rules : ∀ conflicts weekdays, d.compile stages = .error (.rules conflicts weekdays) ↔
    ∃ s, d.resolve = .ok s ∧ (∀ l ∈ s.loops, l.violations s.components = []) ∧
      ((∃ found, s.applyMeasures d.measures stages = .error found) ∨
        ∃ found, HvacModel.Schedule.compileAll (d.schedules.zip s.schedules) = .error found) ∧
      conflicts = s.conflicts d.measures stages ∧ weekdays = d.unresolved
  measures : ∀ s, d.resolve = .ok s →
    FailsWith (s.applyMeasures d.measures stages) (s.conflicts d.measures stages)
  schedules : ∀ s, d.resolve = .ok s →
    FailsWith (HvacModel.Schedule.compileAll (d.schedules.zip s.schedules)) d.unresolved
  ok : (∃ c, d.compile stages = .ok c) ↔
    ∃ s, d.resolve = .ok s ∧ (∀ l ∈ s.loops, l.violations s.components = []) ∧
      (∃ applied, s.applyMeasures d.measures stages = .ok applied) ∧
        ∃ schedules, HvacModel.Schedule.compileAll (d.schedules.zip s.schedules) = .ok schedules

section Gates

variable {d : Document} {stages : List (List MeasureCategory)} {s : Skeleton}

/-- The last gate fails when one of its stages does. -/
theorem refuses_iff (h : d.resolve = .ok s) :
    ((∃ found, s.applyMeasures d.measures stages = .error found) ∨
        ∃ found, HvacModel.Schedule.compileAll (d.schedules.zip s.schedules) = .error found) ↔
      ¬(s.conflicts d.measures stages = [] ∧ d.unresolved = []) := by
  simp only [(s.failsWith_applyMeasures d.measures stages).eq_error_iff,
    (failsWith_compileAll h).eq_error_iff, exists_eq_left, not_and_or]

theorem passes_iff (h : d.resolve = .ok s) :
    ((∃ applied, s.applyMeasures d.measures stages = .ok applied) ∧
        ∃ schedules, HvacModel.Schedule.compileAll (d.schedules.zip s.schedules) = .ok schedules) ↔
      s.conflicts d.measures stages = [] ∧ d.unresolved = [] := by
  rw [(s.failsWith_applyMeasures d.measures stages).exists_ok_iff,
    (failsWith_compileAll h).exists_ok_iff]

/-- Behind the first two gates only the last one is left. -/
theorem Outcome.of_shaped {result : Except CompileError Compiled} (h : d.Outcome stages result)
    (hr : d.resolve = .ok s) (ht : s.topologyErrors = []) :
    (¬(s.conflicts d.measures stages = [] ∧ d.unresolved = []) ∧
        result = .error (.rules (s.conflicts d.measures stages) d.unresolved)) ∨
      ((s.conflicts d.measures stages = [] ∧ d.unresolved = []) ∧ ∃ c, result = .ok c) := by
  cases h with
  | unresolved hne => exact absurd (d.failsWith_resolve.exists_ok_iff.mp ⟨s, hr⟩) hne
  | misshapen hr' hne =>
      rw [hr, Except.ok.injEq] at hr'
      exact absurd (hr' ▸ ht) hne
  | refused hr' _ hne =>
      rw [hr, Except.ok.injEq] at hr'
      subst hr'
      exact .inl ⟨hne, rfl⟩
  | compiled hstages =>
      have hr' := hstages.resolved
      rw [hr, Except.ok.injEq] at hr'
      subst hr'
      exact .inr ⟨(passes_iff hr).mp ⟨⟨_, hstages.applied⟩, _, hstages.schedules⟩, _, rfl⟩

end Gates

theorem gated (d : Document) (stages : List (List MeasureCategory)) : d.Gated stages where
  parse issues h := by
    have hout := d.outcome stages
    rw [h] at hout
    cases hout
  resolve errors := by
    constructor
    · intro h
      have hout := d.outcome stages
      rw [h] at hout
      cases hout with
      | unresolved hne => exact (d.failsWith_resolve.eq_error_iff _).mpr ⟨rfl, hne⟩
    · intro h
      simp only [compile, h]
  topology errors := by
    constructor
    · intro h
      have hout := d.outcome stages
      rw [h] at hout
      cases hout with
      | @misshapen s hr hne =>
          refine ⟨s, hr, ?_, s.topologyErrors_eq⟩
          simpa only [ne_eq, s.topologyErrors_eq_nil_iff, not_forall, exists_prop] using hne
    · rintro ⟨s, hr, ⟨l, hl, hv⟩, rfl⟩
      rw [← s.topologyErrors_eq]
      cases ht : s.topologyErrors with
      | nil => exact absurd (s.topologyErrors_eq_nil_iff.mp ht l hl) hv
      | cons error errors => simp only [compile, hr, ht]
  rules conflicts weekdays := by
    constructor
    · intro h
      have hout := d.outcome stages
      rw [h] at hout
      cases hout with
      | @refused s hr ht hne =>
          exact ⟨s, hr, s.topologyErrors_eq_nil_iff.mp ht, (refuses_iff hr).mpr hne, rfl, rfl⟩
    · rintro ⟨s, hr, ht, hfail, rfl, rfl⟩
      rw [refuses_iff hr] at hfail
      rcases (d.outcome stages).of_shaped hr (s.topologyErrors_eq_nil_iff.mpr ht) with h | h
      · exact h.2
      · exact absurd h.1 hfail
  measures s _ := s.failsWith_applyMeasures d.measures stages
  schedules _ h := failsWith_compileAll h
  ok := by
    constructor
    · rintro ⟨c, h⟩
      obtain ⟨s, applied, schedules, hstages, -⟩ := (d.compile_eq_ok_iff stages c).mp h
      exact ⟨s, hstages.resolved, s.topologyErrors_eq_nil_iff.mp hstages.topology,
        ⟨applied, hstages.applied⟩, schedules, hstages.schedules⟩
    · rintro ⟨s, hr, ht, hpass⟩
      rw [passes_iff hr] at hpass
      rcases (d.outcome stages).of_shaped hr (s.topologyErrors_eq_nil_iff.mpr ht) with h | h
      · exact absurd hpass h.1
      · exact h.2

end Document

/-! ### Diagnostics -/

/-- One thing that an error is about. -/
inductive Finding where
  | issue (issue : Document.Issue)
  | name (error : ResolveError)
  | loop (error : TopologyError)
  | conflict (conflict : Measure.Conflict)
  | weekday (weekday : UnresolvedWeekday)

namespace Finding

def kind : Finding → DiagnosticKind
  | issue _ => .parse
  | name (.duplicate _) => .duplicateName
  | name (.dangling _ _) => .danglingReference
  | loop _ => .topology
  | conflict _ => .measureConflict
  | weekday _ => .unresolvedSchedule

def message : Finding → String
  | issue i => i.message
  | name e => e.message
  | loop e => e.message
  | conflict c => c.message
  | weekday u => u.message

/-- A diagnostic that reports a finding as an error. -/
structure IsReportedBy (f : Finding) (diagnostic : Diagnostic) : Prop where
  severity : diagnostic.severity = .error
  kind : diagnostic.kind = f.kind
  message : diagnostic.message = f.message

end Finding

namespace CompileError

/-- All that an error is about, in its order. -/
def findings : CompileError → List Finding
  | parse issues => issues.map .issue
  | resolve errors => errors.map .name
  | topology errors => errors.map .loop
  | rules conflicts unresolved => conflicts.map .conflict ++ unresolved.map .weekday

/-- Lists made of one list by two functions are related when the functions are. -/
theorem forall₂_reported {α : Type} {finding : α → Finding} {diagnostic : α → Diagnostic}
    (h : ∀ a, (finding a).IsReportedBy (diagnostic a)) (list : List α) :
    List.Forall₂ Finding.IsReportedBy (list.map finding) (list.map diagnostic) := by
  rw [List.forall₂_map_left_iff, List.forall₂_map_right_iff, List.forall₂_same]
  exact fun a _ => h a

/-- The diagnostics of an error report its findings one by one. -/
theorem forall₂_diagnostics (e : CompileError) :
    List.Forall₂ Finding.IsReportedBy e.findings e.diagnostics := by
  cases e with
  | parse issues => exact forall₂_reported (fun _ => ⟨rfl, rfl, rfl⟩) issues
  | resolve errors =>
      refine forall₂_reported (fun e => ?_) errors
      cases e <;> exact ⟨rfl, rfl, rfl⟩
  | topology errors => exact forall₂_reported (fun _ => ⟨rfl, rfl, rfl⟩) errors
  | rules conflicts unresolved =>
      exact List.rel_append (forall₂_reported (fun _ => ⟨rfl, rfl, rfl⟩) conflicts)
        (forall₂_reported (fun _ => ⟨rfl, rfl, rfl⟩) unresolved)

theorem diagnostics_eq_nil_iff (e : CompileError) : e.diagnostics = [] ↔ e.findings = [] := by
  rw [← List.length_eq_zero_iff, ← e.forall₂_diagnostics.length_eq, List.length_eq_zero_iff]

end CompileError

/-- A compilation never fails without a finding. -/
theorem Document.findings_ne_nil {d : Document} {stages : List (List MeasureCategory)}
    {e : CompileError} (h : d.compile stages = .error e) : e.findings ≠ [] := by
  have hout := d.outcome stages
  rw [h] at hout
  cases hout with
  | unresolved hne => simpa [CompileError.findings] using hne
  | misshapen _ hne => simpa [CompileError.findings] using hne
  | refused _ _ hne => simpa [CompileError.findings] using hne

theorem Value.findings_ne_nil {v : Value} {stages : List (List MeasureCategory)}
    {e : CompileError} (h : v.compile stages = .error e) : e.findings ≠ [] := by
  unfold Value.compile at h
  cases hread : Document.read v with
  | ok d =>
      rw [hread] at h
      exact Document.findings_ne_nil h
  | error issues =>
      rw [hread] at h
      cases h
      have hne := ((Document.failsWith_read v).eq_error_iff issues).mp hread
      simpa [CompileError.findings, hne.1] using hne.2

/-! ### Warnings -/

/-- The warnings of a compilation: the measure categories that no stage applies, then the rules
that get no weekday, schedule by schedule. -/
structure Compiled.Warns (d : Document) (stages : List (List MeasureCategory)) (c : Compiled) :
    Prop where
  severity : ∀ w ∈ c.warnings, w.severity = .warning
  warnings : ∃ categories : List MeasureCategory,
    (∀ category, category ∈ categories ↔
      (∃ m ∈ d.measures, m.category = category) ∧ ∀ stage ∈ stages, category ∉ stage) ∧
    c.warnings = categories.map .unstagedMeasure ++
      d.schedules.flatMap fun s => s.inert.map (.inertRule s.key)

namespace Measure

theorem mem_eraseRepeats {α : Type} [DecidableEq α] (list : List α) (a : α) :
    a ∈ eraseRepeats list ↔ a ∈ list := by
  induction list using eraseRepeats.induct with
  | case1 b rest ih =>
      rw [eraseRepeats, if_pos rfl, ih]
      simp
  | case2 b c rest hne ih =>
      rw [eraseRepeats, if_neg hne, List.mem_cons, ih, ← List.mem_cons]
  | case3 short hshort =>
      rw [eraseRepeats]
      exact hshort

theorem mem_unstaged (measures : List Document.Measure) (stages : List (List MeasureCategory))
    (category : MeasureCategory) : category ∈ unstaged measures stages ↔
      (∃ m ∈ measures, m.category = category) ∧ ∀ stage ∈ stages, category ∉ stage := by
  rw [unstaged, mem_eraseRepeats, List.mem_filter, List.mem_map]
  simp

end Measure

/-- The rules that the compiled schedules know as inert are those of the document. -/
theorem Document.Stages.flatMap_inertWarnings {d : Document}
    {stages : List (List MeasureCategory)} {skeleton : Skeleton} {applied : Measure.Applied}
    {schedules : List CompiledSchedule} (h : d.Stages stages skeleton applied schedules) :
    schedules.flatMap Compiled.inertWarnings =
      d.schedules.flatMap fun s => s.inert.map (.inertRule s.key) := by
  have hmap : d.schedules.map (fun s => s.inert.map (Diagnostic.inertRule s.key)) =
      schedules.map Compiled.inertWarnings := by
    refine h.forall₂_schedules.map_eq ?_
    rintro s c ⟨links, hlinked, hc⟩
    have hkey : c.key = s.key := by
      obtain ⟨week, -, rfl⟩ := (Schedule.compile_eq_ok_iff links.id s links.ruleDays c).mp hc
      rfl
    rw [Compiled.inertWarnings, hkey,
      Schedule.inertRules_of_compile hc hlinked.2.length_eq.symm]
  rw [List.flatMap_def, ← hmap, ← List.flatMap_def]

theorem Document.warns {d : Document} {stages : List (List MeasureCategory)} {c : Compiled}
    (h : d.compile stages = .ok c) : c.Warns d stages := by
  obtain ⟨skeleton, applied, schedules, hstages, rfl⟩ := (d.compile_eq_ok_iff stages c).mp h
  have hunstaged : applied.unstaged = Measure.unstaged d.measures stages := by
    obtain ⟨-, rfl⟩ :=
      (skeleton.applyMeasures_eq_ok_iff d.measures stages applied).mp hstages.applied
    rfl
  have heq : (Compiled.assemble d applied schedules).warnings =
      (Measure.unstaged d.measures stages).map .unstagedMeasure ++
        d.schedules.flatMap fun s => s.inert.map (.inertRule s.key) := by
    rw [← hunstaged, ← hstages.flatMap_inertWarnings]
    rfl
  refine ⟨?_, Measure.unstaged d.measures stages, Measure.mem_unstaged d.measures stages, heq⟩
  rw [heq]
  intro w hw
  rcases List.mem_append.mp hw with hw | hw
  · obtain ⟨category, -, rfl⟩ := List.mem_map.mp hw
    rfl
  · obtain ⟨s, -, hw⟩ := List.mem_flatMap.mp hw
    obtain ⟨rule, -, rfl⟩ := List.mem_map.mp hw
    rfl

/-! ### The pipeline -/

/-- What a compilation reports.  Its stages gate each other (`Document.Gated`), a raw value that is
not read fails with all its issues before them, every failure has one diagnostic for each finding
and at least one, and a success has its warnings in order. -/
theorem Document.gated_of_compile (stages : List (List MeasureCategory)) :
    (∀ d : Document, d.Gated stages) ∧
    (∀ v : Value, (∀ issues, v.compile stages = .error (.parse issues) ↔
        Document.read v = .error issues) ∧
      ∀ d, Document.read v = .ok d → v.compile stages = d.compile stages) ∧
    (∀ e, ((∃ d : Document, d.compile stages = .error e) ∨
        ∃ v : Value, v.compile stages = .error e) →
      e.diagnostics ≠ [] ∧ List.Forall₂ Finding.IsReportedBy e.findings e.diagnostics) ∧
    ∀ (d : Document) (c : Compiled), d.compile stages = .ok c → c.Warns d stages := by
  refine ⟨fun d => d.gated stages, fun v => ⟨fun issues => ?_, fun d h => ?_⟩, ?_,
    fun d c h => d.warns h⟩
  · unfold Value.compile
    cases Document.read v with
    | ok d => simpa using (d.gated stages).parse issues
    | error found => simp
  · simp only [Value.compile, h]
  · rintro e h
    rw [ne_eq, e.diagnostics_eq_nil_iff]
    refine ⟨?_, e.forall₂_diagnostics⟩
    rcases h with ⟨d, h⟩ | ⟨v, h⟩
    · exact Document.findings_ne_nil h
    · exact Value.findings_ne_nil h

end HvacModel
