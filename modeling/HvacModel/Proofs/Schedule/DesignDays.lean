import HvacModel.Proofs.Model.Compile
import HvacModel.Proofs.Schedule.Days
import HvacModel.Proofs.Schedule.Places
import HvacModel.Proofs.Skeleton.Errors
import HvacModel.Proofs.Transcript.Document

/-! # Design days in the week

Nothing puts a design day into the week of a schedule but a rule that asks for it: the design days
stand among the other days under names of their own, and a rule may name any day of its schedule.
So a weekday gets the design day of a season exactly when the schedule has one and the first rule
that applies on the weekday names it (`Value.designDay_of_compile`).

A position among the days is the position of a place where a day is written, and places differ
where their days may be mixed up: the default day and the days written inside rules never stand at
the position of a design day, and a name leads there only if it is the name of its field
(`rulePosition?_eq_designDay`). -/

namespace HvacModel

open Declared Transcript

/-- The seasons that have a design day. -/
inductive Season where
  | summer | winter
deriving DecidableEq, Repr

/-- The field of a raw schedule that holds the design day, which is also its name. -/
def Season.field : Season → String
  | summer => "summer_design_day"
  | winter => "winter_design_day"

/-- The position of the design day of a season. -/
def Document.Schedule.designDay? (s : Document.Schedule) : Season → Option Nat
  | .summer => s.summerDesignDay
  | .winter => s.winterDesignDay

@[inherit_doc Document.Schedule.designDay?]
def CompiledSchedule.designDay? (s : CompiledSchedule) : Season → Option Nat
  | .summer => s.summerDesignDay
  | .winter => s.winterDesignDay

/-- A raw schedule has the design day of a season, and the first of its rules that applies on a
weekday names it. -/
def Declared.DesignDayOn (schedule : Value) (season : Season) (d : Weekday) : Prop :=
  (schedule.at? [.key season.field]).isSome ∧
    ∃ rule, (table schedule "schedule_rules").find? (fun rule => applies d rule.2) = some rule ∧
      rule.2.at? [.key "day_schedule"] = some (.string season.field)

/-! ### Positions of days -/

section Positions

variable {under : String} {fields : Grammar.Fields} {s : Document.Schedule} {season : Season}
  {i : Nat}

theorem designDay?_eq (h : ScheduleFields under fields s) (season : Season) :
    s.designDay? season =
      (dayEntries fields).findIdx? fun e => e.place = .builtin season.field := by
  cases season with
  | summer => exact h.summerDesignDay
  | winter => exact h.winterDesignDay

theorem isSome_designDay? (h : ScheduleFields under fields s) (season : Season) :
    (s.designDay? season).isSome = (Value.field? fields season.field).isSome := by
  obtain ⟨-, hsummer, hwinter⟩ := findIdx?_dayEntries fields
  rw [designDay?_eq h]
  cases season with
  | summer =>
      rw [Season.field, hsummer, Option.isSome_map, builtinDay?, Option.isSome_map]
  | winter =>
      rw [Season.field, hwinter, Option.isSome_map, builtinDay?, Option.isSome_map]

/-- What stands at a position of the days is written at the place of that position. -/
theorem exists_entry_of_designDay? (h : ScheduleFields under fields s)
    (hi : s.designDay? season = some i) :
    ∃ e, (dayEntries fields)[i]? = some e ∧ e.place = .builtin season.field := by
  rw [designDay?_eq h] at hi
  obtain ⟨hlt, hplace, -⟩ := List.findIdx?_eq_some_iff_getElem.mp hi
  exact ⟨_, List.getElem?_eq_getElem hlt, by simpa using hplace⟩

/-- No rule holds the day that stands at the position of a design day. -/
theorem ne_inline_of_designDay? (h : ScheduleFields under fields s)
    (hi : s.designDay? season = some i) {r : Document.Rule} (hr : r ∈ s.rules) :
    r.day ≠ .inline i := by
  intro hday
  obtain ⟨e, hentry, hplace⟩ := exists_entry_of_designDay? h hi
  obtain ⟨e', position, hentry', hplace'⟩ := exists_entry_of_inline h hr hday
  rw [hentry, Option.some.injEq] at hentry'
  rw [← hentry', hplace] at hplace'
  cases hplace'

/-- The design day of a season goes by the name of its field. -/
theorem dayByKey?_designDay (h : ScheduleFields under fields s)
    (hi : s.designDay? season = some i) : s.dayByKey? season.field = some i := by
  have hfound : (s.days.findIdx? fun p => p.key = season.field) = some i := by
    rw [findIdx?_days h]
    exact findIdx?_key_of_place ((designDay?_eq h season).symm.trans hi)
  have hinline : s.isInline i = false := by
    rw [Document.Schedule.isInline, List.any_eq_false]
    intro r hr
    simpa using ne_inline_of_designDay? h hi hr
  rw [Document.Schedule.dayByKey?, hfound]
  simp [hinline]

/-- A rule selects a design day only by its name. -/
theorem rulePosition?_eq_designDay (h : ScheduleFields under fields s)
    (hi : s.designDay? season = some i) {r : Document.Rule} (hr : r ∈ s.rules) :
    s.rulePosition? r = some i ↔ r.day = .named season.field := by
  constructor
  · intro hposition
    unfold Document.Schedule.rulePosition? at hposition
    cases hday : r.day with
    | inline index =>
        rw [hday, Option.some.injEq] at hposition
        exact absurd (hposition ▸ hday) (ne_inline_of_designDay? h hi hr)
    | named key =>
        rw [hday] at hposition
        obtain ⟨p, hp, hkey⟩ := Document.Schedule.exists_of_dayByKey? hposition
        obtain ⟨q, hq, hfield⟩ :=
          Document.Schedule.exists_of_dayByKey? (dayByKey?_designDay h hi)
        have hpq : p = q := Option.some.inj (hp.symm.trans hq)
        rw [← hkey, hpq, hfield]
  · intro hday
    rw [Document.Schedule.rulePosition?, hday]
    exact dayByKey?_designDay h hi

/-- The day that a weekday falls back to is no design day. -/
theorem ne_defaultDay_of_designDay? (h : ScheduleFields under fields s)
    (hi : s.designDay? season = some i) : s.defaultDay ≠ some i := by
  intro hdefault
  obtain ⟨e, hentry, hplace⟩ := exists_entry_of_designDay? h hi
  rw [h.defaultDay] at hdefault
  obtain ⟨hlt, hfirst, -⟩ := List.findIdx?_eq_some_iff_getElem.mp hdefault
  have he : (dayEntries fields)[i] = e := by
    rw [List.getElem?_eq_getElem hlt, Option.some.injEq] at hentry
    exact hentry
  have hfield : season.field = "default_day" := by simpa [he, hplace] using hfirst
  cases season with
  | summer => exact absurd hfield (by decide)
  | winter => exact absurd hfield (by decide)

/-- A weekday gets a design day only from a rule that names it. -/
theorem heldDay?_eq_designDay (h : ScheduleFields under fields s)
    (hi : s.designDay? season = some i) (d : Weekday) :
    s.heldDay? d = some i ↔
      ∃ r, (s.rules.find? fun r => r.appliesTo.contains d) = some r ∧
        r.day = .named season.field := by
  unfold Document.Schedule.heldDay?
  cases hr : s.rules.find? fun r => r.appliesTo.contains d with
  | none => simpa using ne_defaultDay_of_designDay? h hi
  | some r =>
      have hposition := rulePosition?_eq_designDay h hi (List.mem_of_find?_eq_some hr)
      simpa using hposition

/-! ### Raw rules -/

/-- The rules of a schedule apply on the weekdays of the raw ones, and name the same days. -/
theorem forall₂_rules (h : ScheduleFields under fields s) :
    List.Forall₂ (fun (e : String × Value) (r : Document.Rule) =>
      (∀ d, applies d e.2 = r.appliesTo.contains d) ∧
        ∀ key, e.2.at? [.key "day_schedule"] = some (.string key) ↔ r.day = .named key)
      (table (.object fields) "schedule_rules") s.rules := by
  have hplaced := (List.forall₂_and_left
    (p := fun e => e ∈ (table (.object fields) "schedule_rules").zipIdx) _ _).mpr
      ⟨fun _ he => he, h.rules⟩
  rw [← List.zipIdx_map_fst 0 (table (.object fields) "schedule_rules"),
    List.forall₂_map_left_iff]
  refine hplaced.imp ?_
  rintro ⟨⟨name, value⟩, position⟩ r ⟨hmem, body, rfl, hrule⟩
  refine ⟨fun d => (hrule.appliesTo d).symm, fun key => ?_⟩
  have hday := hrule.day
  dsimp only
  rw [Document.Read.at?_key]
  cases hr : r.day with
  | named other =>
      rw [hr] at hday
      have hday : Value.field? body "day_schedule" = some (.string other) := hday
      rw [hday]
      simp [eq_comm]
  | inline index =>
      rw [hr, RuleDayOf, Option.map_eq_some_iff] at hday
      obtain ⟨e, he, hplace⟩ := hday
      obtain ⟨rule, written, hrule', hobject⟩ :=
        exists_of_place_rule (List.mem_of_getElem? he) hplace
      have hsame : rule = (name, .object body) := by
        rw [List.mk_mem_zipIdx_iff_getElem?] at hmem
        exact Option.some.inj (hrule'.symm.trans hmem)
      rw [hsame, Document.Read.at?_key] at hobject
      rw [hobject]
      simp

theorem designDayOn_iff (h : ScheduleFields under fields s) (season : Season) (d : Weekday) :
    DesignDayOn (.object fields) season d ↔ (s.designDay? season).isSome ∧
      ∃ r, (s.rules.find? fun r => r.appliesTo.contains d) = some r ∧
        r.day = .named season.field := by
  unfold DesignDayOn
  rw [Document.Read.at?_key, isSome_designDay? h]
  refine and_congr_right fun _ => ?_
  rcases (forall₂_rules h).find? (p := fun e => applies d e.2)
    (q := fun r => r.appliesTo.contains d) fun e r her => her.1 d with
    ⟨e, r, he, hr, -, hnamed⟩ | ⟨he, hr⟩
  · rw [he, hr]
    simpa using hnamed season.field
  · rw [he, hr]
    simp

end Positions

/-! ### Compiled schedules -/

theorem CompiledSchedule.designDay?_eq_week {under : String} {fields : Grammar.Fields}
    {s : Document.Schedule} {links : Skeleton.ScheduleLinks} {c : CompiledSchedule}
    (h : ScheduleFields under fields s) (hl : Skeleton.IsLinked s links)
    (hc : Schedule.compile links.id s links.ruleDays = .ok c) (season : Season) (d : Weekday) :
    c.designDay? season = some (c.week.get d) ↔ DesignDayOn (.object fields) season d := by
  obtain ⟨week, hweek, rfl⟩ := (Schedule.compile_eq_ok_iff links.id s links.ruleDays c).mp hc
  have hheld : s.heldDay? d = some (week.get d) := by rw [← holdingDay?_eq hl, hweek]
  have hdesign : (Schedule.compiled links.id s links.ruleDays week).designDay? season =
      s.designDay? season := by cases season <;> rfl
  have hget : (Schedule.compiled links.id s links.ruleDays week).week.get d = week.get d := rfl
  rw [hdesign, hget, designDayOn_iff h]
  cases hi : s.designDay? season with
  | none => simp
  | some i =>
      rw [← heldDay?_eq_designDay h hi d, hheld]
      simp [eq_comm]

/-- Where the weekdays of a model have a design day: a schedule of the model is made of the raw
schedule under its key, and a weekday has the design day of a season exactly when the raw schedule
has that day and the first rule that applies on the weekday names it. -/
theorem Value.designDay_of_compile (v : Value) (stages : List (List MeasureCategory))
    (c : Compiled) (h : v.compile stages = .ok c) (s : CompiledSchedule)
    (hs : s ∈ c.model.schedules) :
    ∃ schedule, v.at? [.key "schedules", .key s.key] = some schedule ∧
      ∀ season d, s.designDay? season = some (s.week.get d) ↔ DesignDayOn schedule season d := by
  obtain ⟨doc, hread, hc⟩ := (Value.compile_eq_ok_iff v stages c).mp h
  obtain ⟨skeleton, applied, schedules, hstages, rfl⟩ :=
    (Document.compile_eq_ok_iff doc stages c).mp hc
  obtain ⟨root, rfl, -⟩ := Document.isReadFrom_of_read hread
  obtain ⟨_, hsection, entries, rfl, hentries⟩ := schedules_of_read hread
  have hlinked := ((Document.resolve_eq_ok_iff doc skeleton).mp hstages.resolved).forall₂_schedules
  have hcompiled := hlinked.of_zip (Schedule.forall₂_of_compileAll hstages.schedules)
  obtain ⟨declared, hdeclared, links, hl, hcompile⟩ := hcompiled.exists_left hs
  obtain ⟨⟨key, value⟩, he, fields, rfl, hof⟩ := hentries.exists_left hdeclared
  refine ⟨.object fields, ?_, CompiledSchedule.designDay?_eq_week hof hl hcompile⟩
  -- no key is repeated, so the entry of the schedule is the one that its key leads to
  have hkey : s.key = key := by
    obtain ⟨week, -, rfl⟩ := (Schedule.compile_eq_ok_iff _ _ _ s).mp hcompile
    exact hof.key
  have hdistinct : (entries.map Prod.fst).Nodup := by
    have hkeys : entries.map Prod.fst = doc.schedules.map Document.Schedule.key :=
      hentries.map_eq fun e t het => by
        obtain ⟨_, -, hfields⟩ := het
        exact hfields.key.symm
    have hfree := doc.exists_skeleton_iff.mp ⟨skeleton, hstages.resolved⟩
    obtain ⟨-, -, hnodup, -⟩ := doc.failures_eq_nil_iff.mp hfree
    rwa [hkeys]
  rw [hkey, Document.Read.at?_cons, Document.Read.at?_key, hsection, Option.bind_some,
    Document.Read.at?_key]
  exact (NameMap.lookup_eq_some_iff_mem hdistinct key _).mpr he

/-- Hours with a default day and a summer design day, which a rule asks for on Mondays. -/
def heatwaveHours : Value :=
  .object
    [("default_day", Grammar.constantDay 0),
      ("summer_design_day", Grammar.constantDay 1),
      ("schedule_rules", .object [("hot", .object
        [("apply_monday", .bool true), ("day_schedule", .string "summer_design_day")])])]

/-- A building without loops that keeps these hours. -/
def heatwave : Value := Grammar.passiveBuilding "Office" [("hours", heatwaveHours)] [] []

/-- Its week has the summer design day on Mondays and the default day on Tuesdays. -/
theorem compile_heatwave :
    ∃ c s, heatwave.compile Measure.defaultStages = .ok c ∧ s ∈ c.model.schedules ∧
      s.designDay? .summer = some 1 ∧ s.week.get .monday = 1 ∧ s.week.get .tuesday = 0 := by
  obtain ⟨c, hc⟩ : ∃ c, heatwave.compile Measure.defaultStages = .ok c := ⟨_, rfl⟩
  obtain ⟨s, hs⟩ : ∃ s, c.model.schedules = [s] := by
    cases hc
    exact ⟨_, rfl⟩
  have hmem : s ∈ c.model.schedules := by
    rw [hs]
    exact List.mem_singleton_self s
  refine ⟨c, s, hc, hmem, ?_⟩
  cases hc
  cases hs
  exact ⟨rfl, rfl, rfl⟩

/-- The summer design day is in the week, on Monday. -/
theorem designDay_heatwave :
    ∃ c s, heatwave.compile Measure.defaultStages = .ok c ∧ s ∈ c.model.schedules ∧
      s.designDay? .summer = some 1 ∧ s.week.get .monday = 1 ∧ s.week.get .tuesday = 0 ∧
      ∃ schedule, heatwave.at? [.key "schedules", .key s.key] = some schedule ∧
        ∀ season d, s.designDay? season = some (s.week.get d) ↔ DesignDayOn schedule season d := by
  obtain ⟨c, s, hc, hs, hsummer, hmonday, htuesday⟩ := compile_heatwave
  exact ⟨c, s, hc, hs, hsummer, hmonday, htuesday,
    Value.designDay_of_compile heatwave Measure.defaultStages c hc s hs⟩

/-- Design days are not kept out of the week. -/
theorem not_forall_designDay?_ne :
    ¬∀ (v : Value) (stages : List (List MeasureCategory)) (c : Compiled),
      v.compile stages = .ok c → ∀ s ∈ c.model.schedules, ∀ season d,
        s.designDay? season ≠ some (s.week.get d) := by
  intro hall
  obtain ⟨c, s, hc, hs, hsummer, hmonday, -⟩ := compile_heatwave
  have hin : s.designDay? .summer = some (s.week.get .monday) := by rw [hsummer, hmonday]
  exact hall heatwave Measure.defaultStages c hc s hs .summer .monday hin

end HvacModel
