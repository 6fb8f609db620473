import HvacModel.Proofs.NameMap
import HvacModel.Proofs.Related
import HvacModel.Proofs.Model.Compile
import HvacModel.Proofs.Reading.Document
import HvacModel.Proofs.Reading.ScheduleDays
import HvacModel.Proofs.Schedule.DayProfile
import HvacModel.Proofs.Schedule.Week
import HvacModel.Proofs.Skeleton.Resolve

/-! # The value of a schedule, end to end

A query of a compiled model gives the value that the raw schedule declares
(`Value.query_of_compile`).  On the way from the raw value to the model the days are renumbered
three times: rules written in place append their days, names of days become positions, and the
rules fill the week.  Every renumbering is followed by a relation between lists member by member:
`forall₂_holds` relates the raw rules to the positions that the rules select, and
`List.Forall₂.find?` carries the choice of the first rule along it. -/

namespace HvacModel

open Document.Read Skeleton Declared Grammar

/-! ### Days written inside rules -/

/-- The positions after the named days belong to days written inside rules. -/
theorem exists_inline_of_lt {rules : List LooseRule} (count : Nat) {j : Nat}
    (hj : j < (inlineDays rules).length) :
    ∃ r ∈ placeRules count rules, r.day = .inline (count + j) := by
  induction rules generalizing count j with
  | nil => simp [inlineDays] at hj
  | cons r rest ih =>
      obtain ⟨key, name, days, day⟩ := r
      cases day with
      | named k =>
          obtain ⟨r, hr, hday⟩ := @ih count j (by simpa [inlineDays] using hj)
          exact ⟨r, List.mem_cons_of_mem _ hr, hday⟩
      | inline p =>
          cases j with
          | zero => exact ⟨_, List.mem_cons_self, rfl⟩
          | succ j =>
              obtain ⟨r, hr, hday⟩ := @ih (count + 1) j
                (by simpa [inlineDays] using hj)
              refine ⟨r, List.mem_cons_of_mem _ hr, ?_⟩
              rw [hday, Nat.add_right_comm, Nat.add_assoc]

section Placed

variable {value : Value} {s : Document.Schedule} {declared : List DayProfile}
  {rules : List LooseRule}

/-- A day found by its key is one of the named days. -/
theorem findIdx?_of_dayByKey? (h : IsScheduleOf value s declared rules) {key : String} {i : Nat}
    (hi : s.dayByKey? key = some i) : declared.findIdx? (fun p => p.key = key) = some i := by
  unfold Document.Schedule.dayByKey? at hi
  rw [h.days, List.findIdx?_append] at hi
  cases hd : declared.findIdx? (fun p => p.key = key) with
  | some j =>
      simp only [hd, Option.some_or] at hi
      split at hi
      · cases hi
      · exact hi
  | none =>
      cases hj : (inlineDays rules).findIdx? (fun p => p.key = key) with
      | none => simp [hd, hj] at hi
      | some j =>
          have hlt : j < (inlineDays rules).length := by
            obtain ⟨hlt, -⟩ := List.findIdx?_eq_some_iff_getElem.mp hj
            exact hlt
          obtain ⟨r, hr, hday⟩ := exists_inline_of_lt declared.length hlt
          have hinline : s.isInline (j + declared.length) = true := by
            rw [Document.Schedule.isInline, h.placed, List.any_eq_true]
            exact ⟨r, hr, by simp [hday, Nat.add_comm]⟩
          simp [hd, hj, hinline] at hi

/-- Looking a name up among the raw days finds the day that is read from it. -/
theorem lookup_of_findIdx? {entries : Fields} {days : List DayProfile}
    (h : List.Forall₂ (fun e p => p.key = e.1 ∧ IsDayOf e.2 p) entries days) {key : String}
    {i : Nat} (hi : days.findIdx? (fun p => p.key = key) = some i) :
    ∃ day p, entries.lookup key = some day ∧ days[i]? = some p ∧ IsDayOf day p := by
  induction h generalizing i with
  | nil => simp at hi
  | @cons e p entries days hep _ ih =>
      obtain ⟨name, day⟩ := e
      obtain ⟨hkey, hof⟩ := hep
      rw [NameMap.lookup_cons_ite]
      rw [List.findIdx?_cons] at hi
      by_cases hk : p.key = key
      · rw [if_pos (by simpa using hk), Option.some.injEq] at hi
        subst hi
        exact ⟨day, p, by rw [if_pos (hk.symm.trans hkey)], rfl, hof⟩
      · rw [if_neg (by simpa using hk), Option.map_eq_some_iff] at hi
        obtain ⟨j, hj, rfl⟩ := hi
        rw [if_neg fun e => hk (hkey.trans e.symm)]
        exact ih hj

/-- A rule of a raw schedule with the rule and the position that are made of it. -/
structure Holds (value : Value) (s : Document.Schedule) (e : String × Value)
    (r : Document.Rule × Nat) : Prop where
  applies : ∀ d, applies d e.2 = r.1.appliesTo.contains d
  day : ∃ day p, ruleDay? value e.2 = some day ∧ s.days[r.2]? = some p ∧ IsDayOf day p

/-- The invariant of placing rules: the days before the count stand first, the days of the rules
that are left follow. -/
theorem forall₂_holds {before : List DayProfile} {table : Fields} {positions : List Nat}
    (hnamed : ∀ key i, s.dayByKey? key = some i →
      ∃ day p, (namedDays value).lookup key = some day ∧ s.days[i]? = some p ∧ IsDayOf day p)
    (hrules : List.Forall₂ (fun e r => IsRuleOf e.2 r) table rules)
    (hdays : s.days = before ++ inlineDays rules)
    (hpos : List.Forall₂ (Selects s) (placeRules before.length rules) positions) :
    List.Forall₂ (Holds value s) table ((placeRules before.length rules).zip positions) := by
  induction hrules generalizing before positions with
  | nil =>
      cases hpos
      exact .nil
  | @cons e r table rules her _ ih =>
      obtain ⟨key, name, days, day⟩ := r
      have happlies := her.applies
      have hday := her.day
      cases day with
      | named day =>
          obtain _ | ⟨hsel, hrest⟩ := hpos
          obtain ⟨raw, p, hlookup, hp, hof⟩ := hnamed day _ hsel
          refine .cons ⟨happlies, raw, p, ?_, hp, hof⟩ (ih hdays hrest)
          unfold ruleDay?
          rw [hday]
          exact hlookup
      | inline p =>
          obtain _ | ⟨hsel, hrest⟩ := hpos
          obtain ⟨raw, hraw, hof⟩ := hday
          have hsel : _ = before.length := hsel
          have hlength : (before ++ [p]).length = before.length + 1 := List.length_append
          have hdays : s.days = (before ++ [p]) ++ inlineDays rules := by
            rw [hdays, List.append_assoc]
            rfl
          rw [← hlength] at hrest
          refine .cons ⟨happlies, raw, p, ?_, ?_, hof⟩ (hlength ▸ ih hdays hrest)
          · unfold ruleDay?
            rw [hraw]
            cases raw with
            | string name => exact absurd rfl (IsDayOf.ne_string hof name)
            | _ => rfl
          · rw [hdays, hsel]
            simp

/-- The day at the position that holds on a weekday is the one that the raw schedule declares. -/
theorem dayOn?_of_holdingDay? (h : IsScheduleOf value s declared rules) {ruleDays : List Nat}
    (hsel : List.Forall₂ (Selects s) s.rules ruleDays) {d : Weekday} {i : Nat}
    (hi : Schedule.holdingDay? s ruleDays d = some i) :
    ∃ day p, dayOn? value d = some day ∧ s.days[i]? = some p ∧ IsDayOf day p := by
  have hnamed : ∀ key i, s.dayByKey? key = some i →
      ∃ day p, (namedDays value).lookup key = some day ∧ s.days[i]? = some p ∧ IsDayOf day p := by
    intro key i hi
    obtain ⟨day, p, hday, hp, hof⟩ := lookup_of_findIdx? h.named (findIdx?_of_dayByKey? h hi)
    have hlt := (List.getElem?_eq_some_iff.mp hp).1
    exact ⟨day, p, hday, by rw [h.days, List.getElem?_append_left hlt, hp], hof⟩
  rw [h.placed] at hsel
  have hall := forall₂_holds hnamed h.rules h.days hsel
  rw [← h.placed] at hall
  unfold Schedule.holdingDay? at hi
  unfold dayOn?
  rcases hall.find? (p := fun e => applies d e.2) (q := fun r => r.1.appliesTo.contains d)
    fun e r hr => hr.applies d with ⟨e, r, he, hr, hrel⟩ | ⟨he, hr⟩
  · obtain ⟨day, p, hday, hp, hof⟩ := hrel.day
    rw [hr] at hi
    cases hi
    rw [he]
    exact ⟨day, p, hday, hp, hof⟩
  · rw [hr] at hi
    rw [he]
    have hi : s.defaultDay = some i := hi
    have hdefault := h.default
    cases hd : value.at? [.key "default_day"] with
    | none => simp [hd, hi] at hdefault
    | some day =>
        rw [hd] at hdefault
        obtain ⟨hzero, p, hp, hof⟩ := hdefault
        rw [hi, Option.some.injEq] at hzero
        have hlt := (List.getElem?_eq_some_iff.mp hp).1
        exact ⟨day, p, rfl, by rw [h.days, hzero, List.getElem?_append_left hlt, hp], hof⟩

end Placed

/-! ### Values -/

/-- The number that holds at a time of a raw day is the value of the day that is read from it. -/
theorem holdsAt_iff {day : Value} {p : DayProfile} (h : IsDayOf day p) (time : TimeOfDay)
    (x : Float) : HoldsAt day time x ↔ x = p.valueAt time := by
  obtain ⟨fields, entries, rfl, hf, hpoints, hhead⟩ := h
  have htable : table (.object fields) "values" = entries := by
    rw [table_object, hf]
    rfl
  have hs := List.pairwise_map.mp hpoints.increasing.1
  have hall := hpoints.forall₂
  unfold HoldsAt
  rw [htable]
  constructor
  · rintro ⟨text, n, start, hmem, hread, hle, rfl, hlast⟩
    obtain ⟨b, hb, hbread, m, hm, hx⟩ := hall.exists_right hmem
    rw [hread, Except.ok.injEq] at hbread
    rw [Value.number.injEq] at hm
    have hlatest : DayProfile.Latest p.breakpoints time b := by
      refine ⟨hb, hbread ▸ hle, fun c hc hcle => ?_⟩
      obtain ⟨e, he, hcread, -⟩ := hall.exists_left hc
      exact hbread ▸ hlast e he c.1 hcread hcle
    rw [DayProfile.valueAt_of_latest hs hlatest, hx, hm]
  · rintro rfl
    obtain ⟨b, hb⟩ := DayProfile.exists_latest hs hhead time
    obtain ⟨⟨text, value⟩, he, hread, n, hn, hx⟩ := hall.exists_left hb.1
    subst hn
    refine ⟨text, n, b.1, he, hread, hb.2.1, ?_, ?_⟩
    · rw [DayProfile.valueAt_of_latest hs hb, hx]
    · intro e he other hother hle
      obtain ⟨c, hc, hcread, -⟩ := hall.exists_right he
      rw [hother, Except.ok.injEq] at hcread
      exact hcread ▸ hb.2.2 c hc (hcread ▸ hle)

/-! ### Queries -/

/-- A schedule compiled from what is read of a raw value gives the declared numbers. -/
theorem valueAt?_of_compile {value : Value} {s : Document.Schedule} {declared : List DayProfile}
    {rules : List LooseRule} {links : ScheduleLinks} {c : CompiledSchedule}
    (h : IsScheduleOf value s declared rules) (hl : IsLinked s links)
    (hc : Schedule.compile links.id s links.ruleDays = .ok c) (d : Weekday) (time : TimeOfDay) :
    ∃ day x, dayOn? value d = some day ∧ (∀ y, HoldsAt day time y ↔ y = x) ∧
      c.valueAt? d time = some x := by
  obtain ⟨week, hweek, rfl⟩ := (Schedule.compile_eq_ok_iff links.id s links.ruleDays c).mp hc
  obtain ⟨day, p, hday, hp, hof⟩ := dayOn?_of_holdingDay? h hl.2 (hweek d)
  refine ⟨day, p.valueAt time, hday, holdsAt_iff hof time, ?_⟩
  simp [CompiledSchedule.valueAt?, CompiledSchedule.day?, Schedule.compiled, hp]

/-- The schedules of a document are read from the entries of its section. -/
theorem forall₂_schedules_of_read {v : Value} {d : Document} (h : Document.read v = .ok d) :
    ∃ entries, v.at? [.key "schedules"] = some (.object entries) ∧
      List.Forall₂ (fun e s => s.key = e.1 ∧ ∃ declared rules, IsScheduleOf e.2 s declared rules)
        entries d.schedules := by
  obtain ⟨root, rfl, ⟨_, ⟨⟩, -, -, -, -, hsection, -⟩, hfrom⟩ := Document.isReadFrom_of_read h
  obtain ⟨_, hf, entries, rfl, hall⟩ := hsection
  refine ⟨entries, by rw [at?_key, hf], ?_⟩
  have hvalue := hfrom.schedules
  rw [sectionIn, hf] at hvalue
  rw [← Option.some.inj hvalue]
  exact Report.forall₂_collect fun e he => schedule_of_isSchedule _ (hall e he)

/-- A query of a model gives the number that its raw value declares: every raw schedule has a day
for every weekday, that day exactly one number for every time, and the query finds it. -/
theorem Value.query_of_compile (v : Value) (stages : List (List MeasureCategory)) (c : Compiled)
    (h : v.compile stages = .ok c) (key : String) (schedule : Value)
    (hs : v.at? [.key "schedules", .key key] = some schedule) (d : Weekday) (time : TimeOfDay) :
    ∃ day x, dayOn? schedule d = some day ∧ (∀ y, HoldsAt day time y ↔ y = x) ∧
      c.model.query key d time = .ok x := by
  obtain ⟨doc, hread, hc⟩ := (Value.compile_eq_ok_iff v stages c).mp h
  obtain ⟨skeleton, applied, schedules, hstages, rfl⟩ :=
    (Document.compile_eq_ok_iff doc stages c).mp hc
  obtain ⟨entries, hsection, hentries⟩ := forall₂_schedules_of_read hread
  have hlinked := ((Document.resolve_eq_ok_iff doc skeleton).mp hstages.resolved).forall₂_schedules
  have hcompiled := hlinked.of_zip (Schedule.forall₂_of_compileAll hstages.schedules)
  obtain ⟨e, hfind, rfl⟩ : ∃ e, entries.find? (fun e => e.1 = key) = some e ∧ e.2 = schedule := by
    rw [at?_cons, hsection, Option.bind_some, at?_key, Value.field?,
      NameMap.lookup_eq_map_find?] at hs
    exact Option.map_eq_some_iff.mp hs
  obtain ⟨s, hsfind, hskey, declared, rules, hof⟩ :=
    hentries.find?_eq_some (q := fun s => s.key = key) (fun e s hes => by rw [hes.1]) hfind
  obtain ⟨compiled, hcfind, links, hl, hcomp⟩ :=
    hcompiled.find?_eq_some (q := fun c => c.key = key) (fun s c hsc => by
      obtain ⟨links, -, hcomp⟩ := hsc
      obtain ⟨week, -, rfl⟩ := (Schedule.compile_eq_ok_iff links.id s links.ruleDays c).mp hcomp
      rfl) hsfind
  obtain ⟨day, x, hday, hholds, hvalue⟩ := valueAt?_of_compile hof hl hcomp d time
  refine ⟨day, x, hday, hholds, ?_⟩
  have hmodel : (Compiled.assemble doc applied schedules).model.schedule? key = some compiled :=
    hcfind
  simp only [Model.query, hmodel, hvalue]

/-- Hours with three days: closed by default, a named day on Monday to Friday, and a day written in
the rule for Saturday. -/
def officeHours : Value :=
  .object
    [("default_day", constantDay 0),
      ("day_schedules", .object [("open", .object
        [("values", .object [("00:00", .number (.int 0)), ("08:00", .number (.int 1)),
          ("18:00", .number (.int 0))])])]),
      ("schedule_rules", .object
        [("week", .object [("apply_weekdays", .bool true), ("day_schedule", .string "open")]),
          ("saturday", .object [("apply_saturday", .bool true), ("day_schedule", .object
            [("values", .object [("00:00", .number (.int 0)), ("10:00", .number (.int 1)),
              ("14:00", .number (.int 0))])])])])]

/-- A building without loops that keeps these hours. -/
def office : Value := passiveBuilding "Office" [("hours", officeHours)] [] []

theorem query_office_saturday :
    ∃ c, office.compile Measure.defaultStages = .ok c ∧
      office.at? [.key "schedules", .key "hours"] = some officeHours ∧
      ∃ day x, dayOn? officeHours .saturday = some day ∧
        (∀ y, HoldsAt day ⟨720, by decide⟩ y ↔ y = x) ∧
        c.model.query "hours" .saturday ⟨720, by decide⟩ = .ok x := by
  obtain ⟨c, hc⟩ : ∃ c, office.compile Measure.defaultStages = .ok c := ⟨_, rfl⟩
  have hs : office.at? [.key "schedules", .key "hours"] = some officeHours := rfl
  exact ⟨c, hc, hs, Value.query_of_compile office _ c hc "hours" officeHours hs .saturday _⟩

end HvacModel
