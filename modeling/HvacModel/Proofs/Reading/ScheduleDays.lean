import HvacModel.Proofs.Reading.Schedules
import HvacModel.Proofs.Schedule.Declared

/-! # What is read of a schedule

What is made of a schedule of the grammar, against what the raw value declares: a day has the run of
its table as breakpoints (`day_of_isDay`), a rule applies on the weekdays of its flags and has its
day by name or in place (`rule_of_isRule`), and the days of the schedule are the named ones in their
order, followed by those written inside rules (`schedule_of_isSchedule`). -/

namespace HvacModel.Document.Read

open Report Grammar Declared

variable (path : Path)

theorem at?_cons (value : Value) (step : Path.Step) (rest : Path) :
    value.at? (step :: rest) = (value.at? [step]).bind fun found => found.at? rest := by
  cases step with
  | key name =>
      cases value with
      | object fields =>
          simp only [Value.at?]
          cases Value.field? fields name <;> rfl
      | _ => rfl
  | index i =>
      cases value with
      | array items =>
          simp only [Value.at?]
          cases items[i]? <;> rfl
      | _ => rfl

theorem at?_key (fields : Fields) (key : String) :
    (Value.object fields).at? [.key key] = Value.field? fields key := by
  simp only [Value.at?]
  cases Value.field? fields key <;> rfl

/-! ### Days -/

/-- A raw day whose table has the breakpoints of a day. -/
def IsDayOf (value : Value) (p : DayProfile) : Prop :=
  ∃ fields entries, value = .object fields ∧
    Value.field? fields "values" = some (.object entries) ∧ IsRun entries p.breakpoints

theorem IsDayOf.ne_string {day : Value} {p : DayProfile} (h : IsDayOf day p) (name : String) :
    day ≠ .string name := by
  obtain ⟨fields, entries, rfl, -⟩ := h
  rintro ⟨⟩

/-- A day is made of its key, its name and the run of its table. -/
theorem value_day (key : String) {value : Value} (h : IsDay value) :
    ∃ fields entries points, value = .object fields ∧ MayHave fields "name" IsString ∧
      Value.field? fields "values" = some (.object entries) ∧ IsRun entries points ∧
      (day path key value).value = some ⟨key, (nameOr path fields key).value, points⟩ := by
  obtain ⟨fields, rfl, -, hname, values, hf, htable⟩ := h
  obtain ⟨entries, rfl, hrun⟩ := (isDayTable_iff values).mp htable
  obtain ⟨points, hrun⟩ := (isDayTable_object_iff entries).mp hrun
  refine ⟨fields, entries, points, rfl, hname, hf, hrun, ?_⟩
  simp [day, Value.fields?, hf, (dayValues_of_isRun _ hrun).2]

theorem day_of_isDay (key : String) {value : Value} (h : IsDay value) :
    ∃ p, (day path key value).value = some p ∧ p.key = key ∧ IsDayOf value p := by
  obtain ⟨fields, entries, points, rfl, -, hf, hrun, hvalue⟩ := value_day path key h
  exact ⟨_, hvalue, rfl, fields, entries, rfl, hf, hrun⟩

/-! ### Rules -/

/-- What the day of a rule is read from: a string names it, an object is it. -/
def IsRuleDayOf (value : Option Value) : RuleDay → Prop
  | .named name => value = some (.string name)
  | .inline p => ∃ day, value = some day ∧ IsDayOf day p

structure IsRuleOf (value : Value) (r : LooseRule) : Prop where
  applies : ∀ d, applies d value = r.appliesTo.contains d
  day : IsRuleDayOf (value.at? [.key "day_schedule"]) r.day

theorem flagged_iff (fields : Fields) (key : String) :
    flagged (.object fields) key = true ↔ Value.field? fields key = some (.bool true) := by
  unfold flagged
  rw [at?_key]
  cases Value.field? fields key with
  | none => simp
  | some value => cases value <;> simp

theorem applies_eq (fields : Fields) (d : Weekday) :
    applies d (.object fields) = (appliesTo path fields).value.contains d := by
  have hweekdays : d ∈ [Weekday.monday, .tuesday, .wednesday, .thursday, .friday] ↔
      WeekdaySet.weekdays.contains d = true := by cases d <;> decide
  rw [Bool.eq_iff_iff, contains_appliesTo, ← hweekdays, ← flagged_iff, ← flagged_iff]
  simp only [applies, Bool.or_eq_true, Bool.and_eq_true, decide_eq_true_eq]

theorem ruleDay_of_isDay (key : String) {value : Value} (h : IsString value ∨ IsDay value) :
    ∃ found, (ruleDay path key value).value = some found ∧ IsRuleDayOf (some value) found := by
  rcases h with ⟨name, rfl⟩ | h
  · exact ⟨.named name, rfl, rfl⟩
  · obtain ⟨p, hp, -, hof⟩ := day_of_isDay path (Path.join key "day_schedule") h
    refine ⟨.inline p, ?_, value, rfl, hof⟩
    obtain ⟨fields, rfl, -⟩ := h
    rw [ruleDay, value_bind, hp]
    rfl

theorem rule_of_isRule {field : String × Value} (h : IsRule field.2) :
    ∃ r, (rule path field).value = some r ∧ IsRuleOf field.2 r := by
  obtain ⟨key, value⟩ := field
  obtain ⟨fields, rfl, -, -, -, day, hf, hday⟩ := h
  obtain ⟨found, hfound, hof⟩ :=
    ruleDay_of_isDay ((path.child key).child "day_schedule") key hday
  refine ⟨⟨key, (nameOr (path.child key) fields key).value,
    (appliesTo (path.child key) fields).value, found⟩, ?_, applies_eq _ fields, ?_⟩
  · simp [rule, Value.fields?, hf, hfound]
  · rw [at?_key, hf]
    exact hof

/-! ### Schedules -/

theorem table_object (fields : Fields) (key : String) :
    table (.object fields) key = ((Value.field? fields key).bind Value.fields?).getD [] := by
  rw [table, at?_key]

theorem namedDay_of_mayHave {fields : Fields} {key : String} (h : MayHave fields key IsDay) :
    List.Forall₂ (fun e p => p.key = e.1 ∧ IsDayOf e.2 p)
      ((Value.field? fields key).map fun day => (key, day)).toList
      (namedDay path fields key).value.toList := by
  unfold namedDay
  cases hf : Value.field? fields key with
  | none => exact .nil
  | some value =>
      obtain ⟨p, hp, hkey, hof⟩ := day_of_isDay (path.child key) key (h value hf)
      rw [whenSome_some, hp]
      exact .cons ⟨hkey, hof⟩ .nil

/-- A table is read member by member. -/
theorem optionalTable_of_mayHave {α : Type} {R : String × Value → α → Prop}
    {P : String → Value → Prop} {fields : Fields} {key : String}
    (read : Path → String × Value → Reading (Option α)) (h : MayHave fields key (IsTable P))
    (hread : ∀ e, P e.1 e.2 → ∃ a, (read (path.child key) e).value = some a ∧ R e a) :
    List.Forall₂ R (table (.object fields) key) (optionalTable path fields key read).value := by
  rw [table_object]
  unfold optionalTable
  cases hf : Value.field? fields key with
  | none => exact .nil
  | some value =>
      obtain ⟨entries, rfl, hall⟩ := h value hf
      exact forall₂_collect fun e he => hread e (hall e he)

/-- What a schedule is read into: its named days and its rules, with the fields that give positions
to the days. -/
structure IsScheduleOf (value : Value) (s : Schedule) (declared : List DayProfile)
    (rules : List LooseRule) : Prop where
  named : List.Forall₂ (fun e p => p.key = e.1 ∧ IsDayOf e.2 p) (namedDays value) declared
  days : s.days = declared ++ inlineDays rules
  placed : s.rules = placeRules declared.length rules
  rules : List.Forall₂ (fun e r => IsRuleOf e.2 r) (table value "schedule_rules") rules
  default : match value.at? [.key "default_day"] with
    | some day => s.defaultDay = some 0 ∧ ∃ p, declared[0]? = some p ∧ IsDayOf day p
    | none => s.defaultDay = none
  summer : ∀ i, s.summerDesignDay = some i → i < declared.length
  winter : ∀ i, s.winterDesignDay = some i → i < declared.length

theorem namedDays_object (fields : Fields) :
    namedDays (.object fields) =
      ((Value.field? fields "default_day").map fun day => ("default_day", day)).toList ++
        ((Value.field? fields "summer_design_day").map fun day =>
          ("summer_design_day", day)).toList ++
        ((Value.field? fields "winter_design_day").map fun day =>
          ("winter_design_day", day)).toList ++
        table (.object fields) "day_schedules" := by
  rw [namedDays, builtinDays, List.filterMap_eq_flatMap_toList]
  simp only [List.flatMap_cons, List.flatMap_nil, List.append_nil, at?_key, List.append_assoc]

theorem position?_lt {o : Option DayProfile} {i n : Nat} (h : position? n o = some i) :
    i < n + o.toList.length := by
  cases o with
  | none => cases h
  | some a =>
      cases h
      exact Nat.lt_succ_self n

theorem schedule_of_isSchedule {field : String × Value} (h : IsSchedule field.2) :
    ∃ s, (schedule path field).value = some s ∧ s.key = field.1 ∧
      ∃ declared rules, IsScheduleOf field.2 s declared rules := by
  obtain ⟨key, value⟩ := field
  obtain ⟨fields, rfl, -, -, hbuiltin, hdays, hrules⟩ := h
  have hdefault := hbuiltin "default_day" (by decide)
  have hd := namedDay_of_mayHave (path.child key) hdefault
  have hs := namedDay_of_mayHave (path.child key) (hbuiltin "summer_design_day" (by decide))
  have hw := namedDay_of_mayHave (path.child key) (hbuiltin "winter_design_day" (by decide))
  have hc := optionalTable_of_mayHave (path.child key)
    (fun path f => day (path.child f.1) f.1 f.2) hdays fun e he => day_of_isDay _ e.1 he
  have hr := optionalTable_of_mayHave (path.child key) rule hrules fun e he =>
    rule_of_isRule _ he
  refine ⟨_, rfl, rfl, _, _, ?_, rfl, rfl, hr, ?_, ?_, ?_⟩
  · rw [namedDays_object]
    exact List.rel_append (List.rel_append (List.rel_append hd hs) hw) hc
  · rw [at?_key]
    unfold namedDay
    cases hf : Value.field? fields "default_day" with
    | none => rfl
    | some value =>
        obtain ⟨p, hp, -, hof⟩ :=
          day_of_isDay ((path.child key).child "default_day") "default_day" (hdefault value hf)
        rw [whenSome_some, hp]
        exact ⟨rfl, p, rfl, hof⟩
  · intro i hi
    have := position?_lt hi
    simp only [List.length_append] at this ⊢
    omega
  · intro i hi
    have := position?_lt hi
    simp only [List.length_append] at this ⊢
    omega

end HvacModel.Document.Read
