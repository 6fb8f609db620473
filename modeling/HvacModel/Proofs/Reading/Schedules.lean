import HvacModel.Proofs.Reading.Fields
import HvacModel.Document.Read.Schedules

/-! # Reading schedules cleanly

The readers of days, rules and schedules are clean exactly on those of the grammar, and what is
read cleanly is all there: a day keeps every breakpoint (`day_of_isDay`), a rule its day
(`rule_of_isRule`), a schedule its days and rules in order (`schedule_of_isSchedule`). -/

namespace HvacModel.Document.Read

open Report Grammar

variable (path : Path)

/-! ### Breakpoints -/

/-- Entries and the breakpoints they denote, after a last time: the times increase strictly and
stay before the end of the day. -/
inductive Breakpoints : Option TimeOfDay → Fields → List (TimeOfDay × Float) → Prop where
  | nil {last : Option TimeOfDay} : Breakpoints last [] []
  | cons {last : Option TimeOfDay} {text : String} {time : TimeOfDay} {n : Number} {rest : Fields}
      {points : List (TimeOfDay × Float)} : TimeOfDay.read text = .ok time → time < .endOfDay →
      (∀ previous, last = some previous → previous < time) →
      Breakpoints (some time) rest points →
      Breakpoints last ((text, .number n) :: rest) ((time, n.toFloat) :: points)

theorem isEndOfDay_iff (t : TimeOfDay) : t.isEndOfDay = true ↔ ¬t < .endOfDay := by
  have := t.minutes_le
  simp only [TimeOfDay.isEndOfDay, decide_eq_true_eq, TimeOfDay.lt_iff, TimeOfDay.endOfDay]
  omega

theorem timeKey_of_read {text : String} {time : TimeOfDay} (hr : TimeOfDay.read text = .ok time)
    (hlt : time < .endOfDay) : timeKey path text = pure (some time) := by
  have hend : ¬time.isEndOfDay = true := fun h => (isEndOfDay_iff time).mp h hlt
  simp [timeKey, hr, hend]

theorem clean_timeKey (text : String) :
    (timeKey path text).Clean ↔ ∃ time, TimeOfDay.read text = .ok time ∧ time < .endOfDay := by
  constructor
  · intro h
    cases hr : TimeOfDay.read text with
    | error fault => simp [timeKey, hr] at h
    | ok time =>
        refine ⟨time, rfl, ?_⟩
        by_contra hlt
        simp [timeKey, hr, (isEndOfDay_iff time).mpr hlt] at h
  · rintro ⟨time, hr, hlt⟩
    rw [timeKey_of_read path hr hlt]
    exact clean_pure _

/-- A time is accepted after a last one when no earlier or equal time stands before it. -/
theorem filter_le_eq_none_iff (last : Option TimeOfDay) (time : TimeOfDay) :
    (last.filter fun previous => time ≤ previous) = none ↔
      ∀ previous, last = some previous → previous < time := by
  simp only [Option.filter_eq_none_iff, decide_eq_true_eq, TimeOfDay.le_iff, TimeOfDay.lt_iff,
    Nat.not_le]

theorem breakpoints_of_denotes {last : Option TimeOfDay} {entries : Fields}
    {points : List (TimeOfDay × Float)} (h : Breakpoints last entries points) :
    (breakpoints path last entries).Clean ∧ (breakpoints path last entries).value = points := by
  induction h with
  | nil => exact ⟨rfl, rfl⟩
  | cons hr hlt hlast _ ih =>
      have hf := (filter_le_eq_none_iff _ _).mpr hlast
      simp [breakpoints, timeKey_of_read _ hr hlt, number, hf, ih]

theorem denotes_of_clean {last : Option TimeOfDay} {entries : Fields}
    (h : (breakpoints path last entries).Clean) :
    Breakpoints last entries (breakpoints path last entries).value := by
  induction entries generalizing last with
  | nil => exact .nil
  | cons e rest ih =>
      obtain ⟨text, value⟩ := e
      rw [breakpoints, clean_bind, clean_timeKey] at h
      obtain ⟨⟨time, hr, hlt⟩, h⟩ := h
      rw [timeKey_of_read _ hr hlt, value_pure, whenSome_some, clean_bind, clean_bind,
        clean_number] at h
      obtain ⟨⟨⟨n, rfl⟩, hlast⟩, hrest⟩ := h
      rw [value_number, whenSome_some] at hlast
      cases hf : last.filter fun previous => time ≤ previous with
      | some previous => simp [hf] at hlast
      | none =>
          have hnext := Breakpoints.cons (n := n) hr hlt ((filter_le_eq_none_iff _ _).mp hf)
            (@ih (some time) (by simpa [number, hf] using hrest))
          simpa [breakpoints, timeKey_of_read _ hr hlt, number, hf] using hnext

/-- The times of breakpoints increase from after the last one and stay before the end of day. -/
theorem Breakpoints.increasing {last : Option TimeOfDay} {entries : Fields}
    {points : List (TimeOfDay × Float)} (h : Breakpoints last entries points) :
    (points.map Prod.fst).Pairwise (· < ·) ∧ (∀ t ∈ points.map Prod.fst, t < .endOfDay) ∧
      ∀ previous, last = some previous → ∀ t ∈ points.map Prod.fst, previous < t := by
  induction h with
  | nil => simp
  | cons hr hlt hlast _ ih =>
      obtain ⟨hpair, hend, hafter⟩ := ih
      rw [List.map_cons, List.pairwise_cons]
      refine ⟨⟨hafter _ rfl, hpair⟩, ?_, ?_⟩
      · rintro t (_ | ⟨_, ht⟩)
        · exact hlt
        · exact hend t ht
      · rintro previous hprev t (_ | ⟨_, ht⟩)
        · exact hlast previous hprev
        · exact Nat.lt_trans (hlast previous hprev) (hafter _ rfl t ht)

/-- Every entry is a breakpoint: its key the time, its value the number. -/
theorem Breakpoints.forall₂ {last : Option TimeOfDay} {entries : Fields}
    {points : List (TimeOfDay × Float)} (h : Breakpoints last entries points) :
    List.Forall₂ (fun e p => TimeOfDay.read e.1 = .ok p.1 ∧
      ∃ n, e.2 = .number n ∧ p.2 = n.toFloat) entries points := by
  induction h with
  | nil => exact .nil
  | cons hr _ _ _ ih => exact .cons ⟨hr, _, rfl, rfl⟩ ih

/-- Entries of numbers under increasing times denote breakpoints. -/
theorem exists_breakpoints {last : Option TimeOfDay} {entries : Fields} {times : List TimeOfDay}
    (hn : ∀ e ∈ entries, IsNumber e.2)
    (hr : entries.map (fun e => TimeOfDay.read e.1) = times.map .ok)
    (hpair : times.Pairwise (· < ·)) (hend : ∀ t ∈ times, t < .endOfDay)
    (hlast : ∀ previous, last = some previous → ∀ t ∈ times, previous < t) :
    ∃ points, Breakpoints last entries points ∧ points.map Prod.fst = times := by
  induction entries generalizing last times with
  | nil =>
      cases times with
      | nil => exact ⟨[], .nil, rfl⟩
      | cons t rest => simp at hr
  | cons e rest ih =>
      obtain ⟨text, value⟩ := e
      cases times with
      | nil => simp at hr
      | cons t times =>
          obtain ⟨n, rfl⟩ := hn (text, value) List.mem_cons_self
          obtain ⟨hread, hr⟩ := List.cons.inj hr
          obtain ⟨hfirst, hpair⟩ := List.pairwise_cons.mp hpair
          obtain ⟨points, hp, hmap⟩ := @ih (some t) times
            (fun e he => hn e (List.mem_cons_of_mem _ he)) hr hpair
            (fun u hu => hend u (List.mem_cons_of_mem _ hu))
            (fun previous hprev u hu => by cases hprev; exact hfirst u hu)
          refine ⟨(t, n.toFloat) :: points, .cons hread (hend t List.mem_cons_self) ?_ hp, ?_⟩
          · exact fun previous hprev => hlast previous hprev t List.mem_cons_self
          · rw [List.map_cons, hmap]

/-! ### Days -/

theorem clean_startsAtMidnight (points : List (TimeOfDay × Float)) :
    (startsAtMidnight path points).Clean ↔
      ∀ t, (points.map Prod.fst).head? = some t → t = .midnight := by
  cases points with
  | nil => simp [startsAtMidnight]
  | cons p rest =>
      obtain ⟨t, x⟩ := p
      by_cases h : t = .midnight
      · simp [startsAtMidnight, h]
      · simp [startsAtMidnight, h]

/-- The breakpoints of a table: all its entries, the first of them at midnight. -/
def IsRun (entries : Fields) (points : List (TimeOfDay × Float)) : Prop :=
  Breakpoints none entries points ∧ (points.map Prod.fst).head? = some .midnight

/-- The times of a run are the keys of its table, in their order. -/
theorem Breakpoints.read_keys {last : Option TimeOfDay} {entries : Fields}
    {points : List (TimeOfDay × Float)} (h : Breakpoints last entries points) :
    entries.map (fun e => TimeOfDay.read e.1) = (points.map Prod.fst).map .ok := by
  induction h with
  | nil => rfl
  | cons hr _ _ _ ih => rw [List.map_cons, List.map_cons, List.map_cons, hr, ih]

theorem Breakpoints.isNumber {last : Option TimeOfDay} {entries : Fields}
    {points : List (TimeOfDay × Float)} (h : Breakpoints last entries points) :
    ∀ e ∈ entries, IsNumber e.2 := by
  induction h with
  | nil => simp
  | cons _ _ _ _ ih =>
      rintro e (_ | ⟨_, he⟩)
      · exact ⟨_, rfl⟩
      · exact ih e he

theorem isDayTable_object_iff (entries : Fields) :
    IsDayTable (.object entries) ↔ ∃ points, IsRun entries points := by
  constructor
  · rintro ⟨_, ⟨⟩, hn, times, hr, hhead, hpair, hend⟩
    obtain ⟨points, hp, hmap⟩ := @exists_breakpoints none _ _ hn hr hpair hend (by simp)
    exact ⟨points, hp, by rw [hmap, hhead]⟩
  · rintro ⟨points, hp, hhead⟩
    obtain ⟨hpair, hend, -⟩ := hp.increasing
    exact ⟨entries, rfl, hp.isNumber, points.map Prod.fst, hp.read_keys, hhead, hpair, hend⟩

theorem clean_dayValues_cons (e : String × Value) (rest : Fields) :
    (dayValues path (e :: rest)).Clean ↔ (breakpoints path none (e :: rest)).Clean ∧
      (startsAtMidnight path (breakpoints path none (e :: rest)).value).Clean := by
  show (breakpoints path none (e :: rest) >>= fun points =>
    startsAtMidnight path points >>= fun _ => pure points).Clean ↔ _
  simp only [clean_bind, clean_pure, and_true]

theorem value_dayValues_cons {e : String × Value} {rest : Fields}
    (h : (dayValues path (e :: rest)).Clean) :
    (dayValues path (e :: rest)).value = some (breakpoints path none (e :: rest)).value :=
  if_pos (List.isEmpty_iff.mpr h)

theorem dayValues_of_isRun {entries : Fields} {points : List (TimeOfDay × Float)}
    (h : IsRun entries points) :
    (dayValues path entries).Clean ∧ (dayValues path entries).value = some points := by
  obtain ⟨hp, hhead⟩ := h
  obtain ⟨hclean, hvalue⟩ := breakpoints_of_denotes path hp
  have hstart : (startsAtMidnight path points).Clean := by
    rw [clean_startsAtMidnight, hhead]
    rintro t ⟨⟩
    rfl
  cases entries with
  | nil => cases hp; simp at hhead
  | cons e rest =>
      have h : (dayValues path (e :: rest)).Clean := by
        rw [clean_dayValues_cons, hvalue]
        exact ⟨hclean, hstart⟩
      exact ⟨h, by rw [value_dayValues_cons path h, hvalue]⟩

theorem isRun_of_clean {entries : Fields} (h : (dayValues path entries).Clean) :
    ∃ points, IsRun entries points := by
  cases entries with
  | nil => simp [dayValues] at h
  | cons e rest =>
      obtain ⟨hclean, hstart⟩ := (clean_dayValues_cons path e rest).mp h
      have hp := denotes_of_clean path hclean
      rw [clean_startsAtMidnight] at hstart
      refine ⟨_, hp, ?_⟩
      generalize (breakpoints path none (e :: rest)).value = points at hp hstart
      cases hp with
      | cons => exact congrArg some (hstart _ rfl)

theorem clean_dayValues (entries : Fields) :
    (dayValues path entries).Clean ↔ IsDayTable (.object entries) := by
  rw [isDayTable_object_iff]
  exact ⟨isRun_of_clean path, fun ⟨_, h⟩ => (dayValues_of_isRun path h).1⟩

theorem isDayTable_iff (value : Value) :
    IsDayTable value ↔ IsObject (fun entries => IsDayTable (.object entries)) value := by
  constructor
  · rintro ⟨entries, rfl, h⟩
    exact ⟨entries, rfl, entries, rfl, h⟩
  · rintro ⟨entries, rfl, h⟩
    exact h

theorem clean_day (key : String) (value : Value) : (day path key value).Clean ↔ IsDay value := by
  unfold day IsDay
  rw [clean_object_bind]
  simp only [clean_bind, clean_checkFields, clean_nameOr, ↓clean_required_bind,
    ↓clean_object_bind, clean_dayValues, clean_pure, and_true, ← isDayTable_iff]

/-! ### Rules -/

theorem dayFlags_eq : dayFlags = Weekday.all.map fun d => (dayFlag d, d) := by decide

theorem clean_flagSet (fields : Fields) (key : String) :
    (flagSet path fields key).Clean ↔ MayHave fields key IsFlag := by
  unfold flagSet
  rw [clean_bind, clean_optional, and_iff_left (clean_pure _)]
  simp only [clean_boolean]

theorem value_flagSet (fields : Fields) (key : String) :
    (flagSet path fields key).value = true ↔ Value.field? fields key = some (.bool true) := by
  unfold flagSet
  rw [value_bind, value_whenSome, value_pure]
  cases Value.field? fields key with
  | none => simp
  | some value => cases value <;> simp [boolean]

theorem clean_flaggedDays (fields : Fields) (flags : List (String × Weekday)) :
    (flaggedDays path fields flags).Clean ↔ ∀ f ∈ flags, MayHave fields f.1 IsFlag := by
  induction flags with
  | nil => simp [flaggedDays]
  | cons f rest ih => simp [flaggedDays, clean_flagSet, ih]

theorem mem_value_flaggedDays (fields : Fields) (flags : List (String × Weekday)) (d : Weekday) :
    d ∈ (flaggedDays path fields flags).value ↔
      ∃ f ∈ flags, f.2 = d ∧ Value.field? fields f.1 = some (.bool true) := by
  induction flags with
  | nil => simp [flaggedDays]
  | cons f rest ih =>
      obtain ⟨key, e⟩ := f
      rw [flaggedDays, value_bind, value_bind, value_pure]
      simp only [List.mem_cons, exists_eq_or_imp]
      rw [← ih, ← value_flagSet path]
      by_cases h : (flagSet path fields key).value = true
      · rw [if_pos h, List.mem_cons, and_iff_left h, eq_comm]
      · rw [if_neg h, or_iff_right fun hd => h hd.2]

theorem clean_appliesTo (fields : Fields) :
    (appliesTo path fields).Clean ↔ ∀ flag ∈ ruleFlags, MayHave fields flag IsFlag := by
  unfold appliesTo ruleFlags
  simp only [clean_bind, clean_flaggedDays, clean_flagSet, clean_pure, and_true, dayFlags_eq,
    List.forall_mem_append, List.forall_mem_map, List.forall_mem_singleton]

/-- The flags of the single days name their day; one flag names Monday to Friday. -/
theorem contains_appliesTo (fields : Fields) (d : Weekday) :
    (appliesTo path fields).value.contains d = true ↔
      Value.field? fields (dayFlag d) = some (.bool true) ∨
        WeekdaySet.weekdays.contains d = true ∧
          Value.field? fields "apply_weekdays" = some (.bool true) := by
  have hsingle : d ∈ (flaggedDays path fields dayFlags).value ↔
      Value.field? fields (dayFlag d) = some (.bool true) := by
    rw [mem_value_flaggedDays, dayFlags_eq]
    simp [Weekday.mem_all]
  unfold appliesTo
  rw [value_bind, value_bind, value_pure, ← hsingle, ← value_flagSet path]
  by_cases h : (flagSet path fields "apply_weekdays").value = true
  · simp [h, WeekdaySet.contains_ofList]
  · simp [h, WeekdaySet.contains_ofList]

theorem clean_ruleDay (key : String) (value : Value) :
    (ruleDay path key value).Clean ↔ IsString value ∨ IsDay value := by
  cases value with
  | object fields =>
      rw [ruleDay, clean_bind, clean_day, and_iff_left (clean_pure _)]
      simp [IsString]
  | _ => simp [ruleDay, IsString, IsDay, IsObject]

theorem only_ruleFields (fields : Fields) :
    Only ruleFields fields ↔ Only ("name" :: "day_schedule" :: ruleFlags) fields := by
  have hmem : ∀ key, key ∈ ruleFields ↔ key ∈ "name" :: "day_schedule" :: ruleFlags := by
    intro key
    rw [ruleFields, ruleFlags, dayFlags_eq, List.map_map]
    simp only [List.mem_append, List.mem_cons, List.not_mem_nil, or_false, Function.comp_def]
    tauto
  simp only [Only, hmem]

theorem clean_rule (field : String × Value) : (rule path field).Clean ↔ IsRule field.2 := by
  unfold rule IsRule
  rw [clean_object_bind]
  simp only [clean_bind, clean_checkFields, only_ruleFields, clean_nameOr, clean_appliesTo,
    ↓clean_required_bind, clean_ruleDay, clean_pure, and_true]

/-! ### Schedules -/

theorem clean_namedDay (fields : Fields) (key : String) :
    (namedDay path fields key).Clean ↔ MayHave fields key IsDay := by
  unfold namedDay
  rw [clean_optional]
  simp only [clean_day]

theorem clean_optionalTable {α : Type} (fields : Fields) (key : String)
    (read : Path → String × Value → Reading (Option α)) :
    (optionalTable path fields key read).Clean ↔
      MayHave fields key (IsObject fun table => ∀ e ∈ table, (read (path.child key) e).Clean) := by
  unfold optionalTable
  rw [clean_bind, clean_optional, and_iff_left (clean_pure _)]
  simp only [clean_object_bind]
  simp [clean_collect]

theorem only_scheduleFields (fields : Fields) :
    Only scheduleFields fields ↔
      Only ("name" :: "day_schedules" :: "schedule_rules" :: builtinDays) fields := by
  have hmem : ∀ key, key ∈ scheduleFields ↔
      key ∈ "name" :: "day_schedules" :: "schedule_rules" :: builtinDays := by
    intro key
    simp only [scheduleFields, builtinDays, List.mem_cons, List.not_mem_nil, or_false]
    tauto
  simp only [Only, hmem]

theorem clean_schedule (field : String × Value) :
    (schedule path field).Clean ↔ IsSchedule field.2 := by
  unfold schedule IsSchedule IsTable
  rw [clean_object_bind]
  simp only [clean_bind, clean_checkFields, only_scheduleFields, clean_nameOr, clean_namedDay,
    clean_optionalTable, clean_day, clean_rule, clean_pure, and_true, builtinDays,
    List.forall_mem_cons, List.not_mem_nil, false_imp_iff, implies_true, and_assoc]

theorem clean_schedules (value : Value) :
    (schedules path value).Clean ↔ IsTable (fun _ => IsSchedule) value := by
  unfold schedules IsTable
  rw [clean_object_bind]
  simp [clean_collect, clean_schedule]

end HvacModel.Document.Read
