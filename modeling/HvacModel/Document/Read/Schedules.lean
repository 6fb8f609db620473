import HvacModel.Document.Read.Fields

/-! # Reading the schedules

The days of a schedule stand in one list: the default day and the two design days as far as they
are there, then the entries of `day_schedules`, then the days written inside rules, in the order of
the rules.  `placeRules` gives each inline day its position; the reading of a rule does not depend
on it.

The keys of a day are times.  They increase strictly from `00:00`, and `24:00` is none of them. -/

namespace HvacModel.Document.Read

open Report (whenSome collect)

/-! ### Days -/

/-- The time of a key. -/
def timeKey (path : Path) (text : String) : Reading (Option TimeOfDay) :=
  match TimeOfDay.read text with
  | .ok time =>
    if time.isEndOfDay then do
      issue path (.invalidTimeKey text .endOfDay)
      pure none
    else pure (some time)
  | .error fault => do
    issue path (.invalidTimeKey text (.unreadable fault))
    pure none

/-- The breakpoints of a day after those accepted so far, the last of which is given. -/
def breakpoints (path : Path) (last : Option TimeOfDay) :
    List (String × Value) → Reading (List (TimeOfDay × Float))
  | [] => pure []
  | (text, value) :: rest => do
    let accepted ← whenSome (← timeKey (path.child text) text) fun time => do
      whenSome (← number (path.child text) value) fun x =>
        match last.filter fun previous => time ≤ previous with
        | some previous => do
          issue (path.child text) (.timeKeysNotIncreasing previous time)
          pure none
        | none => pure (some (time, x))
    let more ← breakpoints path ((accepted.map Prod.fst).or last) rest
    pure (accepted.toList ++ more)

/-- The first breakpoint is at midnight. -/
def startsAtMidnight (path : Path) (points : List (TimeOfDay × Float)) : Reading Unit :=
  match points with
  | (first, _) :: _ =>
    if first = .midnight then pure () else issue path (.dayMustStartAtMidnight first)
  | [] => pure ()

/-- The breakpoints of a day, absent after any issue among them. -/
def dayValues (path : Path) (fields : List (String × Value)) :
    Reading (Option (List (TimeOfDay × Float))) :=
  if fields.isEmpty then do
    issue path .emptyDay
    pure none
  else
    let read := do
      let points ← breakpoints path none fields
      startsAtMidnight path points
      pure points
    ⟨if read.findings.isEmpty then some read.value else none, read.findings⟩

/-- One day of a key. -/
def day (path : Path) (key : String) (value : Value) : Reading (Option DayProfile) := do
  whenSome (← object path value) fun fields => do
    checkFields path ["name", "values"] fields
    let name ← nameOr path fields key
    whenSome (← required path fields "values") fun values => do
      whenSome (← object (path.child "values") values) fun table => do
        let points ← dayValues (path.child "values") table
        pure (points.map fun points => ⟨key, name, points⟩)

/-! ### Rules -/

/-- The flags of single weekdays. -/
def dayFlags : List (String × Weekday) :=
  [("apply_monday", .monday), ("apply_tuesday", .tuesday), ("apply_wednesday", .wednesday),
    ("apply_thursday", .thursday), ("apply_friday", .friday), ("apply_saturday", .saturday),
    ("apply_sunday", .sunday)]

/-- The fields of a rule. -/
def ruleFields : List String := dayFlags.map Prod.fst ++ ["name", "apply_weekdays", "day_schedule"]

/-- Whether a flag is set. -/
def flagSet (path : Path) (fields : List (String × Value)) (key : String) : Reading Bool := do
  let flag ← whenSome (Value.field? fields key) (boolean (path.child key))
  pure (flag.getD false)

/-- The weekdays of the flags that are set. -/
def flaggedDays (path : Path) (fields : List (String × Value)) :
    List (String × Weekday) → Reading (List Weekday)
  | [] => pure []
  | (key, weekday) :: rest => do
    let set ← flagSet path fields key
    let more ← flaggedDays path fields rest
    pure (if set then weekday :: more else more)

/-- The weekdays of a rule. -/
def appliesTo (path : Path) (fields : List (String × Value)) : Reading WeekdaySet := do
  let single ← flaggedDays path fields dayFlags
  let weekdays ← flagSet path fields "apply_weekdays"
  let days := WeekdaySet.ofList single
  pure (if weekdays then days.union .weekdays else days)

/-- The day of a rule before it has a position. -/
inductive RuleDay where
  | named (key : String)
  | inline (day : DayProfile)

/-- A rule whose inline day has no position yet. -/
structure LooseRule where
  key : String
  name : String
  appliesTo : WeekdaySet
  day : RuleDay

/-- The day of a rule: a name, or a day written in place. -/
def ruleDay (path : Path) (key : String) (value : Value) : Reading (Option RuleDay) :=
  match value with
  | .string name => pure (some (.named name))
  | .object _ => do
    let found ← day path (Path.join key "day_schedule") value
    pure (found.map .inline)
  | other => do mismatch path .daySchedule other; pure none

/-- One rule. -/
def rule (path : Path) (field : String × Value) : Reading (Option LooseRule) := do
  let path := path.child field.1
  whenSome (← object path field.2) fun fields => do
    checkFields path ruleFields fields
    let name ← nameOr path fields field.1
    let days ← appliesTo path fields
    whenSome (← required path fields "day_schedule") fun value => do
      let found ← ruleDay (path.child "day_schedule") field.1 value
      pure (found.map fun day => ⟨field.1, name, days, day⟩)

/-- Rules with positions for their inline days, counted on from a number of days. -/
def placeRules (count : Nat) : List LooseRule → List Rule
  | [] => []
  | r :: rest =>
    match r.day with
    | .named key => ⟨r.key, r.name, r.appliesTo, .named key⟩ :: placeRules count rest
    | .inline _ => ⟨r.key, r.name, r.appliesTo, .inline count⟩ :: placeRules (count + 1) rest

/-- The days written inside rules. -/
def inlineDays (rules : List LooseRule) : List DayProfile :=
  rules.filterMap fun r => match r.day with
    | .inline day => some day
    | .named _ => none

/-! ### Schedules -/

/-- The fields of a schedule. -/
def scheduleFields : List String :=
  ["name", "default_day", "summer_design_day", "winter_design_day", "day_schedules",
    "schedule_rules"]

/-- A day of a schedule that may be missing. -/
def namedDay (path : Path) (fields : List (String × Value)) (key : String) :
    Reading (Option DayProfile) :=
  whenSome (Value.field? fields key) (day (path.child key) key)

/-- A table of entries that may be missing. -/
def optionalTable {α : Type} (path : Path) (fields : List (String × Value)) (key : String)
    (read : Path → String × Value → Reading (Option α)) : Reading (List α) := do
  let found ← whenSome (Value.field? fields key) fun value => do
    whenSome (← object (path.child key) value) fun table => do
      pure (some (← collect (read (path.child key)) table))
  pure (found.getD [])

/-- The position of an optional day after a number of days. -/
def position? (count : Nat) (day : Option DayProfile) : Option Nat := day.map fun _ => count

/-- One schedule. -/
def schedule (path : Path) (field : String × Value) : Reading (Option Schedule) := do
  let path := path.child field.1
  whenSome (← object path field.2) fun fields => do
    checkFields path scheduleFields fields
    let name ← nameOr path fields field.1
    let default ← namedDay path fields "default_day"
    let summer ← namedDay path fields "summer_design_day"
    let winter ← namedDay path fields "winter_design_day"
    let custom ← optionalTable path fields "day_schedules" fun path f =>
      day (path.child f.1) f.1 f.2
    let rules ← optionalTable path fields "schedule_rules" rule
    let declared := default.toList ++ summer.toList ++ winter.toList ++ custom
    pure (some
      { key := field.1
        name := name
        days := declared ++ inlineDays rules
        defaultDay := position? 0 default
        summerDesignDay := position? default.toList.length summer
        winterDesignDay := position? (default.toList ++ summer.toList).length winter
        rules := placeRules declared.length rules })

/-- The table of schedules. -/
def schedules (path : Path) (value : Value) : Reading (Option (List Schedule)) := do
  whenSome (← object path value) fun fields => do
    pure (some (← collect (schedule path) fields))

end HvacModel.Document.Read
