import HvacModel.Schedule.Week
import HvacModel.Skeleton.Basic

/-! # Compiled schedules

The rules of a schedule claim weekdays in their order: a rule gets the weekdays of its set that no
earlier rule has claimed, and a weekday that no rule claims falls back to the default day.  A rule
that gets no weekday is inert.  A design day is in the week only where a rule asks for it.

A `CompiledSchedule` answers what value holds at a time of a weekday; the day of a weekday is a
position in `days`. -/

namespace HvacModel

/-- A schedule with the day of every weekday. -/
structure CompiledSchedule where
  id : Handle .schedule
  key : String
  name : String
  days : List DayProfile
  week : Week Nat
  summerDesignDay : Option Nat
  winterDesignDay : Option Nat
  /-- The keys of the rules that got no weekday. -/
  inertRules : List String
deriving DecidableEq

/-- A weekday of a schedule on which no day holds. -/
structure UnresolvedWeekday where
  schedule : String
  weekday : Weekday
deriving DecidableEq, Repr

def UnresolvedWeekday.message (u : UnresolvedWeekday) : String :=
  "schedule '" ++ u.schedule ++ "': no day profile applies on " ++ u.weekday.short

/-! ### The weekly calendar -/

namespace Schedule

/-- The weekdays that a rule would get from a week of claims. -/
def gains (claims : Week (Option Nat)) (days : WeekdaySet) (d : Weekday) : Bool :=
  (claims.get d).isNone && days.contains d

/-- The claims after a rule has taken what is free of its set. -/
def claim (claims : Week (Option Nat)) (days : WeekdaySet) (day : Nat) : Week (Option Nat) :=
  .ofFn fun d => if gains claims days d then some day else claims.get d

/-- The claims of all rules after those already made, and the keys of the inert rules.  A rule is
given with the position of its day. -/
def claimAll (claims : Week (Option Nat)) :
    List (Document.Rule × Nat) → Week (Option Nat) × List String
  | [] => (claims, [])
  | (rule, day) :: rest =>
    let (final, inert) := claimAll (claim claims rule.appliesTo day) rest
    (final, if Weekday.all.any (gains claims rule.appliesTo) then inert else rule.key :: inert)

/-- The claims with the default day on the weekdays that are left. -/
def withDefault (default : Option Nat) (claims : Week (Option Nat)) : Week (Option Nat) :=
  .ofFn fun d => (claims.get d).or default

/-- Compile a schedule, given the position of the day that each rule selects. -/
def compile (id : Handle .schedule) (s : Document.Schedule) (ruleDays : List Nat) :
    Except (List UnresolvedWeekday) CompiledSchedule :=
  let (claims, inert) := claimAll (.constant none) (s.rules.zip ruleDays)
  match (withDefault s.defaultDay claims).complete with
  | .ok week =>
    .ok
      { id := id
        key := s.key
        name := s.name
        days := s.days
        week := week
        summerDesignDay := s.summerDesignDay
        winterDesignDay := s.winterDesignDay
        inertRules := inert }
  | .error missing => .error (missing.map fun d => ⟨s.key, d⟩)

/-- Compile the schedules of a document with their links, or list every weekday on which no day
holds, schedule by schedule. -/
def compileAll : List (Document.Schedule × Skeleton.ScheduleLinks) →
    Except (List UnresolvedWeekday) (List CompiledSchedule)
  | [] => .ok []
  | (s, links) :: rest =>
    match compile links.id s links.ruleDays, compileAll rest with
    | .ok first, .ok more => .ok (first :: more)
    | .ok _, .error errors => .error errors
    | .error errors, .ok _ => .error errors
    | .error errors, .error more => .error (errors ++ more)

end Schedule

/-! ### Queries -/

namespace CompiledSchedule

/-- The day of a weekday. -/
def day? (s : CompiledSchedule) (d : Weekday) : Option DayProfile := s.days[s.week.get d]?

/-- The value at a time of a weekday. -/
def valueAt? (s : CompiledSchedule) (d : Weekday) (time : TimeOfDay) : Option Float :=
  (s.day? d).map fun day => day.valueAt time

/-! ### Raw values -/

/-- A day as a raw value. -/
def encodeDay (d : DayProfile) : Value :=
  .object [("key", .string d.key), ("name", .string d.name),
    ("breakpoints", .ofList (fun p => .array [p.1.encode, .ofFloat p.2]) d.breakpoints)]

def encode (s : CompiledSchedule) : Value :=
  .object [("id", s.id.encode), ("key", .string s.key), ("name", .string s.name),
    ("days", .ofList encodeDay s.days), ("week", .ofList .ofNat s.week.toList),
    ("summer_design_day", .ofOption .ofNat s.summerDesignDay),
    ("winter_design_day", .ofOption .ofNat s.winterDesignDay)]

end CompiledSchedule

end HvacModel
