import HvacModel.Proofs.Grammar
import HvacModel.Document.Issue

/-! # What a raw schedule declares

The value of a schedule at a time of a weekday, read off its raw value: the first rule that applies
on the weekday gives the day, the default day where none does; a day is written in the rule or named
there; and in the table of the day the latest key that is not later than the time gives the value.
Nothing here refers to positions of days, sets of weekdays or sorted lists. -/

namespace HvacModel.Declared

open Grammar

/-- The entries under a key, none where there is no object. -/
def table (value : Value) (key : String) : Fields :=
  ((value.at? [.key key]).bind Value.fields?).getD []

/-- Whether a flag is there and set. -/
def flagged (value : Value) (key : String) : Bool :=
  match value.at? [.key key] with
  | some (.bool b) => b
  | _ => false

/-- Whether a rule applies on a weekday. -/
def applies (d : Weekday) (rule : Value) : Bool :=
  flagged rule (dayFlag d) ||
    (d ∈ [Weekday.monday, .tuesday, .wednesday, .thursday, .friday] &&
      flagged rule "apply_weekdays")

/-- The days that have a name: those with a field of their own, then those of the table. -/
def namedDays (schedule : Value) : Fields :=
  builtinDays.filterMap (fun key => (schedule.at? [.key key]).map fun day => (key, day)) ++
    table schedule "day_schedules"

/-- The day of a rule: a string names it, anything else is the day. -/
def ruleDay? (schedule rule : Value) : Option Value :=
  match rule.at? [.key "day_schedule"] with
  | some (.string name) => (namedDays schedule).lookup name
  | day => day

/-- The day that holds on a weekday. -/
def dayOn? (schedule : Value) (d : Weekday) : Option Value :=
  match (table schedule "schedule_rules").find? fun rule => applies d rule.2 with
  | some rule => ruleDay? schedule rule.2
  | none => schedule.at? [.key "default_day"]

/-- A number of a day holds at a time: it stands under the latest key not later than the time. -/
def HoldsAt (day : Value) (time : TimeOfDay) (x : Float) : Prop :=
  ∃ text n start, (text, Value.number n) ∈ table day "values" ∧ TimeOfDay.read text = .ok start ∧
    start ≤ time ∧ x = n.toFloat ∧
    ∀ e ∈ table day "values", ∀ other, TimeOfDay.read e.1 = .ok other → other ≤ time →
      other ≤ start

end HvacModel.Declared
