import HvacModel.TimeOfDay
import HvacModel.Attribute

/-! # Day profiles

A day profile is a step function of the time of day, given by its breakpoints in increasing order.
`DayProfile.valueAt` is the value of the last breakpoint that is not later than the time, found by
bisection; before the first breakpoint the first value holds, and a profile without breakpoints is
zero. -/

namespace HvacModel

/-- A day of a schedule: the key it is declared under, its name and its breakpoints. -/
structure DayProfile where
  key : String
  name : String
  breakpoints : List (TimeOfDay × Float)
deriving DecidableEq

/-- Halve the range of `size` positions from `base` until one is left, going to the upper half
whenever its first position satisfies the predicate. -/
def bisect (below : Nat → Bool) (base size : Nat) : Nat :=
  if size ≤ 1 then base
  else bisect below (if below (base + size / 2) then base + size / 2 else base) (size - size / 2)
termination_by size

/-- The number of positions at the front that satisfy a predicate, if no later one does. -/
def partitionPoint (below : Nat → Bool) (size : Nat) : Nat :=
  if size = 0 then 0
  else if below (bisect below 0 size) then bisect below 0 size + 1
  else bisect below 0 size

namespace DayProfile

/-- Whether the breakpoint at a position is not later than a time. -/
def reached (breakpoints : List (TimeOfDay × Float)) (time : TimeOfDay) (i : Nat) : Bool :=
  match breakpoints[i]? with
  | some b => b.1 ≤ time
  | none => false

/-- The value at a time of the day. -/
def valueAt (day : DayProfile) (time : TimeOfDay) : Float :=
  let count := partitionPoint (reached day.breakpoints time) day.breakpoints.length
  match day.breakpoints[count - 1]? with
  | some b => b.2
  | none => 0

/-- Whether adjacent elements of a list are related. -/
def adjacentAll {α : Type} (related : α → α → Bool) : List α → Bool
  | a :: b :: rest => related a b && adjacentAll related (b :: rest)
  | _ => true

/-- Whether all breakpoints have one value. -/
def isConstant (day : DayProfile) : Bool :=
  adjacentAll (fun a b => a.2 == b.2) day.breakpoints

end DayProfile

end HvacModel
