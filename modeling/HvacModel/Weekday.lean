import HvacModel.Value

/-! # Weekdays and sets of weekdays

A `WeekdaySet` is an eight-bit mask, Monday the lowest bit; the serialized form of a set is the
mask itself, so the eighth bit, which no weekday has, is kept where it is given.  Membership is
the view of a set: `contains_insert`, `contains_union` and `contains_ofList` say what the
operations do to it. -/

namespace HvacModel

inductive Weekday where
  | monday | tuesday | wednesday | thursday | friday | saturday | sunday
deriving DecidableEq, Repr

namespace Weekday

/-- All weekdays, Monday first. -/
def all : List Weekday := [monday, tuesday, wednesday, thursday, friday, saturday, sunday]

theorem mem_all (d : Weekday) : d ∈ all := by cases d <;> simp [all]

/-- Position in the week, Monday at zero. -/
def index : Weekday → Nat
  | monday => 0
  | tuesday => 1
  | wednesday => 2
  | thursday => 3
  | friday => 4
  | saturday => 5
  | sunday => 6

/-- The three-letter name. -/
def short : Weekday → String
  | monday => "Mon"
  | tuesday => "Tue"
  | wednesday => "Wed"
  | thursday => "Thu"
  | friday => "Fri"
  | saturday => "Sat"
  | sunday => "Sun"

/-- The full name in lower case. -/
def fullName : Weekday → String
  | monday => "monday"
  | tuesday => "tuesday"
  | wednesday => "wednesday"
  | thursday => "thursday"
  | friday => "friday"
  | saturday => "saturday"
  | sunday => "sunday"

/-- The weekday of a three-letter or full English name in any case. -/
def ofName? (text : String) : Option Weekday :=
  let lower := text.toLower
  all.find? fun d => lower = d.short.toLower || lower = d.fullName

end Weekday

/-- A set of weekdays as a mask. -/
structure WeekdaySet where
  mask : BitVec 8
deriving DecidableEq, Repr

namespace WeekdaySet

def empty : WeekdaySet := ⟨0⟩

/-- Monday to Friday. -/
def weekdays : WeekdaySet := ⟨31⟩

/-- Saturday and Sunday. -/
def weekend : WeekdaySet := ⟨96⟩

def insert (s : WeekdaySet) (d : Weekday) : WeekdaySet := ⟨s.mask ||| BitVec.twoPow 8 d.index⟩

def contains (s : WeekdaySet) (d : Weekday) : Bool := s.mask.getLsbD d.index

def union (s t : WeekdaySet) : WeekdaySet := ⟨s.mask ||| t.mask⟩

def isEmpty (s : WeekdaySet) : Bool := s.mask = 0

def ofList (days : List Weekday) : WeekdaySet := days.foldl insert empty

/-- The mask as a number. -/
def bits (s : WeekdaySet) : Nat := s.mask.toNat

/-- The set of a mask below 256. -/
def ofBits? (n : Nat) : Option WeekdaySet := if n < 256 then some ⟨BitVec.ofNat 8 n⟩ else none

def encode (s : WeekdaySet) : Value := .ofNat s.bits

def decode? : Value → Option WeekdaySet
  | .number n => (n.natBelow? 256).bind ofBits?
  | _ => none

/-! ### Membership -/

@[simp]
theorem contains_empty (d : Weekday) : empty.contains d = false := by
  cases d <;> rfl

@[simp]
theorem contains_insert (s : WeekdaySet) (d e : Weekday) :
    (s.insert d).contains e = (s.contains e || decide (d = e)) := by
  cases d <;> cases e <;> simp [insert, contains, Weekday.index]

@[simp]
theorem contains_union (s t : WeekdaySet) (d : Weekday) :
    (s.union t).contains d = (s.contains d || t.contains d) := by
  simp [union, contains]

theorem contains_foldl_insert (days : List Weekday) (s : WeekdaySet) (d : Weekday) :
    (days.foldl insert s).contains d = (s.contains d || days.contains d) := by
  induction days generalizing s with
  | nil => simp
  | cons e days ih =>
    rw [List.foldl_cons, ih, contains_insert, List.contains_cons, Bool.or_assoc]
    congr 1
    by_cases h : e = d
    · simp [h]
    · have h' : d ≠ e := fun x => h x.symm
      simp [h, h']

theorem contains_ofList (days : List Weekday) (d : Weekday) :
    (ofList days).contains d = days.contains d := by
  simp [ofList, contains_foldl_insert]

end WeekdaySet

end HvacModel
