import HvacModel.Weekday

/-! # Weeks

A `Week` holds one value for each weekday.  `Week.get` is the view of a week: weeks with the same
values on every weekday are equal (`Week.ext_get`), and `get_ofFn` says that a week made from a
function gives the values of the function. -/

namespace HvacModel

/-- One value for each weekday. -/
structure Week (α : Type) where
  monday : α
  tuesday : α
  wednesday : α
  thursday : α
  friday : α
  saturday : α
  sunday : α
deriving DecidableEq, Repr

namespace Week

variable {α β : Type}

/-- The value of a weekday. -/
def get (w : Week α) : Weekday → α
  | .monday => w.monday
  | .tuesday => w.tuesday
  | .wednesday => w.wednesday
  | .thursday => w.thursday
  | .friday => w.friday
  | .saturday => w.saturday
  | .sunday => w.sunday

/-- The week of a function. -/
def ofFn (f : Weekday → α) : Week α :=
  ⟨f .monday, f .tuesday, f .wednesday, f .thursday, f .friday, f .saturday, f .sunday⟩

@[simp]
theorem get_ofFn (f : Weekday → α) (d : Weekday) : (ofFn f).get d = f d := by cases d <;> rfl

theorem ext_get {v w : Week α} (h : ∀ d, v.get d = w.get d) : v = w := by
  cases v; cases w
  have h1 := h .monday
  have h2 := h .tuesday
  have h3 := h .wednesday
  have h4 := h .thursday
  have h5 := h .friday
  have h6 := h .saturday
  have h7 := h .sunday
  simp only [get] at h1 h2 h3 h4 h5 h6 h7
  simp [*]

/-- One value for the whole week. -/
def constant (a : α) : Week α := ofFn fun _ => a

/-- The values, Monday first. -/
def toList (w : Week α) : List α := Weekday.all.map w.get

/-- A week whose every value is there, or the weekdays that lack one, Monday first. -/
def complete (w : Week (Option α)) : Except (List Weekday) (Week α) :=
  match w with
  | ⟨some a, some b, some c, some d, some e, some f, some g⟩ => .ok ⟨a, b, c, d, e, f, g⟩
  | w => .error (Weekday.all.filter fun day => (w.get day).isNone)

end Week

end HvacModel
