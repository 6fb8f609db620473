import HvacModel.Value

/-! # Times of day

A `TimeOfDay` is a number of minutes from `00:00` to `24:00`, both included: a day profile can
name the end of its day.  The written form is one or two digits of the hour, a colon and two
digits of the minute; `TimeOfDay.render` always writes two digits of the hour.

`TimeOfDay.read` says why a text is no time.  The text is measured in bytes of UTF-8, so a
character outside ASCII counts as more than one, and only ASCII digits are digits. -/

namespace HvacModel

/-- A time of day with minute resolution. -/
structure TimeOfDay where
  minutes : Nat
  minutes_le : minutes ≤ 1440
deriving DecidableEq, Repr

/-- Why a text is no time of day. -/
inductive TimeOfDay.Fault where
  | shape
  | digits
  | minute
  | pastEnd
deriving DecidableEq, Repr

/-- The reason in words. -/
def TimeOfDay.Fault.reason : TimeOfDay.Fault → String
  | shape => "expected HH:MM"
  | digits => "hour and minute must be digits"
  | minute => "minute out of range"
  | pastEnd => "past 24:00"

namespace TimeOfDay

def midnight : TimeOfDay := ⟨0, by omega⟩

def endOfDay : TimeOfDay := ⟨1440, by omega⟩

instance : Inhabited TimeOfDay := ⟨midnight⟩

instance : LT TimeOfDay := ⟨fun a b => a.minutes < b.minutes⟩

instance : LE TimeOfDay := ⟨fun a b => a.minutes ≤ b.minutes⟩

instance (a b : TimeOfDay) : Decidable (a < b) :=
  inferInstanceAs (Decidable (a.minutes < b.minutes))

instance (a b : TimeOfDay) : Decidable (a ≤ b) :=
  inferInstanceAs (Decidable (a.minutes ≤ b.minutes))

instance : Ord TimeOfDay := ⟨fun a b => compare a.minutes b.minutes⟩

theorem lt_iff (a b : TimeOfDay) : a < b ↔ a.minutes < b.minutes := Iff.rfl

theorem le_iff (a b : TimeOfDay) : a ≤ b ↔ a.minutes ≤ b.minutes := Iff.rfl

theorem ext_minutes {a b : TimeOfDay} (h : a.minutes = b.minutes) : a = b := by
  cases a; cases b; simp_all

/-- The time so many minutes after midnight. -/
def ofMinutes? (minutes : Nat) : Option TimeOfDay :=
  if h : minutes ≤ 1440 then some ⟨minutes, h⟩ else none

/-- The time of an hour and a minute; `24:00` is the last one. -/
def ofHourMinute? (hour minute : Nat) : Option TimeOfDay :=
  if minute < 60 then ofMinutes? (60 * hour + minute) else none

def hour (t : TimeOfDay) : Nat := t.minutes / 60

def minute (t : TimeOfDay) : Nat := t.minutes % 60

def isEndOfDay (t : TimeOfDay) : Bool := t.minutes = 1440

/-! ### Written form -/

/-- The character of a decimal digit. -/
def digitChar (n : Nat) : Char := Char.ofNat (48 + n)

/-- A number below one hundred in two digits. -/
def twoDigits (n : Nat) : List Char := [digitChar (n / 10), digitChar (n % 10)]

/-- `HH:MM`. -/
def render (t : TimeOfDay) : String :=
  String.ofList (twoDigits t.hour ++ ':' :: twoDigits t.minute)

def isDigit (c : Char) : Bool := '0' ≤ c && c ≤ '9'

/-- Length in bytes of UTF-8. -/
def byteLength (cs : List Char) : Nat := cs.foldr (fun c n => c.utf8Size + n) 0

/-- The time of the digits of its hour and minute. -/
def ofDigits (hour minute : List Char) : Except Fault TimeOfDay :=
  if (hour ++ minute).all isDigit then
    if 60 ≤ Decimal.natOfDigits minute then .error .minute
    else match ofHourMinute? (Decimal.natOfDigits hour) (Decimal.natOfDigits minute) with
      | some t => .ok t
      | none => .error .pastEnd
  else .error .digits

/-- The time of a sequence of characters: the first colon ends the hour. -/
def ofChars (cs : List Char) : Except Fault TimeOfDay :=
  match cs.dropWhile (· ≠ ':') with
  | [] => .error .shape
  | _ :: minute =>
    let hour := cs.takeWhile (· ≠ ':')
    if hour = [] ∨ 2 < byteLength hour ∨ byteLength minute ≠ 2 then .error .shape
    else ofDigits hour minute

/-- The time that a text denotes. -/
def read (text : String) : Except Fault TimeOfDay := ofChars text.toList

/-- The message about a text that is no time. -/
def Fault.message (fault : Fault) (text : String) : String :=
  "Invalid time of day '" ++ text ++ "': " ++ fault.reason

/-- A time as a raw value. -/
def encode (t : TimeOfDay) : Value := .string t.render

/-- The time of a raw value. -/
def decode? : Value → Option TimeOfDay
  | .string text => (read text).toOption
  | _ => none

end TimeOfDay

end HvacModel
