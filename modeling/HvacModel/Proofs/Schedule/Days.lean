import HvacModel.Proofs.Related
import HvacModel.Proofs.Schedule.Week
import HvacModel.Proofs.Skeleton.Resolve

/-! # Positions of days

A compiled schedule holds positions of its days: one for each weekday and up to two for design days.
Nothing checks them on the way from a document, so they are in range exactly when the positions that
the document uses are (`CompiledSchedule.daysInRange_iff`); and they are in range exactly when no
accessor of the schedule misses its day (`CompiledSchedule.answers_iff`). -/

namespace HvacModel

open Skeleton

namespace Document.Schedule

/-- The position that a rule selects, if it names a day that is there. -/
def rulePosition? (s : Schedule) (r : Rule) : Option Nat :=
  match r.day with
  | .inline index => some index
  | .named key => s.dayByKey? key

/-- The position of the day that holds on a weekday, read off the rules. -/
def heldDay? (s : Schedule) (d : Weekday) : Option Nat :=
  match s.rules.find? fun r => r.appliesTo.contains d with
  | some r => s.rulePosition? r
  | none => s.defaultDay

/-- A day that is found by its key is a day, and has the key. -/
theorem exists_of_dayByKey? {s : Schedule} {key : String} {i : Nat}
    (h : s.dayByKey? key = some i) : ∃ p, s.days[i]? = some p ∧ p.key = key := by
  unfold dayByKey? at h
  cases hi : s.days.findIdx? fun p => p.key = key with
  | none => simp [hi] at h
  | some index =>
      simp only [hi] at h
      split at h
      · cases h
      · cases h
        obtain ⟨hlt, hkey, -⟩ := List.findIdx?_eq_some_iff_getElem.mp hi
        exact ⟨s.days[i], List.getElem?_eq_getElem hlt, by simpa using hkey⟩

/-- A day that is not found by its key is the day of a rule, or stands behind one that has its key.
-/
theorem exists_inline_of_dayByKey? {s : Schedule} {key : String} {i : Nat} {p : DayProfile}
    (h : s.dayByKey? key = none) (hp : s.days[i]? = some p) (hkey : p.key = key) :
    ∃ j q, j ≤ i ∧ s.isInline j = true ∧ s.days[j]? = some q ∧ q.key = key := by
  obtain ⟨hi, rfl⟩ := List.getElem?_eq_some_iff.mp hp
  cases hfound : s.days.findIdx? fun p => p.key = key with
  | none =>
      have hne := List.findIdx?_eq_none_iff.mp hfound _ (List.getElem_mem hi)
      simp [hkey] at hne
  | some j =>
      obtain ⟨hj, hfirst, hbefore⟩ := List.findIdx?_eq_some_iff_getElem.mp hfound
      have hle : j ≤ i := by
        by_contra hlt
        have hne := hbefore i (Nat.lt_of_not_le hlt)
        simp [hkey] at hne
      refine ⟨j, s.days[j], hle, ?_, List.getElem?_eq_getElem hj, by simpa using hfirst⟩
      by_contra hinline
      rw [dayByKey?, hfound] at h
      exact absurd h (by simp [hinline])

/-- The positions that a schedule uses are positions of its days. -/
structure DaysDeclared (s : Schedule) : Prop where
  held : ∀ d i, s.heldDay? d = some i → i < s.days.length
  summer : ∀ i, s.summerDesignDay = some i → i < s.days.length
  winter : ∀ i, s.winterDesignDay = some i → i < s.days.length

end Document.Schedule

namespace CompiledSchedule

/-- The positions that a compiled schedule holds are positions of its days. -/
structure DaysInRange (s : CompiledSchedule) : Prop where
  week : ∀ d, s.week.get d < s.days.length
  summer : ∀ i, s.summerDesignDay = some i → i < s.days.length
  winter : ∀ i, s.winterDesignDay = some i → i < s.days.length

/-- Every accessor of a schedule finds the day it asks for. -/
structure Answers (s : CompiledSchedule) : Prop where
  day : ∀ d, ∃ p, s.day? d = some p
  value : ∀ d time, ∃ x, s.valueAt? d time = some x
  summer : ∀ i, s.summerDesignDay = some i → ∃ p, s.days[i]? = some p
  winter : ∀ i, s.winterDesignDay = some i → ∃ p, s.days[i]? = some p

theorem exists_getElem?_iff {α : Type} (list : List α) (i : Nat) :
    (∃ a, list[i]? = some a) ↔ i < list.length := by
  rw [← Option.isSome_iff_exists, isSome_getElem?]

theorem exists_valueAt?_iff (s : CompiledSchedule) (d : Weekday) (time : TimeOfDay) :
    (∃ x, s.valueAt? d time = some x) ↔ s.week.get d < s.days.length := by
  rw [← exists_getElem?_iff]
  unfold valueAt? day?
  cases s.days[s.week.get d]? <;> simp

theorem answers_iff (s : CompiledSchedule) : s.Answers ↔ s.DaysInRange := by
  constructor
  · rintro ⟨hday, -, hsummer, hwinter⟩
    exact ⟨fun d => (exists_getElem?_iff _ _).mp (hday d),
      fun i hi => (exists_getElem?_iff _ _).mp (hsummer i hi),
      fun i hi => (exists_getElem?_iff _ _).mp (hwinter i hi)⟩
  · rintro ⟨hweek, hsummer, hwinter⟩
    exact ⟨fun d => (exists_getElem?_iff _ _).mpr (hweek d),
      fun d time => (exists_valueAt?_iff s d time).mpr (hweek d),
      fun i hi => (exists_getElem?_iff _ _).mpr (hsummer i hi),
      fun i hi => (exists_getElem?_iff _ _).mpr (hwinter i hi)⟩

end CompiledSchedule

/-! ### From the document -/

theorem selects_iff (s : Document.Schedule) (r : Document.Rule) (i : Nat) :
    Selects s r i ↔ s.rulePosition? r = some i := by
  unfold Selects Document.Schedule.rulePosition?
  cases r.day with
  | inline index => rw [Option.some.injEq, eq_comm]
  | named key => rfl

/-- The first rule of a weekday has the position it selects. -/
theorem find?_zip_of_selects {s : Document.Schedule} {rules : List Document.Rule}
    {positions : List Nat} (h : List.Forall₂ (Selects s) rules positions) (d : Weekday) :
    ((rules.zip positions).find? fun r => r.1.appliesTo.contains d).map Prod.snd =
      (rules.find? fun r => r.appliesTo.contains d).bind s.rulePosition? := by
  induction h with
  | nil => rfl
  | @cons r i rules positions hri _ ih =>
      rw [List.zip_cons_cons]
      by_cases hd : r.appliesTo.contains d = true
      · rw [List.find?_cons_of_pos (by simpa using hd), List.find?_cons_of_pos (by simpa using hd)]
        exact ((selects_iff s r i).mp hri).symm
      · rw [List.find?_cons_of_neg (by simpa using hd), List.find?_cons_of_neg (by simpa using hd),
          ih]

/-- Once no named day is missing, the links hold every weekday by the day of the document. -/
theorem holdingDay?_eq {s : Document.Schedule} {l : ScheduleLinks} (hl : IsLinked s l)
    (d : Weekday) : Schedule.holdingDay? s l.ruleDays d = s.heldDay? d := by
  unfold Schedule.holdingDay? Document.Schedule.heldDay?
  rw [find?_zip_of_selects hl.2]
  cases hr : s.rules.find? fun r => r.appliesTo.contains d with
  | none => rfl
  | some r =>
      obtain ⟨i, -, hi⟩ := hl.2.exists_right (List.mem_of_find?_eq_some hr)
      have hi := (selects_iff s r i).mp hi
      simp only [Option.bind_some, hi, Option.some_or]

theorem CompiledSchedule.daysInRange_iff {s : Document.Schedule} {l : ScheduleLinks}
    {c : CompiledSchedule} (hl : IsLinked s l)
    (hc : Schedule.compile l.id s l.ruleDays = .ok c) : c.DaysInRange ↔ s.DaysDeclared := by
  obtain ⟨week, hweek, rfl⟩ := (Schedule.compile_eq_ok_iff l.id s l.ruleDays c).mp hc
  simp only [holdingDay?_eq hl] at hweek
  constructor
  · rintro ⟨hdays, hsummer, hwinter⟩
    refine ⟨fun d i hi => ?_, hsummer, hwinter⟩
    rw [hweek d, Option.some.injEq] at hi
    exact hi ▸ hdays d
  · rintro ⟨hheld, hsummer, hwinter⟩
    exact ⟨fun d => hheld d _ (hweek d), hsummer, hwinter⟩

end HvacModel
