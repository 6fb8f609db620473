import Mathlib.Data.List.Forall2
import HvacModel.Schedule.Compile

/-! # The day of a weekday

Rules claim weekdays in their order, so after all of them a weekday belongs to the first rule whose
set contains it (`get_claimAll`); what no rule claims falls back to the default day.
`Schedule.holdingDay?` says this without weeks and claims, and `Schedule.compile_eq_ok_iff` that a
schedule compiles exactly when every weekday has such a day, into the week of those days. -/

namespace HvacModel

/-! ### Complete weeks -/

namespace Week

variable {α : Type}

@[simp]
theorem get_constant (a : α) (d : Weekday) : (constant a).get d = a := get_ofFn _ d

/-- A week is completed by the week of its values. -/
theorem complete_eq_ok_iff (w : Week (Option α)) (v : Week α) :
    w.complete = .ok v ↔ ∀ d, w.get d = some (v.get d) := by
  constructor
  · intro h
    unfold complete at h
    split at h
    · cases h
      intro d
      cases d <;> rfl
    · cases h
  · intro h
    have hw : w = ofFn fun d => some (v.get d) := ext_get fun d => by rw [h, get_ofFn]
    rw [hw]
    rfl

end Week

namespace Schedule

/-! ### Claims -/

theorem get_claim (claims : Week (Option Nat)) (days : WeekdaySet) (day : Nat) (d : Weekday) :
    (claim claims days day).get d =
      (claims.get d).or (if days.contains d then some day else none) := by
  rw [claim, Week.get_ofFn, gains]
  cases claims.get d with
  | none => simp
  | some claimed => simp

/-- A weekday that is free belongs to the first rule that contains it. -/
theorem get_claimAll (claims : Week (Option Nat)) (rules : List (Document.Rule × Nat))
    (d : Weekday) :
    (claimAll claims rules).1.get d =
      (claims.get d).or ((rules.find? fun r => r.1.appliesTo.contains d).map Prod.snd) := by
  induction rules generalizing claims with
  | nil => simp [claimAll]
  | cons r rest ih =>
      obtain ⟨rule, day⟩ := r
      rw [claimAll]
      dsimp only
      rw [ih, get_claim, Option.or_assoc]
      by_cases h : rule.appliesTo.contains d = true
      · rw [if_pos h, List.find?_cons_of_pos (by simpa using h)]
        rfl
      · rw [if_neg h, List.find?_cons_of_neg (by simpa using h), Option.none_or]

/-! ### Compiled schedules -/

/-- The position of the day that holds on a weekday: that of the first rule which applies, else the
default day. -/
def holdingDay? (s : Document.Schedule) (ruleDays : List Nat) (d : Weekday) : Option Nat :=
  (((s.rules.zip ruleDays).find? fun r => r.1.appliesTo.contains d).map Prod.snd).or s.defaultDay

theorem get_withDefault_claimAll (s : Document.Schedule) (ruleDays : List Nat) (d : Weekday) :
    (withDefault s.defaultDay (claimAll (.constant none) (s.rules.zip ruleDays)).1).get d =
      holdingDay? s ruleDays d := by
  rw [withDefault, Week.get_ofFn, get_claimAll, Week.get_constant, Option.none_or, holdingDay?]

/-- The schedule that has a given week. -/
def compiled (id : Handle .schedule) (s : Document.Schedule) (ruleDays : List Nat)
    (week : Week Nat) : CompiledSchedule :=
  { id := id
    key := s.key
    name := s.name
    days := s.days
    week := week
    summerDesignDay := s.summerDesignDay
    winterDesignDay := s.winterDesignDay
    inertRules := (claimAll (.constant none) (s.rules.zip ruleDays)).2 }

theorem compile_eq_ok_iff (id : Handle .schedule) (s : Document.Schedule) (ruleDays : List Nat)
    (c : CompiledSchedule) :
    compile id s ruleDays = .ok c ↔
      ∃ week, (∀ d, holdingDay? s ruleDays d = some (week.get d)) ∧
        c = compiled id s ruleDays week := by
  simp only [← get_withDefault_claimAll, ← Week.complete_eq_ok_iff]
  unfold compile compiled
  dsimp only
  cases (withDefault s.defaultDay
      (claimAll (.constant none) (s.rules.zip ruleDays)).1).complete with
  | error missing => simp
  | ok week => simp [eq_comm]

/-- Schedules compile together when each of them does. -/
theorem forall₂_of_compileAll {pairs : List (Document.Schedule × Skeleton.ScheduleLinks)}
    {list : List CompiledSchedule} (h : compileAll pairs = .ok list) :
    List.Forall₂ (fun p c => compile p.2.id p.1 p.2.ruleDays = .ok c) pairs list := by
  induction pairs generalizing list with
  | nil =>
      cases h
      exact .nil
  | cons p rest ih =>
      rw [compileAll] at h
      split at h
      · rename_i first more hfirst hmore
        cases h
        exact .cons hfirst (ih hmore)
      all_goals cases h

end Schedule

end HvacModel
