import HvacModel.Proofs.Report
import HvacModel.Proofs.Schedule.Week
import HvacModel.Proofs.Skeleton.Reference

/-! # Weekdays without a day, rules without a weekday

Two lists about a schedule, read off its rules.  `Document.Schedule.uncovered` are the weekdays that
no rule contains when there is no default day: a schedule compiles exactly when there are none
(`failsWith_compile`), and the schedules of a document are refused with those of all of them
(`failsWith_compileAll`).  `Document.Schedule.inert` are the rules whose weekdays all stand in
earlier rules (`inertRules_of_compile`). -/

namespace HvacModel

namespace Document.Schedule

/-- Whether a day holds on a weekday. -/
def covers (s : Schedule) (d : Weekday) : Bool :=
  s.defaultDay.isSome || s.rules.any fun r => r.appliesTo.contains d

/-- The weekdays on which no day holds, Monday first. -/
def uncovered (s : Schedule) : List UnresolvedWeekday :=
  (Weekday.all.filter fun d => !s.covers d).map fun d => ⟨s.key, d⟩

/-- Whether every weekday of a rule stands in an earlier one. -/
def superseded (before : List Rule) (r : Rule) : Bool :=
  Weekday.all.all fun d => !r.appliesTo.contains d || before.any fun b => b.appliesTo.contains d

/-- The keys of the rules that get no weekday. -/
def inert (s : Schedule) : List String :=
  ((splitsFrom [] s.rules).filter fun split => superseded split.1 split.2).map fun split =>
    split.2.key

end Document.Schedule

open Document.Schedule (superseded)

theorem Week.failsWith_complete {α : Type} (w : Week (Option α)) :
    FailsWith w.complete (Weekday.all.filter fun d => (w.get d).isNone) := by
  cases h : w.complete with
  | ok v =>
      have hnone : (Weekday.all.filter fun d => (w.get d).isNone) = [] := by
        rw [List.filter_eq_nil_iff]
        intro d _
        simp [(complete_eq_ok_iff w v).mp h d]
      rw [hnone]
      exact .ok v
  | error missing =>
      have hmissing : missing = Weekday.all.filter fun d => (w.get d).isNone := by
        unfold complete at h
        split at h
        · cases h
        · exact (Except.error.inj h).symm
      rw [← hmissing]
      refine .error fun hnil => ?_
      have hall : ∀ d, (w.get d).isSome := by
        intro d
        have hd := List.filter_eq_nil_iff.mp (hmissing.symm.trans hnil) d (Weekday.mem_all d)
        simpa [Option.isSome_iff_ne_none] using hd
      rw [(complete_eq_ok_iff w (.ofFn fun d => (w.get d).get (hall d))).mpr (by simp)] at h
      cases h

namespace Schedule

/-! ### Weekdays -/

/-- No day is found for a weekday when none covers it. -/
theorem isNone_holdingDay? {s : Document.Schedule} {ruleDays : List Nat}
    (h : ruleDays.length = s.rules.length) (d : Weekday) :
    (holdingDay? s ruleDays d).isNone = !s.covers d := by
  have hrules : (s.rules.zip ruleDays).map Prod.fst = s.rules := List.map_fst_zip h.ge
  have hany : (s.rules.any fun r => r.appliesTo.contains d) =
      ((s.rules.zip ruleDays).find? fun r => r.1.appliesTo.contains d).isSome := by
    rw [List.isSome_find?]
    conv_lhs => rw [← hrules, List.any_map]
    rfl
  unfold holdingDay? Document.Schedule.covers
  rw [hany]
  cases (s.rules.zip ruleDays).find? fun r => r.1.appliesTo.contains d with
  | none => cases s.defaultDay <;> rfl
  | some r => cases s.defaultDay <;> rfl

/-- A schedule is refused with the weekdays that it leaves uncovered. -/
theorem failsWith_compile (id : Handle .schedule) {s : Document.Schedule} {ruleDays : List Nat}
    (h : ruleDays.length = s.rules.length) : FailsWith (compile id s ruleDays) s.uncovered := by
  have hcomplete := (withDefault s.defaultDay
    (claimAll (.constant none) (s.rules.zip ruleDays)).1).failsWith_complete
  simp only [get_withDefault_claimAll, isNone_holdingDay? h] at hcomplete
  unfold compile Document.Schedule.uncovered
  dsimp only
  generalize (Weekday.all.filter fun d => !s.covers d) = missing at hcomplete ⊢
  generalize (withDefault s.defaultDay
    (claimAll (.constant none) (s.rules.zip ruleDays)).1).complete = result at hcomplete ⊢
  cases hcomplete with
  | ok week => exact .ok _
  | error hne => exact .error (by simpa using hne)

/-- Schedules are refused together, with the uncovered weekdays of all of them. -/
theorem failsWith_compileAll {pairs : List (Document.Schedule × Skeleton.ScheduleLinks)}
    (h : ∀ p ∈ pairs, p.2.ruleDays.length = p.1.rules.length) :
    FailsWith (compileAll pairs) (pairs.flatMap fun p => p.1.uncovered) := by
  induction pairs with
  | nil => exact .ok []
  | cons p rest ih =>
      obtain ⟨s, links⟩ := p
      have hfirst := failsWith_compile links.id (h (s, links) List.mem_cons_self)
      have hrest := ih fun p hp => h p (List.mem_cons_of_mem _ hp)
      rw [compileAll, List.flatMap_cons]
      generalize compile links.id s links.ruleDays = first, s.uncovered = missing at hfirst ⊢
      generalize compileAll rest = more, (rest.flatMap fun p => p.1.uncovered) = others at hrest ⊢
      cases hfirst with
      | ok c =>
          cases hrest with
          | ok list => exact .ok _
          | error hne => exact .error hne
      | error hne =>
          cases hrest with
          | ok list =>
              rw [List.append_nil]
              exact .error hne
          | error hmore => exact .error (List.append_ne_nil_of_left_ne_nil hne _)

/-! ### Rules -/

/-- A rule gains nothing when the weekdays that are taken are those of the rules before it, and
every weekday of its set is among them. -/
theorem any_gains {claims : Week (Option Nat)} {before : List Document.Rule}
    (h : ∀ d, (claims.get d).isSome = before.any fun b => b.appliesTo.contains d)
    (r : Document.Rule) :
    Weekday.all.any (gains claims r.appliesTo) = !superseded before r := by
  unfold superseded
  rw [List.not_all_eq_any_not]
  refine congrArg Weekday.all.any (funext fun d => ?_)
  rw [gains, ← h, ← Option.not_isSome]
  cases (claims.get d).isSome <;> cases r.appliesTo.contains d <;> rfl

/-- After a rule has claimed its weekdays, those of the rules up to it are taken. -/
theorem isSome_claim {claims : Week (Option Nat)} {before : List Document.Rule}
    (h : ∀ d, (claims.get d).isSome = before.any fun b => b.appliesTo.contains d)
    (r : Document.Rule) (day : Nat) : ∀ d, ((claim claims r.appliesTo day).get d).isSome =
      (before ++ [r]).any fun b => b.appliesTo.contains d := by
  intro d
  rw [get_claim, List.any_append, ← h, List.any_cons, List.any_nil, Bool.or_false]
  cases claims.get d <;> cases r.appliesTo.contains d <;> rfl

/-- After claims for the weekdays of the rules before, the inert rules are the superseded ones. -/
theorem claimAll_snd {claims : Week (Option Nat)} {before : List Document.Rule}
    (hclaims : ∀ d, (claims.get d).isSome = before.any fun b => b.appliesTo.contains d)
    {rules : List Document.Rule} {ruleDays : List Nat} (h : ruleDays.length = rules.length) :
    (claimAll claims (rules.zip ruleDays)).2 =
      ((splitsFrom before rules).filter fun split => superseded split.1 split.2).map fun split =>
        split.2.key := by
  induction rules generalizing claims before ruleDays with
  | nil => rfl
  | cons r rest ih =>
      cases ruleDays with
      | nil => cases h
      | cons day days =>
          have hrest := ih (isSome_claim hclaims r day) (Nat.succ.inj h)
          rw [List.zip_cons_cons, claimAll, splitsFrom, List.filter_cons]
          dsimp only
          rw [hrest, any_gains hclaims]
          cases superseded before r <;> rfl

theorem inertRules_of_compile {id : Handle .schedule} {s : Document.Schedule}
    {ruleDays : List Nat} {c : CompiledSchedule} (h : compile id s ruleDays = .ok c)
    (hlength : ruleDays.length = s.rules.length) : c.inertRules = s.inert := by
  obtain ⟨week, -, rfl⟩ := (compile_eq_ok_iff id s ruleDays c).mp h
  exact claimAll_snd (fun d => by rw [Week.get_constant]; rfl) hlength

end Schedule

end HvacModel
