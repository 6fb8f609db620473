import HvacModel.Proofs.Schedule.Coverage

/-! # The calendar of a schedule

A weekday has the day of the first rule that contains it, by the position of the rule
(`holdingDay?_of_firstOn`), and the default day when no rule does.  A schedule is refused when there
is no default day for a weekday without rule, with all such weekdays.

A rule whose weekdays all stand in rules before it changes no claim (`claim_of_superseded`).  So a
schedule without its inert rules, `Document.Schedule.pruned`, compiles like the schedule itself, to
the same calendar, and no rule that is left is inert (`compile_pruned`). -/

namespace HvacModel

namespace Document.Schedule

/-- The rule at a position is the first that contains a weekday. -/
structure FirstOn (s : Schedule) (d : Weekday) (i : Nat) : Prop where
  contains : ∃ r, s.rules[i]? = some r ∧ r.appliesTo.contains d = true
  first : ∀ j r, j < i → s.rules[j]? = some r → r.appliesTo.contains d = false

/-- The rules that get a weekday, each with its day. -/
def kept (s : Schedule) (ruleDays : List Nat) : List (Rule × Nat) :=
  ((splitsFrom [] (s.rules.zip ruleDays)).filter fun split =>
    !superseded (split.1.map Prod.fst) split.2.1).map Prod.snd

/-- The schedule without the rules that get no weekday. -/
def pruned (s : Schedule) (ruleDays : List Nat) : Schedule :=
  { s with rules := (s.kept ruleDays).map Prod.fst }

end Document.Schedule

open Document.Schedule (superseded)

namespace Schedule

/-! ### Days of weekdays -/

/-- The first rule that contains a weekday gives its day. -/
theorem holdingDay?_of_firstOn {s : Document.Schedule} {ruleDays : List Nat}
    (h : ruleDays.length = s.rules.length) {d : Weekday} {i : Nat} (hi : s.FirstOn d i) :
    holdingDay? s ruleDays d = ruleDays[i]? := by
  obtain ⟨⟨r, hr, hcontains⟩, hfirst⟩ := hi
  obtain ⟨hlt, rfl⟩ := List.getElem?_eq_some_iff.mp hr
  have hday : i < ruleDays.length := h ▸ hlt
  have hfound : (s.rules.zip ruleDays).find? (fun r => r.1.appliesTo.contains d) =
      some (s.rules[i], ruleDays[i]) := by
    rw [List.find?_eq_some_iff_getElem]
    refine ⟨hcontains, i, by simp [hlt, hday], List.getElem_zip, fun j hj => ?_⟩
    have hrule := hfirst j s.rules[j] hj (List.getElem?_eq_getElem (by omega))
    simpa using hrule
  rw [holdingDay?, hfound, List.getElem?_eq_getElem hday]
  rfl

/-- A weekday that no rule contains has the default day. -/
theorem holdingDay?_of_forall {s : Document.Schedule} {d : Weekday}
    (h : ∀ r ∈ s.rules, r.appliesTo.contains d = false) (ruleDays : List Nat) :
    holdingDay? s ruleDays d = s.defaultDay := by
  have hnone : (s.rules.zip ruleDays).find? (fun r => r.1.appliesTo.contains d) = none := by
    rw [List.find?_eq_none]
    intro r hr
    simp [h r.1 (List.of_mem_zip hr).1]
  rw [holdingDay?, hnone]
  rfl

/-- Without a default day the uncovered weekdays are those that no rule contains. -/
theorem uncovered_of_none {s : Document.Schedule} (h : s.defaultDay = none) :
    s.uncovered = (Weekday.all.filter fun d =>
      s.rules.all fun r => !r.appliesTo.contains d).map fun d => ⟨s.key, d⟩ := by
  unfold Document.Schedule.uncovered Document.Schedule.covers
  simp only [h, Option.isSome_none, Bool.false_or, List.not_any_eq_all_not]

theorem uncovered_ne_nil_iff (s : Document.Schedule) : s.uncovered ≠ [] ↔
    s.defaultDay = none ∧ ∃ d, ∀ r ∈ s.rules, r.appliesTo.contains d = false := by
  cases h : s.defaultDay with
  | none =>
      rw [uncovered_of_none h]
      simp [Weekday.mem_all]
  | some day => simp [Document.Schedule.uncovered, Document.Schedule.covers, h]

/-! ### Inert rules -/

/-- A rule whose weekdays are all taken claims nothing. -/
theorem claim_of_superseded {claims : Week (Option Nat)} {before : List Document.Rule}
    (h : ∀ d, (claims.get d).isSome = before.any fun b => b.appliesTo.contains d)
    {r : Document.Rule} (hr : superseded before r = true) (day : Nat) :
    claim claims r.appliesTo day = claims := by
  have hgains := any_gains h r
  rw [hr, Bool.not_true, List.any_eq_false] at hgains
  apply Week.ext_get
  intro d
  rw [claim, Week.get_ofFn, if_neg (hgains d (Weekday.mem_all d))]

/-- The rules that get a weekday make the claims of all rules. -/
theorem claimAll_kept {claims : Week (Option Nat)} {before : List (Document.Rule × Nat)}
    (h : ∀ d, (claims.get d).isSome =
      (before.map Prod.fst).any fun b => b.appliesTo.contains d)
    (rules : List (Document.Rule × Nat)) :
    claimAll claims (((splitsFrom before rules).filter fun split =>
        !superseded (split.1.map Prod.fst) split.2.1).map Prod.snd) =
      ((claimAll claims rules).1, []) := by
  induction rules generalizing claims before with
  | nil => rfl
  | cons r rest ih =>
      obtain ⟨rule, day⟩ := r
      have hnext := isSome_claim h rule day
      have happend : before.map Prod.fst ++ [rule] = (before ++ [(rule, day)]).map Prod.fst := by
        rw [List.map_append, List.map_singleton]
      rw [happend] at hnext
      have hrest := ih hnext
      have hgains := any_gains h rule
      rw [splitsFrom]
      cases hr : superseded (before.map Prod.fst) rule with
      | true =>
          rw [claim_of_superseded h hr] at hrest
          rw [List.filter_cons_of_neg (by simpa using hr), hrest, claimAll,
            claim_of_superseded h hr]
      | false =>
          rw [hr] at hgains
          rw [List.filter_cons_of_pos (by simpa using hr), List.map_cons, claimAll, claimAll]
          dsimp only
          rw [hrest, hgains]
          rfl

/-- A schedule without its inert rules compiles like the schedule. -/
theorem compile_pruned (id : Handle .schedule) (s : Document.Schedule) (ruleDays : List Nat) :
    compile id (s.pruned ruleDays) ((s.kept ruleDays).map Prod.snd) =
      (compile id s ruleDays).map fun c => { c with inertRules := [] } := by
  have hzip : (s.pruned ruleDays).rules.zip ((s.kept ruleDays).map Prod.snd) = s.kept ruleDays :=
    (List.zip_of_prod rfl rfl).symm
  have hkept : claimAll (.constant none) (s.kept ruleDays) =
      ((claimAll (.constant none) (s.rules.zip ruleDays)).1, []) :=
    @claimAll_kept _ [] (fun d => by rw [Week.get_constant]; rfl) _
  unfold compile
  rw [hzip, hkept]
  dsimp only [Document.Schedule.pruned]
  cases (withDefault s.defaultDay
      (claimAll (.constant none) (s.rules.zip ruleDays)).1).complete with
  | ok week => rfl
  | error missing => rfl

/-! ### The calendar -/

/-- What a schedule compiles to, given the day of each rule.  It is refused exactly when there is no
default day and a weekday that no rule contains, and then with all these weekdays, Monday first.
Else a weekday has the day of the first rule that contains it, or the default day; the inert rules
are those whose weekdays all stand in rules before; and without them the schedule compiles to the
same. -/
theorem compile_exact (id : Handle .schedule) (s : Document.Schedule) (ruleDays : List Nat)
    (h : ruleDays.length = s.rules.length) :
    ((∃ found, compile id s ruleDays = .error found) ↔
      s.defaultDay = none ∧ ∃ d, ∀ r ∈ s.rules, r.appliesTo.contains d = false) ∧
    (∀ found, compile id s ruleDays = .error found → found =
      (Weekday.all.filter fun d => s.rules.all fun r => !r.appliesTo.contains d).map
        fun d => ⟨s.key, d⟩) ∧
    ∀ c, compile id s ruleDays = .ok c →
      (∀ d i, s.FirstOn d i → ruleDays[i]? = some (c.week.get d)) ∧
      (∀ d, (∀ r ∈ s.rules, r.appliesTo.contains d = false) →
        s.defaultDay = some (c.week.get d)) ∧
      c.inertRules = s.inert ∧
      compile id (s.pruned ruleDays) ((s.kept ruleDays).map Prod.snd) =
        .ok { c with inertRules := [] } := by
  have hfails := failsWith_compile id h
  have hnone := uncovered_ne_nil_iff s
  refine ⟨?_, fun found hfound => ?_, fun c hc => ?_⟩
  · rw [← hnone]
    simp only [hfails.eq_error_iff, exists_eq_left]
  · obtain ⟨rfl, hne⟩ := (hfails.eq_error_iff found).mp hfound
    exact uncovered_of_none (hnone.mp hne).1
  · have hweek : ∀ d, holdingDay? s ruleDays d = some (c.week.get d) := by
      obtain ⟨week, hweek, rfl⟩ := (compile_eq_ok_iff id s ruleDays c).mp hc
      exact hweek
    refine ⟨fun d i hi => ?_, fun d hd => ?_, inertRules_of_compile hc h, ?_⟩
    · rw [← holdingDay?_of_firstOn h hi, hweek]
    · rw [← holdingDay?_of_forall hd ruleDays, hweek]
    · rw [compile_pruned, hc]
      rfl

/-- A schedule without a default day: of its rules one stands in two earlier ones taken together and
one has no weekday. -/
def shifts : Document.Schedule :=
  { key := "shifts"
    name := "shifts"
    days := [⟨"short", "short", [(.midnight, 0)]⟩, ⟨"long", "long", [(.midnight, 1)]⟩]
    defaultDay := none
    summerDesignDay := none
    winterDesignDay := none
    rules := [⟨"weekend", "weekend", .weekend, .named "short"⟩,
      ⟨"weekdays", "weekdays", .weekdays, .named "long"⟩,
      ⟨"turn", "turn", .ofList [.friday, .saturday], .named "short"⟩,
      ⟨"never", "never", .empty, .named "short"⟩] }

/-- The calendar of the first two rules, with and without the other two. -/
theorem compile_shifts :
    ∃ c pruned, compile ⟨0⟩ shifts [0, 1, 0, 0] = .ok c ∧
      compile ⟨0⟩ (shifts.pruned [0, 1, 0, 0]) [0, 1] = .ok pruned ∧ pruned.week = c.week ∧
      c.week.get .friday = 1 ∧ c.week.get .saturday = 0 ∧ c.inertRules = ["turn", "never"] := by
  obtain ⟨c, hc⟩ : ∃ c, compile ⟨0⟩ shifts [0, 1, 0, 0] = .ok c := ⟨_, rfl⟩
  obtain ⟨-, -, hok⟩ := compile_exact ⟨0⟩ shifts [0, 1, 0, 0] rfl
  obtain ⟨hfirst, -, hinert, hpruned⟩ := hok c hc
  have hfriday : shifts.FirstOn .friday 1 := by
    refine ⟨⟨_, rfl, by decide⟩, fun j r hj hr => ?_⟩
    obtain rfl : j = 0 := by omega
    cases hr
    decide
  have hsaturday : shifts.FirstOn .saturday 0 := ⟨⟨_, rfl, by decide⟩, fun j r hj => by omega⟩
  refine ⟨c, _, hc, hpruned, rfl, ?_, ?_, hinert.trans (by decide)⟩
  · exact (Option.some.inj (hfirst .friday 1 hfriday)).symm
  · exact (Option.some.inj (hfirst .saturday 0 hsaturday)).symm

end Schedule

end HvacModel
