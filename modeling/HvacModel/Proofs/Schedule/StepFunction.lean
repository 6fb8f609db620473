import Mathlib
import HvacModel.Proofs.Schedule.DayProfile

/-! # Days as step functions

The value of a day at a time, which is found by bisection, is the one that a scan of the breakpoints
from the end finds (`DayProfile.scan?_eq_some`).  Every breakpoint gives its value at its own time
(`DayProfile.valueAt_breakpoint`), and equality of numbers is transitive, so a day whose adjacent
breakpoints have equal values has one value at all times, and only such a day has
(`DayProfile.isConstant_iff`). -/

namespace HvacModel

namespace DayProfile

/-- A day that starts at midnight, with times in order and a number at each. -/
structure Ordered (day : DayProfile) : Prop where
  midnight : (day.breakpoints.map Prod.fst).head? = some .midnight
  increasing : day.breakpoints.Pairwise fun a b => a.1 < b.1
  numbers : ∀ b ∈ day.breakpoints, b.2.isNaN = false

/-- The value of the last breakpoint that is not later than a time, looked for from the end. -/
def scan? (day : DayProfile) (time : TimeOfDay) : Option Float :=
  (day.breakpoints.reverse.find? fun b => b.1 ≤ time).map Prod.snd

variable {day : DayProfile}

/-! ### Scanning -/

/-- In increasing order the last breakpoint not later than a time is the latest one. -/
theorem latest_of_find?_reverse {points : List (TimeOfDay × Float)} {time : TimeOfDay}
    {b : TimeOfDay × Float} (hs : points.Pairwise fun a b => a.1 < b.1)
    (h : points.reverse.find? (fun b => b.1 ≤ time) = some b) : Latest points time b := by
  obtain ⟨hle, after, before, hsplit, hafter⟩ := List.find?_eq_some_iff_append.mp h
  have hpoints : points = before.reverse ++ b :: after.reverse := by
    rw [List.reverse_eq_iff.mp hsplit, List.reverse_append, List.reverse_cons,
      List.append_assoc, List.singleton_append]
  have hbefore : ∀ c ∈ before, c.1 < b.1 := by
    intro c hc
    rw [hpoints, List.pairwise_append] at hs
    exact hs.2.2 c (List.mem_reverse.mpr hc) b List.mem_cons_self
  refine ⟨by simp [hpoints], by simpa using hle, fun c hc hcle => ?_⟩
  rw [hpoints, List.mem_append, List.mem_cons, List.mem_reverse, List.mem_reverse] at hc
  rcases hc with hc | rfl | hc
  · exact Nat.le_of_lt (hbefore c hc)
  · exact Nat.le_refl _
  · have hnot := hafter c hc
    simp [hcle] at hnot

/-- The scan from the end finds the value of the day. -/
theorem scan?_eq_some (h : day.Ordered) (time : TimeOfDay) :
    day.scan? time = some (day.valueAt time) := by
  obtain ⟨b, hb⟩ := exists_latest h.increasing h.midnight time
  unfold scan?
  cases hf : day.breakpoints.reverse.find? fun b => b.1 ≤ time with
  | none =>
      have hnone := List.find?_eq_none.mp hf b (List.mem_reverse.mpr hb.1)
      exact absurd hb.2.1 (by simpa using hnone)
  | some c =>
      have hc := latest_of_find?_reverse h.increasing hf
      rw [Option.map_some, valueAt_of_latest h.increasing hc]

/-! ### Constant days -/

/-- A breakpoint gives the value at its own time. -/
theorem valueAt_breakpoint (h : day.Ordered) {b : TimeOfDay × Float} (hb : b ∈ day.breakpoints) :
    day.valueAt b.1 = b.2 :=
  valueAt_of_latest h.increasing ⟨hb, Nat.le_refl _, fun _ _ hle => hle⟩

/-- The value at a time is that of a breakpoint. -/
theorem exists_valueAt_eq (h : day.Ordered) (time : TimeOfDay) :
    ∃ b ∈ day.breakpoints, day.valueAt time = b.2 := by
  obtain ⟨b, hb⟩ := exists_latest h.increasing h.midnight time
  exact ⟨b, hb.1, valueAt_of_latest h.increasing hb⟩

theorem adjacentAll_iff_isChain {α : Type} (related : α → α → Bool) (list : List α) :
    adjacentAll related list = true ↔ list.IsChain fun a b => related a b = true := by
  induction list using adjacentAll.induct with
  | case1 a b rest ih => rw [adjacentAll, Bool.and_eq_true, List.isChain_cons_cons, ih]
  | case2 short hshort =>
      rcases short with _ | ⟨a, _ | ⟨b, rest⟩⟩
      · simp [adjacentAll]
      · simp [adjacentAll]
      · exact absurd rfl (hshort a b rest)

theorem beq_self_of_not_isNaN {x : Float} (h : x.isNaN = false) : (x == x) = true := by
  rw [Float.beq_self_iff]
  rintro rfl
  exact absurd h (by decide)

/-- A constant day has equal values at any two breakpoints. -/
theorem isConstant_iff_forall_mem (h : day.Ordered) : day.isConstant = true ↔
    ∀ b ∈ day.breakpoints, ∀ c ∈ day.breakpoints, (b.2 == c.2) = true := by
  have htrans : IsTrans (TimeOfDay × Float) fun a b => (a.2 == b.2) = true :=
    ⟨fun _ _ _ hab hbc => BEq.trans hab hbc⟩
  have hsymm : Std.Symm fun a b : TimeOfDay × Float => (a.2 == b.2) = true :=
    ⟨fun _ _ hab => BEq.symm hab⟩
  rw [isConstant, adjacentAll_iff_isChain, List.isChain_iff_pairwise]
  constructor
  · intro hpairwise b hb c hc
    by_cases hbc : b = c
    · rw [hbc]
      exact beq_self_of_not_isNaN (h.numbers c hc)
    · exact hpairwise.forall hb hc hbc
  · intro hall
    exact List.pairwise_of_forall_mem_list fun b hb c hc => hall b hb c hc

/-- A day is constant when its values at any two times are equal, of a range of times that holds
every breakpoint. -/
theorem isConstant_iff (h : day.Ordered) {within : TimeOfDay → Prop}
    (hw : ∀ b ∈ day.breakpoints, within b.1) : day.isConstant = true ↔
      ∀ s t, within s → within t → (day.valueAt s == day.valueAt t) = true := by
  rw [isConstant_iff_forall_mem h]
  constructor
  · intro hall s t _ _
    obtain ⟨b, hb, hs⟩ := exists_valueAt_eq h s
    obtain ⟨c, hc, ht⟩ := exists_valueAt_eq h t
    rw [hs, ht]
    exact hall b hb c hc
  · intro hall b hb c hc
    have hbc := hall b.1 c.1 (hw b hb) (hw c hc)
    rwa [valueAt_breakpoint h hb, valueAt_breakpoint h hc] at hbc

/-- A day is the step function of its breakpoints: at every time its value is the one that a scan
from the end finds, and the check of adjacent breakpoints tells whether the value is the same at all
times.  The end of the day makes a difference to that only where it is a breakpoint itself. -/
theorem stepFunction_of_ordered (day : DayProfile) (h : day.Ordered) :
    (∀ time, day.scan? time = some (day.valueAt time)) ∧
    (day.isConstant = true ↔ ∀ s t, (day.valueAt s == day.valueAt t) = true) ∧
    ((∀ b ∈ day.breakpoints, b.1 < .endOfDay) → (day.isConstant = true ↔
      ∀ s t, s < .endOfDay → t < .endOfDay → (day.valueAt s == day.valueAt t) = true)) := by
  have hall := @isConstant_iff day h (fun _ => True) fun _ _ => trivial
  have hbefore := @isConstant_iff day h (fun t => t < .endOfDay)
  exact ⟨scan?_eq_some h, by simpa only [forall_const] using hall, hbefore⟩

/-- A day that is busy in the evening. -/
def evening : DayProfile :=
  { key := "evening"
    name := "evening"
    breakpoints := [(.midnight, 0), (⟨360, by decide⟩, 0), (⟨1080, by decide⟩, 1),
      (⟨1320, by decide⟩, 0)] }

/-- It is not constant, so its values differ at two times before the end of the day. -/
theorem stepFunction_evening :
    evening.Ordered ∧ evening.scan? ⟨1140, by decide⟩ = some (evening.valueAt ⟨1140, by decide⟩) ∧
      ∃ s t : TimeOfDay, s < .endOfDay ∧ t < .endOfDay ∧
        ¬(evening.valueAt s == evening.valueAt t) = true := by
  have hordered : evening.Ordered := ⟨rfl, by decide, by decide⟩
  obtain ⟨hscan, -, hconstant⟩ := stepFunction_of_ordered evening hordered
  refine ⟨hordered, hscan _, ?_⟩
  have hdiffer : ¬evening.isConstant = true := by decide
  rw [hconstant (by decide)] at hdiffer
  simpa only [not_forall, exists_prop] using hdiffer

end DayProfile

end HvacModel
