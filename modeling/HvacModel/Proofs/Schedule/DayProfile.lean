import Mathlib.Tactic.ByContra
import HvacModel.Schedule.DayProfile

/-! # The value at a time of day

Bisection finds the end of the breakpoints that are not later than a time, because their times
increase: a predicate that holds below a number, and nowhere else, is cut at that number
(`partitionPoint_eq`).  The value of a day at a time is therefore that of the latest breakpoint
which is not later than the time (`DayProfile.valueAt_of_latest`), and a day that starts at
midnight has one (`DayProfile.exists_latest`). -/

namespace HvacModel

/-! ### Bisection -/

/-- The invariant of the bisection: the cut lies between the base and the end of the range, or
before the base. -/
theorem bisect_eq {below : Nat → Bool} {cut : Nat} (hcut : ∀ i, below i = true ↔ i < cut)
    (base size : Nat) (hsize : cut ≤ base + size) :
    bisect below base size = max base (cut - 1) := by
  induction base, size using bisect.induct below with
  | case1 base size hle =>
      rw [bisect, if_pos hle]
      omega
  | case2 base size hle ih =>
      rw [bisect, if_neg hle]
      by_cases hmid : below (base + size / 2) = true
      · have hlt := (hcut _).mp hmid
        rw [dif_pos hmid] at ih
        rw [if_pos hmid, ih (by omega)]
        omega
      · have hge : cut ≤ base + size / 2 := Nat.le_of_not_lt fun h => hmid ((hcut _).mpr h)
        rw [dif_neg hmid] at ih
        rw [if_neg hmid, ih (by omega)]

theorem partitionPoint_eq {below : Nat → Bool} {cut size : Nat}
    (hcut : ∀ i, below i = true ↔ i < cut) (hsize : cut ≤ size) :
    partitionPoint below size = cut := by
  unfold partitionPoint
  by_cases hzero : size = 0
  · rw [if_pos hzero]
    omega
  · rw [if_neg hzero, bisect_eq hcut 0 size (by omega)]
    by_cases hb : below (max 0 (cut - 1)) = true
    · have hlt := (hcut _).mp hb
      rw [if_pos hb]
      omega
    · have hge : ¬max 0 (cut - 1) < cut := fun h => hb ((hcut _).mpr h)
      rw [if_neg hb]
      omega

/-! ### Breakpoints -/

namespace DayProfile

/-- The breakpoint that holds at a time: the latest one that is not later. -/
def Latest (points : List (TimeOfDay × Float)) (time : TimeOfDay) (b : TimeOfDay × Float) : Prop :=
  b ∈ points ∧ b.1 ≤ time ∧ ∀ c ∈ points, c.1 ≤ time → c.1 ≤ b.1

variable {points : List (TimeOfDay × Float)}

/-- The number of breakpoints not later than a time cuts the positions of breakpoints. -/
theorem reached_iff (hs : points.Pairwise fun a b => a.1 < b.1) (time : TimeOfDay) (i : Nat) :
    reached points time i = true ↔ i < points.countP fun b => b.1 ≤ time := by
  induction points generalizing i with
  | nil => simp [reached]
  | cons b rest ih =>
      obtain ⟨hb, hrest⟩ := List.pairwise_cons.mp hs
      by_cases hle : b.1 ≤ time
      · rw [List.countP_cons_of_pos (by simpa using hle)]
        cases i with
        | zero => simp [reached, hle]
        | succ i =>
            have h := ih hrest i
            rw [Nat.succ_lt_succ_iff, ← h]
            simp [reached]
      · have hlater : ∀ c ∈ b :: rest, ¬c.1 ≤ time := by
          rintro c (_ | ⟨_, hc⟩) hcle
          · exact hle hcle
          · exact hle (Nat.le_trans (Nat.le_of_lt (hb c hc)) hcle)
        rw [List.countP_eq_zero.mpr (by simpa using hlater)]
        unfold reached
        cases h : (b :: rest)[i]? with
        | none => simp
        | some c => simpa using hlater c (List.mem_of_getElem? h)

/-- Where times increase, a breakpoint at a later or equal time has no smaller position. -/
theorem position_le (hs : points.Pairwise fun a b => a.1 < b.1) {i j : Nat}
    {a b : TimeOfDay × Float} (hi : points[i]? = some a) (hj : points[j]? = some b)
    (hle : a.1 ≤ b.1) : i ≤ j := by
  obtain ⟨hilt, rfl⟩ := List.getElem?_eq_some_iff.mp hi
  obtain ⟨hjlt, rfl⟩ := List.getElem?_eq_some_iff.mp hj
  by_contra hlt
  have h := List.pairwise_iff_getElem.mp hs j i hjlt hilt (by omega)
  exact Nat.lt_irrefl _ (Nat.lt_of_lt_of_le h hle)

theorem Latest.unique (hs : points.Pairwise fun a b => a.1 < b.1) {time : TimeOfDay}
    {b c : TimeOfDay × Float} (hb : Latest points time b) (hc : Latest points time c) : b = c := by
  obtain ⟨i, hi⟩ := List.mem_iff_getElem?.mp hb.1
  obtain ⟨j, hj⟩ := List.mem_iff_getElem?.mp hc.1
  have hij := position_le hs hi hj (hc.2.2 b hb.1 hb.2.1)
  have hji := position_le hs hj hi (hb.2.2 c hc.1 hc.2.1)
  rw [Nat.le_antisymm hij hji, hj] at hi
  exact (Option.some.inj hi).symm

/-- The breakpoint before the cut is the latest one. -/
theorem latest_before_cut (hs : points.Pairwise fun a b => a.1 < b.1) (time : TimeOfDay)
    (hpos : 0 < points.countP fun b => b.1 ≤ time) :
    ∃ b, points[points.countP (fun b => b.1 ≤ time) - 1]? = some b ∧ Latest points time b := by
  have hcut := reached_iff hs time
  have hend := (hcut (points.countP (fun b => b.1 ≤ time) - 1)).mpr (by omega)
  unfold reached at hend
  cases hj : points[points.countP (fun b => b.1 ≤ time) - 1]? with
  | none => simp [hj] at hend
  | some b =>
      rw [hj] at hend
      refine ⟨b, rfl, List.mem_of_getElem? hj, by simpa using hend, ?_⟩
      intro c hc hcle
      obtain ⟨i, hi⟩ := List.mem_iff_getElem?.mp hc
      have hilt := (hcut i).mp (by simp [reached, hi, hcle])
      by_contra hbc
      have hji := position_le hs hj hi (Nat.le_of_lt (Nat.lt_of_not_le hbc))
      rw [show i = points.countP (fun b => b.1 ≤ time) - 1 by omega, hj] at hi
      cases hi
      exact hbc (Nat.le_refl _)

/-- The value of a day at a time is that of the latest breakpoint not later than the time. -/
theorem valueAt_of_latest {day : DayProfile} {time : TimeOfDay} {b : TimeOfDay × Float}
    (hs : day.breakpoints.Pairwise fun a b => a.1 < b.1) (h : Latest day.breakpoints time b) :
    day.valueAt time = b.2 := by
  have hpos : 0 < day.breakpoints.countP fun b => b.1 ≤ time :=
    List.countP_pos_iff.mpr ⟨b, h.1, by simpa using h.2.1⟩
  obtain ⟨c, hc, hlatest⟩ := latest_before_cut hs time hpos
  unfold valueAt
  dsimp only
  rw [partitionPoint_eq (reached_iff hs time) List.countP_le_length, hc, hlatest.unique hs h]

/-- A day that starts at midnight has a breakpoint for every time. -/
theorem exists_latest (hs : points.Pairwise fun a b => a.1 < b.1)
    (hfirst : (points.map Prod.fst).head? = some .midnight) (time : TimeOfDay) :
    ∃ b, Latest points time b := by
  have hpos : 0 < points.countP fun b => b.1 ≤ time := by
    cases points with
    | nil => simp at hfirst
    | cons b rest =>
        rw [List.map_cons, List.head?_cons, Option.some.injEq] at hfirst
        apply List.countP_pos_iff.mpr
        refine ⟨b, List.mem_cons_self, ?_⟩
        simp [hfirst, TimeOfDay.le_iff, TimeOfDay.midnight]
  obtain ⟨b, -, hb⟩ := latest_before_cut hs time hpos
  exact ⟨b, hb⟩

end DayProfile

end HvacModel
