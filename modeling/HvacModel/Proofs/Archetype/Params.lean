import HvacModel.Archetype.Config

/-! # Accepted parameters

The parameters of a configuration are accepted when the hours of a weekday are in order, there are
floors and an area, and the share of windows lies between its bounds (`check_eq_ok_iff`).  The share
of windows is then finite, which nothing says of the numbers that are written from the other
parameters (`ArchetypeParams.numbers`). -/

namespace HvacModel

open Float.Model (UnpackedFloat)

/-! ### Bounds of doubles -/

theorem le_iff_unpack (x y : Float) : x ≤ y ↔ x.toModel.unpack.le y.toModel.unpack = true :=
  decide_eq_true_iff

/-- What is a number, above one finite double and below another one, is finite. -/
theorem unpacked_isFinite_of_between {x low high : UnpackedFloat} (hx : x.isNaN = false)
    (hl : low.isFinite = true) (hh : high.isFinite = true) (hlow : ¬x.le low = true)
    (hhigh : ¬high.le x = true) : x.isFinite = true := by
  cases x with
  | notANumber => cases hx
  | zero sign => rfl
  | finite sign mantissa exponent hm => rfl
  | infinity sign =>
      cases sign with
      | positive =>
          cases high with
          | infinity _ => cases hh
          | notANumber => cases hh
          | zero sign => exact absurd rfl hhigh
          | finite sign mantissa exponent hm => cases sign <;> exact absurd rfl hhigh
      | negative =>
          cases low with
          | infinity _ => cases hl
          | notANumber => cases hl
          | zero sign => exact absurd rfl hlow
          | finite sign mantissa exponent hm => cases sign <;> exact absurd rfl hlow

theorem isFinite_of_between {x low high : Float} (hx : x.isNaN = false)
    (hl : low.isFinite = true) (hh : high.isFinite = true) (hlow : ¬x ≤ low) (hhigh : ¬high ≤ x) :
    x.isFinite = true := by
  rw [le_iff_unpack] at hlow hhigh
  exact unpacked_isFinite_of_between hx hl hh hlow hhigh

/-! ### Checked parameters -/

theorem refused_eq_ok_iff {ε α : Type} {c : Prop} [Decidable c] {e : ε} {r : Except ε α} {x : α} :
    (if c then .error e else r) = .ok x ↔ ¬c ∧ r = .ok x := by
  by_cases h : c <;> simp [h]

namespace ArchetypeParams

variable (p : ArchetypeParams)

/-- The numbers of a configuration that depend on the parameters, but for the share of windows. -/
def numbers : List Float :=
  let footprint := Footprint.ofBuilding p.buildingArea p.numberOfFloors p.buildingShape
  [p.coolingSetpoint, p.heatingSetpoint, p.floorHeight, exteriorLighting p.buildingArea,
    footprint.length, footprint.width, footprint.coreOffset]

/-- The hours of a weekday increase from midnight to the hour at which all is off. -/
structure HoursInOrder : Prop where
  start : 0 < p.weekdayStartHour
  busy : p.weekdayStartHour < p.weekdayEndHour
  night : p.weekdayEndHour < nightOffHour

theorem hoursInOrder_iff : p.HoursInOrder ↔ ¬(p.weekdayStartHour = 0 ∨
    p.weekdayEndHour ≤ p.weekdayStartHour ∨ nightOffHour ≤ p.weekdayEndHour) := by
  rw [not_or, not_or, UInt8.not_le, UInt8.not_le, ← ne_eq, ← UInt8.pos_iff_ne_zero]
  exact ⟨fun h => ⟨h.start, h.busy, h.night⟩, fun h => ⟨h.1, h.2.1, h.2.2⟩⟩

instance : Decidable p.HoursInOrder := decidable_of_iff _ p.hoursInOrder_iff.symm

theorem check_eq_ok_iff : p.check = .ok () ↔ p.HoursInOrder ∧ p.numberOfFloors ≠ 0 ∧
    (p.buildingArea.isFinite = true ∧ ¬p.buildingArea ≤ 0.0) ∧
    p.windowToWallRatio.isNaN = false ∧ ¬p.windowToWallRatio ≤ 0.0 ∧
      ¬1.0 ≤ p.windowToWallRatio := by
  rw [check, refused_eq_ok_iff, ← hoursInOrder_iff]
  simp only [refused_eq_ok_iff, Bool.or_eq_true, Bool.not_eq_true', decide_eq_true_eq, not_or,
    Bool.not_eq_false, Bool.not_eq_true, and_true, and_assoc, ne_eq]

theorem isFinite_windowRatio (h : p.check = .ok ()) : p.windowToWallRatio.isFinite = true := by
  obtain ⟨-, -, -, hnumber, hlow, hhigh⟩ := p.check_eq_ok_iff.mp h
  exact isFinite_of_between hnumber (by decide) (by decide) hlow hhigh

end ArchetypeParams

theorem SystemArchetype.config_eq_ok_iff (a : SystemArchetype) (p : ArchetypeParams) (v : Value) :
    a.config p = .ok v ↔ p.check = .ok () ∧ v = a.configValue p := by
  unfold config
  cases p.check with
  | error fault => simp
  | ok _ => simp [eq_comm]

end HvacModel
