import HvacModel.Archetype.Basic
import HvacModel.Decimal.Nearest

/-! # Footprints

The outer dimensions of a floor follow from the total area, the number of floors and the shape:
a rectangle has sides three to two, the shapes with wings start from a square.  Lengths are in
metres and rounded to tenths. -/

namespace HvacModel

/-- The lesser of two doubles; a value that is no number gives way to the other one. -/
def lesser (x y : Float) : Float :=
  if x.isNaN then y else if y.isNaN then x else if y < x then y else x

/-- The greater of two doubles; a value that is no number gives way to the other one. -/
def greater (x y : Float) : Float :=
  if x.isNaN then y else if y.isNaN then x else if x < y then y else x

/-- A double rounded to a whole number, a half away from zero.  A double whose last place is a whole
number stays as it is, and so does one that is not finite. -/
def roundWhole (x : Float) : Float :=
  let exact := Decimal.Binary.ofBits x.toBits
  match exact.exponent with
  | .ofNat _ => x
  | .negSucc k =>
    let whole := Decimal.ofInt (Int.ofNat ((exact.significand + Nat.pow 2 k) / Nat.pow 2 (k + 1)))
    if Decimal.signBit ≤ x.toBits.toNat then -whole else whole

/-- A double rounded to tenths, a half away from zero. -/
def roundTenth (x : Float) : Float := roundWhole (x * 10.0) / 10.0

/-- The outer dimensions of one floor. -/
structure Footprint where
  length : Float
  width : Float

namespace Footprint

/-- The sides of a floor before rounding. -/
def sides (floorArea : Float) : BuildingShape → Footprint
  | .rectangle =>
    let width := (floorArea * 2.0 / 3.0).sqrt
    ⟨floorArea / width, width⟩
  | .l | .h | .t | .u => ⟨floorArea.sqrt, floorArea.sqrt⟩

/-- The footprint of a building. -/
def ofBuilding (totalArea : Float) (floors : UInt32) (shape : BuildingShape) : Footprint :=
  let exact := sides (totalArea / Float.ofNat floors.toNat) shape
  ⟨roundTenth exact.length, roundTenth exact.width⟩

/-- The greatest offset of the core zone. -/
def maxCoreOffset : Float := 4.57

/-- The depth of the zones around the core: a tenth of the shorter side, up to the greatest
offset. -/
def coreOffset (f : Footprint) : Float := lesser (lesser f.length f.width * 0.1) maxCoreOffset

end Footprint

/-- How a floor is divided into zones. -/
structure ZoneLayout where
  name : String
  count : Nat
deriving DecidableEq, Repr

/-- The zones of a building of a total area. -/
def ZoneLayout.ofArea (area : Float) : ZoneLayout :=
  if area < 5000.0 then ⟨"Single_Zone", 1⟩
  else if area < 20000.0 then ⟨"Three_Zone", 3⟩
  else ⟨"Five_Zone", 5⟩

/-- The power of the exterior lighting in watts, never below five kilowatts. -/
def exteriorLighting (area : Float) : Float := greater (area * 0.3) 5000.0

end HvacModel
