/-! # The shortest decimal of a binary number

A positive finite double is `m · 2 ^ q` with a natural significand `m`.  The reals that round
to it form an interval around it; both ends belong to the interval exactly when `m` is even.
For `n = 1, 2, …, 17` digits, `shortestDigits` looks at the two neighbours of the value on the
grid of multiples of `10 ^ k` that has `n` digits there.  The first grid with a neighbour inside
the interval wins, and of two such neighbours the nearer one; which one of two equally near
neighbours it is, a `Tie` says.  All arithmetic is exact, on natural numbers. -/

namespace HvacModel.Decimal

/-- A finite positive double, as the exact value `significand · 2 ^ exponent`. -/
structure Binary where
  significand : Nat
  exponent : Int
  /-- Whether the gap to the next smaller double is half the gap to the next larger one. -/
  lowerGapHalved : Bool
deriving DecidableEq, Repr

/-- A positive decimal, as the value `digits · 10 ^ exponent`. -/
structure Scientific where
  digits : Nat
  exponent : Int
deriving DecidableEq, Repr

/-- Which of two equally near neighbours is taken. -/
inductive Tie where
  /-- The even one. -/
  | toEven
  /-- The greater one. -/
  | up
deriving DecidableEq, Repr

/-- The neighbour that a tie between a number and the next one goes to. -/
def Tie.choose (tie : Tie) (low : Nat) : Nat :=
  match tie with
  | .toEven => if low % 2 = 0 then low else low + 1
  | .up => low + 1

/-- The number of values of a double's fraction field, which holds 52 bits. -/
def fractionSize : Nat := Nat.pow 2 52

/-- The bit pattern of infinity, the first beyond those of the finite magnitudes. -/
def infinityBits : Nat := 2047 * fractionSize

/-- The sign bit of a double. -/
def signBit : Nat := Nat.pow 2 63

/-- Significand and exponent of the magnitude that a bit pattern stands for; the field of the
exponent holds 11 bits. -/
def Binary.ofBits (bits : UInt64) : Binary :=
  let fraction : Nat := bits.toNat % fractionSize
  let biased : Nat := bits.toNat / fractionSize % 2048
  if biased = 0 then ⟨fraction, -1074, false⟩
  else ⟨fractionSize + fraction, Int.ofNat biased - 1075, decide (fraction = 0 ∧ 1 < biased)⟩

/-- A nonnegative rational as numerator and denominator. -/
structure Ratio where
  num : Nat
  den : Nat
deriving DecidableEq, Repr

/-- The product of a natural number with a power of `base`. -/
def Ratio.scaled (n base : Nat) (exponent : Int) : Ratio :=
  match exponent with
  | .ofNat e => ⟨n * Nat.pow base e, 1⟩
  | .negSucc e => ⟨n, Nat.pow base (e + 1)⟩

def Ratio.le (a b : Ratio) : Bool := a.num * b.den ≤ b.num * a.den

def Ratio.lt (a b : Ratio) : Bool := a.num * b.den < b.num * a.den

/-- Distance between two ratios. -/
def Ratio.dist (a b : Ratio) : Ratio :=
  let x := a.num * b.den
  let y := b.num * a.den
  ⟨(x - y) + (y - x), a.den * b.den⟩

/-- Quotient by a power of ten. -/
def Ratio.shiftTen (a : Ratio) (k : Int) : Ratio :=
  match k with
  | .ofNat e => ⟨a.num, a.den * Nat.pow 10 e⟩
  | .negSucc e => ⟨a.num * Nat.pow 10 (e + 1), a.den⟩

namespace Binary

/-- The exact value. -/
def value (x : Binary) : Ratio := .scaled (4 * x.significand) 2 (x.exponent - 2)

/-- Lower end of the interval of reals that round to the value. -/
def lower (x : Binary) : Ratio :=
  .scaled (4 * x.significand - (if x.lowerGapHalved then 1 else 2)) 2 (x.exponent - 2)

/-- Upper end of the interval of reals that round to the value. -/
def upper (x : Binary) : Ratio := .scaled (4 * x.significand + 2) 2 (x.exponent - 2)

/-- Whether a ratio rounds to the value. -/
def absorbs (x : Binary) (r : Ratio) : Bool :=
  if x.significand % 2 = 0 then x.lower.le r && r.le x.upper
  else x.lower.lt r && r.lt x.upper

end Binary

/-- The first of the next `steps` exponents `e` with `r < 10 ^ e`. -/
def Ratio.firstAbove (r : Ratio) : Nat → Int → Int
  | 0, e => e
  | steps + 1, e => if r.lt (.scaled 1 10 e) then e else r.firstAbove steps (e + 1)

/-- The number `e` with `10 ^ (e - 1) ≤ r < 10 ^ e`, searched upwards from a bound that the
binary logarithms give: `30103 / 100000` is the decimal logarithm of two. -/
def Ratio.decimalPoint (r : Ratio) : Int :=
  let bits : Int := Int.ofNat r.num.log2 - Int.ofNat r.den.log2
  r.firstAbove 8 ((bits - 1) * 30103 / 100000 - 1)

/-- The best neighbour on the grid of multiples of `10 ^ k`, if one rounds to the value. -/
def Binary.onGrid? (x : Binary) (tie : Tie) (k : Int) : Option Scientific :=
  let v := x.value
  let scaled := v.shiftTen k
  let low := scaled.num / scaled.den
  let lowFits := x.absorbs (.scaled low 10 k)
  let highFits := x.absorbs (.scaled (low + 1) 10 k)
  let below := v.dist (.scaled low 10 k)
  let above := v.dist (.scaled (low + 1) 10 k)
  if lowFits && highFits then
    if below.lt above then some ⟨low, k⟩
    else if above.lt below then some ⟨low + 1, k⟩
    else some ⟨tie.choose low, k⟩
  else if lowFits then some ⟨low, k⟩
  else if highFits then some ⟨low + 1, k⟩
  else none

/-- The first of the next `count` grids, each ten times finer, that holds a hit. -/
def Binary.firstHit (x : Binary) (tie : Tie) : Nat → Int → Scientific
  | 0, k => ⟨(x.value.shiftTen k).num / (x.value.shiftTen k).den, k⟩
  | count + 1, k => (x.onGrid? tie k).getD (x.firstHit tie count (k - 1))

/-- A number without its trailing decimal zeros, each moved into the exponent. -/
def Scientific.trim : Nat → Scientific → Scientific
  | 0, s => s
  | fuel + 1, s =>
    if s.digits ≠ 0 ∧ s.digits % 10 = 0 then trim fuel ⟨s.digits / 10, s.exponent + 1⟩ else s

/-- The shortest decimal that rounds to the value, nearest among those. -/
def Binary.shortest (x : Binary) (tie : Tie) : Scientific :=
  (x.firstHit tie 17 (x.value.decimalPoint - 1)).trim 20

end HvacModel.Decimal
