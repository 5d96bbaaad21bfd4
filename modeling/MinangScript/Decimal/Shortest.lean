import MinangScript.Decimal.Binary64

/-! # Shortest decimals

The shortest decimal of a double is the one with the fewest digits among those that round to it,
and of several such the one nearest to it. A decimal rounds to the double exactly when it lies
between the midpoints to the two neighbouring doubles, the midpoints included when the significand
is even. For one digit, two digits, … it is enough to look at the two neighbours of the double on
the grid of decimals with that many digits: if any point of a grid lies in the interval, one of
these two does.
-/

namespace MinangScript

/-- The number `digits · 10 ^ exponent`. -/
structure Decimal where
  digits : Nat
  exponent : Int
  deriving Repr, DecidableEq

/-- Which of two equally near decimals to take. -/
inductive Tie where
  /-- The one further from zero. -/
  | away
  /-- The one whose last digit is even. -/
  | even
  deriving Repr, DecidableEq

/-- The decimals that round to a double: those from `low` to `high` over `unit`, where the double
itself is `middle` over `unit`; the ends belong to it when `closed`. -/
structure RoundingInterval where
  low : Nat
  middle : Nat
  high : Nat
  unit : Nat
  closed : Bool
  deriving Repr, DecidableEq

namespace RoundingInterval

/-- The interval of the double `significand · 2 ^ exponent`. Just above a power of two the
neighbour below is only half as far away. -/
def ofDouble (significand : Nat) (exponent : Int) : RoundingInterval :=
  let below := if significand = Nat.pow 2 52 ∧ Binary64.leastExponent < exponent then 1 else 2
  let quarter := exponent - 2
  let up := if 0 ≤ quarter then Nat.pow 2 quarter.toNat else 1
  { low := (4 * significand - below) * up
    middle := 4 * significand * up
    high := (4 * significand + 2) * up
    unit := if 0 ≤ quarter then 1 else Nat.pow 2 (-quarter).toNat
    closed := significand % 2 = 0 }

/-- The interval measured in units of `10 ^ e`. -/
def inUnitsOf (i : RoundingInterval) (e : Int) : RoundingInterval :=
  if 0 ≤ e then { i with unit := i.unit * Nat.pow 10 e.toNat }
  else
    let factor := Nat.pow 10 (-e).toNat
    { i with low := i.low * factor, middle := i.middle * factor, high := i.high * factor }

/-- Whether the whole number `n` lies in the interval. -/
def holds (i : RoundingInterval) (n : Nat) : Bool :=
  let p := n * i.unit
  if i.closed then decide (i.low ≤ p ∧ p ≤ i.high) else decide (i.low < p ∧ p < i.high)

/-- The whole number of the interval that is nearest to its double, among the two that stand
around the double. -/
def nearestWhole? (tie : Tie) (i : RoundingInterval) : Option Nat :=
  let floor := i.middle / i.unit
  let rest := 2 * (i.middle % i.unit)
  match i.holds floor, i.holds (floor + 1) with
  | false, false => none
  | true, false => some floor
  | false, true => some (floor + 1)
  | true, true =>
    if rest < i.unit then some floor
    else if i.unit < rest then some (floor + 1)
    else
      match tie with
      | .away => some (floor + 1)
      | .even => if floor % 2 = 0 then some floor else some (floor + 1)

/-- The power of ten of the leading digit of the double. -/
def leadingExponent (i : RoundingInterval) : Int :=
  if i.unit ≤ i.middle then (Binary64.digitCount (i.middle / i.unit) : Int) - 1
  else -(Binary64.digitCount ((i.unit - 1) / i.middle) : Int)

end RoundingInterval

namespace Decimal

/-- Drops the zeros at the end of `digits`, raising `exponent` for each; at most `rounds`. -/
def trim : Nat → Decimal → Decimal
  | 0, d => d
  | rounds + 1, d =>
    if d.digits % 10 = 0 then trim rounds ⟨d.digits / 10, d.exponent + 1⟩ else d

/-- The first hit on the grids from `10 ^ e` downwards, of which `rounds` more may be tried. The
last resort is never needed: seventeen digits always suffice. -/
def search (tie : Tie) (i : RoundingInterval) : Nat → Int → Decimal
  | 0, e =>
    let fine := i.inUnitsOf e
    ⟨fine.middle / fine.unit, e⟩
  | rounds + 1, e =>
    match (i.inUnitsOf e).nearestWhole? tie with
    | some n => ⟨n, e⟩
    | none => search tie i rounds (e - 1)

/-- The shortest decimal of the double `significand · 2 ^ exponent`, which must not be zero. -/
def shortest (tie : Tie) (significand : Nat) (exponent : Int) : Decimal :=
  let i := RoundingInterval.ofDouble significand exponent
  trim 20 (search tie i 17 i.leadingExponent)

/-- The digits as text, without a leading zero. -/
def digitText (d : Decimal) : List Char :=
  Nat.toDigits 10 d.digits

/-- The power of ten of the first digit. -/
def leading (d : Decimal) : Int :=
  d.exponent + (d.digitText.length : Int) - 1

end Decimal

end MinangScript
