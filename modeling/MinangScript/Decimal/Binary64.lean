/-! # Doubles as exact numbers

A double is given by its 64-bit pattern. `Binary64.ofBits` reads the pattern as an exact number,
`Binary64.nearest` finds the pattern of the double nearest to a quotient of natural numbers. All
arithmetic is on natural numbers, so nothing here rounds except where it says so.
-/

namespace MinangScript

/-- What a 64-bit pattern stands for. -/
inductive Binary64 where
  /-- Not a number. -/
  | nan
  /-- An infinity with its sign. -/
  | infinite (negative : Bool)
  /-- The number `significand · 2 ^ exponent`, or its negation. -/
  | finite (negative : Bool) (significand : Nat) (exponent : Int)
  deriving Repr, DecidableEq

namespace Binary64

/-- The exponent of the smallest positive double. -/
def leastExponent : Int := -1074

/-- Reads a bit pattern: one sign bit, eleven exponent bits, fifty-two fraction bits. -/
def ofBits (bits : Nat) : Binary64 :=
  let fraction : Nat := bits % Nat.pow 2 52
  let biased : Nat := bits / Nat.pow 2 52 % Nat.pow 2 11
  let negative := decide (Nat.pow 2 63 ≤ bits)
  if biased = 2047 then
    if fraction = 0 then .infinite negative else .nan
  else if biased = 0 then
    .finite negative fraction leastExponent
  else
    .finite negative (Nat.pow 2 52 + fraction) ((biased : Int) - 1075)

def ofFloat (x : Float) : Binary64 :=
  ofBits x.toBits.toNat

def infinityBits : Nat := 2047 * Nat.pow 2 52

/-- The quotient `num / den` rounded to the nearest natural number, a half to the even one. -/
def roundDiv (num den : Nat) : Nat :=
  let q := num / den
  let r := num % den
  if den < 2 * r ∨ (2 * r = den ∧ q % 2 = 1) then q + 1 else q

/-- The quotient `num / den` divided by `2 ^ e`, as a numerator and a denominator. -/
def scaled (num den : Nat) (e : Int) : Nat × Nat :=
  if 0 ≤ e then (num, den * Nat.pow 2 e.toNat) else (num * Nat.pow 2 (-e).toNat, den)

/-- The exponent at which `num / den` has a significand of fifty-three bits, or the least exponent
when the quotient is too small for that. -/
def exponentFor (num den : Nat) : Int :=
  let guess := max ((num.log2 : Int) - (den.log2 : Int) - 53) leastExponent
  let (n, d) := scaled num den guess
  if Nat.pow 2 53 ≤ n / d then guess + 1 else guess

/-- The bit pattern of the double nearest to `num / den`, a half to the even one; beyond the
largest double it is infinity. Neighbouring patterns are neighbouring doubles, so a significand
that rounds up to `2 ^ 53` needs no case of its own. -/
def nearest (num den : Nat) : Nat :=
  if num = 0 then 0
  else
    let e := exponentFor num den
    let (n, d) := scaled num den e
    min ((e - leastExponent).toNat * Nat.pow 2 52 + roundDiv n d) infinityBits

/-- How many decimal digits a natural number has; zero has none. -/
def digitCount (n : Nat) : Nat :=
  if h : n = 0 then 0 else digitCount (n / 10) + 1
decreasing_by omega

/-- The bit pattern of the double nearest to `digits · 10 ^ exponent`. Magnitudes far outside the
range of doubles are settled by counting digits. -/
def nearestDecimal (digits : Nat) (exponent : Int) : Nat :=
  let magnitude := (digitCount digits : Int) + exponent
  if digits = 0 then 0
  else if 400 < magnitude then infinityBits
  else if magnitude < -400 then 0
  else if 0 ≤ exponent then nearest (digits * Nat.pow 10 exponent.toNat) 1
  else nearest digits (Nat.pow 10 (-exponent).toNat)

/-- The float with the given sign and magnitude pattern. -/
def toFloat (negative : Bool) (magnitude : Nat) : Float :=
  Float.ofBits (UInt64.ofNat (if negative then Nat.pow 2 63 + magnitude else magnitude))

end Binary64

end MinangScript
