import MinangScript.Decimal.Layout
import MinangScript.Decimal.Numeral
import MinangScript.Text.Blank

/-! # Numbers of the language

Every number of the language is a double. Here are its text, the number a text begins with, and
the remainder of a division, each computed exactly from the bits.
-/

namespace MinangScript

namespace Number

/-- Number text: the shortest digits, written out in full from a millionth up to below `10 ^ 21`.
The sign of zero is not shown. -/
def layout : Layout where
  plainFrom := -6
  plainBelow := 21
  wholeFraction := false
  exponentPlus := true
  tie := .away
  zero := "0"
  negativeZero := "0"
  nan := "NaN"
  infinity := "Infinity"

def text (n : Float) : String :=
  layout.text (Binary64.ofFloat n)

def nan : Float :=
  Float.ofBits 0x7ff8000000000000

def infinity (negative : Bool) : Float :=
  Binary64.toFloat negative Binary64.infinityBits

/-- The signed number in front of a text, and what follows it. -/
def scan? (text : List Char) : Option (Float × List Char) :=
  let (negative, unsigned) := takeSign text
  if "Infinity".toList.isPrefixOf unsigned then
    some (infinity negative, unsigned.drop "Infinity".length)
  else
    (Numeral.scan? unsigned).map fun (n, rest) => (n.toFloat negative, rest)

/-- The number that a text begins with, blanks skipped; whatever follows it is ignored. -/
def leading? (text : String) : Option Float :=
  (scan? (trimStart text.toList)).map (·.1)

/-- The number that a whole text denotes; any other text is not a number. -/
def ofText (text : String) : Float :=
  match scan? text.toList with
  | some (n, []) => n
  | _ => nan

/-- The remainder of `x` by `y`: what is left of `x` after taking away `y` a whole number of times
towards zero. It has the sign of `x` and is exact. -/
def remainder (x y : Float) : Float :=
  match Binary64.ofFloat x, Binary64.ofFloat y with
  | .finite negative sx ex, .finite _ sy ey =>
    if sy = 0 then nan
    else
      let e := min ex ey
      let rest := sx * Nat.pow 2 (ex - e).toNat % (sy * Nat.pow 2 (ey - e).toNat)
      Binary64.toFloat negative
        (if 0 ≤ e then Binary64.nearest (rest * Nat.pow 2 e.toNat) 1
         else Binary64.nearest rest (Nat.pow 2 (-e).toNat))
  | .finite _ _ _, .infinite _ => x
  | _, _ => nan

/-- The whole number a double is, if it is one. -/
def whole? (n : Float) : Option Int :=
  match Binary64.ofFloat n with
  | .finite negative significand exponent =>
    let magnitude :=
      if 0 ≤ exponent then some (significand * Nat.pow 2 exponent.toNat)
      else
        let unit := Nat.pow 2 (-exponent).toNat
        if significand % unit = 0 then some (significand / unit) else none
    magnitude.map fun (m : Nat) => if negative then -(m : Int) else (m : Int)
  | _ => none

end Number

end MinangScript
