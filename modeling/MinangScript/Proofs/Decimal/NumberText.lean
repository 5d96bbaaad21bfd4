import Mathlib
import MinangScript.Number
import MinangScript.Proofs.Decimal.Shortest
import MinangScript.Proofs.Lexer.Lexemes
import MinangScript.Token.Lexer

/-! # The text of a number is a numeral

Digits, perhaps a point and more digits, perhaps an exponent: so is every number written that is
finite and not negative, whichever notation its size asks for. Read as a literal, the text is that
number again.
-/

namespace MinangScript

namespace Numeral

/-- The number that a numeral denotes. -/
def value (m : Numeral) : ℚ :=
  digitsValue (m.whole ++ m.fraction) * 10 ^ (m.exponent - m.fraction.length)

/-- A power of ten as it is written. -/
inductive PowerText : Int → List Char → Prop where
  | none : PowerText 0 []
  | up {digits : List Char} (nonempty : digits ≠ []) (all : ∀ c ∈ digits, c.isDigit = true) :
      PowerText (digitsValue digits) ('e' :: '+' :: digits)
  | down {digits : List Char} (nonempty : digits ≠ []) (all : ∀ c ∈ digits, c.isDigit = true) :
      PowerText (-(digitsValue digits : Int)) ('e' :: '-' :: digits)

/-- A numeral as it is written. -/
structure IsText (m : Numeral) (text : List Char) : Prop where
  nonempty : m.whole ≠ []
  whole : ∀ c ∈ m.whole, c.isDigit = true
  fraction : ∀ c ∈ m.fraction, c.isDigit = true
  parts : ∃ point power, text = m.whole ++ point ++ power ∧ PowerText m.exponent power ∧
    (point = [] ∧ m.fraction = [] ∨ point = '.' :: m.fraction)

/-- The numeral is made of digits, and some stand in front of the point. -/
structure HasDigits (m : Numeral) : Prop where
  nonempty : m.whole ≠ []
  whole : ∀ c ∈ m.whole, c.isDigit = true
  fraction : ∀ c ∈ m.fraction, c.isDigit = true

/-- The point and the fraction behind it, where there is one. -/
def pointed (fraction : List Char) : List Char :=
  if fraction = [] then [] else '.' :: fraction

/-- A power of ten, its sign written in any case. -/
def power (exponent : Int) : List Char :=
  'e' :: (if exponent < 0 then '-' else '+') :: Nat.toDigits 10 exponent.natAbs

namespace PowerText

variable {exponent : Int} {power : List Char}

theorem cases_eq (is : PowerText exponent power) : power = [] ∨
    ∃ sign digits, power = 'e' :: sign :: digits ∧ (sign = '+' ∨ sign = '-') ∧
      ∀ c ∈ digits, c.isDigit = true := by
  cases is with
  | none => exact .inl rfl
  | up _ all => exact .inr ⟨'+', _, rfl, .inl rfl, all⟩
  | down _ all => exact .inr ⟨'-', _, rfl, .inr rfl, all⟩

theorem ends (is : PowerText exponent power) : ∀ c ∈ power.head?, c.isDigit = false ∧ c ≠ '.' := by
  cases is <;> simp

theorem scan (is : PowerText exponent power) : scanExponent power = (exponent, []) := by
  have run : ∀ {digits : List Char}, (∀ c ∈ digits, c.isDigit = true) →
      digitRun digits = (digits, []) := by
    intro digits all
    simpa using @digitRun_of_ends digits [] all (by simp)
  cases is with
  | none => rfl
  | @up digits nonempty all =>
      cases digits with
      | nil => exact absurd rfl nonempty
      | cons c digits => simp [scanExponent, takeSign, run all]
  | @down digits nonempty all =>
      cases digits with
      | nil => exact absurd rfl nonempty
      | cons c digits => simp [scanExponent, takeSign, run all]

theorem of_power (exponent : Int) : PowerText exponent (Numeral.power exponent) := by
  have all : ∀ c ∈ Nat.toDigits 10 exponent.natAbs, c.isDigit = true :=
    fun _ member => Nat.isDigit_of_mem_toDigits (by decide) (by decide) member
  have size : digitsValue (Nat.toDigits 10 exponent.natAbs) = exponent.natAbs :=
    Nat.ofDigitChars_ten_toDigits
  unfold Numeral.power
  split
  · have down := PowerText.down Nat.toDigits_ne_nil all
    rwa [size, show -(exponent.natAbs : Int) = exponent by omega] at down
  · have up := PowerText.up Nat.toDigits_ne_nil all
    rwa [size, show (exponent.natAbs : Int) = exponent by omega] at up

end PowerText

namespace IsText

variable {m : Numeral} {text : List Char}

theorem of_pointed {power : List Char} (has : m.HasDigits)
    (powers : PowerText m.exponent power) : m.IsText (m.whole ++ pointed m.fraction ++ power) := by
  refine ⟨has.nonempty, has.whole, has.fraction, pointed m.fraction, power, rfl, powers, ?_⟩
  unfold pointed
  split
  · rename_i noFraction
    exact .inl ⟨rfl, noFraction⟩
  · exact .inr rfl

theorem of_plain (has : m.HasDigits) (exponent : m.exponent = 0) :
    m.IsText (m.whole ++ pointed m.fraction) := by
  rw [← List.append_nil (_ ++ _)]
  exact of_pointed has (exponent ▸ .none)

theorem isNumeral (is : m.IsText text) : IsNumeral text := by
  obtain ⟨point, power, same, powers, points⟩ := is.parts
  refine ⟨m.whole, point, power, same, ⟨is.nonempty, is.whole⟩, ?_, powers.cases_eq⟩
  exact points.imp And.left fun same => ⟨m.fraction, same, is.fraction⟩

theorem scan (is : m.IsText text) : scan? text = some (m, []) := by
  obtain ⟨point, power, rfl, powers, points⟩ := is.parts
  have afterPoint : scanFraction (point ++ power) = (m.fraction, power) := by
    obtain ⟨rfl, noFraction⟩ | rfl := points
    · cases power with
      | nil => simp [scanFraction, noFraction]
      | cons c power =>
          have notPoint := (powers.ends c rfl).2
          simp [scanFraction, noFraction, notPoint]
    · exact digitRun_of_ends is.fraction fun c here => (powers.ends c here).1
  have ends : ∀ c ∈ (point ++ power).head?, c.isDigit = false := by
    obtain ⟨rfl, -⟩ | rfl := points
    · exact fun c here => (powers.ends c here).1
    · simp
  have notEmpty : m.whole.isEmpty = false := by simpa using is.nonempty
  rw [scan?, List.append_assoc, digitRun_of_ends is.whole ends]
  simp [afterPoint, powers.scan, notEmpty]

end IsText

end Numeral

namespace Decimal

variable {d : Decimal}

theorem isDigit_of_mem_digitText : ∀ c ∈ d.digitText, c.isDigit = true :=
  fun _ member => Nat.isDigit_of_mem_toDigits (by decide) (by decide) member

theorem digitsValue_digitText : digitsValue d.digitText = d.digits :=
  Nat.ofDigitChars_ten_toDigits

theorem length_digitText : 0 < d.digitText.length :=
  List.length_pos_iff.mpr Nat.toDigits_ne_nil

end Decimal

theorem isDigit_of_mem_zeros (n : Nat) : ∀ c ∈ List.replicate n '0', c.isDigit = true := by
  intro c member
  rw [List.eq_of_mem_replicate member]
  rfl

theorem digitsValue_zeros_append (n : Nat) (digits : List Char) :
    digitsValue (List.replicate n '0' ++ digits) = digitsValue digits := by
  have zeros : Nat.ofDigitChars 10 (List.replicate n '0') 0 = 0 := by simp
  change Nat.ofDigitChars 10 (_ ++ digits) 0 = Nat.ofDigitChars 10 digits 0
  rw [Nat.ofDigitChars_append, zeros]

theorem digitsValue_append_zeros (digits : List Char) (n : Nat) :
    digitsValue (digits ++ List.replicate n '0') = digitsValue digits * 10 ^ n := by
  change Nat.ofDigitChars 10 (digits ++ _) 0 = Nat.ofDigitChars 10 digits 0 * 10 ^ n
  rw [Nat.ofDigitChars_append, Nat.ofDigitChars_replicate_zero, Nat.mul_comm]

/-- Zeros at the end of the digits move the place of the last one. -/
theorem Numeral.value_eq {m : Numeral} {d : Decimal} (zeros : Nat)
    (digits : digitsValue (m.whole ++ m.fraction) = d.digits * 10 ^ zeros)
    (place : m.exponent - m.fraction.length + zeros = d.exponent) : m.value = d.value := by
  rw [Numeral.value, Decimal.value, digits, ← place, zpow_add₀ (by norm_num), zpow_natCast]
  push_cast
  ring

namespace Decimal

/-- The decimal written out in full. -/
def plainNumeral (d : Decimal) : Numeral :=
  if d.leading < 0 then
    ⟨['0'], List.replicate (-d.leading - 1).toNat '0' ++ d.digitText, 0⟩
  else
    let whole := d.leading.toNat + 1
    ⟨d.digitText.take whole ++ List.replicate (whole - d.digitText.length) '0',
      d.digitText.drop whole, 0⟩

/-- The decimal with its first digit in front of the point. -/
def scientificNumeral (d : Decimal) : Numeral :=
  ⟨d.digitText.take 1, d.digitText.drop 1, d.leading⟩

theorem exponent_plainNumeral (d : Decimal) : d.plainNumeral.exponent = 0 := by
  unfold plainNumeral
  split <;> rfl

theorem hasDigits_plainNumeral (d : Decimal) : d.plainNumeral.HasDigits := by
  have all := d.isDigit_of_mem_digitText
  have nonempty := List.length_pos_iff.mp d.length_digitText
  unfold plainNumeral
  split
  · refine ⟨by simp, List.forall_mem_singleton.mpr rfl, ?_⟩
    exact List.forall_mem_append.mpr ⟨isDigit_of_mem_zeros _, all⟩
  · refine ⟨by simp [nonempty], ?_, fun c member => all c (List.mem_of_mem_drop member)⟩
    refine List.forall_mem_append.mpr ⟨?_, isDigit_of_mem_zeros _⟩
    exact fun c member => all c (List.mem_of_mem_take member)

theorem hasDigits_scientificNumeral (d : Decimal) : d.scientificNumeral.HasDigits := by
  have all := d.isDigit_of_mem_digitText
  have nonempty := List.length_pos_iff.mp d.length_digitText
  exact ⟨by simp [scientificNumeral, nonempty], fun c member => all c (List.mem_of_mem_take member),
    fun c member => all c (List.mem_of_mem_drop member)⟩

theorem value_plainNumeral (d : Decimal) : d.plainNumeral.value = d.value := by
  have length := d.length_digitText
  have leading : d.leading = d.exponent + d.digitText.length - 1 := rfl
  unfold plainNumeral
  split
  · have digits : digitsValue
        (['0'] ++ (List.replicate (-d.leading - 1).toNat '0' ++ d.digitText)) =
          d.digits * 10 ^ 0 := by
      have joined := digitsValue_zeros_append ((-d.leading - 1).toNat + 1) d.digitText
      rw [List.replicate_succ, d.digitsValue_digitText] at joined
      simpa using joined
    refine Numeral.value_eq 0 digits ?_
    simp
    omega
  · dsimp only
    by_cases long : d.digitText.length ≤ d.leading.toNat + 1
    · have digits := digitsValue_append_zeros d.digitText (d.leading.toNat + 1 - d.digitText.length)
      rw [d.digitsValue_digitText] at digits
      rw [List.take_of_length_le long, List.drop_of_length_le long]
      refine Numeral.value_eq _ (by simpa using digits) ?_
      simp
      omega
    · have noZeros : d.leading.toNat + 1 - d.digitText.length = 0 := by omega
      rw [noZeros, List.replicate_zero, List.append_nil]
      refine Numeral.value_eq 0 ?_ ?_
      · rw [List.take_append_drop, d.digitsValue_digitText]
        simp
      · simp
        omega

theorem value_scientificNumeral (d : Decimal) : d.scientificNumeral.value = d.value := by
  have length := d.length_digitText
  have leading : d.leading = d.exponent + d.digitText.length - 1 := rfl
  refine Numeral.value_eq 0 ?_ ?_
  · simp only [scientificNumeral, List.take_append_drop, d.digitsValue_digitText]
    simp
  · simp [scientificNumeral]
    omega

end Decimal

namespace Layout

theorem plain_eq {layout : Layout} (noFraction : layout.wholeFraction = false) (d : Decimal) :
    layout.plain d.digitText d.leading =
      d.plainNumeral.whole ++ Numeral.pointed d.plainNumeral.fraction := by
  have nonempty := List.length_pos_iff.mp d.length_digitText
  unfold plain Decimal.plainNumeral Numeral.pointed
  split
  · simp [nonempty]
  · dsimp only
    split
    · rename_i long
      simp [noFraction, List.take_of_length_le long, List.drop_of_length_le long]
    · rename_i short
      have noZeros : d.leading.toNat + 1 - d.digitText.length = 0 := by omega
      rw [if_neg (by simpa using short), noZeros]
      simp

/-- A fraction that is only a zero adds nothing to the number. -/
theorem isText_plain (layout : Layout) (d : Decimal) :
    ∃ m : Numeral, m.IsText (layout.plain d.digitText d.leading) ∧ m.value = d.value := by
  have length := d.length_digitText
  have leading : d.leading = d.exponent + d.digitText.length - 1 := rfl
  by_cases bare : layout.wholeFraction = false ∨ d.leading < 0 ∨
      d.leading.toNat + 1 < d.digitText.length
  · have same : layout.plain d.digitText d.leading =
        { layout with wholeFraction := false }.plain d.digitText d.leading := by
      unfold plain
      split
      · rfl
      · dsimp only
        split
        · rw [(bare.resolve_right (by omega))]
        · rfl
    rw [same, plain_eq rfl]
    exact ⟨_, .of_plain d.hasDigits_plainNumeral d.exponent_plainNumeral, d.value_plainNumeral⟩
  · obtain ⟨fraction, whole, short⟩ : layout.wholeFraction = true ∧ ¬ d.leading < 0 ∧
        d.digitText.length ≤ d.leading.toNat + 1 := by
      simpa [not_or] using bare
    let zeros := d.leading.toNat + 1 - d.digitText.length
    let m : Numeral := ⟨d.digitText ++ List.replicate zeros '0', ['0'], 0⟩
    have text : layout.plain d.digitText d.leading = m.whole ++ Numeral.pointed m.fraction := by
      simp [plain, whole, short, fraction, m, zeros, Numeral.pointed]
    have digits : digitsValue (m.whole ++ m.fraction) = d.digits * 10 ^ (zeros + 1) := by
      rw [List.append_assoc, ← List.replicate_succ', digitsValue_append_zeros,
        d.digitsValue_digitText]
    have has : m.HasDigits := by
      refine ⟨by simp [m, List.length_pos_iff.mp length], ?_, by simp [m]⟩
      exact List.forall_mem_append.mpr ⟨d.isDigit_of_mem_digitText, isDigit_of_mem_zeros _⟩
    rw [text]
    refine ⟨m, .of_plain has rfl, Numeral.value_eq (zeros + 1) digits ?_⟩
    simp [m, zeros]
    omega

theorem scientific_eq {layout : Layout} (plus : layout.exponentPlus = true) (d : Decimal) :
    layout.scientific d.digitText d.leading =
      d.scientificNumeral.whole ++ Numeral.pointed d.scientificNumeral.fraction ++
        Numeral.power d.leading := by
  have length := d.length_digitText
  have sign : (if d.leading < 0 then ['-'] else if layout.exponentPlus then ['+'] else []) =
      [if d.leading < 0 then '-' else '+'] := by
    rw [plus]
    split <;> rfl
  unfold scientific Decimal.scientificNumeral Numeral.power Numeral.pointed
  dsimp only
  rw [sign]
  generalize d.digitText = digits at *
  match digits with
  | [first] => simp
  | first :: second :: rest => simp

theorem isText_scientific {layout : Layout} (plus : layout.exponentPlus = true) (d : Decimal) :
    d.scientificNumeral.IsText (layout.scientific d.digitText d.leading) := by
  rw [scientific_eq plus]
  exact .of_pointed d.hasDigits_scientificNumeral (.of_power d.leading)

theorem isText_decimal {layout : Layout} (plus : layout.exponentPlus = true) (d : Decimal) :
    ∃ m : Numeral, m.IsText (layout.decimal d) ∧ m.value = d.value := by
  unfold decimal
  split
  · exact isText_plain layout d
  · exact ⟨_, isText_scientific plus d, d.value_scientificNumeral⟩

end Layout

namespace Number

/-- Whether a number is finite and its sign is not a minus. -/
def isUnsigned (n : Float) : Bool :=
  match Binary64.ofFloat n with
  | .finite negative _ _ => !negative
  | _ => false

/-- The text of a number is a numeral that rounds to the number. -/
theorem isText_text {n : Float} (unsigned : isUnsigned n = true) :
    ∃ m : Numeral, m.IsText (text n).toList ∧ m.bits = n.toBits.toNat := by
  unfold isUnsigned at unsigned
  unfold text Layout.text
  split at unsigned
  · rename_i negative significand exponent finite
    obtain rfl : negative = false := by simpa using unsigned
    have double := Binary64.isDouble_of_ofBits finite
    have pattern := Binary64.pattern_of_ofBits finite
    rw [finite, ← pattern]
    dsimp only
    split
    · rename_i zero
      subst zero
      obtain rfl : exponent = Binary64.leastExponent := by simpa using double.leading
      refine ⟨⟨['0'], [], 0⟩, ⟨by simp, ?_, by simp, [], [], rfl, .none, .inl ⟨rfl, rfl⟩⟩, rfl⟩
      exact List.forall_mem_singleton.mpr rfl
    · rename_i other
      have nonzero := Nat.pos_of_ne_zero other
      have rounds := Decimal.roundsTo_shortest layout.tie double nonzero
      simp only [Bool.false_eq_true, if_false, String.toList_ofList]
      obtain ⟨m, isText, value⟩ := @Layout.isText_decimal layout rfl
        (Decimal.shortest layout.tie significand exponent)
      rw [← value] at rounds
      exact ⟨m, isText, Binary64.nearestDecimal_eq double nonzero rounds⟩
  · cases unsigned

theorem isNumeral_text {n : Float} (unsigned : isUnsigned n = true) :
    IsNumeral (text n).toList := by
  obtain ⟨m, is, -⟩ := isText_text unsigned
  exact is.isNumeral

/-- Read as a literal, the text of a number is that number. -/
theorem decimalValue_text {n : Float} (unsigned : isUnsigned n = true) :
    Lexer.Pass.decimalValue (text n).toList = n := by
  obtain ⟨m, is, bits⟩ := isText_text unsigned
  rw [Lexer.Pass.decimalValue, is.scan]
  dsimp only
  rw [Numeral.toFloat, Binary64.toFloat, bits, if_neg Bool.false_ne_true, UInt64.ofNat_toNat,
    Float.ofBits_toBits]

end Number

end MinangScript
