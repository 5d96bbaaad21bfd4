import MinangScript.Proofs.Decimal.Fewest
import MinangScript.Proofs.Decimal.NumberText
import MinangScript.Proofs.Decimal.Unpacking
import MinangScript.Proofs.Json.Reading

/-! # The text of every number

`Number.Shown` says which text a double has to have: the digits of its shortest decimal, written out
in full from a millionth up to below `10 ^ 21` and with an exponent elsewhere, no zero that could be
left out. The text of a number is that text for each of the bit patterns, and read again it is the
number; only the sign of zero is not in it.
-/

namespace MinangScript

namespace Numeral

/-- No digit of the numeral could be left out. -/
structure IsNeat (m : Numeral) : Prop extends m.HasDigits where
  front : m.whole.head? = some '0' → m.whole = ['0']
  back : m.fraction.getLast? ≠ some '0'

end Numeral

namespace Decimal

variable {d : Decimal}

/-! ## The first and the last digit -/

theorem head?_digitText (nonzero : 0 < d.digits) : d.digitText.head? ≠ some '0' := by
  intro zero
  obtain ⟨rest, written⟩ := List.head?_eq_some_iff.mp zero
  exact nonzero.ne' (Json.JsonReader.eq_zero_of_toDigits written)

theorem getLast?_digitText (trimmed : d.digits % 10 ≠ 0) :
    d.digitText.getLast? ≠ some '0' := by
  have digit : ∀ n < 10, n ≠ 0 → Nat.digitChar n ≠ '0' := by decide
  rw [digitText, Nat.toDigits_eq_if (by decide)]
  split
  · rename_i small
    simpa using digit d.digits small (by omega)
  · simpa using digit (d.digits % 10) (by omega) trimmed

theorem getLast?_drop_digitText (trimmed : d.digits % 10 ≠ 0) (k : Nat) :
    (d.digitText.drop k).getLast? ≠ some '0' := by
  rw [List.getLast?_drop]
  split
  · simp
  · exact getLast?_digitText trimmed

theorem isNeat_plainNumeral (trimmed : d.digits % 10 ≠ 0) : d.plainNumeral.IsNeat := by
  refine ⟨d.hasDigits_plainNumeral, ?_, ?_⟩
  · have first := @head?_digitText d (by omega)
    have nonempty := List.length_pos_iff.mp d.length_digitText
    unfold plainNumeral
    split
    · exact fun _ => rfl
    · intro zero
      rw [List.head?_append_of_ne_nil _ (by simp [nonempty]), List.head?_take,
        if_neg (by omega)] at zero
      exact absurd zero first
  · unfold plainNumeral
    split
    · rw [List.getLast?_append_of_ne_nil _ (List.length_pos_iff.mp d.length_digitText)]
      exact getLast?_digitText trimmed
    · exact getLast?_drop_digitText trimmed _

theorem isNeat_scientificNumeral (trimmed : d.digits % 10 ≠ 0) : d.scientificNumeral.IsNeat := by
  refine ⟨d.hasDigits_scientificNumeral, fun zero => ?_, getLast?_drop_digitText trimmed 1⟩
  rw [scientificNumeral, List.head?_take, if_neg (by omega)] at zero
  exact absurd zero (head?_digitText (by omega))

/-! ## The place of the first digit -/

/-- The first digit stands at the leading power of ten. -/
theorem leading_bounds (nonzero : 0 < d.digits) :
    10 ^ d.leading ≤ d.value ∧ d.value < 10 ^ (d.leading + 1) := by
  have ten : (10 : ℚ) ≠ 0 := by norm_num
  have place : (0 : ℚ) < 10 ^ d.exponent := by positivity
  obtain ⟨k, length⟩ : ∃ k, d.digitText.length = k + 1 :=
    Nat.exists_eq_add_one_of_ne_zero d.length_digitText.ne'
  have leading : d.leading = k + d.exponent := by
    unfold Decimal.leading
    omega
  constructor
  · have digits : (10 : ℚ) ^ k ≤ d.digits := by
      cases k with
      | zero => exact_mod_cast nonzero
      | succ k =>
          have more := mt (@length_digitText_le_iff d k).mpr (by omega)
          exact_mod_cast not_lt.mp more
    rw [leading, zpow_add₀ ten, zpow_natCast]
    exact mul_le_mul_of_nonneg_right digits place.le
  · have digits : (d.digits : ℚ) < 10 ^ (k + 1) := by
      exact_mod_cast (length_digitText_le_iff k).mp length.le
    rw [leading, add_right_comm, zpow_add₀ ten, ← Nat.cast_succ, zpow_natCast]
    exact mul_lt_mul_of_pos_right digits place

theorem le_leading_iff (nonzero : 0 < d.digits) (k : Int) : k ≤ d.leading ↔ 10 ^ k ≤ d.value := by
  obtain ⟨low, high⟩ := leading_bounds nonzero
  constructor
  · intro le
    exact (zpow_le_zpow_right₀ (by norm_num) le).trans low
  · intro le
    have less := (zpow_lt_zpow_iff_right₀ (by norm_num)).mp (le.trans_lt high)
    omega

end Decimal

namespace Binary64

/-! ## The parts of a bit pattern -/

/-- Every pattern is a sign and the pattern of a magnitude; those beyond infinity are no numbers. -/
theorem ofBits_cases (bits : Nat) :
    (ofBits bits = .nan ∧ infinityBits < bits % 2 ^ 63) ∨
    (ofBits bits = .infinite (decide (2 ^ 63 ≤ bits)) ∧ bits % 2 ^ 63 = infinityBits) ∨
    ∃ s e, ofBits bits = .finite (decide (2 ^ 63 ≤ bits)) s e ∧ IsDouble s e ∧
      bits % 2 ^ 63 = pattern s e := by
  have cases : ofBits bits = if bits / 2 ^ 52 % 2 ^ 11 = 2047 then
      if bits % 2 ^ 52 = 0 then .infinite (decide (2 ^ 63 ≤ bits)) else .nan
      else if bits / 2 ^ 52 % 2 ^ 11 = 0 then
        .finite (decide (2 ^ 63 ≤ bits)) (bits % 2 ^ 52) leastExponent
      else .finite (decide (2 ^ 63 ≤ bits)) (2 ^ 52 + bits % 2 ^ 52)
        ((bits / 2 ^ 52 % 2 ^ 11 : Nat) - 1075) := rfl
  split_ifs at cases with full zero empty
  · refine .inr (.inl ⟨cases, ?_⟩)
    simp only [infinityBits, Nat.pow_eq]
    omega
  · refine .inl ⟨cases, ?_⟩
    simp only [infinityBits, Nat.pow_eq]
    omega
  · refine .inr (.inr ⟨_, _, cases, isDouble_of_ofBits cases, ?_⟩)
    unfold pattern
    omega
  · refine .inr (.inr ⟨_, _, cases, isDouble_of_ofBits cases, ?_⟩)
    unfold pattern leastExponent
    omega

theorem toFloat_mod (bits : UInt64) :
    toFloat (decide (2 ^ 63 ≤ bits.toNat)) (bits.toNat % 2 ^ 63) = Float.ofBits bits := by
  have short := bits.toNat_lt
  have joined : (if decide (2 ^ 63 ≤ bits.toNat) = true then Nat.pow 2 63 + bits.toNat % 2 ^ 63
      else bits.toNat % 2 ^ 63) = bits.toNat := by
    simp only [Nat.pow_eq, decide_eq_true_eq]
    split <;> omega
  rw [toFloat, joined, UInt64.ofNat_toNat]

/-- Only a zero has a sign that is not shown. -/
theorem unsigned_of_pos {bits : UInt64} (nonzero : 0 < bits.toNat % 2 ^ 63) :
    (if bits = 0x8000000000000000 then 0 else bits) = bits := by
  refine if_neg fun minusZero => ?_
  rw [minusZero] at nonzero
  exact absurd nonzero (by decide)

theorem unsigned_of_zero {bits : UInt64} (vanishes : bits.toNat % 2 ^ 63 = 0) :
    (if bits = 0x8000000000000000 then 0 else bits) = 0 := by
  have short := bits.toNat_lt
  obtain zero | minusZero : bits.toNat = 0 ∨ bits.toNat = 2 ^ 63 := by omega
  · obtain rfl : bits = 0 := UInt64.toNat_inj.mp zero
    rfl
  · exact if_pos (UInt64.toNat_inj.mp minusZero)

end Binary64

namespace Number

/-! ## What a number is shown as -/

/-- The numbers that are written out in full. -/
def InPlainRange (x : ℚ) : Prop :=
  10 ^ (-6 : Int) ≤ x ∧ x < 10 ^ (21 : Int)

/-- The text of a numeral, which its size decides. -/
inductive Written (m : Numeral) : List Char → Prop where
  | plain (size : InPlainRange m.value) (exponent : m.exponent = 0) :
      Written m (m.whole ++ Numeral.pointed m.fraction)
  | scientific (size : ¬ InPlainRange m.value) (digit : m.whole.length = 1)
      (notZero : m.whole ≠ ['0']) :
      Written m (m.whole ++ Numeral.pointed m.fraction ++ Numeral.power m.exponent)

/-- The sign in front of a number. -/
def sign (negative : Bool) : List Char :=
  if negative then ['-'] else []

/-- The text that a double has to have. -/
inductive Shown : Binary64 → String → Prop where
  | nan : Shown .nan "NaN"
  | infinity : Shown (.infinite false) "Infinity"
  | negativeInfinity : Shown (.infinite true) "-Infinity"
  | zero (negative : Bool) (e : Int) : Shown (.finite negative 0 e) "0"
  | finite {negative : Bool} {s : Nat} {e : Int} {d : Decimal} {m : Numeral} {body : List Char}
      (nonzero : 0 < s) (shortest : d.IsShortest s e) (value : m.value = d.value) (neat : m.IsNeat)
      (written : Written m body) :
      Shown (.finite negative s e) (String.ofList (sign negative ++ body))

variable {d : Decimal}

theorem inPlainRange_iff (nonzero : 0 < d.digits) :
    InPlainRange d.value ↔ layout.plainFrom ≤ d.leading ∧ d.leading < layout.plainBelow := by
  have below := Decimal.le_leading_iff nonzero layout.plainBelow
  rw [InPlainRange, Decimal.le_leading_iff nonzero, ← not_le, ← not_le, below]
  rfl

theorem written_decimal (trimmed : d.digits % 10 ≠ 0) :
    ∃ m : Numeral, m.value = d.value ∧ m.IsNeat ∧ Written m (layout.decimal d) := by
  have nonzero : 0 < d.digits := by omega
  unfold Layout.decimal
  split
  · rename_i plain
    have size := (inPlainRange_iff nonzero).mpr plain
    rw [← d.value_plainNumeral] at size
    refine ⟨d.plainNumeral, d.value_plainNumeral, Decimal.isNeat_plainNumeral trimmed, ?_⟩
    rw [Layout.plain_eq rfl]
    exact .plain size d.exponent_plainNumeral
  · rename_i notPlain
    have size := mt (inPlainRange_iff nonzero).mp notPlain
    rw [← d.value_scientificNumeral] at size
    refine ⟨d.scientificNumeral, d.value_scientificNumeral,
      Decimal.isNeat_scientificNumeral trimmed, ?_⟩
    rw [Layout.scientific_eq rfl]
    have length := d.length_digitText
    refine .scientific size ?_ fun zero => Decimal.head?_digitText nonzero ?_
    · simp [Decimal.scientificNumeral]
      omega
    · have first := congrArg List.head? zero
      rwa [Decimal.scientificNumeral, List.head?_take, if_neg (by omega)] at first

theorem Written.isText {m : Numeral} {body : List Char} (written : Written m body)
    (neat : m.IsNeat) : m.IsText body := by
  cases written with
  | plain _ exponent => exact .of_plain neat.toHasDigits exponent
  | scientific => exact .of_pointed neat.toHasDigits (.of_power m.exponent)

/-- The exponent is the only part with a letter in it. -/
theorem Written.mem_iff {m : Numeral} {body : List Char} (written : Written m body)
    (neat : m.IsNeat) : 'e' ∈ body ↔ ¬ InPlainRange m.value := by
  have notDigit : Char.isDigit 'e' ≠ true := by decide
  cases written with
  | plain size =>
      refine iff_of_false (fun member => ?_) (not_not.mpr size)
      rcases List.mem_append.mp member with whole | pointed
      · exact notDigit (neat.whole _ whole)
      · unfold Numeral.pointed at pointed
        split at pointed
        · cases pointed
        · exact notDigit (neat.fraction _ (by simpa using pointed))
  | scientific size => exact iff_of_true (by simp [Numeral.power]) size

theorem text_finite {n : Float} {negative : Bool} {s : Nat} {e : Int}
    (is : Binary64.ofFloat n = .finite negative s e) (nonzero : 0 < s) :
    text n = String.ofList (sign negative ++ layout.decimal (Decimal.shortest .away s e)) := by
  rw [text, is, Layout.text, if_neg nonzero.ne']
  cases negative with
  | false => rfl
  | true =>
      rw [← String.toList_inj]
      simp [sign, layout]

/-! ## Reading the text -/

theorem ofText_sign {m : Numeral} {body : List Char} (is : m.IsText body) (negative : Bool) :
    ofText (String.ofList (sign negative ++ body)) = m.toFloat negative := by
  have scanned := is.scan
  obtain ⟨c, rest, rfl, digit⟩ : ∃ c rest, body = c :: rest ∧ c.isDigit = true := by
    obtain ⟨point, power, rfl, -⟩ := is.parts
    obtain ⟨c, whole, same⟩ := List.exists_cons_of_ne_nil is.nonempty
    exact ⟨c, _, by rw [same]; rfl, is.whole c (by rw [same]; simp)⟩
  have letters : c ≠ '+' ∧ c ≠ '-' ∧ 'I' ≠ c := by
    refine ⟨?_, ?_, ?_⟩ <;> (rintro rfl; exact absurd digit (by decide))
  have signed : takeSign (sign negative ++ c :: rest) = (negative, c :: rest) := by
    cases negative <;> simp [sign, takeSign, letters]
  have notInfinity : "Infinity".toList.isPrefixOf (c :: rest) = false := by
    simp [List.isPrefixOf, letters]
  rw [ofText, String.toList_ofList, scan?, signed]
  dsimp only
  rw [notInfinity, scanned]
  rfl

/-! ## Where the notation changes -/

/-- The double of a power of ten, which has that power as its shortest decimal. -/
structure IsPowerOfTen (k : Int) (p : Nat) (q : Int) : Prop extends Binary64.IsDouble p q where
  positive : 0 < p
  shortest : Decimal.shortest .away p q = ⟨1, k⟩
  bits : Binary64.nearestDecimal 1 k = Binary64.pattern p q

/-- The shortest decimals are ordered as their doubles are, also where the first digit moves. -/
theorem IsPowerOfTen.le_leading_iff {k : Int} {p : Nat} {q : Int} (power : IsPowerOfTen k p q)
    {s : Nat} {e : Int} (double : Binary64.IsDouble s e) (nonzero : 0 < s) :
    k ≤ (Decimal.shortest .away s e).leading ↔
      Binary64.nearestDecimal 1 k ≤ Binary64.pattern s e := by
  have value : (Decimal.shortest .away p q).value = 10 ^ k := by
    rw [power.shortest, Decimal.value, Nat.cast_one, one_mul]
  have digits := (Decimal.isShortest_shortest double nonzero).digits_pos
  rw [Decimal.le_leading_iff digits, ← value, power.bits,
    Decimal.value_shortest_le_iff power.toIsDouble double power.positive nonzero]

theorem isPowerOfTen_millionth : IsPowerOfTen (-6) 4722366482869645 (-72) := by
  refine ⟨⟨?_, ?_, ?_, ?_⟩, ?_, ?_, ?_⟩ <;> decide +kernel

theorem isPowerOfTen_twentyOne : IsPowerOfTen 21 7629394531250000 17 := by
  refine ⟨⟨?_, ?_, ?_, ?_⟩, ?_, ?_, ?_⟩ <;> decide +kernel

/-- The doubles of a millionth and of `10 ^ 21` are where the notation changes. -/
theorem inPlainRange_shortest_iff {s : Nat} {e : Int} (double : Binary64.IsDouble s e)
    (nonzero : 0 < s) :
    InPlainRange (Decimal.shortest .away s e).value ↔
      Binary64.nearestDecimal 1 (-6) ≤ Binary64.pattern s e ∧
        Binary64.pattern s e < Binary64.nearestDecimal 1 21 := by
  have digits := (Decimal.isShortest_shortest double nonzero).digits_pos
  rw [InPlainRange, ← not_le, ← not_le, ← Decimal.le_leading_iff digits,
    ← Decimal.le_leading_iff digits, isPowerOfTen_millionth.le_leading_iff double nonzero,
    isPowerOfTen_twentyOne.le_leading_iff double nonzero]

/-! ## All bit patterns -/

/-- A double that is not zero: its text is the shown one, is read as the double, and has an exponent
    exactly when the double is below that of a millionth or not below that of `10 ^ 21`. -/
theorem text_of_finite {n : Float} {negative : Bool} {s : Nat} {e : Int}
    (is : Binary64.ofFloat n = .finite negative s e) (nonzero : 0 < s) :
    Shown (.finite negative s e) (text n) ∧
      ofText (text n) = Binary64.toFloat negative (Binary64.pattern s e) ∧
      ('e' ∈ (text n).toList ↔ Binary64.pattern s e < Binary64.nearestDecimal 1 (-6) ∨
        Binary64.nearestDecimal 1 21 ≤ Binary64.pattern s e) := by
  have double := Binary64.isDouble_of_ofBits is
  have shortest := Decimal.isShortest_shortest double nonzero
  obtain ⟨m, value, neat, written⟩ := written_decimal shortest.trimmed
  rw [text_finite is nonzero]
  refine ⟨.finite nonzero shortest value neat written, ?_, ?_⟩
  · have rounds := shortest.nearest.roundsTo double nonzero
    rw [← value] at rounds
    rw [ofText_sign (written.isText neat), Numeral.toFloat, Numeral.bits,
      Binary64.nearestDecimal_eq double nonzero rounds]
  · have noSign : 'e' ∉ sign negative := by cases negative <;> decide
    rw [String.toList_ofList, List.mem_append, or_iff_right noSign, written.mem_iff neat, value,
      inPlainRange_shortest_iff double nonzero, not_and_or, not_le, not_lt]

/-- The text of a number is what it is shown as. Read again it gives the number, save the sign of
    zero; and it has an exponent exactly when the double itself, its sign left aside, is below the
    double of a millionth or not below that of `10 ^ 21`. -/
theorem text_ofBits (bits : UInt64) :
    Shown (Binary64.ofBits bits.toNat) (text (Float.ofBits bits)) ∧
      ofText (text (Float.ofBits bits)) =
        Float.ofBits (if bits = 0x8000000000000000 then 0 else bits) ∧
      ('e' ∈ (text (Float.ofBits bits)).toList ↔
        (0 < bits.toNat % 2 ^ 63 ∧ bits.toNat % 2 ^ 63 < Binary64.nearestDecimal 1 (-6)) ∨
        (Binary64.nearestDecimal 1 21 ≤ bits.toNat % 2 ^ 63 ∧
          bits.toNat % 2 ^ 63 < Binary64.infinityBits)) := by
  have is := Binary64.ofFloat_ofBits bits
  have joined := Binary64.toFloat_mod bits
  have limits : Binary64.nearestDecimal 1 (-6) < Binary64.infinityBits ∧
      0 < Binary64.nearestDecimal 1 21 := by decide +kernel
  rcases Binary64.ofBits_cases bits.toNat with ⟨nan, beyond⟩ | ⟨infinite, most⟩ |
    ⟨s, e, finite, double, magnitude⟩
  · have shown : text (Float.ofBits bits) = "NaN" := by
      rw [text, is, nan]
      rfl
    rw [shown, nan, Binary64.unsigned_of_pos (by omega), Binary64.ofBits_of_nan nan]
    exact ⟨.nan, rfl, iff_of_false (by decide) (by omega)⟩
  · have shown : text (Float.ofBits bits) =
        layout.text (.infinite (decide (2 ^ 63 ≤ bits.toNat))) := by
      rw [text, is, infinite]
    rw [most] at joined
    rw [shown, infinite, Binary64.unsigned_of_pos (by omega), ← joined]
    cases decide (2 ^ 63 ≤ bits.toNat) with
    | false => exact ⟨.infinity, rfl, iff_of_false (by decide) (by omega)⟩
    | true => exact ⟨.negativeInfinity, rfl, iff_of_false (by decide) (by omega)⟩
  · rcases Nat.eq_zero_or_pos s with rfl | nonzero
    · obtain rfl : e = Binary64.leastExponent := by simpa using double.leading
      have vanishes : bits.toNat % 2 ^ 63 = 0 := magnitude
      have shown : text (Float.ofBits bits) = "0" := by
        rw [text, is, finite, Layout.text, if_pos rfl]
        exact ite_self _
      rw [shown, finite, Binary64.unsigned_of_zero vanishes]
      exact ⟨.zero _ _, rfl, iff_of_false (by decide) (by omega)⟩
    · obtain ⟨shown, reads, exponent⟩ := text_of_finite (is.trans finite) nonzero
      have positive : 0 < Binary64.pattern s e := Nat.add_pos_right _ nonzero
      have below := Binary64.pattern_lt double
      rw [← magnitude] at positive below reads exponent
      rw [finite, Binary64.unsigned_of_pos positive, reads, joined, exponent]
      exact ⟨shown, rfl, by omega⟩

end Number

end MinangScript
