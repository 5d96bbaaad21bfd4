import MinangScript.Builtin
import MinangScript.Proofs.Decimal.DigitsOnly
import MinangScript.Proofs.Json.Text

/-! # Numbers in JSON and on their own

JSON has a notation for numbers of its own. Small whole numbers are written alike in both. Any other
number is written with the digits of a shortest decimal, and that is written alike where both
notations use an exponent, and where both write it out in full and it has a fraction; elsewhere one
text has an exponent or a fraction that the other has not. The digits are the same unless the number
stands in the middle between two decimals.
-/

namespace MinangScript

/-! ## Decimals -/

theorem toDigits_mul_ten_pow {n : Nat} (nonzero : 0 < n) (k : Nat) :
    Nat.toDigits 10 (n * 10 ^ k) = Nat.toDigits 10 n ++ List.replicate k '0' := by
  induction k with
  | zero => simp
  | succ k ih =>
      have zero : Nat.toDigits 10 0 = ['0'] := rfl
      have positive : 0 < n * 10 ^ k := by positivity
      have longer := Nat.toDigits_append_toDigits (b := 10) (d := 0) (by decide) positive
        (by decide)
      rw [ih, zero, List.append_assoc, ← List.replicate_succ'] at longer
      rw [longer, Nat.pow_succ, ← Nat.mul_assoc, Nat.mul_comm 10, Nat.add_zero]

namespace Binary64

/-- Of all whole numbers only the double itself rounds to it if it is small. -/
theorem eq_of_nearestTo {s k y : Nat} {e : Int} (nearest : NearestTo (y : ℚ) s e)
    (whole : magnitude s e = k) (small : k < 2 ^ 53) : y = k := by
  obtain fits | large := Nat.lt_or_ge y (2 ^ 53)
  · have there : Representable y := ⟨y, 0, fits, by decide, by simp [magnitude]⟩
    exact_mod_cast (nearest.eq_of_representable there).trans whole
  · have limit : Representable (2 ^ 53) :=
      ⟨2 ^ 52, 1, by decide, by decide, by norm_num [magnitude]⟩
    have small : (k : ℚ) < 2 ^ 53 := by exact_mod_cast small
    have large : (2 ^ 53 : ℚ) ≤ y := by exact_mod_cast large
    have near := nearest.le limit
    rw [whole, abs_of_nonneg (by linarith), abs_of_nonneg (by linarith)] at near
    linarith

end Binary64

namespace Decimal

variable {d d' : Decimal}

/-- A number has one decimal without zeros at its end. -/
theorem eq_of_value_eq (trimmed : d.digits % 10 ≠ 0) (trimmed' : d'.digits % 10 ≠ 0)
    (same : d.value = d'.value) : d = d' := by
  wlog ordered : d.exponent ≤ d'.exponent generalizing d d'
  · exact (this trimmed' trimmed same.symm (by omega)).symm
  obtain ⟨k, exponent⟩ := Int.le.dest ordered
  have place : (10 : ℚ) ^ d.exponent ≠ 0 := by positivity
  have digits : d.digits = d'.digits * 10 ^ k := by
    rw [value, value, ← exponent, zpow_add₀ (by norm_num), zpow_natCast, mul_comm (_ ^ _ : ℚ),
      ← mul_assoc] at same
    exact_mod_cast mul_right_cancel₀ place same
  obtain rfl : k = 0 := by
    by_contra nonzero
    obtain ⟨k, rfl⟩ := Nat.exists_eq_succ_of_ne_zero nonzero
    rw [digits, Nat.pow_succ, ← Nat.mul_assoc] at trimmed
    exact trimmed (Nat.mul_mod_left ..)
  obtain ⟨n, x⟩ := d
  obtain ⟨n', x'⟩ := d'
  simp_all

end Decimal

namespace Number

open Decimal

variable {d d' : Decimal}

/-- Without a fraction a decimal is written as a whole number. -/
theorem decimal_of_exponent_nonneg (nonzero : 0 < d.digits) (whole : 0 ≤ d.exponent)
    (below : d.leading < 21) :
    layout.decimal d = Nat.toDigits 10 (d.digits * 10 ^ d.exponent.toNat) := by
  have length := d.length_digitText
  have leading : d.leading = d.exponent + d.digitText.length - 1 := rfl
  have plain : layout.plainFrom ≤ d.leading ∧ d.leading < layout.plainBelow :=
    ⟨by change (-6 : Int) ≤ _; omega, below⟩
  rw [Layout.decimal, if_pos plain, Layout.plain, if_neg (by omega), toDigits_mul_ten_pow nonzero]
  have zeros : d.leading.toNat + 1 - d.digitText.length = d.exponent.toNat := by omega
  have short : d.digitText.length ≤ d.leading.toNat + 1 := by omega
  dsimp only
  rw [if_pos short, zeros, if_neg (show ¬ layout.wholeFraction = true by decide), List.append_nil]
  rfl

/-- Both notations write the decimal alike: it is too small or too large for either to write it out
    in full, or both do and it has a fraction. -/
inductive IsAlike (d : Decimal) : Prop where
  | small (below : d.leading < -6)
  | large (least : 21 ≤ d.leading)
  | fraction (least : -5 ≤ d.leading) (below : d.leading < 16) (broken : d.exponent < 0)

theorem exponent_mem_iff (trimmed : d.digits % 10 ≠ 0) :
    'e' ∈ layout.decimal d ↔ d.leading < -6 ∨ 21 ≤ d.leading := by
  obtain ⟨m, value, neat, written⟩ := written_decimal trimmed
  rw [written.mem_iff neat, value, inPlainRange_iff (by omega), not_and_or, not_le, not_lt]
  rfl

theorem plain_json_eq_iff (d : Decimal) :
    Json.layout.plain d.digitText d.leading = layout.plain d.digitText d.leading ↔
      d.exponent < 0 := by
  have length := d.length_digitText
  have leading : d.leading = d.exponent + d.digitText.length - 1 := rfl
  unfold Layout.plain
  split
  · exact iff_of_true rfl (by omega)
  · dsimp only
    split
    · refine iff_of_false ?_ (by omega)
      simp [layout, Json.layout]
    · exact iff_of_true rfl (by omega)

/-- Where only one of the notations has an exponent, its letter tells the texts apart. -/
theorem decimal_json_eq_iff (trimmed : d.digits % 10 ≠ 0) :
    Json.layout.decimal d = layout.decimal d ↔ IsAlike d := by
  have letter := exponent_mem_iff trimmed
  by_cases inJson : -5 ≤ d.leading ∧ d.leading < 16
  · have full : layout.decimal d = layout.plain d.digitText d.leading :=
      if_pos ⟨show (-6 : Int) ≤ _ by omega, show _ < (21 : Int) by omega⟩
    have fullJson : Json.layout.decimal d = Json.layout.plain d.digitText d.leading :=
      if_pos inJson
    rw [full, fullJson, plain_json_eq_iff]
    refine ⟨.fraction inJson.1 inJson.2, fun alike => ?_⟩
    cases alike with
    | small below => omega
    | large least => omega
    | fraction _ _ broken => exact broken
  · have power : Json.layout.decimal d = Json.layout.scientific d.digitText d.leading :=
      if_neg inJson
    have json : 'e' ∈ Json.layout.decimal d := by
      rw [power]
      simp [Layout.scientific]
    constructor
    · intro same
      obtain below | least := letter.mp (same ▸ json)
      · exact .small below
      · exact .large least
    · intro alike
      have outside : ¬ (layout.plainFrom ≤ d.leading ∧ d.leading < layout.plainBelow) := by
        change ¬ ((-6 : Int) ≤ _ ∧ _ < (21 : Int))
        cases alike with
        | small below => omega
        | large least => omega
        | fraction least below => exact absurd ⟨least, below⟩ inJson
      rw [power, Layout.decimal, if_neg outside]
      rfl

/-- A text can be read as one decimal only. -/
theorem eq_of_decimal_eq (trimmed : d.digits % 10 ≠ 0) (trimmed' : d'.digits % 10 ≠ 0)
    (same : Json.layout.decimal d' = layout.decimal d) : d' = d := by
  obtain ⟨m, is, value⟩ := @Layout.isText_decimal layout rfl d
  obtain ⟨m', is', value'⟩ := @Layout.isText_decimal Json.layout rfl d'
  rw [same] at is'
  obtain rfl : m = m' := (Prod.mk.inj (Option.some.inj (is.scan.symm.trans is'.scan))).1
  exact eq_of_value_eq trimmed' trimmed (value'.symm.trans value)

/-! ## Doubles -/

theorem text_of_whole? {n : Float} {w : Int} (whole : whole? n = some w)
    (small : w.natAbs < 2 ^ 53) : (text n).toList = (Json.integer w).chars := by
  obtain ⟨negative, s, e, is⟩ := Binary64.finite_of_whole? whole
  rw [Binary64.whole?_of_finite is] at whole
  obtain ⟨k, magnitude, rfl⟩ := Option.map_eq_some_iff.mp whole
  have natural := Binary64.magnitude_eq_natural_iff.mpr magnitude
  have same : (if negative then -(k : Int) else (k : Int)).natAbs = k := by
    cases negative <;> simp
  rw [same] at small
  rw [Json.chars_integer, same]
  obtain rfl | nonzero := Nat.eq_zero_or_pos s
  · have zero : Binary64.magnitude 0 e = (0 : Nat) := by simp [Binary64.magnitude]
    obtain rfl : 0 = k := by exact_mod_cast zero.symm.trans natural
    rw [text_zero is]
    cases negative <;> rfl
  · have double := Binary64.isDouble_of_ofBits is
    have shortest := isShortest_shortest double nonzero
    have positive : 0 < k := by
      refine Nat.pos_of_ne_zero fun zero => nonzero.ne' ?_
      exact Binary64.eq_zero_of_wholeMagnitude? (zero ▸ magnitude)
    have fraction := shortest.exponent_nonneg natural positive
    have below : (Decimal.shortest .away s e).leading < 21 := by
      rw [leading_shortest_lt_iff double nonzero, natural]
      exact_mod_cast small.trans (by decide)
    have value := value_of_exponent_nonneg fraction
    have nearest := shortest.nearest
    rw [value] at nearest
    rw [text_finite is nonzero, String.toList_ofList,
      decimal_of_exponent_nonneg shortest.digits_pos fraction below,
      Binary64.eq_of_nearestTo nearest natural small]
    cases negative with
    | false => simp [sign]
    | true => simp [sign, positive]

theorem isPowerOfTen_hundredThousandth : IsPowerOfTen (-5) 5902958103587057 (-69) := by
  refine ⟨⟨?_, ?_, ?_, ?_⟩, ?_, ?_, ?_⟩ <;> decide +kernel

theorem isPowerOfTen_sixteen : IsPowerOfTen 16 5000000000000000 1 := by
  refine ⟨⟨?_, ?_, ?_, ?_⟩, ?_, ?_, ?_⟩ <;> decide +kernel

section Doubles

variable {s : Nat} {e : Int}

/-- The shortest decimal of a double has a fraction just if the double has one. -/
theorem exponent_neg_iff (double : Binary64.IsDouble s e) (nonzero : 0 < s) :
    (shortest .away s e).exponent < 0 ↔ Binary64.wholeMagnitude? s e = none := by
  have shortest := isShortest_shortest double nonzero
  rw [← not_iff_not, not_lt]
  constructor
  · intro fraction noWhole
    have nearest := shortest.nearest
    rw [value_of_exponent_nonneg fraction] at nearest
    obtain ⟨k, same⟩ := Binary64.magnitude_natural nearest double nonzero
    cases noWhole.symm.trans (Binary64.magnitude_eq_natural_iff.mp same)
  · intro whole
    obtain ⟨k, is⟩ := Option.ne_none_iff_exists'.mp whole
    refine shortest.exponent_nonneg (Binary64.magnitude_eq_natural_iff.mpr is) ?_
    refine Nat.pos_of_ne_zero fun zero => nonzero.ne' ?_
    exact Binary64.eq_zero_of_wholeMagnitude? (zero ▸ is)

/-- A double with a fraction is below `2 ^ 53`. -/
theorem leading_lt_of_fraction (double : Binary64.IsDouble s e) (nonzero : 0 < s)
    (broken : Binary64.wholeMagnitude? s e = none) : (shortest .away s e).leading < 16 := by
  have limit := isPowerOfTen_sixteen
  have fine : e < 0 := by
    by_contra large
    simp [Binary64.wholeMagnitude?, not_lt.mp large] at broken
  have unit : (2 : ℚ) ^ e ≤ 1 := zpow_le_one_of_nonpos₀ (by norm_num) fine.le
  have fits : (s : ℚ) < 2 ^ 53 := by exact_mod_cast double.fits
  have below : Binary64.magnitude s e < Binary64.magnitude 5000000000000000 1 := by
    norm_num [Binary64.magnitude]
    nlinarith
  rw [← not_le, limit.le_leading_iff double nonzero, not_le, limit.bits]
  exact (Binary64.magnitude_lt_iff double limit.toIsDouble).mp below

theorem isAlike_shortest_iff (double : Binary64.IsDouble s e) (nonzero : 0 < s) :
    IsAlike (shortest .away s e) ↔
      (Binary64.pattern s e < Binary64.nearestDecimal 1 (-6) ∨
        Binary64.nearestDecimal 1 21 ≤ Binary64.pattern s e) ∨
      Binary64.wholeMagnitude? s e = none ∧
        Binary64.nearestDecimal 1 (-5) ≤ Binary64.pattern s e := by
  have low := not_congr (isPowerOfTen_millionth.le_leading_iff double nonzero)
  rw [not_le, not_le] at low
  rw [← low, ← isPowerOfTen_twentyOne.le_leading_iff double nonzero,
    ← isPowerOfTen_hundredThousandth.le_leading_iff double nonzero, ← exponent_neg_iff double nonzero]
  constructor
  · intro alike
    cases alike with
    | small below => exact .inl (.inl below)
    | large least => exact .inl (.inr least)
    | fraction least below broken => exact .inr ⟨broken, least⟩
  · rintro ((below | least) | ⟨broken, least⟩)
    · exact .small below
    · exact .large least
    · have noWhole := (exponent_neg_iff double nonzero).mp broken
      exact .fraction least (leading_lt_of_fraction double nonzero noWhole) broken

end Doubles

/-- A double has the same text in JSON and on its own. A whole number below `2 ^ 53` has; anything
    else has if its digits are the same and it is below the double of a millionth, not below that of
    `10 ^ 21`, or a fraction not below that of `10 ^ -5`. -/
inductive IsAlikeInJson (s : Nat) (e : Int) : Prop where
  | whole {k : Nat} (is : Binary64.wholeMagnitude? s e = some k) (small : k < 2 ^ 53)
  | power (digits : shortest .even s e = shortest .away s e)
      (outside : Binary64.pattern s e < Binary64.nearestDecimal 1 (-6) ∨
        Binary64.nearestDecimal 1 21 ≤ Binary64.pattern s e)
  | fraction (digits : shortest .even s e = shortest .away s e)
      (broken : Binary64.wholeMagnitude? s e = none)
      (least : Binary64.nearestDecimal 1 (-5) ≤ Binary64.pattern s e)

theorem floatText_finite {n : Float} {negative : Bool} {s : Nat} {e : Int}
    (is : Binary64.ofFloat n = .finite negative s e) (nonzero : 0 < s) : Json.floatText n =
      String.ofList (sign negative ++ Json.layout.decimal (shortest .even s e)) := by
  rw [Json.floatText, is]
  dsimp only
  rw [Layout.text, if_neg nonzero.ne']
  cases negative with
  | false => rfl
  | true =>
      rw [← String.toList_inj]
      simp [sign, Json.layout]

theorem compact_of_whole? {n : Float} {w : Int} (whole : whole? n = some w)
    (small : w.natAbs < 2 ^ 53) : (toJson n).compact = text n := by
  rw [Binary64.toJson_of_whole? small whole, ← String.toList_inj, text_of_whole? whole small]
  rfl

/-- Only small whole numbers are integers in JSON. -/
theorem toJson_of_not_whole {n : Float} {negative : Bool} {s : Nat} {e : Int}
    (is : Binary64.ofFloat n = .finite negative s e)
    (notSmall : ¬ ∃ k, Binary64.wholeMagnitude? s e = some k ∧ k < 2 ^ 53) :
    toJson n = .float n := by
  rw [toJson, is]
  dsimp only
  rw [Binary64.whole?_of_finite is]
  cases magnitude : Binary64.wholeMagnitude? s e with
  | none => rfl
  | some k =>
      refine if_neg fun small => notSmall ⟨k, magnitude, ?_⟩
      cases negative <;> simpa using small

theorem compact_toJson_iff {n : Float} {negative : Bool} {s : Nat} {e : Int}
    (is : Binary64.ofFloat n = .finite negative s e) :
    (toJson n).compact = text n ↔ IsAlikeInJson s e := by
  by_cases small : ∃ k, Binary64.wholeMagnitude? s e = some k ∧ k < 2 ^ 53
  · obtain ⟨k, magnitude, small⟩ := small
    refine iff_of_true ?_ (.whole magnitude small)
    refine compact_of_whole? (w := if negative then -(k : Int) else k) ?_ ?_
    · rw [Binary64.whole?_of_finite is, magnitude]
      rfl
    · cases negative <;> simpa using small
  · have double := Binary64.isDouble_of_ofBits is
    have nonzero : 0 < s := by
      refine Nat.pos_of_ne_zero fun zero => small ⟨0, ?_, by decide⟩
      exact Binary64.magnitude_eq_natural_iff.mp (by simp [Binary64.magnitude, zero])
    have trimmed := (isShortest_shortest double nonzero).trimmed
    have trimmed' := trimmed_shortest_even double nonzero
    have compact : (toJson n).compact = text n ↔
        Json.layout.decimal (shortest .even s e) = layout.decimal (shortest .away s e) := by
      rw [toJson_of_not_whole is small, text_finite is nonzero]
      change "" ++ Json.floatText n = _ ↔ _
      rw [floatText_finite is nonzero, ← String.toList_inj]
      simp
    rw [compact]
    constructor
    · intro same
      have digits := eq_of_decimal_eq trimmed trimmed' same
      rw [digits, decimal_json_eq_iff trimmed, isAlike_shortest_iff double nonzero] at same
      obtain outside | ⟨broken, least⟩ := same
      · exact .power digits outside
      · exact .fraction digits broken least
    · intro alike
      cases alike with
      | whole magnitude less => exact absurd ⟨_, magnitude, less⟩ small
      | power digits outside =>
          rw [digits, decimal_json_eq_iff trimmed, isAlike_shortest_iff double nonzero]
          exact .inl outside
      | fraction digits broken least =>
          rw [digits, decimal_json_eq_iff trimmed, isAlike_shortest_iff double nonzero]
          exact .inr ⟨broken, least⟩

end Number

namespace Builtin

/-- A finite number is written in JSON as it is printed exactly where the notations agree. -/
theorem json_number_is_printed_number_iff {n : Float} {negative : Bool} {s : Nat} {e : Int}
    (finite : Binary64.ofFloat n = .finite negative s e) (tag : Nat) :
    writeJson.call [.number n] tag = ⟨.string (Value.number n).text, [], tag⟩ ↔
      Number.IsAlikeInJson s e := by
  rw [← Number.compact_toJson_iff finite]
  simp [call, Value.toJson?, Value.text]

theorem json_number_is_printed_number_iff_half :
    Binary64.ofFloat (Float.ofBits 0xbfe0000000000000) = .finite true (2 ^ 52) (-53) ∧
      writeJson.call [.number (Float.ofBits 0xbfe0000000000000)] 7 =
        ⟨.string (Value.number (Float.ofBits 0xbfe0000000000000)).text, [], 7⟩ := by
  have finite : Binary64.ofFloat (Float.ofBits 0xbfe0000000000000) =
      .finite true (2 ^ 52) (-53) := by decide +kernel
  have alike : Number.IsAlikeInJson (2 ^ 52) (-53) :=
    .fraction (by decide +kernel) (by decide +kernel) (by decide +kernel)
  exact ⟨finite, (json_number_is_printed_number_iff finite 7).mpr alike⟩

/-- The whole number `2 ^ 53` has a fraction in JSON. -/
theorem json_number_is_not_printed_number :
    Binary64.ofFloat (Float.ofBits 0x4340000000000000) = .finite false (2 ^ 52) 1 ∧
      (Value.number (Float.ofBits 0x4340000000000000)).text = "9007199254740992" ∧
      writeJson.call [.number (Float.ofBits 0x4340000000000000)] 0 =
        ⟨.string "9007199254740992.0", [], 0⟩ := by
  have compact : (Number.toJson (Float.ofBits 0x4340000000000000)).compact =
      "9007199254740992.0" := by decide +kernel
  refine ⟨by decide +kernel, by decide +kernel, ?_⟩
  simp [call, Value.toJson?, compact]

end Builtin

end MinangScript
