import Mathlib.Algebra.Order.Field.Power
import Mathlib.Data.Rat.Cast.Order
import Mathlib.Tactic.Linarith
import Mathlib.Tactic.NormNum
import Mathlib.Tactic.Positivity
import Mathlib.Tactic.Qify
import Mathlib.Tactic.Ring
import MinangScript.Decimal.Binary64

/-! # Rounding to the nearest double

`RoundsTo` says of a number which double it rounds to: the number lies within half a unit of the
last place of the double. Whatever does is read as the bit pattern of that double, whether it is
given as a quotient or as a decimal.
-/

namespace MinangScript

namespace Binary64

/-! ## Rounding a quotient -/

/-- The number rounds to the whole number `m`: it is within a half of it, or exactly a half away and
    `m` is even. -/
structure WithinHalf (x : ℚ) (m : Nat) : Prop where
  low : (m : ℚ) - 1 / 2 ≤ x
  high : x ≤ (m : ℚ) + 1 / 2
  ends : m % 2 = 0 ∨ ((m : ℚ) - 1 / 2 < x ∧ x < (m : ℚ) + 1 / 2)

/-- The same for a quotient of whole numbers, without fractions. -/
theorem WithinHalf.quotient {num den m : Nat} (within : WithinHalf ((num : ℚ) / den) m)
    (positive : 0 < den) :
    2 * (m * den) ≤ 2 * num + den ∧ 2 * num ≤ 2 * (m * den) + den ∧
      (m % 2 = 0 ∨ (2 * (m * den) < 2 * num + den ∧ 2 * num < 2 * (m * den) + den)) := by
  have positive' : (0 : ℚ) < den := by exact_mod_cast positive
  obtain ⟨low, high, ends⟩ := within
  rw [le_div_iff₀ positive'] at low
  rw [div_le_iff₀ positive'] at high
  rw [lt_div_iff₀ positive', div_lt_iff₀ positive'] at ends
  refine ⟨?_, ?_, ends.imp_right fun ⟨above, below⟩ => ⟨?_, ?_⟩⟩ <;>
  · qify
    linarith

theorem roundDiv_eq {num den m : Nat} (positive : 0 < den)
    (within : WithinHalf ((num : ℚ) / den) m) : roundDiv num den = m := by
  obtain ⟨low, high, ends⟩ := within.quotient positive
  have parts := Nat.div_add_mod' num den
  have short := Nat.mod_lt num positive
  have atMost : num / den ≤ m := by
    by_contra above
    have := Nat.mul_le_mul_right den (Nat.not_le.mp above)
    rw [Nat.succ_mul] at this
    omega
  have atLeast : m ≤ num / den + 1 := by
    by_contra below
    have := Nat.mul_le_mul_right den (Nat.not_le.mp below)
    rw [Nat.succ_mul, Nat.succ_mul] at this
    omega
  unfold roundDiv
  dsimp only
  obtain rfl | rfl : m = num / den ∨ m = num / den + 1 := by omega
  · split
    · omega
    · rfl
  · rw [Nat.add_one_mul (num / den)] at low high ends
    split
    · rfl
    · omega

theorem scaled_eq (num : Nat) {den : Nat} (positive : 0 < den) (e : Int) :
    0 < (scaled num den e).2 ∧
      ((scaled num den e).1 : ℚ) / (scaled num den e).2 = (num : ℚ) / den / 2 ^ e := by
  unfold scaled
  split
  · rename_i up
    refine ⟨Nat.mul_pos positive (Nat.pow_pos (by decide)), ?_⟩
    obtain ⟨k, rfl⟩ := Int.eq_ofNat_of_zero_le up
    simp [div_div]
  · rename_i down
    refine ⟨positive, ?_⟩
    obtain ⟨k, rfl⟩ := Int.exists_eq_neg_ofNat (Int.not_le.mp down).le
    simp [mul_div_right_comm]

/-! ## The scale of a number -/

/-- The exponent at which `x` has a significand of fifty-three bits, or the least exponent when `x`
    is too small for that. -/
structure IsScale (x : ℚ) (e : Int) : Prop where
  least : leastExponent ≤ e
  below : x < 2 ^ 53 * 2 ^ e
  above : e = leastExponent ∨ 2 ^ 52 * 2 ^ e ≤ x

theorem IsScale.unique {x : ℚ} {e e' : Int} (here : IsScale x e) (there : IsScale x e') :
    e = e' := by
  have notBelow : ∀ {e e' : Int}, IsScale x e → IsScale x e' → ¬ e < e' := by
    intro e e' here there smaller
    have least := here.least
    have above := there.above.resolve_left (by omega)
    have step : (2 : ℚ) ^ (e + 1) ≤ 2 ^ e' := zpow_le_zpow_right₀ (by norm_num) (by omega)
    rw [zpow_add_one₀ (by norm_num)] at step
    have below := here.below
    linarith
  have := notBelow here there
  have := notBelow there here
  omega

theorem two_zpow_add (k : Nat) (e : Int) : (2 : ℚ) ^ (k + e : Int) = 2 ^ k * 2 ^ e := by
  rw [zpow_add₀ (by norm_num), zpow_natCast]

theorem zpow_log2_le {n : Nat} (nonzero : 0 < n) : (2 : ℚ) ^ (n.log2 : Int) ≤ n := by
  rw [zpow_natCast]
  exact_mod_cast Nat.log2_self_le (Nat.ne_of_gt nonzero)

theorem lt_zpow_log2 (n : Nat) : (n : ℚ) < 2 ^ ((n.log2 : Int) + 1) := by
  have below : n < 2 ^ (n.log2 + 1) := Nat.lt_log2_self
  rw [← Nat.cast_succ, zpow_natCast]
  exact_mod_cast below

/-- The quotient of the leading bits is off by less than a factor of two either way. -/
theorem quotient_log2 {num den : Nat} (nonzero : 0 < num) (positive : 0 < den) :
    (2 : ℚ) ^ ((num.log2 : Int) - den.log2 - 1) ≤ (num : ℚ) / den ∧
      (num : ℚ) / den < 2 ^ ((num.log2 : Int) - den.log2 + 1) := by
  have two : (2 : ℚ) ≠ 0 := by norm_num
  have positive' : (0 : ℚ) < den := by exact_mod_cast positive
  constructor
  · rw [le_div_iff₀ positive']
    calc (2 : ℚ) ^ ((num.log2 : Int) - den.log2 - 1) * den
        ≤ 2 ^ ((num.log2 : Int) - den.log2 - 1) * 2 ^ ((den.log2 : Int) + 1) := by
          gcongr
          exact (lt_zpow_log2 den).le
      _ = 2 ^ (num.log2 : Int) := by
          rw [← zpow_add₀ two]
          congr 1
          omega
      _ ≤ num := zpow_log2_le nonzero
  · rw [div_lt_iff₀ positive']
    calc (num : ℚ) < 2 ^ ((num.log2 : Int) + 1) := lt_zpow_log2 num
      _ = 2 ^ ((num.log2 : Int) - den.log2 + 1) * 2 ^ (den.log2 : Int) := by
          rw [← zpow_add₀ two]
          congr 1
          omega
      _ ≤ 2 ^ ((num.log2 : Int) - den.log2 + 1) * den := by
          gcongr
          exact zpow_log2_le positive

theorem le_scaled_div_iff {num den : Nat} (positive : 0 < den) (m : Nat) (e : Int) :
    m ≤ (scaled num den e).1 / (scaled num den e).2 ↔ (m : ℚ) * 2 ^ e ≤ (num : ℚ) / den := by
  obtain ⟨positive', same⟩ := scaled_eq num positive e
  rw [Nat.le_div_iff_mul_le positive', ← le_div_iff₀ (by positivity), ← same,
    le_div_iff₀ (by exact_mod_cast positive')]
  exact_mod_cast Iff.rfl

theorem isScale_exponentFor {num den : Nat} (nonzero : 0 < num) (positive : 0 < den) :
    IsScale ((num : ℚ) / den) (exponentFor num den) := by
  obtain ⟨above, below⟩ := quotient_log2 nonzero positive
  unfold exponentFor
  dsimp only
  generalize guessed : max ((num.log2 : Int) - den.log2 - 53) leastExponent = guess
  split
  · rename_i large
    have large := (le_scaled_div_iff positive _ _).mp large
    refine ⟨by omega, below.trans_le ?_, .inr ?_⟩
    · rw [← two_zpow_add]
      exact zpow_le_zpow_right₀ (by norm_num) (by omega)
    · rw [zpow_add_one₀ (by norm_num)]
      norm_num at large ⊢
      linarith
  · rename_i small
    have small := not_le.mp (mt (le_scaled_div_iff positive _ _).mpr small)
    refine ⟨by omega, by exact_mod_cast small, ?_⟩
    obtain least | exact : guess = leastExponent ∨
        guess = (num.log2 : Int) - den.log2 - 53 := by omega
    · exact .inl least
    · refine .inr (le_of_eq_of_le ?_ above)
      rw [← two_zpow_add, exact]
      congr 1
      omega

/-! ## Doubles -/

/-- The significand and the exponent of a finite double: the leading bit is set unless the exponent
    is the least. -/
structure IsDouble (significand : Nat) (exponent : Int) : Prop where
  fits : significand < 2 ^ 53
  least : leastExponent ≤ exponent
  most : exponent ≤ 971
  leading : exponent = leastExponent ∨ 2 ^ 52 ≤ significand

/-- The bit pattern of a double that is not negative. -/
def pattern (significand : Nat) (exponent : Int) : Nat :=
  (exponent - leastExponent).toNat * 2 ^ 52 + significand

variable {s : Nat} {e : Int} {x : ℚ}

theorem pattern_lt (double : IsDouble s e) : pattern s e < infinityBits := by
  obtain ⟨fits, least, most, -⟩ := double
  unfold leastExponent at least
  have small : (e - leastExponent).toNat ≤ 2045 := by
    unfold leastExponent
    omega
  have := Nat.mul_le_mul_right (2 ^ 52) small
  simp only [pattern, infinityBits, Nat.pow_eq]
  omega

theorem isDouble_of_ofBits {bits : Nat} {negative : Bool} (is : ofBits bits = .finite negative s e) :
    IsDouble s e := by
  unfold ofBits at is
  simp only [Nat.pow_eq] at is
  split at is
  · split at is <;> cases is
  split at is
  · simp only [finite.injEq] at is
    obtain ⟨-, rfl, rfl⟩ := is
    exact ⟨by omega, le_refl _, by decide, .inl rfl⟩
  · simp only [finite.injEq] at is
    obtain ⟨-, rfl, rfl⟩ := is
    exact ⟨by omega, by unfold leastExponent; omega, by omega, .inr (by omega)⟩

theorem pattern_of_ofBits {bits : Nat} (is : ofBits bits = .finite false s e) :
    pattern s e = bits := by
  unfold ofBits at is
  simp only [Nat.pow_eq] at is
  split at is
  · split at is <;> cases is
  split at is
  · simp only [finite.injEq, decide_eq_false_iff_not] at is
    obtain ⟨unsigned, rfl, rfl⟩ := is
    simp only [pattern]
    omega
  · simp only [finite.injEq, decide_eq_false_iff_not] at is
    obtain ⟨unsigned, rfl, rfl⟩ := is
    unfold pattern leastExponent
    omega

/-- The number rounds to the double `significand · 2 ^ exponent`: it is within half a unit of the
    last place. Just above a power of two the unit below is half as large. -/
structure RoundsTo (x : ℚ) (significand : Nat) (exponent : Int) : Prop where
  within : WithinHalf (x / 2 ^ exponent) significand
  lower : significand = 2 ^ 52 → leastExponent < exponent →
    (significand : ℚ) - 1 / 4 ≤ x / 2 ^ exponent

namespace RoundsTo

theorem half_le (rounds : RoundsTo x s e) (nonzero : 0 < s) : 1 / 2 * 2 ^ e ≤ x := by
  have one : (1 : ℚ) ≤ s := by exact_mod_cast nonzero
  rw [← le_div_iff₀ (by positivity)]
  have low := rounds.within.low
  linarith

theorem positive (rounds : RoundsTo x s e) (nonzero : 0 < s) : 0 < x :=
  (by positivity : (0 : ℚ) < 1 / 2 * 2 ^ e).trans_le (rounds.half_le nonzero)

theorem lt (rounds : RoundsTo x s e) (double : IsDouble s e) : x < 2 ^ 53 * 2 ^ e := by
  have fits : (s : ℚ) + 1 ≤ 2 ^ 53 := by exact_mod_cast double.fits
  rw [← div_lt_iff₀ (by positivity)]
  have high := rounds.within.high
  linarith

end RoundsTo

theorem roundDiv_scaled {num den m : Nat} (positive : 0 < den)
    (within : WithinHalf ((num : ℚ) / den / 2 ^ e) m) :
    roundDiv (scaled num den e).1 (scaled num den e).2 = m := by
  obtain ⟨positive', same⟩ := scaled_eq num positive e
  rw [← same] at within
  exact roundDiv_eq positive' within

/-- What rounds to a power of two from below has the exponent before, at which its significand is
    rounded up to the next power. -/
theorem RoundsTo.of_small (rounds : RoundsTo x s e) (double : IsDouble s e)
    (notLeast : e ≠ leastExponent) (small : x < 2 ^ 52 * 2 ^ e) :
    s = 2 ^ 52 ∧ IsScale x (e - 1) ∧ WithinHalf (x / 2 ^ (e - 1)) (2 ^ 53) := by
  have least := double.least
  have half : (2 : ℚ) ^ e = 2 ^ (e - 1) * 2 := by
    rw [← zpow_add_one₀ (by norm_num), sub_add_cancel]
  have unit : (0 : ℚ) < 2 ^ (e - 1) := by positivity
  have power : s = 2 ^ 52 := by
    have leading := double.leading.resolve_left notLeast
    have low := rounds.within.low
    have small := (div_lt_iff₀ (by positivity)).mpr small
    have below : (s : ℚ) < 2 ^ 52 + 1 := by linarith
    have below : s < 2 ^ 52 + 1 := by exact_mod_cast below
    omega
  have lower := rounds.lower power (by omega)
  rw [le_div_iff₀ (by positivity), half, power] at lower
  rw [half] at small
  push_cast at lower
  refine ⟨power, ⟨by omega, by linarith, .inr (by linarith)⟩, ?_, ?_, .inl (by norm_num)⟩
  · rw [le_div_iff₀ unit]
    push_cast
    linarith
  · rw [div_le_iff₀ unit]
    push_cast
    linarith

theorem nearest_eq {num den : Nat} (positive : 0 < den) (double : IsDouble s e) (nonzero : 0 < s)
    (rounds : RoundsTo ((num : ℚ) / den) s e) : nearest num den = pattern s e := by
  have num' : 0 < num := by
    by_contra zero
    have above := rounds.positive nonzero
    simp [Nat.eq_zero_of_not_pos zero] at above
  have scale := isScale_exponentFor num' positive
  unfold nearest
  rw [if_neg (Nat.ne_of_gt num')]
  dsimp only
  by_cases normal : e = leastExponent ∨ 2 ^ 52 * 2 ^ e ≤ (num : ℚ) / den
  · rw [scale.unique ⟨double.least, rounds.lt double, normal⟩,
      roundDiv_scaled positive rounds.within]
    exact Nat.min_eq_left (pattern_lt double).le
  · obtain ⟨notLeast, small⟩ := not_or.mp normal
    obtain ⟨power, scale', up⟩ := rounds.of_small double notLeast (not_le.mp small)
    have least := double.least
    have same : (e - 1 - leastExponent).toNat * Nat.pow 2 52 + 2 ^ 53 = pattern s e := by
      have next : (e - leastExponent).toNat = (e - 1 - leastExponent).toNat + 1 := by omega
      rw [pattern, power, next, Nat.pow_eq]
      omega
    rw [scale.unique scale', roundDiv_scaled positive up, same]
    exact Nat.min_eq_left (pattern_lt double).le

/-! ## Decimals -/

theorem lt_pow_digitCount (n : Nat) : n < 10 ^ digitCount n := by
  fun_induction digitCount n with
  | case1 => norm_num
  | case2 n nonzero ih =>
      rw [Nat.pow_succ]
      omega

theorem pow_digitCount_le {n : Nat} (nonzero : 0 < n) : 10 ^ digitCount n ≤ 10 * n := by
  fun_induction digitCount n with
  | case1 => cases nonzero
  | case2 n _ ih =>
      rw [Nat.pow_succ]
      by_cases last : n / 10 = 0
      · rw [last, digitCount]
        simp
        omega
      · have := ih (Nat.pos_of_ne_zero last)
        omega

/-- A decimal lies between the powers of ten that its digits are counted by. -/
theorem decimal_bounds {digits : Nat} (nonzero : 0 < digits) (k : Int) :
    (10 : ℚ) ^ (digitCount digits + k : Int) ≤ 10 * (digits * 10 ^ k) ∧
      (digits : ℚ) * 10 ^ k < 10 ^ (digitCount digits + k : Int) := by
  have place : (0 : ℚ) < 10 ^ k := by positivity
  rw [zpow_add₀ (by norm_num), zpow_natCast, ← mul_assoc]
  constructor
  · gcongr
    exact_mod_cast pow_digitCount_le nonzero
  · gcongr
    exact_mod_cast lt_pow_digitCount digits

/-- A power of ten that no power of two of a double reaches. -/
theorem two_zpow_le_ten_zpow : (2 : ℚ) ^ (1079 : Int) ≤ 10 ^ (332 : Int) :=
  calc (2 : ℚ) ^ (1079 : Int) = (2 ^ 13) ^ 83 := by rw [zpow_ofNat, ← pow_mul]
    _ ≤ (10 ^ 4) ^ 83 := by
        gcongr
        norm_num
    _ = 10 ^ (332 : Int) := by rw [zpow_ofNat, ← pow_mul]

theorem ten_zpow_le_two_zpow : (10 : ℚ) ^ (-332 : Int) ≤ 2 ^ (-1079 : Int) := by
  rw [zpow_neg, zpow_neg]
  exact inv_anti₀ (by positivity) two_zpow_le_ten_zpow

/-- No double is anywhere near the magnitudes that are settled by counting digits. -/
theorem RoundsTo.bounds (rounds : RoundsTo x s e) (double : IsDouble s e) (nonzero : 0 < s) :
    (10 : ℚ) ^ (-332 : Int) ≤ x ∧ x < 10 ^ (332 : Int) := by
  constructor
  · have least : (2 : ℚ) ^ (-1079 : Int) * 2 ≤ 2 ^ e := by
      rw [← zpow_add_one₀ (by norm_num)]
      exact zpow_le_zpow_right₀ (by norm_num) (le_trans (by decide) double.least)
    have above := rounds.half_le nonzero
    exact ten_zpow_le_two_zpow.trans (by linarith)
  · have most : (2 : ℚ) ^ 53 * 2 ^ e ≤ 2 ^ (1079 : Int) := by
      rw [← two_zpow_add]
      have := double.most
      exact zpow_le_zpow_right₀ (by norm_num) (by omega)
    exact (rounds.lt double).trans_le (most.trans two_zpow_le_ten_zpow)

theorem digitCount_bounds {digits : Nat} {k : Int} (rounds : RoundsTo ((digits : ℚ) * 10 ^ k) s e)
    (double : IsDouble s e) (nonzero : 0 < s) (digits' : 0 < digits) :
    -400 ≤ (digitCount digits : Int) + k ∧ (digitCount digits : Int) + k ≤ 400 := by
  obtain ⟨lowest, highest⟩ := rounds.bounds double nonzero
  obtain ⟨above, below⟩ := decimal_bounds digits' k
  constructor
  · by_contra small
    have power : (10 : ℚ) ^ (digitCount digits + k : Int) ≤ 10 ^ (-332 : Int) :=
      zpow_le_zpow_right₀ (by norm_num) (by omega)
    exact absurd lowest (not_le.mpr (below.trans_le power))
  · by_contra large
    have power : (10 : ℚ) ^ (332 + 1 : Int) ≤ 10 ^ (digitCount digits + k : Int) :=
      zpow_le_zpow_right₀ (by norm_num) (by omega)
    rw [zpow_add_one₀ (by norm_num)] at power
    linarith

theorem nearestDecimal_eq {digits : Nat} {k : Int} (double : IsDouble s e) (nonzero : 0 < s)
    (rounds : RoundsTo ((digits : ℚ) * 10 ^ k) s e) : nearestDecimal digits k = pattern s e := by
  have digits' : 0 < digits := by
    by_contra zero
    have above := rounds.positive nonzero
    simp [Nat.eq_zero_of_not_pos zero] at above
  obtain ⟨notSmall, notLarge⟩ := digitCount_bounds rounds double nonzero digits'
  unfold nearestDecimal
  dsimp only
  rw [if_neg (Nat.ne_of_gt digits'), if_neg (not_lt.mpr notLarge), if_neg (not_lt.mpr notSmall)]
  split
  · rename_i up
    obtain ⟨j, rfl⟩ := Int.eq_ofNat_of_zero_le up
    refine nearest_eq Nat.one_pos double nonzero ?_
    simpa using rounds
  · rename_i down
    obtain ⟨j, rfl⟩ := Int.exists_eq_neg_ofNat (Int.not_le.mp down).le
    refine nearest_eq (Nat.pow_pos (by decide)) double nonzero ?_
    simpa [div_eq_mul_inv] using rounds

end Binary64

end MinangScript
