import MinangScript.Proofs.Decimal.Notation
import MinangScript.Proofs.Decimal.WholeNumbers

/-! # Numbers that are written as digits alone

The text of a number has nothing but digits exactly when the number is whole, not negative and below
`10 ^ 21`. A whole number that is a double may have a shorter decimal than its own digits, but not one
with a fraction: between the two there would be a whole number, which rounds to the same double and has
fewer digits.
-/

namespace MinangScript

namespace Binary64

variable {s : Nat} {e : Int} {x y : ℚ}

/-- What stands between a number and the double that it rounds to rounds to it too. -/
theorem NearestTo.between (nearest : NearestTo x s e)
    (between : |x - magnitude s e| = |x - y| + |y - magnitude s e|) : NearestTo y s e := by
  intro z there other
  have detour := abs_sub_le x y z
  obtain less | ⟨same, even⟩ := nearest z there other
  · exact .inl (by linarith)
  · obtain less | same := (show |y - magnitude s e| ≤ |y - z| by linarith).lt_or_eq
    · exact .inl less
    · exact .inr ⟨same, even⟩

end Binary64

namespace Decimal

open Binary64

variable {d : Decimal} {s k : Nat} {e : Int}

/-- A decimal without a fraction is a whole number. -/
theorem value_of_exponent_nonneg (whole : 0 ≤ d.exponent) :
    d.value = (d.digits * 10 ^ d.exponent.toNat : Nat) := by
  obtain ⟨n, exponent⟩ := Int.eq_ofNat_of_zero_le whole
  rw [Decimal.value, exponent, zpow_natCast, Int.toNat_natCast]
  norm_cast

/-- Between a number and a whole number there is another whole number, less than one above the number. -/
theorem exists_whole_between {x : ℚ} (nonzero : 0 < x) (k : Nat) :
    ∃ y : Nat, |x - k| = |x - y| + |(y : ℚ) - k| ∧ (y : ℚ) < x + 1 := by
  obtain above | below := le_or_gt (k : ℚ) x
  · have under : ((⌊x⌋₊ : Nat) : ℚ) ≤ x := Nat.floor_le nonzero.le
    have above : (k : ℚ) ≤ (⌊x⌋₊ : Nat) := by exact_mod_cast Nat.le_floor above
    refine ⟨⌊x⌋₊, ?_, by linarith⟩
    rw [abs_of_nonneg (by linarith), abs_of_nonneg (by linarith), abs_of_nonneg (by linarith)]
    ring
  · have above : x ≤ (⌈x⌉₊ : Nat) := Nat.le_ceil x
    have under : ((⌈x⌉₊ : Nat) : ℚ) ≤ k := by exact_mod_cast Nat.ceil_le.mpr below.le
    refine ⟨⌈x⌉₊, ?_, Nat.ceil_lt_add_one nonzero.le⟩
    rw [abs_of_nonpos (by linarith), abs_of_nonpos (by linarith), abs_of_nonpos (by linarith)]
    ring

/-- A fraction in the shortest decimal of a whole number could be left out. -/
theorem IsShortest.exponent_nonneg (shortest : d.IsShortest s e) (whole : magnitude s e = k)
    (nonzero : 0 < k) : 0 ≤ d.exponent := by
  by_contra fraction
  have digits := shortest.digits_pos
  have positive : 0 < d.value := by
    rw [Decimal.value]
    positivity
  have length : (d.digitText.length : Int) = d.leading - d.exponent + 1 := by
    unfold leading
    omega
  obtain ⟨y, between, close⟩ := exists_whole_between positive k
  have rounds : NearestTo y s e := shortest.nearest.between (by rwa [whole])
  have fewest : ∀ d' : Decimal, d'.value = y → d.digitText.length ≤ d'.digitText.length :=
    fun d' same => shortest.fewest d' (same ▸ rounds)
  -- A whole number there is no larger than the next power of ten, so it needs fewer digits or is that power.
  obtain large | small := le_or_gt 0 d.leading
  · obtain ⟨n, leading⟩ := Int.eq_ofNat_of_zero_le large
    have high := (leading_bounds digits).2
    rw [leading, ← Nat.cast_succ, zpow_natCast] at high
    have most : y < 10 ^ (n + 1) + 1 := by
      have less : (y : ℚ) < 10 ^ (n + 1) + 1 := close.trans (by simpa using high)
      exact_mod_cast less
    obtain less | same := (Nat.le_of_lt_succ most).lt_or_eq
    · have short := (length_digitText_le_iff (d := ⟨y, 0⟩) n).mpr less
      have fewer := fewest ⟨y, 0⟩ (by simp [Decimal.value])
      omega
    · have short := (length_digitText_le_iff (d := ⟨1, (n + 1 : Nat)⟩) 0).mpr (by norm_num)
      have fewer := fewest ⟨1, (n + 1 : Nat)⟩ (by rw [Decimal.value, same, zpow_natCast]; simp)
      omega
  · -- Below one the decimal has a digit at least, as one has, and one is closer.
    have below : d.value < 1 := by
      have less := mt (le_leading_iff digits 0).mpr small.not_ge
      simpa using less
    have least : (1 : ℚ) ≤ k := by exact_mod_cast nonzero
    have one : (Decimal.mk 1 0).value = 1 := by simp [Decimal.value]
    have rounds : NearestTo (Decimal.mk 1 0).value s e := by
      rw [one]
      refine shortest.nearest.between ?_
      rw [whole, abs_of_neg (by linarith), abs_of_neg (by linarith), abs_of_nonpos (by linarith)]
      ring
    have short := (length_digitText_le_iff (d := ⟨1, 0⟩) 0).mpr (by norm_num)
    have fewer := shortest.fewest ⟨1, 0⟩ rounds
    have nonempty := d.length_digitText
    have near := (shortest.closest ⟨1, 0⟩ rounds (by omega)).near
    rw [one, whole, abs_of_nonneg (by linarith), abs_of_nonneg (by linarith)] at near
    linarith

end Decimal

namespace Binary64

variable {s k : Nat} {e : Int}

/-- A double that a whole number rounds to is whole. -/
theorem magnitude_natural (nearest : NearestTo (k : ℚ) s e) (double : IsDouble s e) (nonzero : 0 < s) :
    ∃ k' : Nat, magnitude s e = k' := by
  obtain large | fine := le_or_gt 0 e
  · obtain ⟨n, rfl⟩ := Int.eq_ofNat_of_zero_le large
    exact ⟨s * 2 ^ n, by simp [magnitude]⟩
  · have low : (k : ℚ) < 2 ^ 53 := by
      refine ((nearest.roundsTo double nonzero).lt double).trans_le ?_
      have unit : (2 : ℚ) ^ e ≤ 1 := zpow_le_one_of_nonpos₀ (by norm_num) fine.le
      linarith
    have there : Representable k := ⟨k, 0, by exact_mod_cast low, by decide, by simp [magnitude]⟩
    exact ⟨k, (nearest.eq_of_representable there).symm⟩

theorem magnitude_eq_natural_iff : magnitude s e = k ↔ wholeMagnitude? s e = some k := by
  unfold wholeMagnitude? magnitude
  split
  · rename_i large
    obtain ⟨n, rfl⟩ := Int.eq_ofNat_of_zero_le large
    rw [zpow_natCast, Int.toNat_natCast, Option.some.injEq]
    norm_cast
  · obtain ⟨n, rfl⟩ : ∃ n : Nat, e = -n := ⟨(-e).toNat, by omega⟩
    have unit := Nat.two_pow_pos n
    have scaled : (s : ℚ) * 2 ^ (-n : Int) = k ↔ s = k * 2 ^ n := by
      rw [zpow_neg, zpow_natCast, mul_inv_eq_iff_eq_mul₀ (by positivity)]
      norm_cast
    rw [scaled, neg_neg, Int.toNat_natCast]
    split
    · rename_i divides
      rw [Option.some.injEq, Nat.div_eq_iff_eq_mul_left unit (Nat.dvd_of_mod_eq_zero divides)]
    · rename_i rest
      refine iff_of_false ?_ nofun
      rintro rfl
      exact rest (Nat.mul_mod_left ..)

end Binary64

namespace Number

open Decimal

theorem not_allDigits {c : Char} {text : List Char} (other : c.isDigit = false) (member : c ∈ text) :
    ¬∀ c ∈ text, c.isDigit = true := by
  intro all
  cases other.symm.trans (all c member)

/-- Written out in full and without a fraction. -/
theorem allDigits_decimal_iff (d : Decimal) :
    (∀ c ∈ layout.decimal d, c.isDigit = true) ↔ 0 ≤ d.exponent ∧ d.leading < 21 := by
  have digits := d.isDigit_of_mem_digitText
  have nonempty := d.length_digitText
  have length : d.leading = d.exponent + d.digitText.length - 1 := rfl
  by_cases plain : -6 ≤ d.leading ∧ d.leading < 21
  · have full : layout.decimal d = layout.plain d.digitText d.leading := if_pos plain
    rw [full, Layout.plain]
    by_cases fraction : d.leading < 0
    · rw [if_pos fraction]
      exact iff_of_false (not_allDigits (c := '.') rfl (by simp)) (by omega)
    · rw [if_neg fraction]
      by_cases short : d.digitText.length ≤ d.leading.toNat + 1
      · rw [if_pos short]
        refine iff_of_true ?_ (by omega)
        have zeros := isDigit_of_mem_zeros (d.leading.toNat + 1 - d.digitText.length)
        refine List.forall_mem_append.mpr ⟨List.forall_mem_append.mpr ⟨digits, zeros⟩, ?_⟩
        exact List.forall_mem_nil _
      · rw [if_neg short]
        exact iff_of_false (not_allDigits (c := '.') rfl (by simp)) (by omega)
  · have power : layout.decimal d = layout.scientific d.digitText d.leading := if_neg plain
    rw [power]
    exact iff_of_false (not_allDigits (c := 'e') rfl (by simp [Layout.scientific])) (by omega)

/-- The number is whole and not negative, and below the first one that is written with an exponent. -/
def IsPlainWhole (n : Float) : Prop :=
  ∃ k : Nat, whole? n = some (k : Int) ∧ k < 10 ^ 21

theorem text_zero {n : Float} {negative : Bool} {e : Int}
    (is : Binary64.ofFloat n = .finite negative 0 e) : text n = "0" := by
  rw [text, is, Layout.text, if_pos rfl]
  exact ite_self _

/-- The shortest decimal reaches `10 ^ 21` where the double does. -/
theorem leading_shortest_lt_iff {s : Nat} {e : Int} (double : Binary64.IsDouble s e) (nonzero : 0 < s) :
    (shortest .away s e).leading < 21 ↔ Binary64.magnitude s e < 10 ^ 21 := by
  have limit := isPowerOfTen_twentyOne
  have magnitude : Binary64.magnitude 7629394531250000 17 = 10 ^ 21 := by
    norm_num [Binary64.magnitude]
  rw [← magnitude, Binary64.magnitude_lt_iff double limit.toIsDouble, ← limit.bits, ← not_le,
    limit.le_leading_iff double nonzero, not_le]

/-- The digits of a double that is not zero stand alone exactly when it is a whole number below
    `10 ^ 21`. -/
theorem allDigits_shortest_iff {s : Nat} {e : Int} (double : Binary64.IsDouble s e) (nonzero : 0 < s) :
    (∀ c ∈ layout.decimal (shortest .away s e), c.isDigit = true) ↔
      ∃ k : Nat, Binary64.wholeMagnitude? s e = some k ∧ k < 10 ^ 21 := by
  have shortest := isShortest_shortest double nonzero
  rw [allDigits_decimal_iff, leading_shortest_lt_iff double nonzero]
  constructor
  · rintro ⟨whole, below⟩
    have nearest := shortest.nearest
    rw [value_of_exponent_nonneg whole] at nearest
    obtain ⟨k, same⟩ := Binary64.magnitude_natural nearest double nonzero
    rw [same] at below
    exact ⟨k, Binary64.magnitude_eq_natural_iff.mp same, by exact_mod_cast below⟩
  · rintro ⟨k, whole, below⟩
    have same := Binary64.magnitude_eq_natural_iff.mpr whole
    have positive : 0 < k := by
      refine Nat.pos_of_ne_zero fun zero => ?_
      rw [zero] at whole
      exact nonzero.ne' (Binary64.eq_zero_of_wholeMagnitude? whole)
    refine ⟨shortest.exponent_nonneg same positive, ?_⟩
    rw [same]
    exact_mod_cast below

/-- The text of a number has only digits exactly when the number is whole, not negative and below
    `10 ^ 21`. -/
theorem allDigits_text_iff (n : Float) :
    (∀ c ∈ (text n).toList, c.isDigit = true) ↔ IsPlainWhole n := by
  unfold IsPlainWhole
  cases is : Binary64.ofFloat n with
  | nan =>
      have shown : text n = "NaN" := by rw [text, is]; rfl
      rw [shown, whole?, is]
      exact iff_of_false (not_allDigits (c := 'N') rfl (by simp)) (by simp)
  | infinite negative =>
      have letter : 'I' ∈ (text n).toList := by
        rw [text, is]
        cases negative <;> simp [Layout.text, layout]
      rw [whole?, is]
      exact iff_of_false (not_allDigits rfl letter) (by simp)
  | finite negative s e =>
      rw [Binary64.whole?_of_finite is]
      have double := Binary64.isDouble_of_ofBits is
      obtain rfl | nonzero := Nat.eq_zero_or_pos s
      · have zero : Binary64.magnitude 0 e = (0 : Nat) := by simp [Binary64.magnitude]
        rw [text_zero is, Binary64.magnitude_eq_natural_iff.mp zero]
        exact iff_of_true (by simp) ⟨0, by cases negative <;> rfl, by norm_num⟩
      · rw [text_finite is nonzero, String.toList_ofList]
        cases negative with
        | false => simpa [sign] using allDigits_shortest_iff double nonzero
        | true =>
            refine iff_of_false (not_allDigits (c := '-') rfl (by simp [sign])) ?_
            rintro ⟨k, whole, -⟩
            obtain ⟨m, magnitude, negated⟩ := Option.map_eq_some_iff.mp whole
            obtain rfl : m = 0 := by
              simp only [if_true] at negated
              omega
            exact nonzero.ne' (Binary64.eq_zero_of_wholeMagnitude? magnitude)

end Number

end MinangScript
