import MinangScript.Proofs.Decimal.Rounding
import MinangScript.Proofs.Decimal.Unpacking
import MinangScript.Value.Json

/-! # Whole numbers as floats

A whole number below `2 ^ 53` is made into a float without rounding, so it is read from that float
again. Zero apart, no other double is that number; the two zeros are equal.
-/

namespace MinangScript

namespace Binary64

open Float.Model UnpackedFloat

/-- The significand of a whole number below `2 ^ 53` with the leading bit set. -/
def wholeSignificand (k : Nat) : Nat :=
  k * 2 ^ (52 - k.log2)

section Whole

variable {k : Nat}

theorem log2_le (nonzero : 0 < k) (small : k < 2 ^ 53) : k.log2 ≤ 52 :=
  Nat.le_of_lt_succ ((Nat.log2_lt (by omega)).mpr small)

theorem wholeSignificand_bounds (nonzero : 0 < k) (small : k < 2 ^ 53) :
    2 ^ 52 ≤ wholeSignificand k ∧ wholeSignificand k < 2 ^ 53 := by
  have le := log2_le nonzero small
  have split : 2 ^ 52 = 2 ^ k.log2 * 2 ^ (52 - k.log2) := by
    rw [← Nat.pow_add, Nat.add_sub_cancel' le]
  constructor
  · rw [split]
    exact Nat.mul_le_mul_right _ (Nat.log2_self_le (by omega))
  · rw [Nat.pow_succ, split, Nat.mul_right_comm, ← Nat.pow_succ]
    exact Nat.mul_lt_mul_of_pos_right Nat.lt_log2_self (Nat.two_pow_pos _)

theorem wholeSignificand_pos (nonzero : 0 < k) : 0 < wholeSignificand k :=
  Nat.mul_pos nonzero (Nat.two_pow_pos _)

/-- Rounding keeps what has fifty-three bits. -/
theorem roundWithAccuracy_exact {sign : Sign} {m : Nat} {e : Int} (positive : 0 < m)
    (log : m.log2 = 52) (least : -1074 ≤ e) :
    roundWithAccuracy Format.binary64 sign m e .exact = .finite sign m e positive := by
  have target : Format.binary64.targetExponent (totalExponent m e) = e := by
    simp only [Format.targetExponent, totalExponent, log, Format.mantissaBits, Format.minExponent]
    omega
  have stays : shiftToTargetExponent Format.binary64 m e .exact = (⟨m, false, false⟩, e) := by
    simp only [shiftToTargetExponent, target, shiftToExponent, Int.sub_self, Int.toNat_zero]
    exact Prod.ext rfl (Int.add_zero e)
  simp only [roundWithAccuracy, stays, ExtendedMantissa.roundedMantissa, ExtendedMantissa.accuracy,
    Accuracy.roundToNearestEven]
  rw [dif_neg (Nat.ne_of_gt positive)]

theorem decreaseExponent_whole (le : k.log2 ≤ 52) :
    decreaseExponent k 0 ((k.log2 : Int) - 52) = (wholeSignificand k, (k.log2 : Int) - 52) := by
  have amount : (0 - ((k.log2 : Int) - 52)).toNat = 52 - k.log2 := by omega
  simp only [decreaseExponent, amount, Nat.shiftLeft_eq]
  exact Prod.ext rfl (by simp only; omega)

theorem ofUInt64_whole (nonzero : 0 < k) (small : k < 2 ^ 53) :
    ofUInt64 Format.binary64 (.ofNat k) =
      .finite .positive (wholeSignificand k) (k.log2 - 52) (wholeSignificand_pos nonzero) := by
  have le := log2_le nonzero small
  have log : (wholeSignificand k).log2 = 52 :=
    (Nat.log2_eq_iff (Nat.ne_of_gt (wholeSignificand_pos nonzero))).mpr
      (wholeSignificand_bounds nonzero small)
  have word : (UInt64.ofNat k).toNat = k := by
    simp
    omega
  have above : compare (k : Int) 0 = .gt := by
    simp only [compare, compareOfLessAndEq]
    rw [if_neg (by omega), if_neg (by omega)]
  have target : Format.binary64.targetExponent (totalExponent k 0) = (k.log2 : Int) - 52 := by
    simp only [Format.targetExponent, totalExponent, Format.mantissaBits, Format.minExponent]
    omega
  rw [UnpackedFloat.ofUInt64, UnpackedFloat.ofNat, UnpackedFloat.ofInt, word,
    UnpackedFloat.normalize, above]
  simp only [UnpackedFloat.round, Int.toNat_natCast, target, decreaseExponent_whole le]
  exact roundWithAccuracy_exact _ log (by omega)

theorem unpack_toFloat (nonzero : 0 < k) (small : k < 2 ^ 53) :
    (UInt64.ofNat k).toFloat.toModel.unpack =
      .finite .positive (wholeSignificand k) (k.log2 - 52) (wholeSignificand_pos nonzero) := by
  have le := log2_le nonzero small
  obtain ⟨low, high⟩ := wholeSignificand_bounds nonzero small
  change (Float.Model.pack (UnpackedFloat.ofUInt64 Format.binary64 (.ofNat k))).unpack = _
  rw [ofUInt64_whole nonzero small]
  exact unpack_pack _ low high (by omega) (by omega)

end Whole

/-! ## Whole numbers with a sign -/

section Integers

open Value (floatOfInt)

variable {n : Int}

/-- The sign of a whole number other than zero. -/
def signOf (n : Int) : Sign :=
  if n < 0 then .negative else .positive

theorem unpack_neg {x : Float} {sign : Sign} {m : Nat} {e : Int} {positive : 0 < m}
    (is : x.toModel.unpack = .finite sign m e positive) (low : 2 ^ 52 ≤ m) (high : m < 2 ^ 53)
    (least : -1074 ≤ e) (most : e ≤ 971) :
    (-x).toModel.unpack = .finite (-sign) m e positive := by
  change (Float.Model.pack x.toModel.unpack.neg).unpack = _
  rw [is]
  exact unpack_pack positive low high least most

theorem unpack_floatOfInt (nonzero : 0 < n.natAbs) (small : n.natAbs < 2 ^ 53) :
    (floatOfInt n).toModel.unpack = .finite (signOf n) (wholeSignificand n.natAbs)
      (n.natAbs.log2 - 52) (wholeSignificand_pos nonzero) := by
  have unsigned := unpack_toFloat nonzero small
  have le := log2_le nonzero small
  obtain ⟨low, high⟩ := wholeSignificand_bounds nonzero small
  unfold floatOfInt signOf
  by_cases negative : n < 0
  · simp only [negative, if_true]
    exact unpack_neg unsigned low high (by omega) (by omega)
  · simp only [negative, if_false]
    exact unsigned

theorem isNegative_signOf (n : Int) : isNegative (signOf n) = decide (n < 0) := by
  unfold signOf
  by_cases negative : n < 0 <;> simp [negative, isNegative]

theorem sign_eq {sign : Sign} (nonzero : 0 < n.natAbs)
    (signed : (if isNegative sign then -(n.natAbs : Int) else n.natAbs) = n) :
    sign = signOf n := by
  unfold signOf
  cases sign with
  | negative =>
    simp only [isNegative, if_true] at signed
    rw [if_pos (by omega)]
  | positive =>
    simp only [isNegative, Bool.false_eq_true, if_false] at signed
    rw [if_neg (by omega)]

theorem ofFloat_floatOfInt (nonzero : 0 < n.natAbs) (small : n.natAbs < 2 ^ 53) :
    ofFloat (floatOfInt n) =
      .finite (decide (n < 0)) (wholeSignificand n.natAbs) (n.natAbs.log2 - 52) := by
  rw [ofFloat_eq, unpack_floatOfInt nonzero small, ofUnpacked, isNegative_signOf]

theorem ofFloat_floatOfInt_zero : ofFloat (floatOfInt 0) = .finite false 0 leastExponent := by
  rw [ofFloat_eq]
  rfl

/-- The magnitude of a finite float that is whole. -/
def wholeMagnitude? (s : Nat) (e : Int) : Option Nat :=
  if 0 ≤ e then some (s * 2 ^ e.toNat)
  else if s % 2 ^ (-e).toNat = 0 then some (s / 2 ^ (-e).toNat)
  else none

theorem whole?_of_finite {x : Float} {negative : Bool} {s : Nat} {e : Int}
    (is : ofFloat x = .finite negative s e) : Number.whole? x =
      (wholeMagnitude? s e).map fun (m : Nat) => if negative then -(m : Int) else (m : Int) := by
  rw [Number.whole?, is]
  rfl

theorem wholeMagnitude?_wholeSignificand {k : Nat} (le : k.log2 ≤ 52) :
    wholeMagnitude? (wholeSignificand k) (k.log2 - 52) = some k := by
  unfold wholeMagnitude? wholeSignificand
  by_cases full : k.log2 = 52
  · rw [full]
    simp
  · have unit : (-((k.log2 : Int) - 52)).toNat = 52 - k.log2 := by omega
    rw [if_neg (by omega), unit, if_pos (Nat.mul_mod_left ..),
      Nat.mul_div_cancel _ (Nat.two_pow_pos _)]

/-- A whole number is read from the float that it is made into. -/
theorem whole?_floatOfInt (small : n.natAbs < 2 ^ 53) : Number.whole? (floatOfInt n) = some n := by
  by_cases zero : n = 0
  · subst zero
    rw [whole?_of_finite ofFloat_floatOfInt_zero, wholeMagnitude?, if_neg (by decide),
      Nat.zero_mod, if_pos rfl, Nat.zero_div]
    rfl
  · have nonzero : 0 < n.natAbs := by omega
    rw [whole?_of_finite (ofFloat_floatOfInt nonzero small),
      wholeMagnitude?_wholeSignificand (log2_le nonzero small), Option.map_some]
    by_cases negative : n < 0
    · simp only [negative, decide_true, if_true]
      exact congrArg Option.some (by omega)
    · simp only [negative, decide_false]
      exact congrArg Option.some (Int.natAbs_of_nonneg (by omega))

theorem finite_of_whole? {x : Float} (whole : Number.whole? x = some n) :
    ∃ negative s e, ofFloat x = .finite negative s e := by
  cases is : ofFloat x with
  | finite => exact ⟨_, _, _, rfl⟩
  | nan | infinite => simp [Number.whole?, is] at whole

/-- The document of a float that is a whole number is that number. -/
theorem toJson_of_whole? {x : Float} (small : n.natAbs < 2 ^ 53)
    (whole : Number.whole? x = some n) : Number.toJson x = .integer n := by
  obtain ⟨negative, s, e, is⟩ := finite_of_whole? whole
  rw [Number.toJson, is, whole]
  exact if_pos small

/-! ## Equal floats -/

theorem log2_mul_two_pow {k : Nat} (nonzero : 0 < k) (u : Nat) :
    (k * 2 ^ u).log2 = k.log2 + u := by
  have unit := Nat.two_pow_pos u
  apply (Nat.log2_eq_iff (Nat.ne_of_gt (Nat.mul_pos nonzero unit))).mpr
  rw [Nat.add_right_comm, Nat.pow_add, Nat.pow_add]
  constructor
  · exact Nat.mul_le_mul_right _ (Nat.log2_self_le (Nat.ne_of_gt nonzero))
  · exact Nat.mul_lt_mul_of_pos_right Nat.lt_log2_self unit

/-- There is only one double for a whole number that is not zero. -/
theorem eq_of_wholeMagnitude? {s k : Nat} {e : Int} (double : IsDouble s e) (nonzero : 0 < k)
    (small : k < 2 ^ 53) (whole : wholeMagnitude? s e = some k) :
    s = wholeSignificand k ∧ e = k.log2 - 52 := by
  obtain ⟨fits, least, -, leading⟩ := double
  unfold leastExponent at least leading
  obtain ⟨u, scaled, place⟩ : ∃ u : Nat, s = k * 2 ^ u ∧ e = -(u : Int) := by
    unfold wholeMagnitude? at whole
    split at whole
    · have low : 2 ^ 52 ≤ s := leading.resolve_left (by omega)
      have product : s * 2 ^ e.toNat = k := Option.some.inj whole
      have zero : e.toNat = 0 := by
        by_contra more
        have two : 2 ^ 1 ≤ 2 ^ e.toNat := Nat.pow_le_pow_right (by decide) (by omega)
        have large := Nat.mul_le_mul low two
        omega
      exact ⟨0, by simpa [zero] using product, by omega⟩
    · split at whole
      · rename_i divides
        have quotient : s / 2 ^ (-e).toNat = k := Option.some.inj whole
        refine ⟨(-e).toNat, ?_, by omega⟩
        rw [← quotient, Nat.div_mul_cancel (Nat.dvd_of_mod_eq_zero divides)]
      · cases whole
  have low : 2 ^ 52 ≤ s := by
    rcases leading with smallest | low
    · have unit : 2 ^ 53 ≤ 2 ^ u := Nat.pow_le_pow_right (by decide) (by omega)
      have large := Nat.mul_le_mul nonzero unit
      omega
    · exact low
  have log : s.log2 = 52 := (Nat.log2_eq_iff (by omega)).mpr ⟨low, fits⟩
  rw [scaled, log2_mul_two_pow nonzero] at log
  refine ⟨?_, by omega⟩
  rw [scaled, wholeSignificand]
  congr 2
  omega

theorem compare_finite (sign : Sign) {m : Nat} (e : Int) (positive : 0 < m) :
    UnpackedFloat.compare (.finite sign m e positive) (.finite sign m e positive) = some .eq := by
  cases sign <;> simp [UnpackedFloat.compare]

theorem unpack_of_ofFloat {x : Float} {negative : Bool} {s : Nat} {e : Int}
    (is : ofFloat x = .finite negative s e) (positive : 0 < s) :
    ∃ sign, x.toModel.unpack = .finite sign s e positive ∧ isNegative sign = negative := by
  rw [ofFloat_eq] at is
  cases unpacked : x.toModel.unpack with
  | notANumber | infinity =>
      rw [unpacked] at is
      cases is
  | zero sign =>
      rw [unpacked] at is
      cases is
      exact absurd positive (Nat.lt_irrefl 0)
  | finite sign m e' positive' =>
      rw [unpacked] at is
      cases is
      exact ⟨sign, rfl, rfl⟩

theorem unpack_of_ofFloat_zero {x : Float} {negative : Bool} {e : Int}
    (is : ofFloat x = .finite negative 0 e) : ∃ sign, x.toModel.unpack = .zero sign := by
  rw [ofFloat_eq] at is
  cases unpacked : x.toModel.unpack with
  | notANumber | infinity =>
      rw [unpacked] at is
      cases is
  | zero sign => exact ⟨sign, rfl⟩
  | finite sign m e' positive =>
      rw [unpacked] at is
      cases is
      exact absurd positive (Nat.lt_irrefl 0)

theorem eq_zero_of_wholeMagnitude? {s : Nat} {e : Int} (whole : wholeMagnitude? s e = some 0) :
    s = 0 := by
  unfold wholeMagnitude? at whole
  split at whole
  · have product : s * 2 ^ e.toNat = 0 := Option.some.inj whole
    exact (Nat.mul_eq_zero.mp product).resolve_right (Nat.ne_of_gt (Nat.two_pow_pos _))
  · split at whole
    · rename_i divides
      have quotient : s / 2 ^ (-e).toNat = 0 := Option.some.inj whole
      have parts := Nat.div_add_mod s (2 ^ (-e).toNat)
      rw [quotient, divides, Nat.mul_zero] at parts
      exact parts.symm
    · cases whole

/-- The double of a whole number is equal to the float that the number is made into. -/
theorem beq_floatOfInt {x : Float} (small : n.natAbs < 2 ^ 53) (whole : Number.whole? x = some n) :
    (x == floatOfInt n) = true := by
  change (x.toModel.unpack.compare (floatOfInt n).toModel.unpack == some .eq) = true
  obtain ⟨negative, s, e, is⟩ := finite_of_whole? whole
  rw [whole?_of_finite is] at whole
  obtain ⟨k, magnitude, signed⟩ := Option.map_eq_some_iff.mp whole
  by_cases zero : k = 0
  · subst zero
    obtain rfl := eq_zero_of_wholeMagnitude? magnitude
    obtain rfl : n = 0 := by
      rw [← signed]
      cases negative <;> rfl
    obtain ⟨sign, unpacked⟩ := unpack_of_ofFloat_zero is
    rw [unpacked]
    rfl
  · have absolute : n.natAbs = k := by
      rw [← signed]
      cases negative <;> simp
    rw [← absolute] at magnitude zero
    have nonzero := Nat.pos_of_ne_zero zero
    obtain ⟨rfl, rfl⟩ := eq_of_wholeMagnitude? (isDouble_of_ofBits is) nonzero small magnitude
    obtain ⟨sign, unpacked, rfl⟩ := unpack_of_ofFloat is (wholeSignificand_pos nonzero)
    rw [← absolute] at signed
    rw [unpacked, unpack_floatOfInt nonzero small, sign_eq nonzero signed, compare_finite]
    rfl

end Integers

end Binary64

end MinangScript
