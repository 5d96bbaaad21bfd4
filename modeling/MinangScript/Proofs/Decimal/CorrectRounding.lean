import MinangScript.Proofs.Decimal.Notation

/-! # Numerals are rounded correctly

Every numeral stands for some number, however many digits it has, and is read as the double nearest
to that number. `Rounded` says which double this is by distances alone, so there is no other. Beyond
the largest double, from half a unit of its last place on, it is an infinity.
-/

namespace MinangScript

namespace Binary64

variable {s s' : Nat} {e e' : Int} {x y : ℚ} {negative : Bool}

/-- Half a unit of the last place above the largest double, which is `(2 ^ 53 - 1) · 2 ^ 971`. -/
def overflowThreshold : ℚ :=
  (2 ^ 53 - 1 / 2) * 2 ^ (971 : Int)

/-- The double of the given sign to which the size `x` of a number is rounded. -/
inductive Rounded (negative : Bool) (x : ℚ) : Binary64 → Prop where
  /-- The nearest one, and the even one of two. -/
  | finite {s : Nat} {e : Int} (double : IsDouble s e) (nearest : NearestTo x s e) :
      Rounded negative x (.finite negative s e)
  /-- From the threshold on there is no nearest one. -/
  | overflow (large : overflowThreshold ≤ x) :
      Rounded negative x (.infinite negative)

/-! ## Floats and what they stand for -/

theorem toNat_toFloat {bits : Nat} (short : bits < 2 ^ 63) :
    (UInt64.ofNat (if negative then Nat.pow 2 63 + bits else bits)).toNat =
      if negative then 2 ^ 63 + bits else bits := by
  rw [UInt64.toNat_ofNat', Nat.pow_eq, Nat.mod_eq_of_lt]
  split <;> omega

theorem ofFloat_toFloat (double : IsDouble s e) :
    ofFloat (toFloat negative (pattern s e)) = .finite negative s e := by
  have below := pattern_lt double
  have limit : infinityBits < 2 ^ 63 := by decide
  have bits := @toNat_toFloat negative _ (below.trans limit)
  have sign : decide (2 ^ 63 ≤ if negative then 2 ^ 63 + pattern s e else pattern s e) =
      negative := by
    cases negative <;> simp
    omega
  have size : (if negative then 2 ^ 63 + pattern s e else pattern s e) % 2 ^ 63 = pattern s e := by
    split <;> omega
  rw [toFloat, ofFloat_ofBits, bits]
  rcases ofBits_cases (if negative then 2 ^ 63 + pattern s e else pattern s e) with
    ⟨-, beyond⟩ | ⟨-, most⟩ | ⟨s', e', finite, double', same⟩
  · omega
  · omega
  · obtain ⟨rfl, rfl⟩ := double.eq_of_pattern_eq double' (size.symm.trans same)
    rw [finite, sign]

theorem ofFloat_infinity : ofFloat (toFloat negative infinityBits) = .infinite negative := by
  rw [toFloat, ofFloat_ofBits]
  cases negative <;> rfl

/-- Whatever stands for a number is no other float than the one of its pattern. -/
theorem eq_toFloat_of_ofFloat {v : Float} :
    (∀ s e, ofFloat v = .finite negative s e → v = toFloat negative (pattern s e)) ∧
      (ofFloat v = .infinite negative → v = toFloat negative infinityBits) := by
  have joined := toFloat_mod v.toBits
  rw [Float.ofBits_toBits] at joined
  unfold ofFloat
  rcases ofBits_cases v.toBits.toNat with ⟨nan, -⟩ | ⟨infinite, same⟩ | ⟨s, e, finite, -, same⟩
  · rw [nan]
    exact ⟨nofun, nofun⟩
  · rw [infinite]
    refine ⟨nofun, fun sign => ?_⟩
    cases sign
    rw [← same, joined]
  · rw [finite]
    refine ⟨fun s e sign => ?_, nofun⟩
    cases sign
    rw [← same, joined]

/-! ## Only one double -/

theorem isDouble_zero (double : IsDouble 0 e) : e = leastExponent :=
  double.leading.resolve_right (by norm_num)

theorem NearestTo.le_half (nearest : NearestTo x s e) (double : IsDouble s e) :
    x ≤ (s + 1 / 2) * 2 ^ e := by
  have unit : (0 : ℚ) < 2 ^ e := by positivity
  have above : magnitude s e < magnitude s e + 2 ^ e := by linarith
  have high := (nearer_left_iff above).mp (nearest.le (representable_next double))
  unfold magnitude at high
  linarith

/-- What rounds to zero rounds to nothing else. -/
theorem NearestTo.not_zero (nearest : NearestTo x 0 e) (double : IsDouble 0 e)
    (nearest' : NearestTo x s' e') (double' : IsDouble s' e') : ¬ 0 < s' := by
  intro nonzero
  obtain rfl := isDouble_zero double
  have small := nearest.le_half double
  have rounds := nearest'.roundsTo double' nonzero
  have unit : (2 : ℚ) ^ leastExponent ≤ 2 ^ e' :=
    zpow_le_zpow_right₀ (by norm_num) double'.least
  have positive : (0 : ℚ) < 2 ^ e' := by positivity
  -- In the middle between zero and the least double, only the former is even.
  by_cases one : s' = 1
  · have strict := (rounds.within.ends.resolve_left (by omega)).1
    rw [lt_div_iff₀ positive, one] at strict
    norm_num at strict small
    linarith
  · have two : (2 : ℚ) ≤ s' := by exact_mod_cast (by omega : 2 ≤ s')
    have low := rounds.within.low
    rw [le_div_iff₀ positive] at low
    have far : (3 / 2 : ℚ) * 2 ^ e' ≤ (s' - 1 / 2) * 2 ^ e' := by gcongr; linarith
    norm_num at small
    linarith

/-- What rounds to a double is too small for infinity. -/
theorem NearestTo.lt_overflow (nearest : NearestTo x s e) (double : IsDouble s e) :
    x < overflowThreshold := by
  have unit : (0 : ℚ) < 2 ^ e := by positivity
  have most : (2 : ℚ) ^ e ≤ 2 ^ (971 : Int) := zpow_le_zpow_right₀ (by norm_num) double.most
  unfold overflowThreshold
  refine lt_of_lt_of_le ?_ (mul_le_mul_of_nonneg_left most (by norm_num))
  by_cases last : s = 2 ^ 53 - 1
  · have rounds := nearest.roundsTo double (by omega)
    have strict := (rounds.within.ends.resolve_left (by omega)).2
    rw [div_lt_iff₀ unit, last] at strict
    norm_num at strict ⊢
    exact strict
  · have fits := double.fits
    have less : (s : ℚ) + 1 ≤ 2 ^ 53 - 1 := by
      have less : s + 2 ≤ 2 ^ 53 := by omega
      have less : (s : ℚ) + 2 ≤ 2 ^ 53 := by exact_mod_cast less
      linarith
    refine (nearest.le_half double).trans_lt ?_
    gcongr
    linarith

theorem Rounded.unique {d d' : Binary64} (rounded : Rounded negative x d)
    (rounded' : Rounded negative x d') : d = d' := by
  cases rounded with
  | @finite s e double nearest =>
      cases rounded' with
      | @finite s' e' double' nearest' =>
          have same : pattern s e = pattern s' e' := by
            rcases Nat.eq_zero_or_pos s with rfl | nonzero
            · obtain rfl := Nat.eq_zero_of_not_pos (nearest.not_zero double nearest' double')
              rw [isDouble_zero double, isDouble_zero double']
            · rcases Nat.eq_zero_or_pos s' with rfl | nonzero'
              · exact absurd nonzero (nearest'.not_zero double' nearest double)
              · exact nearest.pattern_eq nearest' double double' nonzero nonzero'
          obtain ⟨rfl, rfl⟩ := double.eq_of_pattern_eq double' same
          rfl
      | overflow large => exact absurd large (nearest.lt_overflow double).not_ge
  | overflow large =>
      cases rounded' with
      | finite double nearest => exact absurd large (nearest.lt_overflow double).not_ge
      | overflow => rfl

/-- The float that a number is rounded to. -/
theorem Rounded.eq_of_ofFloat {v w : Float} (rounded : Rounded negative x (ofFloat v))
    (rounded' : Rounded negative x (ofFloat w)) : v = w := by
  have same := rounded.unique rounded'
  obtain ⟨finite, infinite⟩ := @eq_toFloat_of_ofFloat negative v
  obtain ⟨finite', infinite'⟩ := @eq_toFloat_of_ofFloat negative w
  generalize ofFloat w = d' at same rounded' finite' infinite'
  generalize ofFloat v = d at same rounded finite infinite
  subst same
  cases rounded with
  | finite => rw [finite _ _ rfl, finite' _ _ rfl]
  | overflow => rw [infinite rfl, infinite' rfl]

/-! ## The double that is found -/

/-- The bit pattern, with any sign, is that of the double to which the number is rounded. -/
def RoundedBits (x : ℚ) (bits : Nat) : Prop :=
  ∀ negative, Rounded negative x (ofFloat (toFloat negative bits))

theorem NearestTo.roundedBits (nearest : NearestTo x s e) (double : IsDouble s e) :
    RoundedBits x (pattern s e) := by
  intro negative
  rw [ofFloat_toFloat double]
  exact .finite double nearest

theorem roundedBits_infinity (large : overflowThreshold ≤ x) :
    RoundedBits x infinityBits := by
  intro negative
  rw [ofFloat_infinity]
  exact .overflow large

theorem withinHalf_roundDiv (num : Nat) {den : Nat} (positive : 0 < den) :
    WithinHalf ((num : ℚ) / den) (roundDiv num den) := by
  have positive' : (0 : ℚ) < den := by exact_mod_cast positive
  have parts : ((num / den * den + num % den : Nat) : ℚ) = num := by rw [Nat.div_add_mod']
  have short : ((num % den : Nat) : ℚ) < den := by exact_mod_cast Nat.mod_lt num positive
  have nonneg : (0 : ℚ) ≤ (num % den : Nat) := Nat.cast_nonneg _
  push_cast at parts
  unfold roundDiv
  dsimp only
  split
  · rename_i up
    have half : den ≤ 2 * (num % den) := by omega
    have half : (den : ℚ) ≤ 2 * (num % den : Nat) := by exact_mod_cast half
    refine ⟨?_, ?_, up.symm.imp (fun tie => by omega) fun more => ⟨?_, ?_⟩⟩
    · rw [le_div_iff₀ positive']
      push_cast
      linarith
    · rw [div_le_iff₀ positive']
      push_cast
      linarith
    · have more : (den : ℚ) < 2 * (num % den : Nat) := by exact_mod_cast more
      rw [lt_div_iff₀ positive']
      push_cast
      linarith
    · rw [div_lt_iff₀ positive']
      push_cast
      linarith
  · rename_i down
    have half : 2 * (num % den) ≤ den := by omega
    have half : 2 * ((num % den : Nat) : ℚ) ≤ den := by exact_mod_cast half
    refine ⟨?_, ?_, ?_⟩
    · rw [le_div_iff₀ positive']
      linarith
    · rw [div_le_iff₀ positive']
      linarith
    · obtain even | less : num / den % 2 = 0 ∨ 2 * (num % den) < den := by omega
      · exact .inl even
      · have less : 2 * ((num % den : Nat) : ℚ) < den := by exact_mod_cast less
        rw [lt_div_iff₀ positive', div_lt_iff₀ positive']
        exact .inr ⟨by linarith, by linarith⟩

theorem RoundsTo.nearestTo (rounds : RoundsTo x s e) (double : IsDouble s e) (nonzero : 0 < s) :
    NearestTo x s e := by
  obtain ⟨-, lowest, -, highest⟩ := RoundingInterval.ofDouble_bounds nonzero e
  have unit : (0 : ℚ) < 2 ^ e := by positivity
  obtain ⟨⟨low, high, ends⟩, lower⟩ := rounds
  rw [le_div_iff₀ unit] at low lower
  rw [div_le_iff₀ unit] at high
  rw [lt_div_iff₀ unit, div_lt_iff₀ unit] at ends
  apply nearestTo_of_contains double nonzero
  refine ⟨?_, by rwa [highest], ?_⟩
  · rw [lowest, RoundingInterval.reach]
    split
    · rename_i power
      exact lower power.1 power.2
    · exact low
  · rw [lowest, highest]
    by_cases even : s % 2 = 0
    · exact .inl (by simpa [RoundingInterval.ofDouble] using even)
    · have notPower : ¬(s = 2 ^ 52 ∧ leastExponent < e) := by omega
      rw [RoundingInterval.reach, if_neg notPower]
      exact .inr (ends.resolve_left even)

/-- Nothing but zero is nearer to zero than the least double. -/
theorem nearestTo_zero (small : x ≤ 1 / 2 * 2 ^ leastExponent) :
    NearestTo x 0 leastExponent := by
  have unit : (0 : ℚ) < 2 ^ leastExponent := by positivity
  have zero : magnitude 0 leastExponent = 0 := by simp [magnitude]
  intro y there other
  rw [zero] at other ⊢
  obtain ⟨s, e, -, least, rfl⟩ := there
  have atLeastOne : (1 : ℚ) ≤ s := by
    have nonzero : s ≠ 0 := by
      rintro rfl
      exact other (by simp [magnitude])
    exact_mod_cast Nat.pos_of_ne_zero nonzero
  have above : (2 : ℚ) ^ leastExponent ≤ magnitude s e :=
    calc (2 : ℚ) ^ leastExponent ≤ 2 ^ e := zpow_le_zpow_right₀ (by norm_num) least
      _ = 1 * 2 ^ e := (one_mul _).symm
      _ ≤ magnitude s e := mul_le_mul_of_nonneg_right atLeastOne (by positivity)
  have near := (nearer_left_iff (unit.trans_le above)).mpr (by linarith : 2 * x ≤ _)
  exact near.lt_or_eq.imp_right fun same => ⟨same, rfl⟩

/-- Above the scale of all doubles there is only infinity. -/
theorem IsScale.overflow (scale : IsScale x e) (large : 971 < e) :
    overflowThreshold ≤ x := by
  unfold overflowThreshold
  have above := scale.above.resolve_left (by unfold leastExponent; omega)
  have step : (2 : ℚ) ^ ((971 : Int) + 1) ≤ 2 ^ e := zpow_le_zpow_right₀ (by norm_num) (by omega)
  rw [zpow_add_one₀ (by norm_num)] at step
  have unit : (0 : ℚ) < 2 ^ (971 : Int) := by positivity
  generalize (2 : ℚ) ^ (971 : Int) = last at step unit ⊢
  linarith

section Scale

variable {m : Nat} (scale : IsScale x e) (within : WithinHalf (x / 2 ^ e) m)
include scale within

theorem IsScale.significand_bounds : (e = leastExponent ∨ 2 ^ 52 ≤ m) ∧ m ≤ 2 ^ 53 := by
  have unit : (0 : ℚ) < 2 ^ e := by positivity
  constructor
  · refine scale.above.imp_right fun above => ?_
    have above := (le_div_iff₀ unit).mpr above
    have more : (2 : ℚ) ^ 52 < m + 1 := by linarith [within.high]
    have more : 2 ^ 52 < m + 1 := by exact_mod_cast more
    omega
  · have below := (div_lt_iff₀ unit).mpr scale.below
    have less : (m : ℚ) < 2 ^ 53 + 1 := by linarith [within.low]
    have less : m < 2 ^ 53 + 1 := by exact_mod_cast less
    omega

/-- The significand is one of fifty-three bits, and so is that of the double. -/
theorem IsScale.nearestTo (fits : m < 2 ^ 53) (most : e ≤ 971) :
    IsDouble m e ∧ NearestTo x m e := by
  obtain ⟨leading, -⟩ := scale.significand_bounds within
  have double : IsDouble m e := ⟨fits, scale.least, most, leading⟩
  refine ⟨double, ?_⟩
  have unit : (0 : ℚ) < 2 ^ e := by positivity
  rcases Nat.eq_zero_or_pos m with rfl | nonzero
  · obtain rfl := isDouble_zero double
    have high := (div_le_iff₀ unit).mp within.high
    exact nearestTo_zero (by simpa using high)
  · refine RoundsTo.nearestTo ⟨within, fun power above => ?_⟩ double nonzero
    have high := (le_div_iff₀ unit).mpr (scale.above.resolve_left (by omega))
    rw [power]
    push_cast
    linarith

/-- The significand is rounded up to a power of two, which the next scale begins with. -/
theorem IsScale.nearestTo_next (full : m = 2 ^ 53) (most : e + 1 ≤ 971) :
    IsDouble (2 ^ 52) (e + 1) ∧ NearestTo x (2 ^ 52) (e + 1) := by
  have least := scale.least
  have unit : (0 : ℚ) < 2 ^ e := by positivity
  have double : IsDouble (2 ^ 52) (e + 1) := ⟨by norm_num, by omega, most, .inr (le_refl _)⟩
  have low := within.low
  have high := (div_lt_iff₀ unit).mpr scale.below
  have half : x / 2 ^ (e + 1) = x / 2 ^ e / 2 := by rw [zpow_add_one₀ (by norm_num), div_div]
  rw [full] at low
  push_cast at low
  refine ⟨double, RoundsTo.nearestTo ⟨⟨?_, ?_, .inl (by norm_num)⟩, fun _ _ => ?_⟩ double
    (by norm_num)⟩ <;>
  · rw [half]
    push_cast
    linarith

/-- A significand at the scale of the number, rounded, gives the pattern, also where it is rounded
    up to a power of two or beyond the largest double. -/
theorem IsScale.roundedBits :
    RoundedBits x (min ((e - leastExponent).toNat * 2 ^ 52 + m) infinityBits) := by
  have least := scale.least
  obtain ⟨leading, bounded⟩ := scale.significand_bounds within
  unfold leastExponent at least leading
  by_cases large : 971 < e
  · have normal := leading.resolve_left (by omega)
    rw [Nat.min_eq_right (by simp only [infinityBits, leastExponent, Nat.pow_eq]; omega)]
    exact roundedBits_infinity (scale.overflow large)
  rcases Nat.lt_or_eq_of_le bounded with fits | full
  · obtain ⟨double, nearest⟩ := scale.nearestTo within fits (by omega)
    rw [← pattern, Nat.min_eq_left (pattern_lt double).le]
    exact nearest.roundedBits double
  by_cases last : e = 971
  · have low := (le_div_iff₀ (by positivity)).mp within.low
    rw [Nat.min_eq_right (by simp only [infinityBits, leastExponent, Nat.pow_eq]; omega)]
    rw [full, last] at low
    apply roundedBits_infinity
    unfold overflowThreshold
    exact_mod_cast low
  · obtain ⟨double, nearest⟩ := scale.nearestTo_next within full (by omega)
    have same : (e - leastExponent).toNat * 2 ^ 52 + m = pattern (2 ^ 52) (e + 1) := by
      rw [pattern, full]
      unfold leastExponent
      omega
    rw [same, Nat.min_eq_left (pattern_lt double).le]
    exact nearest.roundedBits double

end Scale

/-- The pattern of zero is that of numbers that are small enough. -/
theorem roundedBits_zero (small : x ≤ 1 / 2 * 2 ^ leastExponent) : RoundedBits x 0 :=
  (nearestTo_zero small).roundedBits ⟨by norm_num, le_refl _, by decide, .inl rfl⟩

theorem roundedBits_nearest (num : Nat) {den : Nat} (positive : 0 < den) :
    RoundedBits ((num : ℚ) / den) (nearest num den) := by
  unfold nearest
  split
  · rename_i zero
    subst zero
    apply roundedBits_zero
    rw [Nat.cast_zero, zero_div]
    positivity
  · rename_i nonzero
    have scale := isScale_exponentFor (Nat.pos_of_ne_zero nonzero) positive
    obtain ⟨positive', same⟩ := scaled_eq num positive (exponentFor num den)
    have within := withinHalf_roundDiv (scaled num den (exponentFor num den)).1 positive'
    rw [same] at within
    exact scale.roundedBits within

theorem overflow_of_digitCount {digits : Nat} {k : Int} (nonzero : 0 < digits)
    (large : 400 < (digitCount digits : Int) + k) :
    overflowThreshold ≤ (digits : ℚ) * 10 ^ k := by
  unfold overflowThreshold
  have power : (10 : ℚ) ^ (332 + 1 : Int) ≤ 10 ^ (digitCount digits + k : Int) :=
    zpow_le_zpow_right₀ (by norm_num) (by omega)
  have limit : (2 : ℚ) ^ 53 * 2 ^ (971 : Int) ≤ 2 ^ (1079 : Int) := by
    rw [← two_zpow_add]
    exact zpow_le_zpow_right₀ (by norm_num) (by norm_num)
  have above := (decimal_bounds nonzero k).1
  have unit : (0 : ℚ) < 2 ^ (971 : Int) := by positivity
  have most := limit.trans two_zpow_le_ten_zpow
  rw [zpow_add_one₀ (by norm_num)] at power
  generalize (10 : ℚ) ^ (332 : Int) = ten at power most
  generalize (2 : ℚ) ^ (971 : Int) = last at most unit ⊢
  linarith

theorem small_of_digitCount {digits : Nat} {k : Int} (nonzero : 0 < digits)
    (small : (digitCount digits : Int) + k < -400) :
    (digits : ℚ) * 10 ^ k ≤ 1 / 2 * 2 ^ leastExponent := by
  have power : (10 : ℚ) ^ (digitCount digits + k : Int) ≤ 10 ^ (-332 : Int) :=
    zpow_le_zpow_right₀ (by norm_num) (by omega)
  have least : (2 : ℚ) ^ (-1079 : Int) * 2 ≤ 2 ^ leastExponent := by
    rw [← zpow_add_one₀ (by norm_num)]
    exact zpow_le_zpow_right₀ (by norm_num) (by decide)
  have below := (decimal_bounds nonzero k).2.trans_le (power.trans ten_zpow_le_two_zpow)
  linarith

theorem roundedBits_nearestDecimal (digits : Nat) (k : Int) :
    RoundedBits ((digits : ℚ) * 10 ^ k) (nearestDecimal digits k) := by
  unfold nearestDecimal
  dsimp only
  split
  · rename_i zero
    subst zero
    apply roundedBits_zero
    rw [Nat.cast_zero, zero_mul]
    positivity
  rename_i other
  have nonzero := Nat.pos_of_ne_zero other
  split
  · rename_i large
    exact roundedBits_infinity (overflow_of_digitCount nonzero large)
  split
  · rename_i small
    exact roundedBits_zero (small_of_digitCount nonzero small)
  split
  · rename_i up
    obtain ⟨j, rfl⟩ := Int.eq_ofNat_of_zero_le up
    simpa using roundedBits_nearest (digits * 10 ^ j) Nat.one_pos
  · rename_i down
    obtain ⟨j, rfl⟩ := Int.exists_eq_neg_ofNat (Int.not_le.mp down).le
    have positive : 0 < 10 ^ j := Nat.pow_pos (by decide)
    simpa [div_eq_mul_inv] using roundedBits_nearest digits positive

end Binary64

/-- A numeral is read as the double that its number is rounded to. -/
theorem Numeral.rounded_toFloat (n : Numeral) (negative : Bool) :
    Binary64.Rounded negative n.value (Binary64.ofFloat (n.toFloat negative)) :=
  Binary64.roundedBits_nearestDecimal _ _ negative

end MinangScript
