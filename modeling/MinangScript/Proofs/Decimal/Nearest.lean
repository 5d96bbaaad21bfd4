import MinangScript.Proofs.Decimal.Shortest

/-! # The double nearest to a number

`NearestTo` says which double a number rounds to, and does so by distances alone: every other double
is further away, or as far and the significand is even. The numbers that round to a double are those
of its rounding interval, and rounding keeps the order of numbers.
-/

namespace MinangScript

namespace Binary64

variable {s s' : Nat} {e e' : Int} {x y : ℚ}

/-- The number that a significand and an exponent stand for. -/
def magnitude (s : Nat) (e : Int) : ℚ :=
  s * 2 ^ e

/-- The number has at most fifty-three bits, none of them below the last place of the least double.
    Nothing bounds it from above: what is too large for a double is compared with the double that
    would come next. -/
def Representable (y : ℚ) : Prop :=
  ∃ s e, s < 2 ^ 53 ∧ leastExponent ≤ e ∧ y = magnitude s e

/-- The number rounds to the double `s · 2 ^ e`, to nearest and ties to even. -/
def NearestTo (x : ℚ) (s : Nat) (e : Int) : Prop :=
  ∀ y, Representable y → y ≠ magnitude s e →
    |x - magnitude s e| < |x - y| ∨ (|x - magnitude s e| = |x - y| ∧ s % 2 = 0)

/-! ## Distances on a line -/

theorem nearer_left_iff {u w : ℚ} (apart : u < w) : |x - u| ≤ |x - w| ↔ 2 * x ≤ u + w := by
  constructor
  · intro near
    rcases abs_cases (x - u) with ⟨left, _⟩ | ⟨left, _⟩ <;>
      rcases abs_cases (x - w) with ⟨right, _⟩ | ⟨right, _⟩ <;> linarith
  · intro near
    rcases abs_cases (x - u) with ⟨left, _⟩ | ⟨left, _⟩ <;>
      rcases abs_cases (x - w) with ⟨right, _⟩ | ⟨right, _⟩ <;> linarith

theorem nearer_right_iff {u w : ℚ} (apart : u < w) : |x - w| ≤ |x - u| ↔ u + w ≤ 2 * x := by
  have mirrored := @nearer_left_iff (-x) (-w) (-u) (neg_lt_neg apart)
  rw [neg_sub_neg, neg_sub_neg, abs_sub_comm w, abs_sub_comm u] at mirrored
  rw [mirrored]
  constructor <;> intro <;> linarith

/-! ## The neighbours of a double -/

/-- Beside the double, at a distance of one unit, stands the next one. -/
theorem representable_next (double : IsDouble s e) : Representable (magnitude s e + 2 ^ e) := by
  have fits := double.fits
  have least := double.least
  by_cases last : s + 1 < 2 ^ 53
  · refine ⟨s + 1, e, last, least, ?_⟩
    rw [magnitude, magnitude]
    push_cast
    ring
  · obtain rfl : s = 2 ^ 53 - 1 := by omega
    refine ⟨2 ^ 52, e + 1, by norm_num, by omega, ?_⟩
    rw [magnitude, magnitude, zpow_add_one₀ (by norm_num)]
    norm_num
    ring

/-- Below it stands another, at twice the reach of its interval. -/
theorem representable_previous (double : IsDouble s e) (nonzero : 0 < s) :
    Representable (magnitude s e - 2 * RoundingInterval.reach s e * 2 ^ e) := by
  have fits := double.fits
  have least := double.least
  unfold RoundingInterval.reach
  split
  · rename_i power
    obtain ⟨rfl, greater⟩ := power
    refine ⟨2 ^ 53 - 1, e - 1, by norm_num, by omega, ?_⟩
    rw [magnitude, magnitude, zpow_sub_one₀ (by norm_num)]
    norm_num
    ring
  · refine ⟨s - 1, e, by omega, least, ?_⟩
    rw [magnitude, magnitude, Nat.cast_sub nonzero]
    push_cast
    ring

/-- What has a larger exponent is a multiple of the unit. -/
theorem magnitude_of_le (fine : e ≤ e') :
    magnitude s' e' = magnitude (s' * 2 ^ (e' - e).toNat) e := by
  obtain ⟨k, rfl⟩ := Int.le.dest fine
  have amount : (e + k - e).toNat = k := by omega
  rw [amount, magnitude, magnitude, zpow_add₀ (by norm_num), zpow_natCast]
  push_cast
  ring

theorem magnitude_add_unit_le {m : Nat} (less : s < m) :
    magnitude s e + 2 ^ e ≤ magnitude m e := by
  have less : (s : ℚ) + 1 ≤ m := by exact_mod_cast less
  have unit : (0 : ℚ) < 2 ^ e := by positivity
  calc magnitude s e + 2 ^ e = (s + 1) * 2 ^ e := by rw [magnitude]; ring
    _ ≤ magnitude m e := mul_le_mul_of_nonneg_right less unit.le

/-- With a smaller exponent fifty-three bits stay below the leading bit of the double. -/
theorem magnitude_lt_of_lt (fits : s' < 2 ^ 53) (coarse : e' < e) :
    magnitude s' e' + 2 ^ (e - 1) ≤ magnitude (2 ^ 52) e := by
  have fits : (s' : ℚ) + 1 ≤ 2 ^ 53 := by exact_mod_cast fits
  have unit : (2 : ℚ) ^ e' ≤ 2 ^ (e - 1) := zpow_le_zpow_right₀ (by norm_num) (by omega)
  calc magnitude s' e' + 2 ^ (e - 1)
      ≤ s' * 2 ^ (e - 1) + 2 ^ (e - 1) := by
        rw [magnitude]
        gcongr
    _ = (s' + 1) * 2 ^ (e - 1) := by ring
    _ ≤ 2 ^ 53 * 2 ^ (e - 1) := by gcongr
    _ = magnitude (2 ^ 52) e := by
        rw [magnitude, zpow_sub_one₀ (by norm_num)]
        norm_num
        ring

/-- Between the two neighbours there is no other double. -/
theorem Representable.gaps (double : IsDouble s e) (there : Representable y)
    (other : y ≠ magnitude s e) :
    y ≤ magnitude s e - 2 * RoundingInterval.reach s e * 2 ^ e ∨ magnitude s e + 2 ^ e ≤ y := by
  have reaches := (RoundingInterval.reach_bounds s e).2
  have unit : (0 : ℚ) < 2 ^ e := by positivity
  have close := mul_le_mul_of_nonneg_right reaches unit.le
  obtain ⟨s', e', fits, least, rfl⟩ := there
  by_cases fine : e ≤ e'
  · rw [magnitude_of_le fine] at other ⊢
    generalize s' * 2 ^ (e' - e).toNat = m at other ⊢
    rcases Nat.lt_trichotomy m s with less | rfl | more
    · have := @magnitude_add_unit_le m e s less
      exact .inl (by linarith)
    · exact absurd rfl other
    · exact .inr (magnitude_add_unit_le more)
  · left
    have leading := double.leading.resolve_left (by omega)
    have below := magnitude_lt_of_lt fits (not_le.mp fine)
    have halves : (2 : ℚ) ^ e = 2 * 2 ^ (e - 1) := by
      rw [zpow_sub_one₀ (by norm_num)]
      ring
    by_cases power : s = 2 ^ 52
    · have half : 2 * (1 / 4) * (2 : ℚ) ^ e = 2 ^ (e - 1) := by linarith
      rw [RoundingInterval.reach, if_pos ⟨power, by omega⟩, half, power]
      exact le_sub_iff_add_le.mpr below
    · have above := @magnitude_add_unit_le (2 ^ 52) e s (by omega)
      linarith

/-! ## The rounding interval -/

theorem nearestTo_of_contains (double : IsDouble s e) (nonzero : 0 < s)
    (inside : (RoundingInterval.ofDouble s e).Contains x) : NearestTo x s e := by
  obtain ⟨-, lowest, -, highest⟩ := RoundingInterval.ofDouble_bounds nonzero e
  have reaches := (RoundingInterval.reach_bounds s e).1
  have unit : (0 : ℚ) < 2 ^ e := by positivity
  have close := mul_le_mul_of_nonneg_right reaches unit.le
  obtain ⟨low, high, ends⟩ := inside
  rw [lowest, sub_mul, ← magnitude] at low
  rw [highest, add_mul, ← magnitude] at high
  rw [lowest, highest, sub_mul, add_mul, ← magnitude] at ends
  have ends := ends.imp_left fun closed => (by simpa [RoundingInterval.ofDouble] using closed :
    s % 2 = 0)
  intro y there other
  -- the midpoint to a neighbour is an end of the interval
  rcases there.gaps double other with below | above
  · have apart : y < magnitude s e := by linarith
    obtain even | ⟨strict, -⟩ := ends
    · have near := (nearer_right_iff apart).mpr (by linarith : _ ≤ 2 * x)
      exact near.lt_or_eq.imp_right fun same => ⟨same, even⟩
    · refine .inl (not_le.mp (mt (nearer_left_iff apart).mp ?_))
      linarith
  · have apart : magnitude s e < y := by linarith
    obtain even | ⟨-, strict⟩ := ends
    · have near := (nearer_left_iff apart).mpr (by linarith : 2 * x ≤ _)
      exact near.lt_or_eq.imp_right fun same => ⟨same, even⟩
    · refine .inl (not_le.mp (mt (nearer_right_iff apart).mp ?_))
      linarith

theorem NearestTo.le (nearest : NearestTo x s e) (there : Representable y) :
    |x - magnitude s e| ≤ |x - y| := by
  by_cases same : y = magnitude s e
  · rw [same]
  · exact (nearest y there same).elim le_of_lt fun tie => tie.1.le

theorem NearestTo.eq_of_representable (nearest : NearestTo x s e) (there : Representable x) :
    x = magnitude s e := by
  have near := nearest.le there
  rw [sub_self, abs_zero] at near
  exact sub_eq_zero.mp (abs_nonpos_iff.mp near)

theorem NearestTo.lt_of_odd (nearest : NearestTo x s e) (there : Representable y)
    (other : y ≠ magnitude s e) (odd : ¬ s % 2 = 0) : |x - magnitude s e| < |x - y| :=
  (nearest y there other).resolve_right fun tie => odd tie.2

theorem contains_of_nearestTo (double : IsDouble s e) (nonzero : 0 < s) (nearest : NearestTo x s e) :
    (RoundingInterval.ofDouble s e).Contains x := by
  obtain ⟨-, lowest, -, highest⟩ := RoundingInterval.ofDouble_bounds nonzero e
  have reaches := (RoundingInterval.reach_bounds s e).1
  have unit : (0 : ℚ) < 2 ^ e := by positivity
  have close := mul_le_mul_of_nonneg_right reaches unit.le
  have next := representable_next double
  have previous := representable_previous double nonzero
  have above : magnitude s e < magnitude s e + 2 ^ e := by linarith
  have below : magnitude s e - 2 * RoundingInterval.reach s e * 2 ^ e < magnitude s e := by linarith
  have low := (nearer_right_iff below).mp (nearest.le previous)
  have high := (nearer_left_iff above).mp (nearest.le next)
  refine ⟨?_, ?_, ?_⟩
  · rw [lowest, sub_mul, ← magnitude]
    linarith
  · rw [highest, add_mul, ← magnitude]
    linarith
  · by_cases even : s % 2 = 0
    · exact .inl (by simpa [RoundingInterval.ofDouble] using even)
    · have low := mt (nearer_left_iff below).mpr (nearest.lt_of_odd previous below.ne even).not_ge
      have high := mt (nearer_right_iff above).mpr (nearest.lt_of_odd next above.ne' even).not_ge
      rw [lowest, highest, sub_mul, add_mul, ← magnitude]
      exact .inr ⟨by linarith, by linarith⟩

theorem NearestTo.roundsTo (nearest : NearestTo x s e) (double : IsDouble s e) (nonzero : 0 < s) :
    RoundsTo x s e :=
  RoundingInterval.roundsTo_of_contains nonzero (contains_of_nearestTo double nonzero nearest)

/-! ## Order -/

/-- The double with the larger exponent is the larger one, and so is its pattern. -/
theorem IsDouble.lt_of_exponent_lt (double : IsDouble s e) (double' : IsDouble s' e')
    (less : e < e') : pattern s e < pattern s' e' ∧ magnitude s e < magnitude s' e' := by
  have fits := double.fits
  have least := double.least
  have leading := double'.leading.resolve_left (by omega)
  constructor
  · have next : (e - leastExponent).toNat + 1 ≤ (e' - leastExponent).toNat := by omega
    have := Nat.mul_le_mul_right (2 ^ 52) next
    unfold pattern
    omega
  · have below := magnitude_lt_of_lt fits less
    have unit : (0 : ℚ) < 2 ^ (e' - 1) := by positivity
    have above : magnitude (2 ^ 52) e' ≤ magnitude s' e' :=
      mul_le_mul_of_nonneg_right (by exact_mod_cast leading) (by positivity)
    linarith

/-- Doubles are ordered as their patterns are. -/
theorem magnitude_lt_iff (double : IsDouble s e) (double' : IsDouble s' e') :
    magnitude s e < magnitude s' e' ↔ pattern s e < pattern s' e' := by
  rcases lt_trichotomy e e' with less | rfl | more
  · obtain ⟨patterns, magnitudes⟩ := double.lt_of_exponent_lt double' less
    exact iff_of_true magnitudes patterns
  · rw [magnitude, magnitude, mul_lt_mul_iff_left₀ (by positivity)]
    unfold pattern
    exact Nat.cast_lt.trans (by omega)
  · obtain ⟨patterns, magnitudes⟩ := double'.lt_of_exponent_lt double more
    exact iff_of_false magnitudes.not_gt patterns.not_gt

theorem IsDouble.eq_of_pattern_eq (double : IsDouble s e) (double' : IsDouble s' e')
    (same : pattern s e = pattern s' e') : s = s' ∧ e = e' := by
  rcases lt_trichotomy e e' with less | rfl | more
  · exact absurd same (double.lt_of_exponent_lt double' less).1.ne
  · unfold pattern at same
    exact ⟨by omega, rfl⟩
  · exact absurd same (double'.lt_of_exponent_lt double more).1.ne'

theorem NearestTo.pattern_eq (nearest : NearestTo x s e) (nearest' : NearestTo x s' e')
    (double : IsDouble s e) (double' : IsDouble s' e') (nonzero : 0 < s) (nonzero' : 0 < s') :
    pattern s e = pattern s' e' := by
  have rounds := nearest.roundsTo double nonzero
  have rounds' := nearest'.roundsTo double' nonzero'
  have quotient : ((x.num.toNat : ℚ) / x.den) = x := by
    have whole : ((x.num.toNat : Int) : ℚ) = x.num := by
      rw [Int.toNat_of_nonneg (Rat.num_pos.mpr (rounds.positive nonzero)).le]
    rw [← Int.cast_natCast, whole, Rat.num_div_den]
  rw [← quotient] at rounds rounds'
  rw [← nearest_eq x.den_pos double nonzero rounds, nearest_eq x.den_pos double' nonzero' rounds']

/-- The larger of two numbers does not round to the smaller double. -/
theorem NearestTo.pattern_le (nearest : NearestTo x s e) (nearest' : NearestTo y s' e')
    (double : IsDouble s e) (double' : IsDouble s' e') (nonzero : 0 < s) (nonzero' : 0 < s')
    (ordered : x ≤ y) : pattern s e ≤ pattern s' e' := by
  by_contra crossed
  have apart := (magnitude_lt_iff double' double).mpr (not_le.mp crossed)
  have above := (nearer_right_iff apart).mp
    (nearest.le ⟨s', e', double'.fits, double'.least, rfl⟩)
  have below := (nearer_left_iff apart).mp
    (nearest'.le ⟨s, e, double.fits, double.least, rfl⟩)
  -- both numbers stand in the middle of the two doubles, and one number rounds one way
  obtain rfl : x = y := by linarith
  exact crossed (nearest.pattern_eq nearest' double double' nonzero nonzero').le

end Binary64

end MinangScript
