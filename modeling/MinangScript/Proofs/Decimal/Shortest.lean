import MinangScript.Decimal.Shortest
import MinangScript.Proofs.Decimal.Rounding

/-! # The shortest decimal rounds back

What lies in the rounding interval of a double rounds to that double. Every decimal that the search
takes lies in the interval, and so the shortest decimal does.
-/

namespace MinangScript

namespace RoundingInterval

variable {i : RoundingInterval}

/-! ## Intervals of numbers -/

def lowest (i : RoundingInterval) : ℚ :=
  i.low / i.unit

def center (i : RoundingInterval) : ℚ :=
  i.middle / i.unit

def highest (i : RoundingInterval) : ℚ :=
  i.high / i.unit

/-- The number lies in the interval. -/
structure Contains (i : RoundingInterval) (x : ℚ) : Prop where
  low : i.lowest ≤ x
  high : x ≤ i.highest
  ends : i.closed = true ∨ (i.lowest < x ∧ x < i.highest)

theorem contains_of_holds {n : Nat} (unit : 0 < i.unit) (held : i.holds n = true) :
    i.Contains n := by
  have unit' : (0 : ℚ) < i.unit := by exact_mod_cast unit
  unfold holds at held
  dsimp only at held
  split at held
  · rename_i closed
    obtain ⟨low, high⟩ := of_decide_eq_true held
    refine ⟨?_, ?_, .inl closed⟩
    · exact (div_le_iff₀ unit').mpr (by exact_mod_cast low)
    · exact (le_div_iff₀ unit').mpr (by exact_mod_cast high)
  · obtain ⟨low, high⟩ := of_decide_eq_true held
    have low' : i.lowest < n := (div_lt_iff₀ unit').mpr (by exact_mod_cast low)
    have high' : n < i.highest := (lt_div_iff₀ unit').mpr (by exact_mod_cast high)
    exact ⟨low'.le, high'.le, .inr ⟨low', high'⟩⟩

theorem holds_of_nearestWhole? {tie : Tie} {n : Nat} (found : i.nearestWhole? tie = some n) :
    i.holds n = true := by
  unfold nearestWhole? at found
  grind

theorem inUnitsOf_bounds (unit : 0 < i.unit) (e : Int) :
    0 < (i.inUnitsOf e).unit ∧ (i.inUnitsOf e).lowest = i.lowest / 10 ^ e ∧
      (i.inUnitsOf e).center = i.center / 10 ^ e ∧ (i.inUnitsOf e).highest = i.highest / 10 ^ e ∧
      (i.inUnitsOf e).closed = i.closed := by
  unfold inUnitsOf lowest center highest
  split
  · rename_i up
    obtain ⟨k, rfl⟩ := Int.eq_ofNat_of_zero_le up
    refine ⟨Nat.mul_pos unit (Nat.pow_pos (by decide)), ?_, ?_, ?_, rfl⟩ <;> simp [div_div]
  · rename_i down
    obtain ⟨k, rfl⟩ := Int.exists_eq_neg_ofNat (Int.not_le.mp down).le
    refine ⟨unit, ?_, ?_, ?_, rfl⟩ <;> simp [mul_div_right_comm]

theorem contains_of_inUnitsOf (unit : 0 < i.unit) {e : Int} {x : ℚ}
    (inside : (i.inUnitsOf e).Contains x) : i.Contains (x * 10 ^ e) := by
  have power : (0 : ℚ) < 10 ^ e := by positivity
  obtain ⟨-, lowest, -, highest, closed⟩ := inUnitsOf_bounds unit e
  obtain ⟨low, high, ends⟩ := inside
  rw [lowest, div_le_iff₀ power] at low
  rw [highest, le_div_iff₀ power] at high
  rw [closed, lowest, highest, div_lt_iff₀ power, lt_div_iff₀ power] at ends
  exact ⟨low, high, ends⟩

/-- Cut off at a place that is fine enough, the number in the middle stays inside. -/
theorem contains_floor (unit : 0 < i.unit) {e : Int} (fine : i.lowest + 10 ^ e ≤ i.center)
    (proper : i.center < i.highest) :
    i.Contains (((i.inUnitsOf e).middle / (i.inUnitsOf e).unit : Nat) * 10 ^ e) := by
  have power : (0 : ℚ) < 10 ^ e := by positivity
  obtain ⟨unit', -, center, -⟩ := inUnitsOf_bounds unit e
  generalize i.inUnitsOf e = units at *
  have unit'' : (0 : ℚ) < units.unit := by exact_mod_cast unit'
  have whole : ((units.middle / units.unit : Nat) : ℚ) ≤ i.center / 10 ^ e := by
    rw [← center, RoundingInterval.center, le_div_iff₀ unit'']
    exact_mod_cast Nat.div_mul_le_self _ _
  have next : i.center / 10 ^ e < ((units.middle / units.unit : Nat) : ℚ) + 1 := by
    rw [← center, RoundingInterval.center, div_lt_iff₀' unit'']
    exact_mod_cast Nat.lt_mul_div_succ units.middle unit'
  rw [le_div_iff₀ power] at whole
  rw [div_lt_iff₀ power] at next
  have above : i.lowest < ((units.middle / units.unit : Nat) : ℚ) * 10 ^ e := by linarith
  have below := whole.trans_lt proper
  exact ⟨above.le, below.le, .inr ⟨above, below⟩⟩

/-! ## The interval of a double -/

variable {s : Nat} {e : Int}

/-- How far below the double its interval begins, in units of the last place. -/
def reach (s : Nat) (e : Int) : ℚ :=
  if s = 2 ^ 52 ∧ Binary64.leastExponent < e then 1 / 4 else 1 / 2

theorem reach_bounds (s : Nat) (e : Int) : 1 / 4 ≤ reach s e ∧ reach s e ≤ 1 / 2 := by
  unfold reach
  split <;> norm_num

/-- A power of two as a numerator and a denominator, one of which is one. -/
theorem quarter_eq (q : Int) :
    let up : Nat := if 0 ≤ q then Nat.pow 2 q.toNat else 1
    let unit : Nat := if 0 ≤ q then 1 else Nat.pow 2 (-q).toNat
    0 < unit ∧ ∀ a : Nat, ((a * up : Nat) : ℚ) / unit = a * 2 ^ q := by
  dsimp only
  split
  · rename_i up
    obtain ⟨k, rfl⟩ := Int.eq_ofNat_of_zero_le up
    simp
  · rename_i down
    obtain ⟨k, rfl⟩ := Int.exists_eq_neg_ofNat (Int.not_le.mp down).le
    simp [div_eq_mul_inv]

theorem ofDouble_bounds (nonzero : 0 < s) (e : Int) :
    0 < (ofDouble s e).unit ∧ (ofDouble s e).lowest = (s - reach s e) * 2 ^ e ∧
      (ofDouble s e).center = s * 2 ^ e ∧ (ofDouble s e).highest = (s + 1 / 2) * 2 ^ e := by
  have four : (2 : ℚ) ^ e = 4 * 2 ^ (e - 2) := by
    have square : (4 : ℚ) = 2 ^ (2 : Int) := by norm_num
    rw [square, ← zpow_add₀ (by norm_num)]
    congr 1
    omega
  obtain ⟨unit, ratio⟩ := quarter_eq (e - 2)
  rw [four]
  refine ⟨unit, (ratio _).trans ?_, (ratio _).trans ?_, (ratio _).trans ?_⟩
  · unfold reach
    simp only [Nat.pow_eq]
    split
    · rw [Nat.cast_sub (by omega)]
      push_cast
      ring
    · rw [Nat.cast_sub (by omega)]
      push_cast
      ring
  · push_cast
    ring
  · push_cast
    ring

theorem roundsTo_of_contains (nonzero : 0 < s) {x : ℚ} (inside : (ofDouble s e).Contains x) :
    Binary64.RoundsTo x s e := by
  obtain ⟨-, lowest, -, highest⟩ := ofDouble_bounds nonzero e
  obtain ⟨low, high, ends⟩ := inside
  have unit : (0 : ℚ) < 2 ^ e := by positivity
  have reaches := (reach_bounds s e).2
  rw [lowest, ← le_div_iff₀ unit] at low
  rw [highest, ← div_le_iff₀ unit] at high
  rw [lowest, highest, ← lt_div_iff₀ unit, ← div_lt_iff₀ unit] at ends
  refine ⟨⟨by linarith, high, ?_⟩, fun power greater => ?_⟩
  · refine ends.imp (fun closed => by simpa [ofDouble] using closed) fun ⟨above, below⟩ => ?_
    exact ⟨by linarith, below⟩
  · rwa [reach, if_pos ⟨power, greater⟩] at low

/-- The leading digit is not above the double. -/
theorem leadingExponent_le (unit : 0 < i.unit) (positive : 0 < i.center) :
    (10 : ℚ) ^ i.leadingExponent ≤ i.center := by
  have unit' : (0 : ℚ) < i.unit := by exact_mod_cast unit
  have nonzero : 0 < i.middle := by
    by_contra zero
    simp [center, Nat.eq_zero_of_not_pos zero] at positive
  unfold leadingExponent center
  rw [le_div_iff₀ unit']
  split
  · rename_i whole
    have bound : 10 ^ Binary64.digitCount (i.middle / i.unit) * i.unit ≤ 10 * i.middle :=
      calc 10 ^ Binary64.digitCount (i.middle / i.unit) * i.unit
          ≤ 10 * (i.middle / i.unit) * i.unit := by
            gcongr
            exact Binary64.pow_digitCount_le (Nat.div_pos whole unit)
        _ = 10 * (i.middle / i.unit * i.unit) := Nat.mul_assoc _ _ _
        _ ≤ 10 * i.middle := by
            gcongr
            exact Nat.div_mul_le_self i.middle i.unit
    qify at bound
    rw [zpow_sub_one₀ (by norm_num), zpow_natCast]
    linarith
  · have digits := Binary64.lt_pow_digitCount ((i.unit - 1) / i.middle)
    have bound : i.unit ≤ i.middle * 10 ^ Binary64.digitCount ((i.unit - 1) / i.middle) := by
      have := (Nat.div_lt_iff_lt_mul nonzero).mp digits
      rw [Nat.mul_comm]
      omega
    rw [zpow_neg, zpow_natCast, inv_mul_le_iff₀' (by positivity)]
    exact_mod_cast bound

end RoundingInterval

namespace Decimal

/-- The number that a decimal is. -/
def value (d : Decimal) : ℚ :=
  d.digits * 10 ^ d.exponent

theorem value_trim (rounds : Nat) (d : Decimal) : (trim rounds d).value = d.value := by
  fun_induction trim rounds d with
  | case1 => rfl
  | case2 rounds d whole ih =>
      obtain ⟨k, same⟩ := Nat.dvd_of_mod_eq_zero whole
      rw [ih, value, value, same]
      have ten : (10 : ℚ) ≠ 0 := by norm_num
      have quotient : 10 * k / 10 = k := Nat.mul_div_cancel_left k (by decide)
      simp only [quotient, zpow_add_one₀ ten]
      push_cast
      ring
  | case3 => rfl

theorem contains_search (tie : Tie) {i : RoundingInterval} (unit : 0 < i.unit) {rounds : Nat}
    {e : Int} (fine : i.lowest + 10 ^ (e - rounds) ≤ i.center) (proper : i.center < i.highest) :
    i.Contains (search tie i rounds e).value := by
  fun_induction search tie i rounds e with
  | case1 e =>
      exact i.contains_floor unit (by simpa using fine) proper
  | case2 rounds e n found =>
      have held := RoundingInterval.holds_of_nearestWhole? found
      have unit' := (i.inUnitsOf_bounds unit e).1
      exact i.contains_of_inUnitsOf unit (RoundingInterval.contains_of_holds unit' held)
  | case3 rounds e missed ih =>
      refine ih ?_
      have same : e - 1 - rounds = e - (rounds + 1 : Nat) := by omega
      rwa [same]

/-- The shortest decimal of a double rounds to it. Where no grid has a hit the search cuts the
    double off after eighteen digits, and that is near enough as well. -/
theorem roundsTo_shortest (tie : Tie) {s : Nat} {e : Int} (double : Binary64.IsDouble s e)
    (nonzero : 0 < s) : Binary64.RoundsTo (shortest tie s e).value s e := by
  obtain ⟨unit, lowest, center, highest⟩ := RoundingInterval.ofDouble_bounds nonzero e
  have power : (0 : ℚ) < 2 ^ e := by positivity
  have nonzero' : (0 : ℚ) < s := by exact_mod_cast nonzero
  have fits : (s : ℚ) ≤ 2 ^ 53 := by exact_mod_cast double.fits.le
  have leading := RoundingInterval.leadingExponent_le unit (by rw [center]; positivity)
  have reaches := (RoundingInterval.reach_bounds s e).1
  unfold shortest
  dsimp only
  rw [value_trim]
  refine RoundingInterval.roundsTo_of_contains nonzero (contains_search tie unit ?_ ?_)
  · rw [lowest, center]
    rw [center] at leading
    have place : (10 : ℚ) ^ ((RoundingInterval.ofDouble s e).leadingExponent - (17 : Nat)) ≤
        1 / 4 * 2 ^ e :=
      calc (10 : ℚ) ^ ((RoundingInterval.ofDouble s e).leadingExponent - (17 : Nat))
          = 10 ^ (RoundingInterval.ofDouble s e).leadingExponent / 10 ^ 17 := by
            rw [zpow_sub₀ (by norm_num), zpow_natCast]
        _ ≤ s * 2 ^ e / 10 ^ 17 := by gcongr
        _ ≤ 2 ^ 53 * 2 ^ e / 10 ^ 17 := by gcongr
        _ ≤ 1 / 4 * 2 ^ e := by linarith
    have near := place.trans (mul_le_mul_of_nonneg_right reaches power.le)
    rw [sub_mul, ← le_sub_iff_add_le']
    exact near.trans_eq (sub_sub_cancel _ _).symm
  · rw [center, highest]
    gcongr
    linarith

end Decimal

end MinangScript
