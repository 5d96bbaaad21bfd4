import Mathlib.Data.Rat.Floor
import MinangScript.Proofs.Decimal.Nearest

/-! # The fewest digits

A decimal is the shortest of a double when it rounds to the double, no decimal with fewer digits
does, and no other with as many digits is closer; of two equally close ones it is the larger. The
search finds it: a decimal with `k + 1` digits that rounds to the double stands on the grid of the
`k`-th round, or below the leading power of ten, which then is a better point of the same grid.
-/

namespace MinangScript

/-- As an approximation of `c` the number `x` is to be preferred to `y`: it is not further away, and
    not the smaller one of two equally near. -/
structure Preferred (c x y : ℚ) : Prop where
  near : |c - x| ≤ |c - y|
  upper : |c - x| = |c - y| → y ≤ x

namespace Preferred

variable {c x y : ℚ}

theorem refl (c x : ℚ) : Preferred c x x :=
  ⟨le_rfl, fun _ => le_rfl⟩

theorem of_nearer (near : |c - x| < |c - y|) : Preferred c x y :=
  ⟨near.le, fun same => absurd same near.ne⟩

theorem trans {z : ℚ} (first : Preferred c x y) (second : Preferred c y z) : Preferred c x z where
  near := first.near.trans second.near
  upper same := (second.upper (second.near.antisymm (same ▸ first.near))).trans
    (first.upper (first.near.antisymm (same ▸ second.near)))

/-- Towards the approximated number from below it gets better. -/
theorem of_below (ordered : y ≤ x) (below : x ≤ c) : Preferred c x y := by
  refine ⟨?_, fun _ => ordered⟩
  rw [abs_of_nonneg (by linarith), abs_of_nonneg (by linarith)]
  linarith

theorem of_above (above : c ≤ x) (ordered : x ≤ y) : Preferred c x y := by
  have left : |c - x| = x - c := by
    rw [abs_sub_comm]
    exact abs_of_nonneg (by linarith)
  have right : |c - y| = y - c := by
    rw [abs_sub_comm]
    exact abs_of_nonneg (by linarith)
  refine ⟨?_, fun same => ?_⟩
  · rw [left, right]
    linarith
  · rw [left, right] at same
    linarith

/-- On the other side of the approximated number the larger one may be as far away. -/
theorem of_across (below : y ≤ c) (above : c ≤ x) (near : x - c ≤ c - y) : Preferred c x y := by
  refine ⟨?_, fun _ => by linarith⟩
  rw [abs_of_nonpos (by linarith), abs_of_nonneg (by linarith)]
  linarith

theorem of_across_below (below : x ≤ c) (near : c - x < y - c) :
    Preferred c x y := by
  refine of_nearer ?_
  rw [abs_of_nonneg (by linarith), abs_of_nonpos (by linarith)]
  linarith

theorem scale {p : ℚ} (positive : 0 < p) (preferred : Preferred (c / p) x y) :
    Preferred c (x * p) (y * p) := by
  have distance : ∀ z : ℚ, |c - z * p| = |c / p - z| * p := by
    intro z
    rw [← abs_of_pos positive, ← abs_mul, sub_mul, abs_of_pos positive,
      div_mul_cancel₀ _ positive.ne']
  refine ⟨?_, fun same => ?_⟩
  · rw [distance, distance]
    exact mul_le_mul_of_nonneg_right preferred.near positive.le
  · rw [distance, distance] at same
    exact mul_le_mul_of_nonneg_right (preferred.upper (mul_right_cancel₀ positive.ne' same))
      positive.le

end Preferred

namespace RoundingInterval

variable {i : RoundingInterval} {x y z : ℚ} {e : Int}

/-- Nothing in the interval is zero, and the double is not at an end of it. -/
structure Proper (i : RoundingInterval) : Prop where
  unit : 0 < i.unit
  positive : 0 < i.lowest
  left : i.lowest < i.center
  right : i.center < i.highest

theorem proper_ofDouble {s : Nat} (nonzero : 0 < s) (e : Int) : (ofDouble s e).Proper := by
  obtain ⟨unit, lowest, center, highest⟩ := ofDouble_bounds nonzero e
  have power : (0 : ℚ) < 2 ^ e := by positivity
  have one : (1 : ℚ) ≤ s := by exact_mod_cast nonzero
  have reaches := reach_bounds s e
  refine ⟨unit, ?_, ?_, ?_⟩
  · rw [lowest]
    exact mul_pos (by linarith) power
  · rw [lowest, center]
    exact mul_lt_mul_of_pos_right (by linarith) power
  · rw [center, highest]
    exact mul_lt_mul_of_pos_right (by linarith) power

/-! ## Points of the interval -/

theorem Contains.between (first : i.Contains x) (second : i.Contains z) (above : x ≤ y)
    (below : y ≤ z) : i.Contains y := by
  refine ⟨first.low.trans above, below.trans second.high, ?_⟩
  obtain closed | ⟨low, -⟩ := first.ends
  · exact .inl closed
  · refine second.ends.imp_right fun ⟨_, high⟩ => ?_
    exact ⟨low.trans_le above, below.trans_lt high⟩

theorem contains_of_lt (low : i.lowest < x) (high : x < i.highest) : i.Contains x :=
  ⟨low.le, high.le, .inr ⟨low, high⟩⟩

theorem Proper.contains (proper : i.Proper) : i.Contains i.center :=
  contains_of_lt proper.left proper.right

theorem holds_of_contains {n : Nat} (unit : 0 < i.unit) (inside : i.Contains n) :
    i.holds n = true := by
  have unit' : (0 : ℚ) < i.unit := by exact_mod_cast unit
  obtain ⟨low, high, ends⟩ := inside
  unfold holds
  dsimp only
  split
  · refine decide_eq_true ⟨?_, ?_⟩
    · exact_mod_cast (div_le_iff₀ unit').mp low
    · exact_mod_cast (le_div_iff₀ unit').mp high
  · rename_i closed
    obtain ⟨low, high⟩ := ends.resolve_left closed
    refine decide_eq_true ⟨?_, ?_⟩
    · exact_mod_cast (div_lt_iff₀ unit').mp low
    · exact_mod_cast (lt_div_iff₀ unit').mp high

theorem contains_inUnitsOf (unit : 0 < i.unit) (inside : i.Contains (x * 10 ^ e)) :
    (i.inUnitsOf e).Contains x := by
  have power : (0 : ℚ) < 10 ^ e := by positivity
  obtain ⟨-, lowest, -, highest, closed⟩ := inUnitsOf_bounds unit e
  obtain ⟨low, high, ends⟩ := inside
  refine ⟨?_, ?_, ?_⟩
  · rwa [lowest, div_le_iff₀ power]
  · rwa [highest, le_div_iff₀ power]
  · rwa [closed, lowest, highest, div_lt_iff₀ power, lt_div_iff₀ power]

/-- A grid finer than the interval is wide has a point in it. -/
theorem Proper.exists_contains (proper : i.Proper) {p : ℚ} (positive : 0 < p)
    (wide : i.lowest + p < i.highest) : ∃ m : Nat, i.Contains (m * p) := by
  refine ⟨⌊i.lowest / p⌋₊ + 1, contains_of_lt ?_ ?_⟩
  · rw [← div_lt_iff₀ positive]
    exact_mod_cast Nat.lt_floor_add_one (i.lowest / p)
  · have floor := Nat.floor_le (div_nonneg proper.positive.le positive.le)
    rw [le_div_iff₀ positive] at floor
    push_cast
    linarith

/-! ## One grid -/

/-- The double stands between two whole numbers. -/
theorem floor_bounds (unit : 0 < i.unit) :
    ((i.middle / i.unit : Nat) : ℚ) ≤ i.center ∧ i.center < ((i.middle / i.unit : Nat) : ℚ) + 1 := by
  have unit' : (0 : ℚ) < i.unit := by exact_mod_cast unit
  constructor
  · rw [center, le_div_iff₀ unit']
    exact_mod_cast Nat.div_mul_le_self _ _
  · rw [center, div_lt_iff₀' unit']
    exact_mod_cast Nat.lt_mul_div_succ i.middle unit

theorem le_of_nearestWhole? {tie : Tie} {n : Nat} (found : i.nearestWhole? tie = some n) :
    n ≤ i.middle / i.unit + 1 := by
  unfold nearestWhole? at found
  grind

/-- What is left of the double above the whole number, doubled. -/
theorem rest_eq (unit : 0 < i.unit) :
    ((2 * (i.middle % i.unit) : Nat) : ℚ) = 2 * (i.center - (i.middle / i.unit : Nat)) * i.unit := by
  have unit' : (i.unit : ℚ) ≠ 0 := by exact_mod_cast unit.ne'
  have parts : ((i.unit * (i.middle / i.unit) + i.middle % i.unit : Nat) : ℚ) = i.middle := by
    rw [Nat.div_add_mod]
  rw [center, mul_assoc, sub_mul, div_mul_cancel₀ _ unit', ← parts]
  push_cast
  ring

/-- Wherever a whole number lies in the interval, one of the two around the double is found, and it
    is to be preferred. -/
theorem nearestWhole?_of_contains {m : Nat} (unit : 0 < i.unit) (middle : i.Contains i.center)
    (inside : i.Contains m) :
    ∃ n, i.nearestWhole? .away = some n ∧ Preferred i.center n m := by
  have unit' : (0 : ℚ) < i.unit := by exact_mod_cast unit
  obtain ⟨low, high⟩ := floor_bounds unit
  have rest := rest_eq unit
  unfold nearestWhole?
  dsimp only
  generalize i.middle / i.unit = floor at *
  generalize 2 * (i.middle % i.unit) = rest' at *
  have sides : ((m : ℚ) ≤ floor ∧ i.holds floor = true) ∨
      ((floor : ℚ) + 1 ≤ m ∧ i.holds (floor + 1) = true) := by
    rcases Nat.lt_or_ge floor m with above | below
    · have above : (floor : ℚ) + 1 ≤ m := by exact_mod_cast above
      refine .inr ⟨above, holds_of_contains unit ?_⟩
      exact middle.between inside (by push_cast; exact high.le) (by push_cast; exact above)
    · have below : (m : ℚ) ≤ floor := by exact_mod_cast below
      exact .inl ⟨below, holds_of_contains unit (inside.between middle below low)⟩
  have toFloor : (m : ℚ) ≤ floor → Preferred i.center floor m := fun below =>
    .of_below below low
  have toNext : (floor : ℚ) + 1 ≤ m → Preferred i.center ((floor + 1 : Nat) : ℚ) m := fun above =>
    .of_above (by push_cast; exact high.le) (by push_cast; exact above)
  cases here : i.holds floor <;> cases next : i.holds (floor + 1)
  · simp [here, next] at sides
  · exact ⟨_, rfl, toNext (by simpa [here, next] using sides)⟩
  · exact ⟨_, rfl, toFloor (by simpa [here, next] using sides)⟩
  dsimp only
  -- both are in the interval, and the halves decide
  split
  · rename_i less
    have less : 2 * (i.center - floor) * i.unit < 1 * i.unit := by
      rw [← rest, one_mul]
      exact_mod_cast less
    have less := lt_of_mul_lt_mul_right less unit'.le
    refine ⟨_, rfl, sides.elim (fun ⟨below, _⟩ => toFloor below) fun ⟨above, _⟩ => ?_⟩
    exact .of_across_below low (by linarith)
  · rename_i notLess
    have notLess : 1 * (i.unit : ℚ) ≤ 2 * (i.center - floor) * i.unit := by
      rw [← rest, one_mul]
      exact_mod_cast not_lt.mp notLess
    have notLess := le_of_mul_le_mul_right notLess unit'
    have upper : Preferred i.center ((floor + 1 : Nat) : ℚ) m := by
      refine sides.elim (fun ⟨below, _⟩ => ?_) fun ⟨above, _⟩ => toNext above
      exact .of_across (by linarith) (by push_cast; linarith) (by push_cast; linarith)
    split <;> exact ⟨_, rfl, upper⟩

/-- The ways to break a tie differ only in the middle between two whole numbers, the lower one of
    which is even. -/
theorem nearestWhole?_even (unit : 0 < i.unit) :
    i.nearestWhole? .even = i.nearestWhole? .away ∨
      ∃ n : Nat, i.nearestWhole? .away = some (n + 1) ∧ i.nearestWhole? .even = some n ∧
        n % 2 = 0 ∧ i.center = n + 1 / 2 := by
  have rest := rest_eq unit
  have middle : 2 * (i.middle % i.unit) = i.unit →
      i.center = ((i.middle / i.unit : Nat) : ℚ) + 1 / 2 := by
    intro half
    have unit' : (i.unit : ℚ) ≠ 0 := by exact_mod_cast unit.ne'
    rw [half] at rest
    have := mul_right_cancel₀ unit' ((one_mul _).trans rest)
    linarith
  unfold nearestWhole?
  grind

/-! ## The leading digit -/

theorem Proper.center_pos (proper : i.Proper) : 0 < i.center :=
  proper.positive.trans proper.left

/-- The power of ten after the leading one is above the double. -/
theorem Proper.lt_leadingExponent (proper : i.Proper) :
    i.center < 10 ^ (i.leadingExponent + 1) := by
  have unit := proper.unit
  have unit' : (0 : ℚ) < i.unit := by exact_mod_cast unit
  have nonzero : 0 < i.middle := by
    have positive := proper.center_pos
    by_contra zero
    simp [center, Nat.eq_zero_of_not_pos zero] at positive
  unfold leadingExponent center
  rw [div_lt_iff₀ unit']
  split
  · have bound := (Nat.div_lt_iff_lt_mul unit).mp
      (Binary64.lt_pow_digitCount (i.middle / i.unit))
    rw [sub_add_cancel, zpow_natCast]
    exact_mod_cast bound
  · rename_i fraction
    have bound : 10 ^ Binary64.digitCount ((i.unit - 1) / i.middle) * i.middle < 10 * i.unit :=
      calc 10 ^ Binary64.digitCount ((i.unit - 1) / i.middle) * i.middle
          ≤ 10 * ((i.unit - 1) / i.middle) * i.middle := by
            gcongr
            exact Binary64.pow_digitCount_le (Nat.div_pos (by omega) nonzero)
        _ = 10 * ((i.unit - 1) / i.middle * i.middle) := Nat.mul_assoc _ _ _
        _ ≤ 10 * (i.unit - 1) := by
            gcongr
            exact Nat.div_mul_le_self _ _
        _ < 10 * i.unit := by omega
    rw [zpow_add_one₀ (by norm_num), zpow_neg, zpow_natCast, mul_assoc,
      lt_inv_mul_iff₀ (by positivity)]
    exact_mod_cast bound

/-! ## The rounds of the search -/

/-- The place of the last digit, `k` digits after the leading one. -/
def place (i : RoundingInterval) (k : Nat) : Int :=
  i.leadingExponent - k

/-- What is found at that place. -/
def hit? (i : RoundingInterval) (k : Nat) : Option Nat :=
  (i.inUnitsOf (i.place k)).nearestWhole? .away

variable {k m n : Nat}

theorem power_place (i : RoundingInterval) (k : Nat) :
    (10 : ℚ) ^ k * 10 ^ i.place k = 10 ^ i.leadingExponent := by
  rw [← zpow_natCast, ← zpow_add₀ (by norm_num)]
  congr 1
  unfold place
  omega

namespace Proper

theorem hit_of_contains (proper : i.Proper) (inside : i.Contains (m * 10 ^ i.place k)) :
    ∃ n, i.hit? k = some n ∧ Preferred i.center (n * 10 ^ i.place k) (m * 10 ^ i.place k) := by
  have power : (0 : ℚ) < 10 ^ i.place k := by positivity
  obtain ⟨unit, -, center, -⟩ := inUnitsOf_bounds proper.unit (i.place k)
  have middle : (i.inUnitsOf (i.place k)).Contains (i.inUnitsOf (i.place k)).center := by
    rw [center]
    refine contains_inUnitsOf proper.unit ?_
    rw [div_mul_cancel₀ _ power.ne']
    exact proper.contains
  obtain ⟨n, found, preferred⟩ := nearestWhole?_of_contains unit middle
    (contains_inUnitsOf proper.unit inside)
  rw [center] at preferred
  exact ⟨n, found, preferred.scale power⟩

theorem contains_of_hit (proper : i.Proper) (found : i.hit? k = some n) :
    i.Contains (n * 10 ^ i.place k) :=
  contains_of_inUnitsOf proper.unit
    (contains_of_holds (inUnitsOf_bounds proper.unit _).1 (holds_of_nearestWhole? found))

theorem pos_of_hit (proper : i.Proper) (found : i.hit? k = some n) : 0 < n := by
  have low := proper.positive.trans_le (proper.contains_of_hit found).low
  by_contra zero
  simp [Nat.eq_zero_of_not_pos zero] at low

/-- A hit has no more digits than the round allows, or is the first power of ten beyond. -/
theorem le_of_hit (proper : i.Proper) (found : i.hit? k = some n) : n ≤ 10 ^ (k + 1) := by
  obtain ⟨unit, -, center, -⟩ := inUnitsOf_bounds proper.unit (i.place k)
  have floor := (floor_bounds unit).1
  have below : i.center / 10 ^ i.place k < 10 ^ (k + 1) := by
    rw [div_lt_iff₀ (by positivity), pow_succ, mul_right_comm, power_place,
      ← zpow_add_one₀ (by norm_num)]
    exact proper.lt_leadingExponent
  rw [center] at floor
  have floor : (i.inUnitsOf (i.place k)).middle / (i.inUnitsOf (i.place k)).unit <
      10 ^ (k + 1) := by
    exact_mod_cast floor.trans_lt below
  exact (le_of_nearestWhole? found).trans floor

end Proper

end RoundingInterval

namespace Decimal

open RoundingInterval

variable {s : Nat} {e : Int}

/-- The decimal with the fewest digits that rounds to the double, the closest one if there are
    several. -/
structure IsShortest (d : Decimal) (s : Nat) (e : Int) : Prop where
  nearest : Binary64.NearestTo d.value s e
  /-- No digit is there for nothing. -/
  trimmed : d.digits % 10 ≠ 0
  fewest : ∀ d' : Decimal, Binary64.NearestTo d'.value s e →
    d.digitText.length ≤ d'.digitText.length
  closest : ∀ d' : Decimal, Binary64.NearestTo d'.value s e →
    d'.digitText.length = d.digitText.length →
      Preferred (Binary64.magnitude s e) d.value d'.value

theorem IsShortest.digits_pos {d : Decimal} (shortest : d.IsShortest s e) : 0 < d.digits := by
  have trimmed := shortest.trimmed
  omega

theorem length_digitText_le_iff {d : Decimal} (k : Nat) :
    d.digitText.length ≤ k + 1 ↔ d.digits < 10 ^ (k + 1) :=
  Nat.length_toDigits_le_iff (by decide) k.succ_pos

/-! ## The search -/

theorem search_eq {tie : Tie} {i : RoundingInterval} {rounds j n : Nat} {e : Int}
    (within : j < rounds) (missed : ∀ k < j, (i.inUnitsOf (e - k)).nearestWhole? tie = none)
    (found : (i.inUnitsOf (e - j)).nearestWhole? tie = some n) :
    search tie i rounds e = ⟨n, e - j⟩ := by
  induction j generalizing rounds e with
  | zero =>
      obtain ⟨rounds, rfl⟩ := Nat.exists_eq_succ_of_ne_zero (by omega : rounds ≠ 0)
      simp only [Nat.cast_zero, sub_zero] at found ⊢
      rw [search, found]
  | succ j ih =>
      obtain ⟨rounds, rfl⟩ := Nat.exists_eq_succ_of_ne_zero (by omega : rounds ≠ 0)
      have first := missed 0 j.succ_pos
      simp only [Nat.cast_zero, sub_zero] at first
      have shift : ∀ k : Nat, e - (k + 1 : Nat) = e - 1 - k := by
        intro k
        omega
      rw [shift] at found ⊢
      rw [search, first]
      refine ih (Nat.lt_of_succ_lt_succ within) (fun k less => ?_) found
      rw [← shift]
      exact missed (k + 1) (Nat.succ_lt_succ less)

/-- Among the short decimals of the interval none is better than all points of the grid. -/
theorem exists_on_grid {i : RoundingInterval} (proper : i.Proper) {d : Decimal} {k : Nat}
    (inside : i.Contains d.value) (short : d.digitText.length ≤ k + 1) :
    ∃ m : Nat, i.Contains (m * 10 ^ i.place k) ∧
      Preferred i.center (m * 10 ^ i.place k) d.value := by
  have ten : (10 : ℚ) ≠ 0 := by norm_num
  have leading := leadingExponent_le proper.unit proper.center_pos
  by_cases coarse : i.place k ≤ d.exponent
  · obtain ⟨j, exponent⟩ := Int.le.dest coarse
    have same : ((d.digits * 10 ^ j : Nat) : ℚ) * 10 ^ i.place k = d.value := by
      rw [value, ← exponent, zpow_add₀ ten, zpow_natCast]
      push_cast
      ring
    refine ⟨d.digits * 10 ^ j, ?_, ?_⟩ <;> rw [same]
    · exact inside
    · exact .refl _ _
  · have below : d.value ≤ 10 ^ i.leadingExponent := by
      have digits : (d.digits : ℚ) ≤ 10 ^ (k + 1) := by
        exact_mod_cast ((length_digitText_le_iff k).mp short).le
      calc d.value ≤ 10 ^ (k + 1) * 10 ^ d.exponent := by
            rw [value]
            gcongr
        _ = 10 ^ k * 10 ^ (d.exponent + 1) := by
            rw [pow_succ, zpow_add_one₀ ten]
            ring
        _ ≤ 10 ^ k * 10 ^ i.place k := by
            gcongr
            · norm_num
            · omega
        _ = 10 ^ i.leadingExponent := i.power_place k
    have power : ((10 ^ k : Nat) : ℚ) * 10 ^ i.place k = 10 ^ i.leadingExponent := by
      rw [← i.power_place k]
      push_cast
      rfl
    refine ⟨10 ^ k, ?_, ?_⟩ <;> rw [power]
    · exact inside.between proper.contains below leading
    · exact .of_below below leading

theorem trim_bounds {rounds : Nat} {d : Decimal} (nonzero : 0 < d.digits)
    (short : d.digits < 10 ^ rounds) :
    (trim rounds d).digits % 10 ≠ 0 ∧ (trim rounds d).digits ≤ d.digits := by
  fun_induction trim rounds d with
  | case1 d => omega
  | case2 rounds d whole ih =>
      rw [Nat.pow_succ] at short
      obtain ⟨trimmed, le⟩ := ih (by dsimp only; omega) (by dsimp only; omega)
      exact ⟨trimmed, le.trans (Nat.div_le_self _ _)⟩
  | case3 rounds d notWhole => exact ⟨notWhole, le_rfl⟩

/-- Trimmed, a number up to a power of ten has no more digits than the numbers below it. -/
theorem length_trim_le {d : Decimal} {k : Nat} (nonzero : 0 < d.digits)
    (most : d.digits ≤ 10 ^ (k + 1)) (small : k < 19) :
    (trim 20 d).digitText.length ≤ k + 1 := by
  have power : 10 ^ (k + 1) < 10 ^ 20 := Nat.pow_lt_pow_right (by decide) (by omega)
  obtain ⟨trimmed, le⟩ := trim_bounds nonzero (most.trans_lt power)
  rw [length_digitText_le_iff]
  refine lt_of_le_of_ne (le.trans most) fun same => trimmed ?_
  rw [same, Nat.pow_succ]
  exact Nat.mul_mod_left _ _

/-! ## The shortest decimal of a double -/

/-- Seventeen digits suffice. -/
theorem exists_seventeen (double : Binary64.IsDouble s e) (nonzero : 0 < s) :
    ∃ m : Nat, (ofDouble s e).Contains (m * 10 ^ (ofDouble s e).place 16) := by
  have proper := proper_ofDouble nonzero e
  obtain ⟨-, lowest, center, highest⟩ := ofDouble_bounds nonzero e
  have power : (0 : ℚ) < 2 ^ e := by positivity
  have fits : (s : ℚ) ≤ 2 ^ 53 := by exact_mod_cast double.fits.le
  have leading := leadingExponent_le proper.unit proper.center_pos
  have place : (10 : ℚ) ^ (ofDouble s e).place 16 ≤ s * 2 ^ e / 10 ^ 16 := by
    rw [le_div_iff₀' (by positivity), power_place, ← center]
    exact leading
  -- just above a power of two the interval is narrower, but there the significand is small
  have narrow : (s : ℚ) / 10 ^ 16 < reach s e + 1 / 2 := by
    unfold reach
    split
    · rename_i least
      rw [least.1]
      norm_num
    · linarith
  have wide := mul_lt_mul_of_pos_right narrow power
  refine proper.exists_contains (by positivity) ?_
  rw [lowest, highest]
  linarith

/-- The search stops at its first hit, within seventeen rounds. -/
theorem exists_first_hit (double : Binary64.IsDouble s e) (nonzero : 0 < s) :
    ∃ j n, j < 17 ∧ (ofDouble s e).hit? j = some n ∧
      ∀ k < j, (ofDouble s e).hit? k = none := by
  obtain ⟨m, inside⟩ := exists_seventeen double nonzero
  obtain ⟨n, found, -⟩ := (proper_ofDouble nonzero e).hit_of_contains inside
  have hits : ∃ j, ((ofDouble s e).hit? j).isSome = true := ⟨16, by rw [found]; rfl⟩
  obtain ⟨n, first⟩ := Option.isSome_iff_exists.mp (Nat.find_spec hits)
  refine ⟨Nat.find hits, n, ?_, first, fun k earlier => ?_⟩
  · exact Nat.lt_succ_of_le (Nat.find_min' hits (by rw [found]; rfl))
  · simpa using Nat.find_min hits earlier

/-- The search finds the shortest decimal. -/
theorem isShortest_shortest (double : Binary64.IsDouble s e) (nonzero : 0 < s) :
    (shortest .away s e).IsShortest s e := by
  have proper := proper_ofDouble nonzero e
  have center : (ofDouble s e).center = Binary64.magnitude s e := (ofDouble_bounds nonzero e).2.2.1
  obtain ⟨j, n, within, found, missed⟩ := exists_first_hit double nonzero
  have positive := proper.pos_of_hit found
  have most := proper.le_of_hit found
  have result : shortest .away s e = trim 20 ⟨n, (ofDouble s e).place j⟩ :=
    congrArg (trim 20) (search_eq within missed found)
  have value : (shortest .away s e).value = n * 10 ^ (ofDouble s e).place j := by
    rw [result, value_trim]
    rfl
  have short : (shortest .away s e).digitText.length ≤ j + 1 := by
    rw [result]
    exact length_trim_le positive most (by omega)
  refine ⟨?_, ?_, fun d' nearest => ?_, fun d' nearest same => ?_⟩
  · rw [value]
    exact Binary64.nearestTo_of_contains double nonzero (proper.contains_of_hit found)
  · rw [result]
    have power : 10 ^ (j + 1) < 10 ^ 20 := Nat.pow_lt_pow_right (by decide) (by omega)
    exact (trim_bounds positive (most.trans_lt power)).1
  · -- fewer digits would have been a hit of an earlier round
    have inside := Binary64.contains_of_nearestTo double nonzero nearest
    by_contra fewer
    have digit : 0 < d'.digitText.length := Nat.length_toDigits_pos
    obtain ⟨k, rfl⟩ : ∃ k, j = k + 1 := ⟨j - 1, by omega⟩
    obtain ⟨m, onGrid, -⟩ := exists_on_grid proper inside (by omega : _ ≤ k + 1)
    obtain ⟨n', found', -⟩ := proper.hit_of_contains onGrid
    rw [missed k k.lt_succ_self] at found'
    cases found'
  · have inside := Binary64.contains_of_nearestTo double nonzero nearest
    obtain ⟨m, onGrid, better⟩ := exists_on_grid proper inside (by omega : _ ≤ j + 1)
    obtain ⟨n', found', best⟩ := proper.hit_of_contains onGrid
    obtain rfl : n = n' := Option.some.inj (found.symm.trans found')
    rw [value, ← center]
    exact best.trans better

/-- Where ties go to the even neighbour the search has a hit as well, in the same round. -/
theorem exists_hit_even (double : Binary64.IsDouble s e) (nonzero : 0 < s) :
    ∃ (n : Nat) (x : Int), shortest .even s e = trim 20 ⟨n, x⟩ ∧ 0 < n ∧ n < 10 ^ 20 := by
  have proper := proper_ofDouble nonzero e
  obtain ⟨j, n, within, found, missed⟩ := exists_first_hit double nonzero
  have most := proper.le_of_hit found
  have power : 10 ^ (j + 1) < 10 ^ 20 := Nat.pow_lt_pow_right (by decide) (by omega)
  have units := fun k => (inUnitsOf_bounds proper.unit ((ofDouble s e).place k)).1
  have ways := fun k => nearestWhole?_even (units k)
  obtain ⟨n', found', le⟩ : ∃ n', ((ofDouble s e).inUnitsOf
      ((ofDouble s e).place j)).nearestWhole? .even = some n' ∧ n' ≤ n := by
    obtain same | ⟨n', upper, lower, -⟩ := ways j
    · exact ⟨n, same.trans found, le_rfl⟩
    · obtain rfl : n = n' + 1 := Option.some.inj (found.symm.trans upper)
      exact ⟨n', lower, n'.le_succ⟩
  have early : ∀ k < j, ((ofDouble s e).inUnitsOf
      ((ofDouble s e).place k)).nearestWhole? .even = none := by
    intro k less
    obtain same | ⟨n, upper, -⟩ := ways k
    · exact same.trans (missed k less)
    · cases upper.symm.trans (missed k less)
  have inside := contains_of_inUnitsOf proper.unit
    (contains_of_holds (units j) (holds_of_nearestWhole? found'))
  have positive : 0 < n' := by
    have low := proper.positive.trans_le inside.low
    by_contra zero
    simp [Nat.eq_zero_of_not_pos zero] at low
  exact ⟨n', _, congrArg (trim 20) (search_eq within early found'), positive, by omega⟩

/-- Whatever is done about ties, no digit is there for nothing. -/
theorem trimmed_shortest_even (double : Binary64.IsDouble s e) (nonzero : 0 < s) :
    (shortest .even s e).digits % 10 ≠ 0 := by
  obtain ⟨n, x, result, positive, bound⟩ := exists_hit_even double nonzero
  rw [result]
  exact (trim_bounds positive bound).1

/-- The shortest decimals are ordered as their doubles are. -/
theorem value_shortest_le_iff {s' : Nat} {e' : Int} (double : Binary64.IsDouble s e)
    (double' : Binary64.IsDouble s' e') (nonzero : 0 < s) (nonzero' : 0 < s') :
    (shortest .away s e).value ≤ (shortest .away s' e').value ↔
      Binary64.pattern s e ≤ Binary64.pattern s' e' := by
  have nearest := (isShortest_shortest double nonzero).nearest
  have nearest' := (isShortest_shortest double' nonzero').nearest
  refine ⟨nearest.pattern_le nearest' double double' nonzero nonzero', fun ordered => ?_⟩
  by_contra crossed
  have reversed := nearest'.pattern_le nearest double' double nonzero' nonzero (not_le.mp crossed).le
  obtain ⟨rfl, rfl⟩ := double.eq_of_pattern_eq double' (ordered.antisymm reversed)
  exact crossed le_rfl

end Decimal

end MinangScript
