import Mathlib
import MinangScript.Decimal.Binary64

/-! # What floats stand for

The operations on floats are defined on unpacked ones, which have a sign, a significand and an
exponent. A float stands for the exact number that it is unpacked to, and a normal double that is
packed and unpacked again is what it was.
-/

namespace MinangScript

namespace Binary64

open Float.Model UnpackedFloat

def isNegative : Sign → Bool
  | .positive => false
  | .negative => true

/-- The exact number of an unpacked float. -/
def ofUnpacked : UnpackedFloat → Binary64
  | .notANumber => .nan
  | .infinity sign => .infinite (isNegative sign)
  | .zero sign => .finite (isNegative sign) 0 leastExponent
  | .finite sign significand exponent _ => .finite (isNegative sign) significand exponent

/-! ## The parts of a bit pattern -/

theorem toNat_unpackMantissa (b : BitVec 64) :
    (@unpackMantissa Format.binary64 b).toNat = b.toNat % 2 ^ 52 := by
  simp [unpackMantissa]

theorem toNat_unpackExponent (b : BitVec 64) :
    (@unpackExponent Format.binary64 b).toNat = b.toNat / 2 ^ 52 % 2 ^ 11 := by
  simp [unpackExponent, Nat.shiftRight_eq_div_pow]

theorem toNat_unpackSign (b : BitVec 64) :
    (@unpackSign Format.binary64 b).toNat = b.toNat / 2 ^ 63 := by
  have short : b.toNat < 2 ^ 64 := b.isLt
  simp only [unpackSign, BitVec.toNat_cast, BitVec.extractLsb_toNat, Nat.shiftRight_eq_div_pow]
  omega

theorem isNegative_unpackSign (b : BitVec 64) :
    isNegative (.ofBitVec (@unpackSign Format.binary64 b)) = decide (Nat.pow 2 63 ≤ b.toNat) := by
  have sign := toNat_unpackSign b
  have short : b.toNat < 2 ^ 64 := b.isLt
  unfold Sign.ofBitVec
  by_cases positive : @unpackSign Format.binary64 b = 0#1
  · rw [positive, BitVec.toNat_zero] at sign
    rw [if_pos positive]
    simp only [isNegative, Nat.pow_eq]
    exact (decide_eq_false (by omega)).symm
  · have signed : (@unpackSign Format.binary64 b).toNat ≠ 0 := fun zero =>
      positive (BitVec.eq_of_toNat_eq zero)
    rw [if_neg positive]
    simp only [isNegative, Nat.pow_eq]
    exact (decide_eq_true (by omega)).symm

theorem toNat_implicit {k : Nat} (m : BitVec k) : (1#1 ++ m).toNat = 2 ^ k + m.toNat := by
  rw [BitVec.toNat_append, ← Nat.shiftLeft_add_eq_or_of_lt m.isLt, Nat.shiftLeft_eq,
    BitVec.toNat_ofNat, Nat.one_mod, Nat.one_mul]

theorem unpackExponent_eq_full_iff (b : BitVec 64) :
    @unpackExponent Format.binary64 b = -1#_ ↔
      (@unpackExponent Format.binary64 b).toNat = 2047 :=
  ⟨fun is => by rw [is]; rfl, fun is => BitVec.eq_of_toNat_eq (by rw [is]; rfl)⟩

theorem unpackMantissa_eq_zero_iff (b : BitVec 64) :
    @unpackMantissa Format.binary64 b = 0#_ ↔ (@unpackMantissa Format.binary64 b).toNat = 0 :=
  ⟨fun is => by rw [is]; rfl, fun is => BitVec.eq_of_toNat_eq is⟩

/-- A float stands for what it is unpacked to. -/
theorem ofFloat_eq (x : Float) : ofFloat x = ofUnpacked x.toModel.unpack := by
  have mantissa := toNat_unpackMantissa x.toBits.toBitVec
  have exponent := toNat_unpackExponent x.toBits.toBitVec
  have sign := isNegative_unpackSign x.toBits.toBitVec
  simp only [← Nat.pow_eq] at mantissa exponent
  change ofBits x.toBits.toBitVec.toNat =
    ofUnpacked (UnpackedFloat.unpack Format.binary64 x.toBits.toBitVec)
  simp only [ofBits, UnpackedFloat.unpack, ← mantissa, ← exponent, ← sign]
  have full := unpackExponent_eq_full_iff x.toBits.toBitVec
  have empty : (@unpackExponent Format.binary64 x.toBits.toBitVec = 0#_) ↔
      (@unpackExponent Format.binary64 x.toBits.toBitVec).toNat = 0 :=
    ⟨fun is => by rw [is]; rfl, fun is => BitVec.eq_of_toNat_eq is⟩
  have zero := unpackMantissa_eq_zero_iff x.toBits.toBitVec
  by_cases isFull : @unpackExponent Format.binary64 x.toBits.toBitVec = -1#_
  · rw [if_pos isFull, if_pos (full.mp isFull)]
    by_cases isNone : @unpackMantissa Format.binary64 x.toBits.toBitVec = 0#_
    · rw [if_pos isNone, if_pos (zero.mp isNone)]
      rfl
    · rw [if_neg isNone, if_neg (mt zero.mpr isNone)]
      rfl
  · rw [if_neg isFull, if_neg (mt full.mpr isFull)]
    by_cases isEmpty : @unpackExponent Format.binary64 x.toBits.toBitVec = 0#_
    · rw [if_pos isEmpty, if_pos (empty.mp isEmpty)]
      by_cases isNone : @unpackMantissa Format.binary64 x.toBits.toBitVec = 0#_
      · rw [dif_pos isNone, zero.mp isNone]
        rfl
      · rw [dif_neg isNone, isEmpty]
        rfl
    · rw [if_neg isEmpty, if_neg (mt empty.mpr isEmpty)]
      simp only [ofUnpacked, toNat_implicit]
      rfl

theorem isFinite_iff {x : Float} :
    x.isFinite = true ↔ ∃ negative s e, ofFloat x = .finite negative s e := by
  change x.toModel.unpack.isFinite = true ↔ _
  rw [ofFloat_eq]
  cases x.toModel.unpack <;> simp [UnpackedFloat.isFinite, ofUnpacked]

/-! ## Packing -/

@[simp] theorem unpackSign_packComponents (format : Format) (sign : Sign)
    (e : BitVec format.exponentBits) (m : BitVec format.mantissaBitsWithoutImplicit) :
    unpackSign (packComponents format sign e m) = sign.toBitVec := by
  apply BitVec.eq_of_getLsbD_eq
  intro i within
  obtain rfl : i = 0 := by omega
  simp [unpackSign, packComponents, BitVec.getLsbD_append, BitVec.getElem_append]

theorem ofBitVec_toBitVec (sign : Sign) : Sign.ofBitVec sign.toBitVec = sign := by
  cases sign <;> rfl

/-- A normal double is what it was before it was packed. -/
theorem unpack_pack {sign : Sign} {m : Nat} {e : Int} (positive : 0 < m) (low : 2 ^ 52 ≤ m)
    (high : m < 2 ^ 53) (least : -1074 ≤ e) (most : e ≤ 971) :
    (Float.Model.pack (.finite sign m e positive)).unpack = .finite sign m e positive := by
  obtain ⟨biased, is⟩ : ∃ n : Nat, e + 1023 + 52 = n := ⟨(e + 1023 + 52).toNat, by omega⟩
  have biased' : (e + Format.binary64.exponentBias +
      Format.binary64.mantissaBitsWithoutImplicit).toNat = biased := by
    change (e + 1023 + 52).toNat = biased
    omega
  have log : m.log2 + 1 = Format.binary64.mantissaBits :=
    congrArg Nat.succ ((Nat.log2_eq_iff (by omega)).mpr ⟨low, high⟩)
  have fits : ¬2 ^ Format.binary64.exponentBits ≤ biased + 1 := by
    change ¬2 ^ 11 ≤ biased + 1
    omega
  have exponent : (BitVec.ofNat 11 biased).toNat = biased := by
    rw [BitVec.toNat_ofNat]
    omega
  have notFull : BitVec.ofNat 11 biased ≠ -1#11 := by
    intro same
    have same := congrArg BitVec.toNat same
    rw [exponent] at same
    change biased = 2047 at same
    omega
  have notEmpty : BitVec.ofNat 11 biased ≠ 0#11 := by
    intro same
    have same := congrArg BitVec.toNat same
    rw [exponent] at same
    change biased = 0 at same
    omega
  have significand : (1#1 ++ BitVec.ofNat 52 m).toNat = m := by
    rw [toNat_implicit, BitVec.toNat_ofNat]
    omega
  change UnpackedFloat.unpack Format.binary64 (UnpackedFloat.pack Format.binary64 _) = _
  rw [UnpackedFloat.pack]
  dsimp only
  rw [biased', if_neg fits, if_pos log, UnpackedFloat.unpack]
  simp only [unpackMantissa_packComponents, unpackExponent_packComponents,
    unpackSign_packComponents, ofBitVec_toBitVec, notFull, notEmpty, if_false, significand, exponent]
  congr 1
  change (biased : Int) - (1023 + 52) = e
  omega

/-! ## Floats of bit patterns -/

theorem isNaNBits_iff (b : BitVec 64) :
    @isNaNBits Format.binary64 b = true ↔ ofBits b.toNat = .nan := by
  rw [isNaNBits, decide_eq_true_iff, unpackExponent_eq_full_iff, Ne, unpackMantissa_eq_zero_iff,
    toNat_unpackMantissa, toNat_unpackExponent]
  unfold ofBits
  simp only [Nat.pow_eq]
  split
  · split <;> simp [*]
  · split <;> simp [*]

/-- The patterns of what is not a number are all one float. -/
theorem toBits_ofBits (bits : UInt64) :
    (Float.ofBits bits).toBits =
      if ofBits bits.toNat = .nan then 0x7ff8000000000000 else bits := by
  change UInt64.ofBitVec (UnpackedFloat.pack Format.binary64
    (UnpackedFloat.unpack Format.binary64 bits.toBitVec)) = _
  rw [pack_unpack, apply_ite UInt64.ofBitVec]
  exact if_congr (isNaNBits_iff bits.toBitVec) rfl rfl

theorem ofBits_of_nan {bits : UInt64} (nan : ofBits bits.toNat = .nan) :
    Float.ofBits bits = Float.ofBits 0x7ff8000000000000 := by
  rw [← Float.ofBits_toBits (Float.ofBits bits), toBits_ofBits, if_pos nan]

/-- The float of a pattern stands for what the pattern stands for. -/
theorem ofFloat_ofBits (bits : UInt64) : ofFloat (Float.ofBits bits) = ofBits bits.toNat := by
  rw [ofFloat, toBits_ofBits]
  split
  · rename_i nan
    rw [nan]
    rfl
  · rfl

end Binary64

end MinangScript
