import BlockScript.Number.Scaling
import Mathlib

/-!
# How large a double is

Rounding never takes the leading bit of a number down, and what is too large for a double becomes
infinite.  So a double that is made by scaling is at least as large as the place of its leading bit
tells, however many roundings were made on the way.  That is all that is known here of a double,
and it is enough to tell that it is beyond 32 bits.

## What is here

* `Number.AtLeast` — a double is at least a power of two, and may be infinite.
* `Number.AtLeast.mul`, `Number.atLeast_ofNat` and `Number.atLeast_powerOfTen` — products, and the
  numbers that are scaled.
* `Number.AtLeast.le_toUInt64` and `Number.AtLeast.toUInt64_neg` — the whole number that such a
  double is cut down to, and that its negative is cut down to.
-/

set_option autoImplicit false
namespace BlockScript.Number

open Float.Model Float.Model.UnpackedFloat

/-! ## Leading bits -/

/-- A double that has been taken apart is positive and its leading bit stands for at least `2 ^ p`,
or it is infinite. -/
def Reaches (p : Nat) : UnpackedFloat → Prop
  | .infinity .positive => True
  | .finite .positive mantissa exponent _ =>
    2 ^ 52 ≤ mantissa ∧ mantissa < 2 ^ 53 ∧ (p : Int) ≤ exponent + 52
  | _ => False

instance (p : Nat) (f : UnpackedFloat) : Decidable (Reaches p f) :=
  match f with
  | .infinity .positive => inferInstanceAs (Decidable True)
  | .finite .positive _ _ _ => inferInstanceAs (Decidable (_ ∧ _))
  | .infinity .negative | .finite .negative _ _ _ | .notANumber | .zero _ =>
    inferInstanceAs (Decidable False)

/-- A double is at least `2 ^ p`; it may be infinite. -/
def AtLeast (p : Nat) (x : Float) : Prop := Reaches p x.toModel.unpack

instance (p : Nat) (x : Float) : Decidable (AtLeast p x) :=
  inferInstanceAs (Decidable (Reaches p _))

theorem Reaches.eq_infinity_or_finite {p : Nat} {f : UnpackedFloat} (h : Reaches p f) :
    f = .infinity .positive ∨ ∃ mantissa exponent hpos,
      f = .finite .positive mantissa exponent hpos ∧ 2 ^ 52 ≤ mantissa ∧ mantissa < 2 ^ 53
        ∧ (p : Int) ≤ exponent + 52 := by
  cases f with
  | infinity sign =>
    cases sign with
    | positive => exact .inl rfl
    | negative => exact h.elim
  | finite sign mantissa exponent hpos =>
    cases sign with
    | positive => exact .inr ⟨mantissa, exponent, hpos, rfl, h⟩
    | negative => exact h.elim
  | notANumber => exact h.elim
  | zero sign => exact h.elim

/-! ## Rounding -/

theorem mantissa_shiftRight (m : ExtendedMantissa) (k : Nat) :
    (m >>> k).mantissa = m.mantissa / 2 ^ k := by
  induction k with
  | zero => exact (Nat.div_one _).symm
  | succ k ih =>
    have hstep : (m >>> (k + 1)).mantissa = (m >>> k).mantissa / 2 := rfl
    rw [hstep, ih, Nat.div_div_eq_div_mul, Nat.pow_succ]

theorem le_roundedMantissa (m : ExtendedMantissa) : m.mantissa ≤ m.roundedMantissa := by
  obtain ⟨mantissa, round, sticky⟩ := m
  cases round <;> cases sticky
  · exact Nat.le_refl _
  · exact Nat.le_refl _
  · exact Nat.le_add_right _ _
  · exact Nat.le_add_right _ _

/-- The leading 53 bits of a number that has at least as many. -/
theorem leading_bits {m : Nat} (hm : 2 ^ 52 ≤ m) :
    2 ^ 52 ≤ m / 2 ^ (m.log2 - 52) ∧ m / 2 ^ (m.log2 - 52) < 2 ^ 53 := by
  have hne : m ≠ 0 := by omega
  have hlog : 52 ≤ m.log2 := (Nat.le_log2 hne).2 hm
  have hpos : 0 < 2 ^ (m.log2 - 52) := Nat.two_pow_pos _
  constructor
  · rw [Nat.le_div_iff_mul_le hpos, ← Nat.pow_add, Nat.add_sub_cancel' hlog]
    exact Nat.log2_self_le hne
  · rw [Nat.div_lt_iff_lt_mul hpos, ← Nat.pow_add]
    calc m < 2 ^ (m.log2 + 1) := Nat.lt_log2_self
      _ = 2 ^ (53 + (m.log2 - 52)) := by rw [show m.log2 + 1 = 53 + (m.log2 - 52) by omega]

/-- A number that is not small is shifted so that its leading 53 bits are left. -/
theorem shiftToTargetExponent_eq {m : Nat} (hm : 2 ^ 52 ≤ m) {e : Int} (he : 0 ≤ m.log2 + e) :
    shiftToTargetExponent .binary64 m e .exact
      = (ExtendedMantissa.mk m false false >>> (m.log2 - 52), e + (m.log2 - 52 : Nat)) := by
  have hlog : 52 ≤ m.log2 := (Nat.le_log2 (by omega)).2 hm
  have htarget : Format.binary64.targetExponent (totalExponent m e) = e + (m.log2 - 52 : Nat) := by
    rw [Format.targetExponent, totalExponent]
    have hbits : (Format.binary64.mantissaBits : Int) = 53 := rfl
    have hleast : Format.binary64.minExponent = -1074 := rfl
    omega
  have hshift : (e + (m.log2 - 52 : Nat) - e).toNat = m.log2 - 52 := by omega
  unfold shiftToTargetExponent
  rw [htarget, shiftToExponent, hshift]
  rfl

/-- **Rounding keeps the leading bit of a number**, or moves it up by one place. -/
theorem reaches_roundWithAccuracy {p m : Nat} {e : Int} (hm : 2 ^ 52 ≤ m)
    (hp : (p : Int) ≤ m.log2 + e) :
    Reaches p (roundWithAccuracy .binary64 .positive m e .exact) := by
  have hlog : 52 ≤ m.log2 := (Nat.le_log2 (by omega)).2 hm
  -- The first shift leaves 53 bits, and rounding them may carry into a bit more.
  have hfirst : 2 ^ 52 ≤ (ExtendedMantissa.mk m false false >>> (m.log2 - 52)).roundedMantissa := by
    refine Nat.le_trans ?_ (le_roundedMantissa _)
    rw [mantissa_shiftRight]
    exact (leading_bits hm).1
  rw [roundWithAccuracy, shiftToTargetExponent_eq hm (by omega)]
  simp only
  generalize (ExtendedMantissa.mk m false false >>> (m.log2 - 52)).roundedMantissa = r
    at hfirst ⊢
  -- The second shift drops that bit again.
  have hlog' : 52 ≤ r.log2 := (Nat.le_log2 (by omega)).2 hfirst
  rw [shiftToTargetExponent_eq hfirst (by omega)]
  simp only [mantissa_shiftRight]
  have hbits := leading_bits hfirst
  rw [dif_neg (by omega)]
  exact ⟨hbits.1, hbits.2, by omega⟩

/-! ## Packing -/

/-- A number with 53 bits that is at least one is packed as it is, or it is too large. -/
theorem unpack_pack {sign : Sign} {m : Nat} {e : Int} (hpos : 0 < m) (hlow : 2 ^ 52 ≤ m)
    (hhigh : m < 2 ^ 53) (he : -52 ≤ e) :
    (Float.Model.pack (.finite sign m e hpos)).unpack = .infinity sign
      ∨ (Float.Model.pack (.finite sign m e hpos)).unpack = .finite sign m e hpos := by
  have hlog : m.log2 + 1 = Format.binary64.mantissaBits := by
    have hbits : Format.binary64.mantissaBits = 53 := rfl
    have := (Nat.le_log2 (by omega)).2 hlow
    have := (Nat.log2_lt (by omega)).2 hhigh
    omega
  have hbias : (Format.binary64.exponentBias : Int) = 1023 := rfl
  have hbits : (Format.binary64.mantissaBitsWithoutImplicit : Int) = 52 := rfl
  have hbiased : (e + Format.binary64.exponentBias
      + Format.binary64.mantissaBitsWithoutImplicit).toNat = (e + 1075).toNat := by
    omega
  rw [Float.Model.unpack, Float.Model.pack, UInt64.toBitVec_ofBitVec, UnpackedFloat.pack]
  simp only [hbiased, if_pos hlog]
  split
  case isTrue => exact .inl (by cases sign <;> rfl)
  case isFalse hfits =>
    right
    have hfits : (e + 1075).toNat + 1 < 2 ^ 11 := Nat.not_le.1 hfits
    have hexponent : (BitVec.ofNat 11 (e + 1075).toNat).toNat = (e + 1075).toNat := by
      rw [BitVec.toNat_ofNat, Nat.mod_eq_of_lt (by omega)]
    -- The exponent is neither of the two that stand for something else.
    have hfull : BitVec.ofNat 11 (e + 1075).toNat ≠ -1#11 := by
      rw [ne_eq, ← BitVec.toNat_inj, hexponent]
      simp
      omega
    have hzero : BitVec.ofNat 11 (e + 1075).toNat ≠ 0#11 := by
      rw [ne_eq, ← BitVec.toNat_inj, hexponent]
      simp
      omega
    -- The leading bit that is left out comes back.
    have hmantissa : (1#1 ++ BitVec.ofNat 52 m).toNat = m := by
      rw [BitVec.toNat_append, ← Nat.shiftLeft_add_eq_or_of_lt (BitVec.ofNat 52 m).isLt,
        BitVec.toNat_ofNat, Nat.shiftLeft_eq]
      simp
      omega
    rw [UnpackedFloat.unpack]
    simp only [unpackMantissa_packComponents, unpackExponent_packComponents,
      unpackSign_packComponents, Sign.ofBitVec_toBitVec, if_neg hfull, if_neg hzero, hmantissa,
      hexponent]
    congr 1
    omega

theorem Reaches.unpack_pack {p : Nat} {f : UnpackedFloat} (h : Reaches p f) :
    Reaches p (Float.Model.pack f).unpack := by
  rcases h.eq_infinity_or_finite with rfl | ⟨mantissa, exponent, hpos, rfl, hlow, hhigh, hexponent⟩
  · have heq : (Float.Model.pack (.infinity .positive)).unpack = .infinity .positive := rfl
    rw [heq]
    trivial
  · have hle : -52 ≤ exponent := by omega
    rcases Number.unpack_pack hpos hlow hhigh hle with heq | heq
    · rw [heq]
      trivial
    · rw [heq]
      exact ⟨hlow, hhigh, hexponent⟩

/-! ## Numbers that are scaled -/

section Products

variable {p q : Nat}

theorem Reaches.mul {f g : UnpackedFloat} (hf : Reaches p f) (hg : Reaches q g) :
    Reaches (p + q) (UnpackedFloat.mul .binary64 f g) := by
  rcases hf.eq_infinity_or_finite with rfl | ⟨m, e, hpos, rfl, hlow, -, hle⟩
  · rcases hg.eq_infinity_or_finite with rfl | ⟨m', e', hpos', rfl, -⟩ <;> trivial
  · rcases hg.eq_infinity_or_finite with rfl | ⟨m', e', hpos', rfl, hlow', -, hle'⟩
    · trivial
    · have hproduct : 2 ^ 104 ≤ m * m' :=
        calc 2 ^ 104 = 2 ^ 52 * 2 ^ 52 := by decide
          _ ≤ m * m' := Nat.mul_le_mul hlow hlow'
      have hlog : 104 ≤ (m * m').log2 := (Nat.le_log2 (by omega)).2 hproduct
      exact reaches_roundWithAccuracy (by omega) (by omega)

/-- **A product is at least the product of what its factors are.** -/
theorem AtLeast.mul {x y : Float} (hx : AtLeast p x) (hy : AtLeast q y) :
    AtLeast (p + q) (x * y) :=
  (Reaches.mul hx hy).unpack_pack

theorem reaches_ofScientific {m exponent : Nat} (hm : 2 ^ p ≤ m) (hexponent : exponent ≤ 2048) :
    Reaches p (UnpackedFloat.ofScientific .binary64 m exponent) := by
  have hpos := Nat.two_pow_pos p
  have hlimit : (2 : Int) ^ Format.binary64.exponentBits = 2048 := rfl
  have hbits : Format.binary64.mantissaBits = 53 := rfl
  rw [UnpackedFloat.ofScientific, dif_neg (by omega), if_neg (by omega), if_neg (by omega),
    if_pos (by omega)]
  have hpower : 0 < 10 ^ (exponent : Int).toNat := Nat.pow_pos (by decide)
  have hproduct : 2 ^ (p + 53) ≤ m <<< 53 * 10 ^ (exponent : Int).toNat := by
    rw [Nat.shiftLeft_eq, Nat.pow_add]
    exact Nat.le_trans (Nat.mul_le_mul_right _ hm) (Nat.le_mul_of_pos_right _ hpower)
  have hne : m <<< 53 * 10 ^ (exponent : Int).toNat ≠ 0 :=
    Nat.ne_of_gt (Nat.lt_of_lt_of_le (Nat.two_pow_pos _) hproduct)
  have hlog := (Nat.le_log2 hne).2 hproduct
  refine reaches_roundWithAccuracy ?_ ?_
  · exact Nat.le_trans (Nat.pow_le_pow_right (by decide) (by omega)) hproduct
  · simp only [hbits]
    omega

/-- **A whole number of more than 53 bits is turned into a double that is as large.** -/
theorem atLeast_ofNat {n : Nat} (hp : 53 ≤ p) (hn : 2 ^ p ≤ n) : AtLeast p (Float.ofNat n) := by
  have hlarge : 2 ^ 53 ≤ n := Nat.le_trans (Nat.pow_le_pow_right (by decide) hp) hn
  have heq : Float.ofNat n = Float.ofModel (Float.Model.ofScientific n 0) :=
    dif_neg (by omega)
  rw [heq]
  exact (reaches_ofScientific hn (by decide)).unpack_pack

/-- **A power of ten is at least one.** -/
theorem atLeast_powerOfTen {exponent : Nat} (h : exponent ≤ 2048) :
    AtLeast 0 (powerOfTen exponent) := by
  by_cases hsmall : exponent < 23
  · -- The small powers are kept in a table.
    have htable : ∀ k < 23, AtLeast 0 (powerOfTen k) := by decide +kernel
    exact htable exponent hsmall
  · have heq : powerOfTen exponent = Float.ofModel (Float.Model.ofScientific 1 exponent) :=
      dif_neg (by omega)
    rw [heq]
    exact (reaches_ofScientific (Nat.le_refl _) h).unpack_pack

theorem AtLeast.ne_zero {x : Float} (h : AtLeast p x) : (x == 0) = false := by
  have hzero : (0 : Float).toModel.unpack = .zero .positive := by rfl
  have heq : (x == 0) = x.toModel.unpack.beq (0 : Float).toModel.unpack := rfl
  rw [heq, hzero]
  rcases Reaches.eq_infinity_or_finite h with hx | ⟨m, e, hpos, hx, -⟩ <;> rw [hx] <;> rfl

end Products

/-! ## Whole numbers again -/

section Cut

variable {p : Nat} {x : Float}

/-- The bits below the point are dropped. -/
theorem roundToInt_eq (sign : Sign) (m : Nat) (e : Int) :
    roundToInt sign m e = sign.apply (m <<< e.toNat / 2 ^ (-e).toNat : Nat) := by
  have hleft : (e - 0).toNat = e.toNat := by omega
  have hright : (0 - (e - e.toNat)).toNat = (-e).toNat := by omega
  rw [roundToInt, decreaseExponent, hleft]
  simp only [shiftToExponent, mantissa_shiftRight, hright]
  rfl

theorem toNat_toUInt64 (x : Float) :
    x.toUInt64.toNat = min (x.toModel.unpack.toInt 0 (2 ^ 64 - 1)).toNat (2 ^ 64 - 1) := by
  have heq : x.toUInt64 = UInt64.ofNatClamp (x.toModel.unpack.toInt 0 (2 ^ 64 - 1)).toNat := rfl
  have hsize : UInt64.size = 2 ^ 64 := rfl
  rw [heq]
  by_cases hfits : (x.toModel.unpack.toInt 0 (2 ^ 64 - 1)).toNat < UInt64.size
  · rw [UInt64.toNat_ofNatClamp_of_lt hfits]
    omega
  · rw [UInt64.toNat_ofNatClamp_of_le (Nat.not_lt.1 hfits)]
    omega

/-- **The whole number that a large double is cut down to is as large**, or it is the largest
one. -/
theorem AtLeast.le_toUInt64 (h : AtLeast p x) (hp : p < 64) : 2 ^ p ≤ x.toUInt64.toNat := by
  have hmax : 2 ^ p ≤ 2 ^ 64 - 1 :=
    Nat.le_sub_one_of_lt (Nat.pow_lt_pow_right (by decide) hp)
  rw [toNat_toUInt64, Nat.le_min]
  refine ⟨?_, hmax⟩
  rcases Reaches.eq_infinity_or_finite h with hx | ⟨m, e, hpos, hx, hlow, -, hle⟩
  · rw [hx]
    exact hmax
  · have hcut : 2 ^ p ≤ m <<< e.toNat / 2 ^ (-e).toNat := by
      rw [Nat.le_div_iff_mul_le (Nat.two_pow_pos _), ← Nat.pow_add, Nat.shiftLeft_eq]
      calc 2 ^ (p + (-e).toNat) ≤ 2 ^ (52 + e.toNat) := Nat.pow_le_pow_right (by decide) (by omega)
        _ ≤ m * 2 ^ e.toNat := by rw [Nat.pow_add]; exact Nat.mul_le_mul_right _ hlow
    rw [hx, UnpackedFloat.toInt, roundToInt_eq]
    exact hcut

/-- **The negative of a positive double is cut down to zero.** -/
theorem AtLeast.toUInt64_neg (h : AtLeast p x) : (-x).toUInt64.toNat = 0 := by
  have hneg : (-x).toModel.unpack = (Float.Model.pack x.toModel.unpack.neg).unpack := rfl
  have hcut : ((-x).toModel.unpack.toInt 0 (2 ^ 64 - 1)).toNat = 0 := by
    rw [hneg]
    rcases Reaches.eq_infinity_or_finite h with hx | ⟨m, e, hpos, hx, hlow, hhigh, hle⟩
    · rw [hx]
      rfl
    · have hpack : (UnpackedFloat.finite .positive m e hpos).neg = .finite .negative m e hpos := rfl
      rw [hx, hpack]
      have hle : -52 ≤ e := by omega
      rcases unpack_pack hpos hlow hhigh hle with heq | heq
      · rw [heq]
        rfl
      · rw [heq, UnpackedFloat.toInt, roundToInt_eq]
        exact Int.toNat_neg_natCast _
  rw [toNat_toUInt64, hcut]
  rfl

end Cut

end BlockScript.Number
