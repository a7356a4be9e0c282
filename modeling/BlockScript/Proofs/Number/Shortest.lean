import BlockScript.Number.Shortest
import Mathlib.Algebra.Order.Field.Basic
import Mathlib.Data.Rat.Cast.Order
import Mathlib.Tactic.FieldSimp
import Mathlib.Tactic.Linarith
import Mathlib.Tactic.Positivity
import Mathlib.Tactic.Ring

/-!
# The search for the shortest decimal ends

The search looks at grids that are finer and finer, and it has seventeen tries.  The seventeenth
grid is so fine that one of the two neighbours of a double on it is nearer to that double than to
any other, so a decimal is always found, and it has at most seventeen digits or is a power of ten.

## What is here

* `Number.Decimal.toRat` and `Number.Reach.Holds` — decimals and reaches as rational numbers.
* `Number.leadingPower_spec` — the power of ten of the first digit.
* `Number.holds_shortest` — the shortest decimal stands for the double.
* `Number.shortest_digits_le`, `Number.shortest_exponent` — how many digits it has, and where its
  point is.
-/

set_option autoImplicit false
namespace BlockScript.Number

/-- The number that a decimal is. -/
def Decimal.toRat (decimal : Decimal) : ℚ := decimal.digits * 10 ^ decimal.exponent

/-! ## Powers of ten -/

theorem digitCount_pos (n : ℕ) : 0 < digitCount n := Nat.length_toDigits_pos

theorem digitCount_le_iff {n k : ℕ} (hk : 0 < k) : digitCount n ≤ k ↔ n < 10 ^ k :=
  Nat.length_toDigits_le_iff (by decide) hk

theorem lt_pow_digitCount (n : ℕ) : n < 10 ^ digitCount n :=
  (digitCount_le_iff (digitCount_pos n)).1 (Nat.le_refl _)

theorem pow_digitCount_le {n : ℕ} (h : 0 < n) : 10 ^ digitCount n ≤ n * 10 := by
  obtain ⟨k, hk⟩ := Nat.exists_eq_succ_of_ne_zero (Nat.ne_of_gt (digitCount_pos n))
  rcases Nat.eq_zero_or_pos k with rfl | hpos
  · rw [hk]
    omega
  · have hlarge : 10 ^ k ≤ n := by
      rw [← not_lt, ← digitCount_le_iff hpos, hk]
      omega
    rw [hk, Nat.pow_succ]
    omega

theorem ten_zpow_eq_div (e : ℤ) : (10 : ℚ) ^ e = 10 ^ e.toNat / 10 ^ (-e).toNat := by
  rcases Int.le_total 0 e with h | h
  · rw [Int.toNat_of_nonpos (by omega : -e ≤ 0), pow_zero, div_one, ← zpow_natCast,
      Int.toNat_of_nonneg h]
  · rw [Int.toNat_of_nonpos h, pow_zero, ← zpow_natCast, Int.toNat_of_nonneg (by omega), one_div,
      ← zpow_neg, neg_neg]

theorem ten_zpow_pos (e : ℤ) : (0 : ℚ) < 10 ^ e := zpow_pos (by norm_num) e

/-- A comparison of whole numbers, with a power of ten on one side or on the other. -/
theorem mul_pow_le_iff {num den : ℕ} (hden : 0 < den) (e : ℤ) :
    den * Nat.pow 10 e.toNat ≤ num * Nat.pow 10 (-e).toNat ↔ (10 : ℚ) ^ e ≤ num / den := by
  have hden' : (0 : ℚ) < den := by exact_mod_cast hden
  have hpow : (0 : ℚ) < 10 ^ (-e).toNat := by positivity
  rw [ten_zpow_eq_div, div_le_div_iff₀ hpow hden', mul_comm]
  simp only [Nat.pow_eq]
  exact_mod_cast Iff.rfl

/-- The numbers of digits give the power of ten of a quotient, up to one. -/
theorem digitCount_sub_bounds {num den : ℕ} (hnum : 0 < num) (hden : 0 < den) :
    (10 : ℚ) ^ ((digitCount num : ℤ) - digitCount den - 1) ≤ num / den ∧
      (num / den : ℚ) < 10 ^ ((digitCount num : ℤ) - digitCount den + 1) := by
  have hden' : (0 : ℚ) < den := by exact_mod_cast hden
  have hpow : (0 : ℚ) < 10 ^ digitCount den := by positivity
  have hguess : (10 : ℚ) ^ ((digitCount num : ℤ) - digitCount den)
      = 10 ^ digitCount num / 10 ^ digitCount den := by
    rw [zpow_sub₀ (by norm_num), zpow_natCast, zpow_natCast]
  have hnumLow : (10 : ℚ) ^ digitCount num ≤ num * 10 := by exact_mod_cast pow_digitCount_le hnum
  have hnumHigh : (num : ℚ) < 10 ^ digitCount num := by exact_mod_cast lt_pow_digitCount num
  have hdenLow : (10 : ℚ) ^ digitCount den ≤ den * 10 := by exact_mod_cast pow_digitCount_le hden
  have hdenHigh : (den : ℚ) ≤ 10 ^ digitCount den := by
    exact_mod_cast Nat.le_of_lt (lt_pow_digitCount den)
  constructor
  · rw [zpow_sub_one₀ (by norm_num), hguess, ← div_eq_mul_inv, div_div,
      div_le_div_iff₀ (by positivity) hden']
    calc (10 : ℚ) ^ digitCount num * den
        ≤ num * 10 * 10 ^ digitCount den := mul_le_mul hnumLow hdenHigh hden'.le (by positivity)
      _ = num * (10 ^ digitCount den * 10) := by ring
  · rw [zpow_add_one₀ (by norm_num), hguess, div_mul_eq_mul_div,
      div_lt_div_iff₀ hden' hpow]
    calc (num : ℚ) * 10 ^ digitCount den
        < 10 ^ digitCount num * 10 ^ digitCount den := mul_lt_mul_of_pos_right hnumHigh hpow
      _ ≤ 10 ^ digitCount num * (den * 10) := mul_le_mul_of_nonneg_left hdenLow (by positivity)
      _ = 10 ^ digitCount num * 10 * den := by ring

/-- **The leading power is the power of ten of the first digit.** -/
theorem leadingPower_spec {num den : ℕ} (hnum : 0 < num) (hden : 0 < den) :
    (10 : ℚ) ^ leadingPower num den ≤ num / den ∧
      (num / den : ℚ) < 10 ^ (leadingPower num den + 1) := by
  obtain ⟨hbelow, habove⟩ := digitCount_sub_bounds hnum hden
  rw [leadingPower]
  split
  · next h => exact ⟨(mul_pow_le_iff hden _).1 h, habove⟩
  · next h =>
    rw [sub_add_cancel]
    exact ⟨hbelow, not_le.1 (mt (mul_pow_le_iff hden _).2 h)⟩

/-! ## Grids -/

/-- A number is in a reach. -/
def Reach.Holds (reach : Reach) (x : ℚ) : Prop :=
  if reach.closed then reach.low ≤ x * reach.denominator ∧ x * reach.denominator ≤ reach.high
  else reach.low < x * reach.denominator ∧ x * reach.denominator < reach.high

/-- The number that a reach is around. -/
def Reach.middle (reach : Reach) : ℚ := reach.value / reach.denominator

theorem Reach.Holds.of_lt {reach : Reach} {x : ℚ} (hlow : reach.low < x * reach.denominator)
    (hhigh : x * reach.denominator < reach.high) : reach.Holds x := by
  rw [Holds]
  split
  · exact ⟨hlow.le, hhigh.le⟩
  · exact ⟨hlow, hhigh⟩

theorem Reach.Holds.le {reach : Reach} {x : ℚ} (h : reach.Holds x) :
    reach.low ≤ x * reach.denominator := by
  rw [Holds] at h
  split at h
  · exact h.1
  · exact h.1.le

section Grids

variable {reach : Reach} {e : ℤ} (hden : 0 < reach.denominator)

/-- A point of a grid, over the denominator of a reach. -/
theorem grid_mul_denominator (digits : ℕ) :
    (digits * 10 ^ e : ℚ) * reach.denominator
      = digits * (reach.denominator * 10 ^ e.toNat) / 10 ^ (-e).toNat := by
  rw [ten_zpow_eq_div]
  ring

theorem holds_iff {digits : ℕ} :
    reach.holds (digits * (reach.denominator * Nat.pow 10 e.toNat)) (Nat.pow 10 (-e).toNat) = true
      ↔ reach.Holds (digits * 10 ^ e) := by
  have hpow : (0 : ℚ) < 10 ^ (-e).toNat := by positivity
  rw [Reach.holds, Reach.Holds, grid_mul_denominator]
  simp only [Nat.pow_eq]
  split
  · rw [le_div_iff₀ hpow, div_le_iff₀ hpow, Bool.and_eq_true, decide_eq_true_eq,
      decide_eq_true_eq]
    exact_mod_cast Iff.rfl
  · rw [lt_div_iff₀ hpow, div_lt_iff₀ hpow, Bool.and_eq_true, decide_eq_true_eq,
      decide_eq_true_eq]
    exact_mod_cast Iff.rfl

/-- The largest multiple of a power of ten that is not above the middle of a reach. -/
def below (reach : Reach) (e : ℤ) : ℕ :=
  reach.value * Nat.pow 10 (-e).toNat / (reach.denominator * Nat.pow 10 e.toNat)

include hden

theorem below_le : (below reach e * 10 ^ e : ℚ) ≤ reach.middle := by
  have hden' : (0 : ℚ) < reach.denominator := by exact_mod_cast hden
  have hpow : (0 : ℚ) < 10 ^ (-e).toNat := by positivity
  rw [Reach.middle, le_div_iff₀ hden', grid_mul_denominator, div_le_iff₀ hpow, below]
  simp only [Nat.pow_eq]
  exact_mod_cast Nat.div_mul_le_self _ _

theorem lt_below_add_one : reach.middle < ((below reach e + 1 : ℕ) * 10 ^ e : ℚ) := by
  have hden' : (0 : ℚ) < reach.denominator := by exact_mod_cast hden
  have hpow : (0 : ℚ) < 10 ^ (-e).toNat := by positivity
  rw [Reach.middle, div_lt_iff₀ hden', grid_mul_denominator, lt_div_iff₀ hpow, below]
  simp only [Nat.pow_eq]
  exact_mod_cast Nat.lt_mul_of_div_lt (Nat.lt_succ_self _) (by positivity)

omit hden in
theorem roundDiv_cases (num den : ℕ) :
    roundDiv num den = num / den ∨ roundDiv num den = num / den + 1 := by
  rw [roundDiv]
  split_ifs
  · exact .inl rfl
  · exact .inr rfl
  · exact .inl rfl
  · exact .inr rfl

omit hden in
/-- What is found on a grid is one of the two neighbours of the number, and it is in the reach. -/
theorem onGrid?_cases {found : ℕ} (h : onGrid? reach e = some found) :
    (found = below reach e ∨ found = below reach e + 1) ∧ reach.Holds (found * 10 ^ e) := by
  rw [← holds_iff]
  rw [onGrid?] at h
  split_ifs at h with hboth hbelow habove
  · rw [Bool.and_eq_true] at hboth
    cases h
    rcases roundDiv_cases (reach.value * Nat.pow 10 (-e).toNat)
      (reach.denominator * Nat.pow 10 e.toNat) with hround | hround
    · rw [hround]
      exact ⟨.inl rfl, hboth.1⟩
    · rw [hround]
      exact ⟨.inr rfl, hboth.2⟩
  · cases h
    exact ⟨.inl rfl, hbelow⟩
  · cases h
    exact ⟨.inr rfl, habove⟩

/-- What is found on a grid is less than a step above the number. -/
theorem onGrid?_le {found : ℕ} (h : onGrid? reach e = some found) :
    (found * 10 ^ e : ℚ) ≤ reach.middle + 10 ^ e := by
  have hbelow := below_le hden (e := e)
  have hstep := ten_zpow_pos e
  rcases (onGrid?_cases h).1 with rfl | rfl
  · linarith
  · push_cast
    linarith

/-- **A grid that is finer than a reach has a decimal in it.** -/
theorem onGrid?_ne_none (hlow : reach.low < reach.value) (hhigh : reach.value < reach.high)
    (hfine : (10 : ℚ) ^ e * reach.denominator < reach.high - reach.low) :
    onGrid? reach e ≠ none := by
  intro h
  have hden' : (0 : ℚ) < reach.denominator := by exact_mod_cast hden
  have hlow' : (reach.low : ℚ) < reach.value := by exact_mod_cast hlow
  have hhigh' : (reach.value : ℚ) < reach.high := by exact_mod_cast hhigh
  have hmiddle : reach.middle * reach.denominator = reach.value :=
    div_mul_cancel₀ _ (ne_of_gt hden')
  have hbelow := mul_le_mul_of_nonneg_right (below_le hden (e := e)) hden'.le
  have habove := mul_lt_mul_of_pos_right (lt_below_add_one hden (e := e)) hden'
  rw [hmiddle] at hbelow habove
  have hnot : ¬ reach.Holds (below reach e * 10 ^ e)
      ∧ ¬ reach.Holds ((below reach e + 1 : ℕ) * 10 ^ e) := by
    rw [← holds_iff, ← holds_iff]
    rw [onGrid?] at h
    split_ifs at h with hboth hbelow habove
    exact ⟨hbelow, habove⟩
  -- the neighbour below is too low, and then the one above is near enough
  have htoo : below reach e * 10 ^ e * (reach.denominator : ℚ) ≤ reach.low := by
    by_contra hnear
    exact hnot.1 (.of_lt (not_le.1 hnear) (lt_of_le_of_lt hbelow hhigh'))
  refine hnot.2 (.of_lt (hlow'.trans habove) ?_)
  push_cast
  linarith

end Grids

/-! ## The search -/

/-- What is found on a grid, without a last zero. -/
def trimmed (found : ℕ) (e : ℤ) : Decimal :=
  if found % 10 = 0 then ⟨found / 10, e + 1⟩ else ⟨found, e⟩

theorem toRat_trimmed (found : ℕ) (e : ℤ) : (trimmed found e).toRat = found * 10 ^ e := by
  rw [trimmed]
  split
  · next h =>
    obtain ⟨tens, rfl⟩ := Nat.dvd_of_mod_eq_zero h
    rw [Decimal.toRat, Nat.mul_div_cancel_left _ (by decide), zpow_add_one₀ (by norm_num)]
    push_cast
    ring
  · rfl

/-- The search gives what is found on the first grid that has a decimal, if there is one. -/
theorem searchGrids_spec {reach : Reach} {first : ℤ} {digits tries : ℕ} {k : ℕ} (hfrom : digits ≤ k)
    (hto : k < digits + tries) (hgrid : onGrid? reach (first - k + 1) ≠ none) :
    ∃ j found, digits ≤ j ∧ j ≤ k ∧ onGrid? reach (first - j + 1) = some found ∧
      searchGrids reach first digits tries = trimmed found (first - j + 1) := by
  induction tries generalizing digits with
  | zero => omega
  | succ tries ih =>
    rw [searchGrids]
    cases hhere : onGrid? reach (first - digits + 1) with
    | some found => exact ⟨digits, found, Nat.le_refl _, hfrom, hhere, rfl⟩
    | none =>
      have hne : digits ≠ k := by
        rintro rfl
        exact hgrid hhere
      obtain ⟨j, found, hj, hjk, hfound, hsearch⟩ := ih (by omega : digits + 1 ≤ k) (by omega)
      exact ⟨j, found, by omega, hjk, hfound, hsearch⟩

/-! ## Doubles -/

section Doubles

variable {mantissa : ℕ} {exponent : ℤ} (hpos : 0 < mantissa)

theorem denominator_pos (mantissa : ℕ) (exponent : ℤ) :
    0 < (Reach.ofScaled mantissa exponent).denominator := Nat.pow_pos (by decide)

include hpos

theorem low_lt_value :
    (Reach.ofScaled mantissa exponent).low < (Reach.ofScaled mantissa exponent).value := by
  refine Nat.mul_lt_mul_of_pos_right ?_ (Nat.pow_pos (by decide))
  split_ifs <;> omega

omit hpos in
theorem value_lt_high :
    (Reach.ofScaled mantissa exponent).value < (Reach.ofScaled mantissa exponent).high :=
  Nat.mul_lt_mul_of_pos_right (by omega) (Nat.pow_pos (by decide))

theorem value_pos : 0 < (Reach.ofScaled mantissa exponent).value :=
  Nat.lt_of_le_of_lt (Nat.zero_le _) (low_lt_value hpos)

theorem low_pos : 0 < (Reach.ofScaled mantissa exponent).low := by
  refine Nat.mul_pos ?_ (Nat.pow_pos (by decide))
  split_ifs <;> omega

/-- A reach is longer than the `10 ^ 16`-th part of its middle: half a step on each side for a
mantissa below `2 ^ 53`, and three quarters of a step in all for the mantissa `2 ^ 52`. -/
theorem value_lt_length (hsmall : mantissa < 2 ^ 53) :
    (Reach.ofScaled mantissa exponent).value
      < 10 ^ 16 * ((Reach.ofScaled mantissa exponent).high
        - (Reach.ofScaled mantissa exponent).low) := by
  have hunit : 0 < Nat.pow 2 (exponent - 2).toNat := Nat.pow_pos (by decide)
  simp only [Reach.ofScaled, ← Nat.sub_mul, ← Nat.mul_assoc]
  refine Nat.mul_lt_mul_of_pos_right ?_ hunit
  split_ifs with hpower
  · rw [hpower.1]
    decide
  · omega

/-- The power of ten of the first digit of a double. -/
def firstPower (mantissa : ℕ) (exponent : ℤ) : ℤ :=
  leadingPower (Reach.ofScaled mantissa exponent).value
    (Reach.ofScaled mantissa exponent).denominator

theorem firstPower_spec (exponent : ℤ) :
    (10 : ℚ) ^ firstPower mantissa exponent ≤ (Reach.ofScaled mantissa exponent).middle ∧
      (Reach.ofScaled mantissa exponent).middle < 10 ^ (firstPower mantissa exponent + 1) :=
  leadingPower_spec (value_pos hpos) (denominator_pos mantissa exponent)

/-- The seventeenth grid has a decimal for every double. -/
theorem onGrid?_seventeen (hsmall : mantissa < 2 ^ 53) :
    onGrid? (Reach.ofScaled mantissa exponent) (firstPower mantissa exponent - (17 : ℕ) + 1)
      ≠ none := by
  have hden : (0 : ℚ) < (Reach.ofScaled mantissa exponent).denominator := by
    exact_mod_cast denominator_pos mantissa exponent
  have hlength : ((Reach.ofScaled mantissa exponent).value : ℚ)
      < 10 ^ 16 * ((Reach.ofScaled mantissa exponent).high
        - (Reach.ofScaled mantissa exponent).low) := by
    have hle : (Reach.ofScaled mantissa exponent).low ≤ (Reach.ofScaled mantissa exponent).high :=
      ((low_lt_value hpos).trans value_lt_high).le
    rw [← Nat.cast_sub hle]
    exact_mod_cast value_lt_length hpos hsmall
  have hfirst := (firstPower_spec hpos exponent).1
  rw [Reach.middle, le_div_iff₀ hden] at hfirst
  have hstep : (10 : ℚ) ^ (firstPower mantissa exponent - (17 : ℕ) + 1)
      = 10 ^ firstPower mantissa exponent / 10 ^ 16 := by
    rw [← zpow_natCast, ← zpow_sub₀ (by norm_num)]
    congr 1
    push_cast
    ring
  refine onGrid?_ne_none (denominator_pos mantissa exponent) (low_lt_value hpos) value_lt_high ?_
  rw [hstep, div_mul_eq_mul_div, div_lt_iff₀ (by norm_num)]
  linarith

/-- The shortest decimal is found on one of the seventeen grids. -/
theorem shortest_found (exponent : ℤ) (hsmall : mantissa < 2 ^ 53) :
    ∃ (j found : ℕ), 1 ≤ j ∧ j ≤ 17 ∧
      onGrid? (Reach.ofScaled mantissa exponent) (firstPower mantissa exponent - j + 1)
        = some found ∧
      shortest mantissa exponent = trimmed found (firstPower mantissa exponent - j + 1) :=
  searchGrids_spec (by decide : 1 ≤ 17) (by decide) (onGrid?_seventeen hpos hsmall)

/-- **The shortest decimal of a double stands for it.** -/
theorem holds_shortest (exponent : ℤ) (hsmall : mantissa < 2 ^ 53) :
    (Reach.ofScaled mantissa exponent).Holds (shortest mantissa exponent).toRat := by
  obtain ⟨j, found, -, -, hfound, hshortest⟩ :=
    shortest_found hpos exponent hsmall
  rw [hshortest, toRat_trimmed]
  exact (onGrid?_cases hfound).2

/-- The shortest decimal of a double has a digit that is not zero. -/
theorem shortest_digits_pos (hsmall : mantissa < 2 ^ 53) :
    0 < (shortest mantissa exponent).digits := by
  have hlow : (0 : ℚ) < (Reach.ofScaled mantissa exponent).low := by
    exact_mod_cast low_pos hpos
  have hholds := (holds_shortest hpos exponent hsmall).le
  rw [Nat.pos_iff_ne_zero]
  intro hzero
  rw [Decimal.toRat, hzero] at hholds
  simp only [Nat.cast_zero, zero_mul] at hholds
  linarith

/-- **The shortest decimal of a double has at most seventeen digits**, or it is the power of ten
that has eighteen. -/
theorem shortest_digits_le (hsmall : mantissa < 2 ^ 53) :
    (shortest mantissa exponent).digits ≤ 10 ^ 17 := by
  obtain ⟨j, found, hj, hj17, hfound, hshortest⟩ :=
    shortest_found hpos exponent hsmall
  have hle := onGrid?_le (denominator_pos mantissa exponent) hfound
  have hlt := (firstPower_spec hpos exponent).2
  have hpow : (10 : ℚ) ^ (firstPower mantissa exponent + 1)
      = 10 ^ j * 10 ^ (firstPower mantissa exponent - j + 1) := by
    rw [← zpow_natCast, ← zpow_add₀ (by norm_num)]
    congr 1
    ring
  have hstep := ten_zpow_pos (firstPower mantissa exponent - j + 1)
  have hfewer : (found : ℚ) < 10 ^ j + 1 := by
    refine lt_of_mul_lt_mul_right ?_ hstep.le
    rw [add_mul, one_mul]
    linarith
  have hnat : found ≤ 10 ^ j := by
    have hcast : found < 10 ^ j + 1 := by exact_mod_cast hfewer
    omega
  have hdigits : (trimmed found (firstPower mantissa exponent - j + 1)).digits ≤ found := by
    rw [trimmed]
    split
    · exact Nat.div_le_self _ _
    · exact Nat.le_refl _
  rw [hshortest]
  exact hdigits.trans (hnat.trans (Nat.pow_le_pow_right (by decide) hj17))

omit hpos in
/-- The first digit of a double is at most 400 places away from the point. -/
theorem firstPower_bounds (hsmall : mantissa < 2 ^ 53)
    (hexponent : -1074 ≤ exponent ∧ exponent ≤ 971) :
    -400 ≤ firstPower mantissa exponent ∧ firstPower mantissa exponent ≤ 400 := by
  have hvalue : digitCount (Reach.ofScaled mantissa exponent).value ≤ 399 := by
    refine (digitCount_le_iff (by decide)).2 ?_
    calc (Reach.ofScaled mantissa exponent).value
        ≤ 4 * 2 ^ 53 * 2 ^ 969 := Nat.mul_le_mul (by omega)
          (Nat.pow_le_pow_right (by decide) (by omega))
      _ < 10 ^ 399 := by decide +kernel
  have hdenominator : digitCount (Reach.ofScaled mantissa exponent).denominator ≤ 399 := by
    refine (digitCount_le_iff (by decide)).2 ?_
    calc (Reach.ofScaled mantissa exponent).denominator
        ≤ 2 ^ 1076 := Nat.pow_le_pow_right (by decide) (by omega)
      _ < 10 ^ 399 := by decide +kernel
  rw [firstPower, leadingPower]
  split_ifs <;> omega

/-- The point of the shortest decimal of a double is at most 420 places away from its last digit. -/
theorem shortest_exponent (hsmall : mantissa < 2 ^ 53)
    (hexponent : -1074 ≤ exponent ∧ exponent ≤ 971) :
    -420 ≤ (shortest mantissa exponent).exponent ∧ (shortest mantissa exponent).exponent ≤ 420 := by
  have hfirst := firstPower_bounds hsmall hexponent
  obtain ⟨j, found, hj, hj17, -, hshortest⟩ := shortest_found hpos exponent hsmall
  rw [hshortest, trimmed]
  split <;> simp only <;> omega

end Doubles

/-! ## What doubles hold -/

/-- A double has a mantissa of at most 53 bits, and exponents from -1074 to 971. -/
theorem parts_bounds {x : Float} {negative : Bool} {mantissa : ℕ} {exponent : ℤ}
    (h : parts x = .finite negative mantissa exponent) :
    mantissa < 2 ^ 53 ∧ -1074 ≤ exponent ∧ exponent ≤ 971 := by
  have hfraction : x.toBits.toNat % Nat.pow 2 52 < 2 ^ 52 := Nat.mod_lt _ (by decide)
  have hbiased : x.toBits.toNat / Nat.pow 2 52 % 2048 < 2048 := Nat.mod_lt _ (by decide)
  rw [parts] at h
  split_ifs at h with hspecial hzero hsubnormal
  · obtain ⟨-, rfl, rfl⟩ := Parts.finite.inj h
    exact ⟨by omega, by omega, by omega⟩
  · obtain ⟨-, rfl, rfl⟩ := Parts.finite.inj h
    simp only [Nat.pow_eq] at *
    exact ⟨by omega, by omega, by omega⟩

end BlockScript.Number
