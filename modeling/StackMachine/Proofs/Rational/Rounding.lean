import Mathlib.Algebra.Order.Field.Power
import Mathlib.Data.Rat.Cast.Order
import Mathlib.Order.Compare
import Mathlib.Tactic.FieldSimp
import Mathlib.Tactic.Linarith
import Mathlib.Tactic.Positivity
import Mathlib.Tactic.Ring
import StackMachine.Rational.Arithmetic
/-! What a number with a 64-bit mantissa stands for, when it is the one nearest to
an exact number, and that a packed quotient is. Magnitudes of one binade lie on a
grid; those of higher binades lie on the same grid and those of lower ones below. -/
namespace StackMachine

theorem two_zpow_mul {i j k : ℤ} (h : i + j = k) : (2 : ℚ) ^ i * 2 ^ j = 2 ^ k := by
  rw [← zpow_add₀ two_ne_zero, h]

theorem two_pow_mul {i : ℕ} {j k : ℤ} (h : i + j = k) : (2 : ℚ) ^ i * 2 ^ j = 2 ^ k := by
  rw [← zpow_natCast, two_zpow_mul h]

namespace Magnitude

variable {a b : Magnitude} {x y : ℚ}

def value (a : Magnitude) : ℚ := a.mant * 2 ^ (a.exp - 64)

theorem two_zpow_le_value (a : Magnitude) : (2 : ℚ) ^ (a.exp - 1) ≤ a.value := by
  have hm : (2 : ℚ) ^ 63 ≤ a.mant := by exact_mod_cast a.normal.1
  rw [← two_pow_mul (i := 63) (j := a.exp - 64) (by push_cast; ring), value]
  exact mul_le_mul_of_nonneg_right hm (zpow_nonneg zero_le_two _)

theorem value_lt_two_zpow (a : Magnitude) : a.value < (2 : ℚ) ^ a.exp := by
  have hm : (a.mant : ℚ) < 2 ^ 64 := by exact_mod_cast a.normal.2
  rw [← two_pow_mul (i := 64) (j := a.exp - 64) (by push_cast; ring), value]
  exact mul_lt_mul_of_pos_right hm (zpow_pos two_pos _)

theorem value_pos (a : Magnitude) : 0 < a.value :=
  (zpow_pos two_pos _).trans_le a.two_zpow_le_value

def least (exp : ℤ) : Magnitude := ⟨2 ^ 63, exp, by decide⟩

theorem value_least (exp : ℤ) : (least exp).value = 2 ^ (exp - 1) := by
  have hmant : ((least exp).mant : ℚ) = 2 ^ 63 := by norm_num [least]
  rw [value, hmant]
  exact two_pow_mul (by simp only [least]; omega)

theorem value_lt_of_exp_lt (h : a.exp < b.exp) : a.value < b.value :=
  calc a.value < 2 ^ a.exp := a.value_lt_two_zpow
    _ ≤ 2 ^ (b.exp - 1) := zpow_le_zpow_right₀ one_le_two (by omega)
    _ ≤ b.value := b.two_zpow_le_value

theorem value_lt_iff_of_exp_eq (h : a.exp = b.exp) : a.value < b.value ↔ a.mant < b.mant := by
  rw [value, value, h, mul_lt_mul_iff_left₀ (zpow_pos two_pos _), Nat.cast_lt]

theorem compare_eq_compare_value (a b : Magnitude) : a.compare b = Ord.compare a.value b.value := by
  unfold compare
  rcases lt_trichotomy a.exp b.exp with h | h | h
  · rw [compare_lt_iff_lt.mpr h, compare_lt_iff_lt.mpr (value_lt_of_exp_lt h)]
    rfl
  · rw [compare_eq_iff_eq.mpr h]
    change Ord.compare a.mant b.mant = _
    rcases lt_trichotomy a.mant b.mant with hm | hm | hm
    · rw [compare_lt_iff_lt.mpr hm, compare_lt_iff_lt.mpr ((value_lt_iff_of_exp_eq h).mpr hm)]
    · rw [compare_eq_iff_eq.mpr hm, compare_eq_iff_eq.mpr (by rw [value, value, h, hm])]
    · rw [compare_gt_iff_gt.mpr hm, compare_gt_iff_gt.mpr ((value_lt_iff_of_exp_eq h.symm).mpr hm)]
  · rw [compare_gt_iff_gt.mpr h, compare_gt_iff_gt.mpr (value_lt_of_exp_lt h)]
    rfl

theorem eq_of_value_eq (h : a.value = b.value) : a = b := by
  have hexp : a.exp = b.exp := by
    rcases lt_trichotomy a.exp b.exp with hlt | heq | hlt
    · exact absurd h (value_lt_of_exp_lt hlt).ne
    · exact heq
    · exact absurd h (value_lt_of_exp_lt hlt).ne'
  have hmant : a.mant = b.mant := by
    rcases lt_trichotomy a.mant b.mant with hlt | heq | hlt
    · exact absurd h ((value_lt_iff_of_exp_eq hexp).mpr hlt).ne
    · exact heq
    · exact absurd h ((value_lt_iff_of_exp_eq hexp.symm).mpr hlt).ne'
  cases a
  cases b
  simp only [mk.injEq]
  exact ⟨hmant, hexp⟩

/-- No magnitude is nearer to `x`, and if another one is as near, the mantissa is
even. -/
def Nearest (x : ℚ) (a : Magnitude) : Prop :=
  ∀ b : Magnitude, |x - a.value| ≤ |x - b.value| ∧
    (|x - b.value| = |x - a.value| → b = a ∨ a.mant % 2 = 0)

theorem Nearest.le_of_value_le (h : a.Nearest x) (hb : b.value ≤ x) : b.value ≤ a.value := by
  have hnear := (h b).1
  rw [abs_of_nonneg (sub_nonneg.mpr hb)] at hnear
  linarith [le_abs_self (x - a.value)]

theorem Nearest.value_le_of_le (h : a.Nearest x) (hb : x ≤ b.value) : a.value ≤ b.value := by
  have hnear := (h b).1
  rw [abs_of_nonpos (sub_nonpos.mpr hb)] at hnear
  linarith [neg_abs_le (x - a.value)]

theorem Nearest.value_eq (h : a.Nearest x) (hb : b.value = x) : a.value = x :=
  le_antisymm (hb ▸ h.value_le_of_le hb.ge) (hb ▸ h.le_of_value_le hb.le)

/-- No magnitude is nearest to zero: there is always one of half its size. -/
theorem Nearest.ne_zero (h : a.Nearest x) : x ≠ 0 := by
  rintro rfl
  have hhalf : (⟨a.mant, a.exp - 1, a.normal⟩ : Magnitude).value < a.value :=
    value_lt_of_exp_lt (by simp)
  have hnear := (h ⟨a.mant, a.exp - 1, a.normal⟩).1
  rw [zero_sub, zero_sub, abs_neg, abs_neg, abs_of_pos (value_pos _), abs_of_pos (value_pos _)] at hnear
  linarith

theorem half_le_abs_sub {m n : ℕ} (half : |y - m| ≤ 1 / 2) (h : n ≠ m) : 1 / 2 ≤ |y - n| := by
  have apart : (1 : ℚ) ≤ |(m : ℚ) - n| := by
    have : (m : ℤ) - n ≠ 0 := by omega
    exact_mod_cast Int.one_le_abs this
  have := abs_sub_le (m : ℚ) y n
  rw [abs_sub_comm (m : ℚ) y] at this
  linarith

theorem abs_sub_le_abs_sub {m : ℕ} (half : |y - m| ≤ 1 / 2) (n : ℕ) : |y - m| ≤ |y - n| := by
  by_cases h : n = m
  · rw [h]
  · exact half.trans (half_le_abs_sub half h)

theorem exists_value_eq_of_exp_le {exp : ℤ} (h : exp ≤ b.exp) :
    ∃ n : ℕ, b.value = n * 2 ^ (exp - 64) := by
  refine ⟨b.mant * 2 ^ (b.exp - exp).toNat, ?_⟩
  push_cast
  rw [value, mul_assoc, two_pow_mul (k := b.exp - 64) (by omega)]

/-- On the grid of a binade, the nearest point is the nearest magnitude. -/
theorem nearest_of_scaled {m : ℕ} {exp : ℤ} (low : 2 ^ 63 ≤ y) (half : |y - m| ≤ 1 / 2)
    (tie : |y - m| = 1 / 2 → a.mant % 2 = 0) (ha : a.value = m * 2 ^ (exp - 64)) :
    a.Nearest (y * 2 ^ (exp - 64)) := by
  intro b
  have hu : (0 : ℚ) < 2 ^ (exp - 64) := zpow_pos two_pos _
  have scaled : ∀ n : ℚ, |y * 2 ^ (exp - 64) - n * 2 ^ (exp - 64)| = |y - n| * 2 ^ (exp - 64) := by
    intro n
    rw [← sub_mul, abs_mul, abs_of_pos hu]
  rcases le_or_gt exp b.exp with hexp | hexp
  · obtain ⟨n, hn⟩ := exists_value_eq_of_exp_le hexp
    rw [ha, hn, scaled, scaled]
    refine ⟨mul_le_mul_of_nonneg_right (abs_sub_le_abs_sub half n) hu.le, ?_⟩
    intro equal
    by_cases hnm : n = m
    · exact .inl (eq_of_value_eq (by rw [hn, ha, hnm]))
    · have := half_le_abs_sub half hnm
      have := mul_right_cancel₀ hu.ne' equal
      exact .inr (tie (by linarith))
  · -- a magnitude of a lower binade is below the least of this one
    have hbelow : b.value < 2 ^ 63 * 2 ^ (exp - 64) := by
      rw [two_pow_mul (i := 63) (j := exp - 64) (k := exp - 1) (by push_cast; ring)]
      exact b.value_lt_two_zpow.trans_le (zpow_le_zpow_right₀ one_le_two (by omega))
    have hleast : |y - m| ≤ |y - 2 ^ 63| := by exact_mod_cast abs_sub_le_abs_sub half (2 ^ 63)
    rw [abs_of_nonneg (sub_nonneg.mpr low)] at hleast
    have hfar := mul_le_mul_of_nonneg_right hleast hu.le
    have strict : |y * 2 ^ (exp - 64) - a.value| < |y * 2 ^ (exp - 64) - b.value| := by
      rw [ha, scaled]
      linarith [le_abs_self (y * 2 ^ (exp - 64) - b.value)]
    exact ⟨strict.le, fun equal => absurd equal strict.ne'⟩

end Magnitude

namespace Rational

open Magnitude

variable {neg : Bool} {num den : ℕ} {x : ℚ}

theorem exists_fraction (num : ℕ) (h : 0 < den) :
    ∃ t : ℚ, (num / den : ℚ) = (num / den : ℕ) + t ∧ 0 ≤ t ∧ t * den = (num % den : ℕ) := by
  have hd : (den : ℚ) ≠ 0 := by exact_mod_cast h.ne'
  refine ⟨(num % den : ℕ) / den, ?_, by positivity, div_mul_cancel₀ _ hd⟩
  rw [div_eq_iff hd, add_mul, div_mul_cancel₀ _ hd]
  exact_mod_cast (Nat.div_add_mod' num den).symm

theorem nearestEven_half (num : ℕ) (h : 0 < den) :
    |(num / den : ℚ) - nearestEven num den| ≤ 1 / 2 ∧
      (|(num / den : ℚ) - nearestEven num den| = 1 / 2 → nearestEven num den % 2 = 0) := by
  obtain ⟨t, hsplit, nonneg, ht⟩ := exists_fraction num h
  have hd : (0 : ℚ) < den := by exact_mod_cast h
  rw [hsplit]
  unfold nearestEven
  generalize num / den = q
  simp only
  split
  next below =>
    have hbelow : t < 1 / 2 := by
      have : (2 * (num % den : ℕ) : ℚ) < den := by exact_mod_cast below
      nlinarith
    rw [add_sub_cancel_left, abs_of_nonneg nonneg]
    exact ⟨hbelow.le, fun equal => absurd equal hbelow.ne⟩
  next =>
    split
    next above =>
      have habove : 1 / 2 < t := by
        have : (den : ℚ) < 2 * (num % den : ℕ) := by exact_mod_cast above
        nlinarith
      have hlt : t < 1 := by
        have : ((num % den : ℕ) : ℚ) < den := by exact_mod_cast Nat.mod_lt num h
        nlinarith
      rw [Nat.cast_add_one, add_sub_add_left_eq_sub, abs_of_neg (by linarith)]
      exact ⟨by linarith, fun equal => by linarith⟩
    next =>
      have hhalf : t = 1 / 2 := by
        have : (2 * (num % den : ℕ) : ℚ) = den := by exact_mod_cast (by omega)
        nlinarith
      rcases Nat.mod_two_eq_zero_or_one q with even | odd
      · rw [even, hhalf, Nat.add_zero, add_sub_cancel_left]
        exact ⟨by norm_num, fun _ => even⟩
      · rw [odd, hhalf, Nat.cast_add_one, add_sub_add_left_eq_sub]
        exact ⟨by norm_num [abs_le], fun _ => by omega⟩

theorem bitLength_bounds {n : ℕ} (h : n ≠ 0) :
    (2 : ℚ) ^ ((bitLength n : ℤ) - 1) ≤ n ∧ (n : ℚ) < 2 ^ (bitLength n : ℤ) := by
  have hlength : (bitLength n : ℤ) - 1 = (n.log2 : ℕ) := by
    rw [bitLength, if_neg h]
    push_cast
    ring
  have hlength' : (bitLength n : ℤ) = (n.log2 + 1 : ℕ) := by
    push_cast
    linarith
  rw [hlength, hlength', zpow_natCast, zpow_natCast]
  exact ⟨by exact_mod_cast Nat.log2_self_le h, by exact_mod_cast Nat.lt_log2_self⟩

theorem scaled_quotient (num : ℕ) (h : den ≠ 0) (k : ℤ) :
    ((num * 2 ^ k.toNat : ℕ) : ℚ) / ((den * 2 ^ (-k).toNat : ℕ) : ℚ) = num / den * 2 ^ k := by
  have hd : (den : ℚ) ≠ 0 := by exact_mod_cast h
  have hk := two_pow_mul (i := (-k).toNat) (j := k) (k := (k.toNat : ℤ)) (by omega)
  rw [zpow_natCast] at hk
  push_cast
  rw [← hk]
  field_simp

theorem lengthShift_bounds (hn : num ≠ 0) (hd : den ≠ 0) {k : ℤ}
    (hk : k = 64 + bitLength den - bitLength num) :
    (2 : ℚ) ^ 63 ≤ num / den * 2 ^ k ∧ (num / den : ℚ) * 2 ^ k < 2 ^ 65 := by
  obtain ⟨numLow, numHigh⟩ := bitLength_bounds hn
  obtain ⟨denLow, denHigh⟩ := bitLength_bounds hd
  have hpos : (0 : ℚ) < den := by exact_mod_cast Nat.pos_of_ne_zero hd
  have hscale : (0 : ℚ) < 2 ^ k := zpow_pos two_pos k
  rw [div_mul_eq_mul_div, le_div_iff₀ hpos, div_lt_iff₀ hpos]
  constructor
  · calc (2 : ℚ) ^ 63 * den ≤ 2 ^ 63 * 2 ^ (bitLength den : ℤ) := by gcongr
      _ = 2 ^ ((bitLength num : ℤ) - 1) * 2 ^ k := by
        rw [two_pow_mul (i := 63) rfl, two_zpow_mul (k := 63 + bitLength den) (by omega)]
        push_cast
        rfl
      _ ≤ num * 2 ^ k := by gcongr
  · calc (num : ℚ) * 2 ^ k < 2 ^ (bitLength num : ℤ) * 2 ^ k := by gcongr
      _ = 2 ^ 65 * 2 ^ ((bitLength den : ℤ) - 1) := by
        rw [two_pow_mul (i := 65) (k := 64 + bitLength den) (by push_cast; ring),
          two_zpow_mul (k := 64 + bitLength den) (by omega)]
      _ ≤ 2 ^ 65 * den := by gcongr

theorem normalShift_bounds (hn : num ≠ 0) (hd : den ≠ 0) :
    (2 : ℚ) ^ 63 ≤ num / den * 2 ^ normalShift num den ∧
      (num / den : ℚ) * 2 ^ normalShift num den < 2 ^ 64 := by
  unfold normalShift
  generalize hk : (64 + bitLength den - bitLength num : ℤ) = k
  obtain ⟨low, high⟩ := lengthShift_bounds hn hd hk.symm
  have hpos : (0 : ℚ) < (den * 2 ^ (-k).toNat : ℕ) := by
    exact_mod_cast Nat.mul_pos (Nat.pos_of_ne_zero hd) (Nat.two_pow_pos _)
  have within : num * 2 ^ k.toNat < den * 2 ^ (-k).toNat * 2 ^ 64 ↔
      (num / den : ℚ) * 2 ^ k < 2 ^ 64 := by
    rw [← scaled_quotient num hd k, div_lt_iff₀ hpos, mul_comm (2 ^ 64 : ℚ)]
    exact_mod_cast Iff.rfl
  simp only [within]
  split
  next small => exact ⟨low, small⟩
  next large =>
    rw [zpow_sub_one₀ two_ne_zero, ← mul_assoc]
    constructor
    · linarith
    · linarith

/-- Packing keeps the number: the mantissa `2^64` is that of the next binade. -/
theorem exists_packed {m : ℕ} (low : 2 ^ 63 ≤ m) (high : m ≤ 2 ^ 64) (exp : ℤ) :
    ∃ a : Magnitude, a.value = m * 2 ^ (exp - 64) ∧ (m % 2 = 0 → a.mant % 2 = 0) ∧
      ∀ neg, a.exp ≤ maxExp → pack neg m exp = .finite neg a := by
  by_cases normal : 2 ^ 63 ≤ m ∧ m < 2 ^ 64
  · exact ⟨⟨m, exp, normal⟩, rfl, id, fun _ _ => by rw [pack, dif_pos normal]⟩
  · have even : 2 ^ 63 % 2 = 0 := by decide
    refine ⟨⟨2 ^ 63, exp + 1, by decide⟩, ?_, fun _ => even, ?_⟩
    · obtain rfl : m = 2 ^ 64 := by omega
      rw [value, show exp + 1 - 64 = 1 + (exp - 64) by ring, zpow_one_add₀ two_ne_zero]
      push_cast
      ring
    · intro neg below
      have room : exp < maxExp := Int.lt_of_add_one_le below
      rw [pack, dif_neg normal, if_pos room]

def InRange (x : ℚ) : Prop := 2 ^ (minExp - 1) ≤ x ∧ x < 2 ^ (maxExp - 1)

theorem InRange.exp_le {a : Magnitude} (h : InRange x) (nearest : a.Nearest x) : a.exp ≤ maxExp := by
  have below := nearest.value_le_of_le (b := least maxExp) (value_least maxExp ▸ h.2.le)
  rw [value_least] at below
  have := (zpow_le_zpow_iff_right₀ one_lt_two).mp (a.two_zpow_le_value.trans below)
  omega

/-- Below the least normal number a quotient is lost, even one that would round up to it. -/
theorem ofQuotient_of_lt (hn : num ≠ 0) (hd : den ≠ 0) {exp : ℤ} (hx : x = num / den * 2 ^ exp)
    (small : x < 2 ^ (minExp - 1)) (neg : Bool) : ofQuotient neg num den exp = .zero neg := by
  obtain ⟨low, _⟩ := normalShift_bounds hn hd
  simp only [ofQuotient, if_neg hn]
  generalize normalShift num den = k at *
  have top : (2 : ℚ) ^ (exp - k + 63) ≤ x := by
    calc (2 : ℚ) ^ (exp - k + 63) = 2 ^ 63 * 2 ^ (exp - k) :=
          (two_pow_mul (by push_cast; ring)).symm
      _ ≤ num / den * 2 ^ k * 2 ^ (exp - k) := by gcongr
      _ = x := by rw [hx, mul_assoc, two_zpow_mul (k := exp) (by ring)]
  have below := (zpow_lt_zpow_iff_right₀ one_lt_two).mp (top.trans_lt small)
  rw [if_pos (by omega)]

/-- A quotient has a nearest magnitude, off by at most half of the last place, and is
packed as that one if its exponent is not too small before rounding nor too large after
it. -/
theorem exists_nearest_quotient (hn : num ≠ 0) (hd : den ≠ 0) {exp : ℤ}
    (hx : x = num / den * 2 ^ exp) :
    ∃ a : Magnitude, a.Nearest x ∧ |x - a.value| ≤ x / 2 ^ 64 ∧
      ∀ neg, 2 ^ (minExp - 1) ≤ x → a.exp ≤ maxExp → ofQuotient neg num den exp = .finite neg a := by
  obtain ⟨low, high⟩ := normalShift_bounds hn hd
  obtain ⟨half, tie⟩ := nearestEven_half (num * 2 ^ (normalShift num den).toNat)
    (Nat.mul_pos (Nat.pos_of_ne_zero hd) (Nat.two_pow_pos (-normalShift num den).toNat))
  rw [scaled_quotient num hd] at half tie
  simp only [ofQuotient, if_neg hn]
  generalize normalShift num den = k at *
  generalize nearestEven (num * 2 ^ k.toNat) (den * 2 ^ (-k).toNat) = m at *
  generalize hy : (num / den * 2 ^ k : ℚ) = y at *
  generalize htop : exp - k + 64 = top
  have hxy : x = y * 2 ^ (top - 64) := by
    rw [hx, ← hy, mul_assoc, two_zpow_mul (k := exp) (by omega)]
  have hu : (0 : ℚ) < 2 ^ (top - 64) := zpow_pos two_pos _
  obtain ⟨hlow, hhigh⟩ := abs_le.mp half
  have mLow : 2 ^ 63 ≤ m := by
    by_contra below
    have : (m : ℚ) + 1 ≤ 2 ^ 63 := by exact_mod_cast Nat.lt_of_not_le below
    linarith
  have mHigh : m ≤ 2 ^ 64 := by
    by_contra above
    have : (2 : ℚ) ^ 64 + 1 ≤ m := by exact_mod_cast Nat.lt_of_not_le above
    linarith
  obtain ⟨a, ha, parity, packed⟩ := exists_packed mLow mHigh top
  refine ⟨a, ?_, ?_, ?_⟩
  · rw [hxy]
    exact nearest_of_scaled low half (fun h => parity (tie h)) ha
  · rw [hxy, ha, ← sub_mul, abs_mul, abs_of_pos hu]
    calc |y - m| * 2 ^ (top - 64) ≤ y / 2 ^ 64 * 2 ^ (top - 64) := by
          gcongr
          linarith
      _ = y * 2 ^ (top - 64) / 2 ^ 64 := by ring
  · intro neg xLow expHigh
    have above : x < 2 ^ top := by
      rw [hxy, ← two_pow_mul (i := 64) (j := top - 64) (k := top) (by push_cast; ring)]
      exact mul_lt_mul_of_pos_right high hu
    have below : (2 : ℚ) ^ (top - 1) ≤ a.value := by
      rw [ha, ← two_pow_mul (i := 63) (j := top - 64) (k := top - 1) (by push_cast; ring)]
      apply mul_le_mul_of_nonneg_right _ hu.le
      exact_mod_cast mLow
    have topLow : minExp - 1 < top :=
      (zpow_lt_zpow_iff_right₀ one_lt_two).mp (xLow.trans_lt above)
    have topHigh : top - 1 < a.exp :=
      (zpow_lt_zpow_iff_right₀ one_lt_two).mp (below.trans_lt a.value_lt_two_zpow)
    rw [if_neg (by omega), if_neg (by omega)]
    exact packed neg expHigh

end Rational

theorem Magnitude.exists_nearest {x : ℚ} (hx : 0 < x) :
    ∃ a : Magnitude, a.Nearest x ∧ |x - a.value| ≤ x / 2 ^ 64 := by
  have hnum : (x.num.natAbs : ℚ) = x.num := by
    rw [Nat.cast_natAbs, abs_of_pos (Rat.num_pos.mpr hx)]
  have hquotient : x = x.num.natAbs / x.den * 2 ^ (0 : ℤ) := by
    rw [hnum, zpow_zero, mul_one, Rat.num_div_den]
  obtain ⟨a, nearest, close, _⟩ := Rational.exists_nearest_quotient
    (Int.natAbs_ne_zero.mpr (Rat.num_pos.mpr hx).ne') x.den_nz hquotient
  exact ⟨a, nearest, close⟩

theorem Magnitude.Nearest.error_le {a : Magnitude} {x : ℚ} (h : a.Nearest x) (hx : 0 < x) :
    |x - a.value| ≤ x / 2 ^ 64 := by
  obtain ⟨b, _, close⟩ := exists_nearest hx
  exact (h b).1.trans close

end StackMachine
