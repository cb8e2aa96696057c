import Mathlib.Data.Nat.Cast.Order.Field
import StackMachine.Proofs.Rational.Arithmetic
/-! Integers among the numbers with a 64-bit mantissa. Those up to `2^64` are exact, and
truncating a rounded sum, product or quotient of two of them loses nothing: a quotient
is never rounded up to the next integer, since it is further from it than half of its
last place. -/
namespace StackMachine

/-- The integer as a word, if it fits. -/
def fit (z : ℤ) : Option Int64 :=
  if Int64.minValue.toInt ≤ z ∧ z ≤ Int64.maxValue.toInt then some (.ofInt z) else none

theorem fit_toInt (n : Int64) : fit n.toInt = some n := by
  rw [fit, if_pos ⟨n.minValue_le_toInt, n.toInt_le⟩, Int64.ofInt_toInt]

namespace Magnitude

variable {a : Magnitude}

theorem exists_value_eq_nat {n : ℕ} (pos : 0 < n) (h : n ≤ 2 ^ 64) : ∃ b : Magnitude, b.value = n := by
  rcases Nat.lt_or_eq_of_le h with hlt | rfl
  · have hlog : n.log2 ≤ 63 := by
      have := (Nat.log2_lt pos.ne').mpr hlt
      omega
    have hlow : 2 ^ n.log2 * 2 ^ (63 - n.log2) = 2 ^ 63 := by
      rw [← Nat.pow_add, Nat.add_sub_cancel' hlog]
    have hhigh : 2 ^ (n.log2 + 1) * 2 ^ (63 - n.log2) = 2 ^ 64 := by
      rw [← Nat.pow_add]
      congr 1
      omega
    refine ⟨⟨n * 2 ^ (63 - n.log2), n.log2 + 1, ?_, ?_⟩, ?_⟩
    · rw [← hlow]
      exact Nat.mul_le_mul_right _ (Nat.log2_self_le pos.ne')
    · rw [← hhigh]
      exact Nat.mul_lt_mul_of_pos_right Nat.lt_log2_self (Nat.two_pow_pos _)
    · rw [value]
      push_cast
      rw [mul_assoc, two_pow_mul (k := 0) (by omega), zpow_zero, mul_one]
  · refine ⟨⟨2 ^ 63, 65, by decide⟩, ?_⟩
    rw [value]
    norm_num

theorem exp_bounds (low : 1 ≤ a.value) (high : a.value ≤ 2 ^ 63) : 1 ≤ a.exp ∧ a.exp ≤ 64 := by
  have hlow : (2 : ℚ) ^ (0 : ℤ) < 2 ^ a.exp := by
    rw [zpow_zero]
    exact low.trans_lt a.value_lt_two_zpow
  have hhigh : (2 : ℚ) ^ (a.exp - 1) ≤ 2 ^ (63 : ℤ) := by
    exact_mod_cast a.two_zpow_le_value.trans high
  have := (zpow_lt_zpow_iff_right₀ one_lt_two).mp hlow
  have := (zpow_le_zpow_iff_right₀ one_lt_two).mp hhigh
  omega

theorem floor?_of_bounds {n : ℕ} (low : n ≤ a.value) (high : a.value < n + 1)
    (below : a.value < 2 ^ 64) : a.floor? = some n := by
  unfold floor?
  split
  next tiny =>
    have hone : a.value < 1 := a.value_lt_two_zpow.trans_le (zpow_le_one_of_nonpos₀ one_le_two tiny)
    have : (n : ℚ) < 1 := low.trans_lt hone
    rw [show n = 0 by exact_mod_cast Nat.lt_one_iff.mp (by exact_mod_cast this)]
  next =>
    have hexp : a.exp - 1 < 64 := by
      refine (zpow_lt_zpow_iff_right₀ (one_lt_two (α := ℚ))).mp ?_
      exact_mod_cast a.two_zpow_le_value.trans_lt below
    rw [if_pos (by omega)]
    have hscale : (0 : ℚ) < 2 ^ (64 - a.exp).toNat := by positivity
    have hvalue : a.value * 2 ^ (64 - a.exp).toNat = a.mant := by
      rw [value, mul_assoc, mul_comm ((2 : ℚ) ^ (a.exp - 64)), two_pow_mul (k := 0) (by omega),
        zpow_zero, mul_one]
    congr 1
    refine Nat.div_eq_of_lt_le ?_ ?_
    · have := mul_le_mul_of_nonneg_right low hscale.le
      rw [hvalue] at this
      exact_mod_cast this
    · have := mul_lt_mul_of_pos_right high hscale
      rw [hvalue] at this
      exact_mod_cast this

theorem floor?_of_large (h : 2 ^ 64 ≤ a.value) : a.floor? = none := by
  have hexp : 64 < a.exp := by
    refine (zpow_lt_zpow_iff_right₀ (one_lt_two (α := ℚ))).mp ?_
    exact_mod_cast h.trans_lt a.value_lt_two_zpow
  rw [floor?, if_neg (by omega), if_neg (by omega)]

end Magnitude

namespace Rational

open Magnitude

variable {r : Rational} {neg : Bool} {a : Magnitude}

theorem toInt64?_of_bounds {n : ℕ} (low : n ≤ a.value) (high : a.value < n + 1) :
    (finite neg a).toInt64? = fit (signed neg n) := by
  by_cases below : a.value < 2 ^ 64
  · simp only [toInt64?, floor?_of_bounds low high below]
    rfl
  · have large := floor?_of_large (not_lt.mp below)
    have : 2 ^ 64 < n + 1 := by exact_mod_cast (not_lt.mp below).trans_lt high
    simp only [toInt64?, large]
    rw [fit, if_neg]
    · rfl
    · rw [Int64.toInt_minValue, Int64.toInt_maxValue, signed]
      split
      · omega
      · omega

theorem toInt64?_of_large (h : 2 ^ 64 ≤ a.value) : (finite neg a).toInt64? = none := by
  simp only [toInt64?, floor?_of_large h]
  rfl

theorem abs_int (z : ℤ) : |(z : ℚ)| = (z.natAbs : ℕ) := by rw [Nat.cast_natAbs, Int.cast_abs]

theorem signed_natAbs (z : ℤ) : signed (decide ((z : ℚ) < 0)) z.natAbs = z := by
  rw [signed]
  split
  next negative =>
    have : z < 0 := by exact_mod_cast of_decide_eq_true negative
    omega
  next nonneg =>
    have : ¬ z < 0 := fun h => nonneg (decide_eq_true (by exact_mod_cast h))
    omega

theorem exists_value_eq_abs {z : ℤ} (h : z.natAbs ≤ 2 ^ 64) (hz : (z : ℚ) ≠ 0) :
    ∃ b : Magnitude, b.value = |(z : ℚ)| := by
  have pos : 0 < z.natAbs := Int.natAbs_pos.mpr (by exact_mod_cast hz)
  obtain ⟨b, hb⟩ := exists_value_eq_nat pos h
  exact ⟨b, by rw [hb, abs_int]⟩

theorem toInt64?_of_rounds {z : ℤ} (h : r.Rounds z) : r.toInt64? = fit z := by
  cases r with
  | zero neg =>
    obtain rfl : z = 0 := by exact_mod_cast (show (z : ℚ) = 0 from h)
    rfl
  | infinite neg => exact h.elim
  | finite neg a =>
    by_cases small : z.natAbs ≤ 2 ^ 64
    · obtain ⟨rfl, ha⟩ := value?_finite_iff.mp (h.value?_eq (exists_value_eq_abs small))
      rw [abs_int] at ha
      rw [toInt64?_of_bounds ha.ge (by rw [ha]; exact lt_add_one _), signed_natAbs]
    · obtain ⟨b, hb⟩ := exists_value_eq_nat (n := 2 ^ 64) (by decide) le_rfl
      have large : b.value ≤ |(z : ℚ)| := by
        rw [hb, abs_int]
        exact_mod_cast (not_le.mp small).le
      have hvalue := h.2.le_of_value_le large
      rw [hb] at hvalue
      rw [toInt64?_of_large (by exact_mod_cast hvalue), fit, if_neg]
      rw [Int64.toInt_minValue, Int64.toInt_maxValue]
      omega

/-- A nearest magnitude lies between the same two integers as the quotient. The distance
to the next integer is at least a `z`-th part of the quotient. -/
theorem nearest_quotient_bounds {z w : ℕ} (hz : 0 < z) (hz' : z < 2 ^ 64) (hw : 0 < w)
    (h : a.Nearest (z / w)) : ((z / w : ℕ) : ℚ) ≤ a.value ∧ a.value < (z / w : ℕ) + 1 := by
  have hwq : (0 : ℚ) < w := by exact_mod_cast hw
  have hzq : (0 : ℚ) < z := by exact_mod_cast hz
  have hle : z / w ≤ z := Nat.div_le_self z w
  constructor
  · rcases Nat.eq_zero_or_pos (z / w) with zero | pos
    · rw [zero, Nat.cast_zero]
      exact a.value_pos.le
    · obtain ⟨b, hb⟩ := exists_value_eq_nat pos (by omega)
      rw [← hb]
      exact h.le_of_value_le (hb ▸ Nat.cast_div_le)
  · have next : (z / w : ℚ) + 1 / w ≤ (z / w : ℕ) + 1 := by
      rw [← add_div, div_le_iff₀ hwq]
      exact_mod_cast Nat.lt_mul_of_div_lt (Nat.lt_succ_self (z / w)) hw
    obtain ⟨b, hb⟩ := exists_value_eq_nat (Nat.succ_pos (z / w)) (by omega)
    push_cast at hb
    have hstep : (0 : ℚ) < 1 / w := by positivity
    refine lt_of_le_of_ne (hb ▸ h.value_le_of_le (by rw [hb]; linarith)) ?_
    intro reached
    have error := h.error_le (by positivity)
    rw [reached, abs_of_nonpos (by linarith)] at error
    have : (z / w / 2 ^ 64 : ℚ) < 1 / w := by
      rw [div_right_comm, div_lt_div_iff_of_pos_right hwq, div_lt_one (by positivity)]
      exact_mod_cast hz'
    linarith

theorem abs_div_int (z w : ℤ) : |(z / w : ℚ)| = (z.natAbs : ℕ) / (w.natAbs : ℕ) := by
  rw [abs_div, abs_int, abs_int]

theorem signed_div (z w : ℤ) :
    signed (decide ((z / w : ℚ) < 0)) (z.natAbs / w.natAbs) = z.tdiv w := by
  have same : ∀ m n : ℕ, signed (decide ((m / n : ℚ) < 0)) (m / n) = (m : ℤ).tdiv n := by
    intro m n
    have nonneg : ¬ (m / n : ℚ) < 0 := not_lt.mpr (by positivity)
    rw [decide_eq_false nonneg, signed, if_neg Bool.false_ne_true]
    exact Int.ofNat_tdiv m n
  have opposite : ∀ m n : ℕ, signed (decide (-(m / n : ℚ) < 0)) (m / n) = -(m : ℤ).tdiv n := by
    intro m n
    rw [← Int.ofNat_tdiv]
    rcases Nat.eq_zero_or_pos (m / n) with zero | pos
    · rw [zero]
      cases decide (-(m / n : ℚ) < 0) <;> rfl
    · have : (0 : ℚ) < m / n := (by exact_mod_cast pos : (0 : ℚ) < (m / n : ℕ)).trans_le Nat.cast_div_le
      rw [decide_eq_true (by linarith), signed, if_pos rfl]
  obtain ⟨m, rfl | rfl⟩ := z.eq_nat_or_neg
  · obtain ⟨n, rfl | rfl⟩ := w.eq_nat_or_neg
    · simpa using same m n
    · simpa [div_neg] using opposite m n
  · obtain ⟨n, rfl | rfl⟩ := w.eq_nat_or_neg
    · simpa [neg_div] using opposite m n
    · simpa [neg_div_neg_eq] using same m n

theorem toInt64?_of_rounds_quotient {z w : ℤ} (hz : z.natAbs < 2 ^ 64) (hw : w ≠ 0)
    (h : r.Rounds (z / w)) : r.toInt64? = fit (z.tdiv w) := by
  by_cases zero : z = 0
  · subst zero
    rw [Int.zero_tdiv]
    rw [Int.cast_zero, zero_div] at h
    exact toInt64?_of_rounds (by exact_mod_cast h)
  · have hne : (z / w : ℚ) ≠ 0 := div_ne_zero (by exact_mod_cast zero) (by exact_mod_cast hw)
    cases r with
    | zero neg => exact absurd h hne
    | infinite neg => exact h.elim
    | finite neg a =>
      obtain ⟨rfl, nearest⟩ := h
      rw [abs_div_int] at nearest
      obtain ⟨low, high⟩ := nearest_quotient_bounds (Int.natAbs_pos.mpr zero) hz
        (Int.natAbs_pos.mpr hw) nearest
      rw [toInt64?_of_bounds low high, signed_div]

theorem inRange_of_moderate {x : ℚ} (low : 2 ^ (-64 : ℤ) ≤ x) (high : x < 2 ^ (128 : ℤ)) :
    InRange x := by
  constructor
  · exact (zpow_le_zpow_right₀ one_le_two (by decide)).trans low
  · exact high.trans_le (zpow_le_zpow_right₀ one_le_two (by decide))

theorem inRange_abs_int {z : ℤ} (h : z.natAbs < 2 ^ 128) (hz : (z : ℚ) ≠ 0) : InRange |(z : ℚ)| := by
  have pos : 1 ≤ z.natAbs := Int.natAbs_pos.mpr (by exact_mod_cast hz)
  rw [abs_int]
  refine inRange_of_moderate ?_ ?_
  · calc (2 : ℚ) ^ (-64 : ℤ) ≤ 1 := zpow_le_one_of_nonpos₀ one_le_two (by decide)
      _ ≤ (z.natAbs : ℕ) := by exact_mod_cast pos
  · exact_mod_cast h

section Words

variable {z w : ℤ}

theorem value?_ofInt (h : z.natAbs ≤ 2 ^ 63) : (ofInt z).value? = some (z : ℚ) := by
  have rounds : (ofInt z).Rounds z :=
    (packs_ofScaled z (by rw [zpow_zero, mul_one])).rounds (inRange_abs_int (by omega))
  exact rounds.value?_eq (exists_value_eq_abs (by omega))

theorem exp_of_ofInt (h : z.natAbs ≤ 2 ^ 63) (ha : ofInt z = .finite neg a) :
    1 ≤ a.exp ∧ a.exp ≤ 64 := by
  have hvalue := value?_ofInt h
  rw [ha] at hvalue
  have hz : z ≠ 0 := by exact_mod_cast value?_finite_ne_zero hvalue
  have habs : a.value = (z.natAbs : ℕ) := by
    rw [(value?_finite_iff.mp hvalue).2, abs_int]
  refine exp_bounds ?_ ?_
  · rw [habs]
    exact_mod_cast Int.natAbs_pos.mpr hz
  · rw [habs]
    exact_mod_cast h

theorem close_ofInt (hz : z.natAbs ≤ 2 ^ 63) (hw : w.natAbs ≤ 2 ^ 63) : Close (ofInt z) (ofInt w) := by
  intro n a m b ha hb
  have := exp_of_ofInt hz ha
  have := exp_of_ofInt hw hb
  unfold exactGap
  omega

theorem toInt64?_add (hz : z.natAbs ≤ 2 ^ 63) (hw : w.natAbs ≤ 2 ^ 63) :
    ∃ r, add (ofInt z) (ofInt w) = .ok r ∧ r.toInt64? = fit (z + w) := by
  have hcast : (z : ℚ) + w = (z + w : ℤ) := by push_cast; rfl
  obtain ⟨r, hr, rounds⟩ := rounds_add (value?_ofInt hz) (value?_ofInt hw) (close_ofInt hz hw)
    (hcast ▸ inRange_abs_int (by omega))
  exact ⟨r, hr, toInt64?_of_rounds (hcast ▸ rounds)⟩

theorem toInt64?_sub (hz : z.natAbs ≤ 2 ^ 63) (hw : w.natAbs ≤ 2 ^ 63) :
    ∃ r, sub (ofInt z) (ofInt w) = .ok r ∧ r.toInt64? = fit (z - w) := by
  have hcast : (z : ℚ) - w = (z - w : ℤ) := by push_cast; rfl
  obtain ⟨r, hr, rounds⟩ := rounds_sub (value?_ofInt hz) (value?_ofInt hw) (close_ofInt hz hw)
    (hcast ▸ inRange_abs_int (by omega))
  exact ⟨r, hr, toInt64?_of_rounds (hcast ▸ rounds)⟩

/-- Products may be rounded, but not into the words from outside. -/
theorem toInt64?_mul (hz : z.natAbs ≤ 2 ^ 63) (hw : w.natAbs ≤ 2 ^ 63) :
    ∃ r, mul (ofInt z) (ofInt w) = .ok r ∧ r.toInt64? = fit (z * w) := by
  have hcast : (z : ℚ) * w = (z * w : ℤ) := by push_cast; rfl
  have hsize : (z * w).natAbs < 2 ^ 128 := by
    rw [Int.natAbs_mul]
    exact (Nat.mul_le_mul hz hw).trans_lt (by decide)
  obtain ⟨r, hr, rounds⟩ := rounds_mul (value?_ofInt hz) (value?_ofInt hw)
    (hcast ▸ inRange_abs_int hsize)
  exact ⟨r, hr, toInt64?_of_rounds (hcast ▸ rounds)⟩

theorem inRange_abs_quotient (hz : z.natAbs ≤ 2 ^ 63) (hw : w.natAbs ≤ 2 ^ 63)
    (hne : (z / w : ℚ) ≠ 0) : InRange |(z / w : ℚ)| := by
  obtain ⟨hzne, hwne⟩ := div_ne_zero_iff.mp hne
  have hzpos : (1 : ℚ) ≤ z.natAbs := by exact_mod_cast Int.natAbs_pos.mpr (by exact_mod_cast hzne)
  have hwpos : (1 : ℚ) ≤ w.natAbs := by exact_mod_cast Int.natAbs_pos.mpr (by exact_mod_cast hwne)
  have hzle : (z.natAbs : ℚ) ≤ 2 ^ 63 := by exact_mod_cast hz
  have hwle : (w.natAbs : ℚ) ≤ 2 ^ 63 := by exact_mod_cast hw
  rw [abs_div_int]
  refine inRange_of_moderate ?_ ?_
  · rw [le_div_iff₀ (by linarith)]
    calc (2 : ℚ) ^ (-64 : ℤ) * w.natAbs ≤ 2 ^ (-64 : ℤ) * 2 ^ 63 := by gcongr
      _ ≤ 1 := by norm_num
      _ ≤ z.natAbs := hzpos
  · rw [div_lt_iff₀ (by linarith)]
    calc (z.natAbs : ℚ) ≤ 2 ^ 63 := hzle
      _ < 2 ^ (128 : ℤ) * 1 := by norm_num
      _ ≤ 2 ^ (128 : ℤ) * w.natAbs := by gcongr

theorem toInt64?_div (hz : z.natAbs ≤ 2 ^ 63) (hw : w.natAbs ≤ 2 ^ 63) (hne : w ≠ 0) :
    ∃ r, div (ofInt z) (ofInt w) = .ok r ∧ r.toInt64? = fit (z.tdiv w) := by
  have hwq : (w : ℚ) ≠ 0 := by exact_mod_cast hne
  obtain ⟨r, hr, rounds⟩ := rounds_div (value?_ofInt hz) (value?_ofInt hw) hwq
    (inRange_abs_quotient hz hw)
  exact ⟨r, hr, toInt64?_of_rounds_quotient (by omega) hne rounds⟩

theorem rounds_ofFraction (hz : z.natAbs ≤ 2 ^ 63) (hw : w.natAbs ≤ 2 ^ 63) (hne : w ≠ 0) :
    (ofFraction z w).Rounds (z / w) := by
  refine rounds_ofQuotient (Int.natAbs_ne_zero.mpr hne) ?_ ?_ (inRange_abs_quotient hz hw)
  · rw [abs_div_int, zpow_zero, mul_one]
  · intro hquotient
    obtain ⟨hzne, hwne⟩ := div_ne_zero_iff.mp hquotient
    rw [← sign_div hzne hwne]
    simp

theorem compare_ofInt (hz : z.natAbs ≤ 2 ^ 63) (hw : w.natAbs ≤ 2 ^ 63) :
    (ofInt z).compare (ofInt w) = Ord.compare z w := by
  rw [compare_of_value? (value?_ofInt hz) (value?_ofInt hw), ← cmp_eq_compare, ← cmp_eq_compare]
  exact Int.cast_strictMono.cmp_map_eq z w

end Words

end Rational
end StackMachine
