import StackMachine.Proofs.Rational.Integer
/-! Rounding keeps the order of fractions with short terms. Each number has one nearest
magnitude, so equal fractions are rounded alike; and two fractions whose terms have 31
bits differ by more than both of their rounding errors together, or not at all. -/
namespace StackMachine

namespace Magnitude

variable {a b : Magnitude} {x : ℚ}

/-- Above an even mantissa the next one is odd, and no magnitude lies in between. -/
theorem exists_next (even : a.mant % 2 = 0) (h : a.value < b.value) :
    ∃ c : Magnitude, c.mant = a.mant + 1 ∧ a.value < c.value ∧ c.value ≤ b.value := by
  have hunit : (0 : ℚ) < 2 ^ (a.exp - 64) := zpow_pos two_pos _
  have normal := a.normal
  have hexp : a.exp ≤ b.exp := by
    by_contra hlt
    exact absurd h (value_lt_of_exp_lt (not_le.mp hlt)).not_gt
  obtain ⟨n, hn⟩ := exists_value_eq_of_exp_le hexp
  have hlt : a.mant < n := by
    rw [hn, value, mul_lt_mul_iff_left₀ hunit] at h
    exact_mod_cast h
  refine ⟨⟨a.mant + 1, a.exp, by omega, by omega⟩, rfl, ?_, ?_⟩
  · rw [value, value]
    apply mul_lt_mul_of_pos_right _ hunit
    exact_mod_cast Nat.lt_succ_self a.mant
  · rw [hn, value]
    apply mul_le_mul_of_nonneg_right _ hunit.le
    exact_mod_cast hlt

theorem Nearest.value_le (ha : a.Nearest x) (hb : b.Nearest x) : b.value ≤ a.value := by
  by_contra above
  have below : a.value < b.value := not_le.mp above
  have equal : |x - b.value| = |x - a.value| := le_antisymm (hb a).1 (ha b).1
  have evenA : a.mant % 2 = 0 := ((ha b).2 equal).resolve_left fun h => below.ne (by rw [h])
  have evenB : b.mant % 2 = 0 := ((hb a).2 equal.symm).resolve_left fun h => below.ne (by rw [h])
  obtain ⟨c, odd, outer, upTo⟩ := exists_next evenA below
  have inner : c.value < b.value := by
    apply lt_of_le_of_ne upTo
    intro h
    rw [eq_of_value_eq h] at odd
    omega
  -- on either side of `x` the magnitude in between is nearer
  rcases le_total x c.value with hx | hx
  · have hnear := (hb c).1
    rw [abs_of_nonpos (sub_nonpos.mpr hx)] at hnear
    linarith [neg_abs_le (x - b.value)]
  · have hnear := (ha c).1
    rw [abs_of_nonneg (sub_nonneg.mpr hx)] at hnear
    linarith [le_abs_self (x - a.value)]

theorem Nearest.unique (ha : a.Nearest x) (hb : b.Nearest x) : a = b := by
  apply eq_of_value_eq
  exact le_antisymm (hb.value_le ha) (ha.value_le hb)

end Magnitude

namespace Rational

variable {p q : Rational} {x y : ℚ}

theorem Rounds.exists_value? (h : p.Rounds x) :
    ∃ v, p.value? = some v ∧ |x - v| ≤ |x| / 2 ^ 64 := by
  cases p with
  | zero neg =>
    have hx : x = 0 := h
    exact ⟨0, rfl, by simp [hx]⟩
  | infinite neg => exact h.elim
  | finite neg a =>
    obtain ⟨rfl, nearest⟩ := h
    have error := nearest.error_le (abs_pos.mpr (abs_ne_zero.mp nearest.ne_zero))
    refine ⟨_, rfl, ?_⟩
    by_cases negative : x < 0
    · rw [abs_of_neg negative] at error ⊢
      rw [← abs_neg, neg_sub', decide_eq_true negative, if_pos rfl, neg_neg]
      exact error
    · rw [abs_of_nonneg (not_lt.mp negative)] at error ⊢
      simpa [negative] using error

theorem Rounds.value?_unique (hp : p.Rounds x) (hq : q.Rounds x) : p.value? = q.value? := by
  cases p with
  | infinite neg => exact hp.elim
  | zero neg =>
    have hx : x = 0 := hp
    cases q with
    | zero neg' => rfl
    | finite neg' b => exact absurd (by simp [hx]) hq.2.ne_zero
    | infinite neg' => exact hq.elim
  | finite neg a =>
    cases q with
    | zero neg' =>
      have hx : x = 0 := hq
      exact absurd (by simp [hx]) hp.2.ne_zero
    | finite neg' b => rw [hp.1, hq.1, hp.2.unique hq.2]
    | infinite neg' => exact hq.elim

/-- Numbers that differ by more than both errors are not exchanged by rounding. -/
theorem compare_of_apart (hp : p.Rounds x) (hq : q.Rounds y)
    (apart : x ≠ y → (|x| + |y|) / 2 ^ 64 < |x - y|) : p.compare q = Ord.compare x y := by
  obtain ⟨v, hv, errorV⟩ := hp.exists_value?
  obtain ⟨w, hw, errorW⟩ := hq.exists_value?
  rw [compare_of_value? hv hw]
  obtain ⟨lowV, highV⟩ := abs_le.mp errorV
  obtain ⟨lowW, highW⟩ := abs_le.mp errorW
  rcases lt_trichotomy x y with less | equal | greater
  · have gap := apart less.ne
    rw [abs_of_neg (sub_neg.mpr less), add_div] at gap
    rw [compare_lt_iff_lt.mpr less, compare_lt_iff_lt.mpr (by linarith)]
  · have alike := hp.value?_unique (equal ▸ hq)
    rw [hv, hw] at alike
    rw [compare_eq_iff_eq.mpr equal, compare_eq_iff_eq.mpr (Option.some.inj alike)]
  · have gap := apart greater.ne'
    rw [abs_of_pos (sub_pos.mpr greater), add_div] at gap
    rw [compare_gt_iff_gt.mpr greater, compare_gt_iff_gt.mpr (by linarith)]

section Fractions

variable {a b c d : ℤ}

theorem div_eq_div_iff_mul_eq (hb : b ≠ 0) (hd : d ≠ 0) : (a / b : ℚ) = c / d ↔ a * d = b * c := by
  rw [div_eq_div_iff (by exact_mod_cast hb) (by exact_mod_cast hd), mul_comm (c : ℚ)]
  exact_mod_cast Iff.rfl

/-- Over the common denominator the difference is a nonzero integer, and the two
numerators together stay below `2^64`. -/
theorem fractions_apart (hb : b ≠ 0) (hd : d ≠ 0) (ha : a.natAbs ≤ 2 ^ 31) (hb' : b.natAbs ≤ 2 ^ 31)
    (hc : c.natAbs ≤ 2 ^ 31) (hd' : d.natAbs ≤ 2 ^ 31) (h : (a / b : ℚ) ≠ c / d) :
    (|(a / b : ℚ)| + |(c / d : ℚ)|) / 2 ^ 64 < |(a / b : ℚ) - c / d| := by
  have hbq : (b : ℚ) ≠ 0 := by exact_mod_cast hb
  have hdq : (d : ℚ) ≠ 0 := by exact_mod_cast hd
  have hcommon : 0 < |(b * d : ℚ)| := abs_pos.mpr (mul_ne_zero hbq hdq)
  have hnum : (1 : ℚ) ≤ |((a * d - b * c : ℤ) : ℚ)| := by
    have hne : a * d - b * c ≠ 0 := by
      apply sub_ne_zero.mpr
      intro heq
      exact h ((div_eq_div_iff_mul_eq hb hd).mpr heq)
    exact_mod_cast Int.one_le_abs hne
  have hdiff : |(a / b : ℚ) - c / d| = |((a * d - b * c : ℤ) : ℚ)| / |(b * d : ℚ)| := by
    rw [div_sub_div _ _ hbq hdq, abs_div]
    push_cast
    rfl
  have hsum : |(a / b : ℚ)| + |(c / d : ℚ)| = (|(a * d : ℚ)| + |(b * c : ℚ)|) / |(b * d : ℚ)| := by
    simp only [abs_div, abs_mul]
    rw [div_add_div _ _ (abs_ne_zero.mpr hbq) (abs_ne_zero.mpr hdq)]
  have hbound : |(a * d : ℚ)| + |(b * c : ℚ)| ≤ 2 ^ 63 := by
    have had : (a * d).natAbs ≤ 2 ^ 62 := by
      rw [Int.natAbs_mul]
      exact (Nat.mul_le_mul ha hd').trans (by decide)
    have hbc : (b * c).natAbs ≤ 2 ^ 62 := by
      rw [Int.natAbs_mul]
      exact (Nat.mul_le_mul hb' hc).trans (by decide)
    rw [← Int.cast_mul, ← Int.cast_mul, abs_int, abs_int]
    exact_mod_cast Nat.add_le_add had hbc
  rw [hsum, hdiff, div_right_comm, div_lt_div_iff_of_pos_right hcommon]
  linarith

theorem compare_ofFraction (hb : b ≠ 0) (hd : d ≠ 0) (ha : a.natAbs ≤ 2 ^ 31)
    (hb' : b.natAbs ≤ 2 ^ 31) (hc : c.natAbs ≤ 2 ^ 31) (hd' : d.natAbs ≤ 2 ^ 31) :
    (ofFraction a b).compare (ofFraction c d) = Ord.compare (a / b : ℚ) (c / d) := by
  apply compare_of_apart
  · exact rounds_ofFraction (by omega) (by omega) hb
  · exact rounds_ofFraction (by omega) (by omega) hd
  · exact fractions_apart hb hd ha hb' hc hd'

end Fractions

end Rational
end StackMachine
