import StackMachine.Proofs.Rational.Rounding
/-! Signed numbers: what they stand for, that they are ordered by it, and that sums,
products and quotients are the exact results rounded once. -/
namespace StackMachine.Rational

variable {p q r : Rational} {x y : ℚ} {neg : Bool} {a : Magnitude}

/-- An infinity stands for no number. -/
def value? : Rational → Option ℚ
  | .zero _ => some 0
  | .finite neg a => some (if neg then -a.value else a.value)
  | .infinite _ => none

/-- The number `x` rounded to nearest with its sign; only zero itself becomes a zero. -/
def Rounds (x : ℚ) : Rational → Prop
  | .zero _ => x = 0
  | .finite neg a => neg = decide (x < 0) ∧ a.Nearest |x|
  | .infinite _ => False

theorem value?_finite_iff :
    (finite neg a).value? = some x ↔ neg = decide (x < 0) ∧ a.value = |x| := by
  have hpos := a.value_pos
  rw [value?, Option.some.injEq]
  cases neg with
  | false =>
    rw [if_neg Bool.false_ne_true, eq_comm (a := false), decide_eq_false_iff_not, not_lt]
    constructor
    · rintro rfl
      exact ⟨hpos.le, (abs_of_pos hpos).symm⟩
    · rintro ⟨nonneg, h⟩
      rw [h, abs_of_nonneg nonneg]
  | true =>
    rw [if_pos rfl, eq_comm (a := true), decide_eq_true_eq]
    constructor
    · rintro rfl
      exact ⟨neg_neg_of_pos hpos, by rw [abs_neg, abs_of_pos hpos]⟩
    · rintro ⟨negative, h⟩
      rw [h, abs_of_neg negative, neg_neg]

theorem value?_finite_ne_zero (h : (finite neg a).value? = some x) : x ≠ 0 := by
  have := (value?_finite_iff.mp h).2 ▸ a.value_pos
  exact abs_pos.mp this

theorem Rounds.value?_eq (h : r.Rounds x) (exact : x ≠ 0 → ∃ b : Magnitude, b.value = |x|) :
    r.value? = some x := by
  cases r with
  | zero neg => rw [show x = 0 from h, value?]
  | finite neg a =>
    obtain ⟨sign, nearest⟩ := h
    obtain ⟨b, hb⟩ := exact (abs_ne_zero.mp nearest.ne_zero)
    exact value?_finite_iff.mpr ⟨sign, nearest.value_eq hb⟩
  | infinite neg => exact h.elim

theorem rounds_of_value? (h : r.value? = some x) : r.Rounds x := by
  cases r with
  | zero neg => exact (Option.some.inj h).symm
  | finite neg a =>
    obtain ⟨sign, hx⟩ := value?_finite_iff.mp h
    refine ⟨sign, fun b => ?_⟩
    rw [← hx, sub_self, abs_zero]
    refine ⟨abs_nonneg _, fun equal => .inl ?_⟩
    exact (Magnitude.eq_of_value_eq (sub_eq_zero.mp (abs_eq_zero.mp equal))).symm
  | infinite neg => cases h

theorem compare_of_value? (hp : p.value? = some x) (hq : q.value? = some y) :
    p.compare q = Ord.compare x y := by
  cases p with
  | zero n =>
    cases hp
    cases q with
    | zero m =>
      cases hq
      exact (compare_eq_iff_eq.mpr rfl).symm
    | finite m b =>
      obtain ⟨rfl, _⟩ := value?_finite_iff.mp hq
      rw [compare]
      rcases lt_or_gt_of_ne (value?_finite_ne_zero hq) with negative | positive
      · rw [decide_eq_true negative, if_pos rfl, compare_gt_iff_gt.mpr negative]
      · rw [decide_eq_false positive.not_gt, if_neg Bool.false_ne_true, compare_lt_iff_lt.mpr positive]
    | infinite m => cases hq
  | finite n a =>
    cases q with
    | zero m =>
      cases hq
      obtain ⟨rfl, _⟩ := value?_finite_iff.mp hp
      rw [compare]
      rcases lt_or_gt_of_ne (value?_finite_ne_zero hp) with negative | positive
      · rw [decide_eq_true negative, if_pos rfl, compare_lt_iff_lt.mpr negative]
      · rw [decide_eq_false positive.not_gt, if_neg Bool.false_ne_true, compare_gt_iff_gt.mpr positive]
    | finite m b =>
      have ha := a.value_pos
      have hb := b.value_pos
      cases n with
      | false =>
        cases hp
        cases m with
        | false =>
          cases hq
          exact a.compare_eq_compare_value b
        | true =>
          cases hq
          exact (compare_gt_iff_gt.mpr ((neg_neg_of_pos hb).trans ha)).symm
      | true =>
        cases hp
        cases m with
        | false =>
          cases hq
          exact (compare_lt_iff_lt.mpr ((neg_neg_of_pos ha).trans hb)).symm
        | true =>
          cases hq
          refine (b.compare_eq_compare_value a).trans ?_
          have anti : StrictAnti (Neg.neg : ℚ → ℚ) := fun _ _ => neg_lt_neg
          rw [← cmp_eq_compare, ← cmp_eq_compare]
          exact (anti.cmp_map_eq a.value b.value).symm
    | infinite m => cases hq
  | infinite n => cases hp

theorem rounds_ofQuotient {num den : ℕ} {exp : ℤ} (hd : den ≠ 0) (hx : |x| = num / den * 2 ^ exp)
    (sign : x ≠ 0 → neg = decide (x < 0)) (range : x ≠ 0 → InRange |x|) :
    (ofQuotient neg num den exp).Rounds x := by
  by_cases hn : num = 0
  · rw [ofQuotient, if_pos hn]
    rw [hn, Nat.cast_zero, zero_div, zero_mul] at hx
    exact abs_eq_zero.mp hx
  · obtain ⟨a, nearest, _, packed⟩ := exists_nearest_quotient hn hd hx
    have hne : x ≠ 0 := by
      rintro rfl
      rw [abs_zero, eq_comm, mul_eq_zero, div_eq_zero_iff] at hx
      have := zpow_ne_zero exp (two_ne_zero (α := ℚ))
      simp_all
    rw [packed neg (range hne).1 ((range hne).exp_le nearest)]
    exact ⟨sign hne, nearest⟩

/-- One exact quotient of the size of `x`, packed with the sign of `x`. -/
def Packs (x : ℚ) (r : Rational) : Prop :=
  ∃ (neg : Bool) (num den : ℕ) (exp : ℤ), den ≠ 0 ∧ |x| = num / den * 2 ^ exp ∧
    (x ≠ 0 → neg = decide (x < 0)) ∧ r = ofQuotient neg num den exp

theorem Packs.rounds (h : r.Packs x) (range : x ≠ 0 → InRange |x|) : r.Rounds x := by
  obtain ⟨neg, num, den, exp, hd, hx, sign, rfl⟩ := h
  exact rounds_ofQuotient hd hx sign range

theorem packs_ofScaled (n : ℤ) {exp : ℤ} (hx : x = n * 2 ^ exp) : (ofScaled n exp).Packs x := by
  have hscale : (0 : ℚ) < 2 ^ exp := zpow_pos two_pos exp
  refine ⟨_, _, 1, _, one_ne_zero, ?_, fun _ => ?_, rfl⟩
  · rw [hx, abs_mul, abs_of_pos hscale, Nat.cast_natAbs, Nat.cast_one, div_one, Int.cast_abs]
  · rw [hx, decide_eq_decide, ← zero_mul ((2 : ℚ) ^ exp), mul_lt_mul_iff_left₀ hscale,
      Int.cast_lt_zero]

theorem signed_mul (neg : Bool) (k : ℕ) (c : ℚ) :
    (signed neg k : ℚ) * c = if neg then -(k * c) else k * c := by
  cases neg <;> simp [signed]

theorem packs_sumFinite {n m : Bool} {b : Magnitude} (order : b.exp ≤ a.exp)
    (gap : a.exp - b.exp ≤ exactGap) (ha : (finite n a).value? = some x)
    (hb : (finite m b).value? = some y) : (sumFinite n a m b).Packs (x + y) := by
  have hshift : (2 : ℚ) ^ (a.exp - b.exp).toNat * 2 ^ (b.exp - 64) = 2 ^ (a.exp - 64) :=
    two_pow_mul (by omega)
  unfold sumFinite
  rw [if_pos (by omega)]
  apply packs_ofScaled
  push_cast
  rw [add_mul, signed_mul, signed_mul]
  push_cast
  rw [mul_assoc, hshift, ← Option.some.inj ha, ← Option.some.inj hb]
  rfl

/-- The exponents of two numbers are not so far apart that a sum is formed by guard bits. -/
def Close (p q : Rational) : Prop :=
  ∀ n a m b, p = .finite n a → q = .finite m b →
    a.exp - b.exp ≤ exactGap ∧ b.exp - a.exp ≤ exactGap

theorem rounds_add (hp : p.value? = some x) (hq : q.value? = some y) (close : Close p q)
    (range : x + y ≠ 0 → InRange |x + y|) : ∃ r, add p q = .ok r ∧ r.Rounds (x + y) := by
  cases p with
  | zero n =>
    cases hp
    cases q with
    | zero m =>
      cases hq
      exact ⟨_, rfl, add_zero 0⟩
    | finite m b =>
      rw [zero_add]
      exact ⟨_, rfl, rounds_of_value? hq⟩
    | infinite m => cases hq
  | finite n a =>
    cases q with
    | zero m =>
      cases hq
      rw [add_zero]
      exact ⟨_, rfl, rounds_of_value? hp⟩
    | finite m b =>
      obtain ⟨gap, gap'⟩ := close n a m b rfl rfl
      refine ⟨_, rfl, ?_⟩
      split
      next less =>
        rw [add_comm]
        exact (packs_sumFinite less.le gap' hq hp).rounds (by rwa [add_comm y x])
      next notLess => exact (packs_sumFinite (not_lt.mp notLess) gap hp hq).rounds range
    | infinite m => cases hq
  | infinite n => cases hp

theorem value?_negate (h : p.value? = some x) : p.negate.value? = some (-x) := by
  cases p with
  | zero n =>
    cases h
    rw [neg_zero]
    rfl
  | finite n a =>
    cases h
    cases n <;> simp [negate, value?]
  | infinite n => cases h

theorem rounds_sub (hp : p.value? = some x) (hq : q.value? = some y) (close : Close p q)
    (range : x - y ≠ 0 → InRange |x - y|) : ∃ r, sub p q = .ok r ∧ r.Rounds (x - y) := by
  have hsub : sub p q = add p q.negate := by
    cases p with
    | infinite n => cases hp
    | zero n => rfl
    | finite n a => rfl
  rw [hsub, sub_eq_add_neg]
  refine rounds_add hp (value?_negate hq) ?_ (by rwa [← sub_eq_add_neg])
  intro n a m b hpa hqb
  refine close n a (!m) b hpa ?_
  rw [← negate_negate q, hqb]
  rfl

theorem sign_mul (hx : x ≠ 0) (hy : y ≠ 0) :
    (decide (x < 0) != decide (y < 0)) = decide (x * y < 0) := by
  rcases lt_or_gt_of_ne hx with hx | hx <;> rcases lt_or_gt_of_ne hy with hy | hy
  · simp [hx, hy, (mul_pos_of_neg_of_neg hx hy).not_gt]
  · simp [hx, hy.not_gt, mul_neg_of_neg_of_pos hx hy]
  · simp [hx.not_gt, hy, mul_neg_of_pos_of_neg hx hy]
  · simp [hx.not_gt, hy.not_gt, (mul_pos hx hy).not_gt]

theorem sign_div (hx : x ≠ 0) (hy : y ≠ 0) :
    (decide (x < 0) != decide (y < 0)) = decide (x / y < 0) := by
  have hinv : decide (y < 0) = decide (y⁻¹ < 0) := decide_eq_decide.mpr inv_lt_zero.symm
  rw [hinv, sign_mul hx (inv_ne_zero hy), div_eq_mul_inv]

section Products

variable {n m : Bool} {b : Magnitude}

theorem packs_mul (ha : (finite n a).value? = some x) (hb : (finite m b).value? = some y) :
    (ofQuotient (n != m) (a.mant * b.mant) 1 (a.exp + b.exp - 128)).Packs (x * y) := by
  obtain ⟨signX, absX⟩ := value?_finite_iff.mp ha
  obtain ⟨signY, absY⟩ := value?_finite_iff.mp hb
  refine ⟨_, _, 1, _, one_ne_zero, ?_, fun _ => ?_, rfl⟩
  · rw [abs_mul, ← absX, ← absY, Magnitude.value, Magnitude.value, mul_mul_mul_comm,
      two_zpow_mul (k := a.exp + b.exp - 128) (by ring), Nat.cast_one, div_one, Nat.cast_mul]
  · rw [signX, signY, sign_mul (value?_finite_ne_zero ha) (value?_finite_ne_zero hb)]

theorem packs_div (ha : (finite n a).value? = some x) (hb : (finite m b).value? = some y) :
    (ofQuotient (n != m) a.mant b.mant (a.exp - b.exp)).Packs (x / y) := by
  obtain ⟨signX, absX⟩ := value?_finite_iff.mp ha
  obtain ⟨signY, absY⟩ := value?_finite_iff.mp hb
  have hmant : b.mant ≠ 0 := (Nat.lt_of_lt_of_le (by decide) b.normal.1).ne'
  refine ⟨_, _, _, _, hmant, ?_, fun _ => ?_, rfl⟩
  · rw [abs_div, ← absX, ← absY, Magnitude.value, Magnitude.value, mul_div_mul_comm,
      ← zpow_sub₀ two_ne_zero]
    congr 2
    ring
  · rw [signX, signY, sign_div (value?_finite_ne_zero ha) (value?_finite_ne_zero hb)]

end Products

theorem rounds_mul (hp : p.value? = some x) (hq : q.value? = some y)
    (range : x * y ≠ 0 → InRange |x * y|) : ∃ r, mul p q = .ok r ∧ r.Rounds (x * y) := by
  cases p with
  | zero n =>
    cases hp
    cases q with
    | zero m => exact ⟨_, rfl, zero_mul y⟩
    | finite m b => exact ⟨_, rfl, zero_mul y⟩
    | infinite m => cases hq
  | finite n a =>
    cases q with
    | zero m =>
      cases hq
      exact ⟨_, rfl, mul_zero x⟩
    | finite m b => exact ⟨_, rfl, (packs_mul hp hq).rounds range⟩
    | infinite m => cases hq
  | infinite n => cases hp

theorem rounds_div (hp : p.value? = some x) (hq : q.value? = some y) (hy : y ≠ 0)
    (range : x / y ≠ 0 → InRange |x / y|) : ∃ r, div p q = .ok r ∧ r.Rounds (x / y) := by
  cases q with
  | zero m =>
    cases hq
    exact absurd rfl hy
  | finite m b =>
    cases p with
    | zero n =>
      cases hp
      exact ⟨_, rfl, zero_div y⟩
    | finite n a => exact ⟨_, rfl, (packs_div hp hq).rounds range⟩
    | infinite n => cases hp
  | infinite m => cases hq

end StackMachine.Rational
