import StackMachine.Proofs.Rational.Separation
/-! The four operations on any two numbers, however far apart. A sum of numbers far apart
rounds to the larger one, as does the sum that is formed in its place. Where the rounded
exponent is in range, so was the exact result, unless it is a product. -/
namespace StackMachine

namespace Magnitude

variable {a b : Magnitude} {x : ℚ} {exp : ℤ}

def greatest (exp : ℤ) : Magnitude := ⟨2 ^ 64 - 1, exp, by decide⟩

theorem value_greatest (exp : ℤ) : (greatest exp).value = 2 ^ exp - 2 ^ (exp - 64) := by
  have hmant : ((greatest exp).mant : ℚ) = 2 ^ 64 - 1 := by norm_num [greatest]
  have htop : (2 : ℚ) ^ 64 * 2 ^ (exp - 64) = 2 ^ exp := two_pow_mul (by push_cast; ring)
  rw [value, hmant, sub_mul, one_mul]
  exact congrArg (· - _) htop

theorem value_le_greatest (h : a.exp ≤ exp) : a.value ≤ (greatest exp).value := by
  rcases h.lt_or_eq with below | rfl
  · exact (value_lt_of_exp_lt below).le
  · apply mul_le_mul_of_nonneg_right _ (zpow_nonneg zero_le_two _)
    have := a.normal
    exact_mod_cast (by simp only [greatest]; omega : a.mant ≤ (greatest a.exp).mant)

theorem apart (h : b ≠ a) : (2 : ℚ) ^ (a.exp - 65) ≤ |a.value - b.value| := by
  rcases le_or_gt a.exp b.exp with hexp | hexp
  · obtain ⟨n, hn⟩ := exists_value_eq_of_exp_le hexp
    have hunit : (0 : ℚ) < 2 ^ (a.exp - 64) := zpow_pos two_pos _
    have distinct : (a.mant : ℤ) - n ≠ 0 := by
      intro equal
      have same : a.mant = n := by omega
      exact h (eq_of_value_eq (by rw [hn, ← same, value]))
    have one_le : (1 : ℚ) ≤ |(a.mant : ℚ) - n| := by exact_mod_cast Int.one_le_abs distinct
    rw [hn, value, ← sub_mul, abs_mul, abs_of_pos hunit]
    calc (2 : ℚ) ^ (a.exp - 65) ≤ 1 * 2 ^ (a.exp - 64) := by
          rw [one_mul]
          exact zpow_le_zpow_right₀ one_le_two (by omega)
      _ ≤ |(a.mant : ℚ) - n| * 2 ^ (a.exp - 64) := by gcongr
  · have below : b.value ≤ (greatest (a.exp - 1)).value := value_le_greatest (by omega)
    rw [value_greatest, show a.exp - 1 - 64 = a.exp - 65 by ring] at below
    linarith [a.two_zpow_le_value, le_abs_self (a.value - b.value)]

theorem nearest_of_close (h : |x - a.value| < 2 ^ (a.exp - 66)) : a.Nearest x := by
  intro b
  by_cases same : b = a
  · subst same
    exact ⟨le_rfl, fun _ => .inl rfl⟩
  · have far := apart same
    rw [← two_pow_mul (i := 1) (j := a.exp - 66) (by push_cast; ring)] at far
    have between := abs_sub_le a.value x b.value
    rw [abs_sub_comm a.value x] at between
    have strict : |x - a.value| < |x - b.value| := by linarith
    exact ⟨strict.le, fun equal => absurd equal strict.ne'⟩

/-- Numbers that stay clear of the end of a binade are not rounded out of it. -/
theorem Nearest.two_zpow_le (h : a.Nearest x) (hexp : exp ≤ a.exp)
    (clear : x < 2 ^ (exp - 1) → x ≤ (greatest (exp - 1)).value) : (2 : ℚ) ^ (exp - 1) ≤ x := by
  by_contra below
  have inside := h.value_le_of_le (clear (not_le.mp below))
  have outside : (greatest (exp - 1)).value < a.value :=
    value_lt_of_exp_lt (by simp only [greatest]; omega)
  exact absurd inside outside.not_ge

theorem value_le_of_lt (h : a.value < b.value) : a.value ≤ b.value - b.value / 2 ^ 64 := by
  rcases le_or_gt b.exp a.exp with hexp | hexp
  · obtain ⟨n, hn⟩ := exists_value_eq_of_exp_le hexp
    have hunit : (0 : ℚ) < 2 ^ (b.exp - 64) := zpow_pos two_pos _
    have less : n < b.mant := by
      rw [hn, value, mul_lt_mul_iff_left₀ hunit] at h
      exact_mod_cast h
    have step : (n : ℚ) + 1 ≤ b.mant := by exact_mod_cast less
    have short : (b.mant : ℚ) ≤ 2 ^ 64 := by exact_mod_cast b.normal.2.le
    have part : (n : ℚ) ≤ b.mant - b.mant / 2 ^ 64 := by linarith
    rw [hn, value, mul_div_right_comm, ← sub_mul]
    exact mul_le_mul_of_nonneg_right part hunit.le
  · have below : a.value ≤ (greatest (b.exp - 1)).value := value_le_greatest (by omega)
    have htop : (2 : ℚ) ^ 64 * 2 ^ (b.exp - 1 - 64) = 2 ^ (b.exp - 1) :=
      two_pow_mul (by push_cast; ring)
    rw [value_greatest] at below
    linarith [b.two_zpow_le_value]

theorem quotient_clear (a b : Magnitude) (h : a.value / b.value < 2 ^ exp) :
    a.value / b.value ≤ (greatest exp).value := by
  have hb := b.value_pos
  have hscaled : (⟨b.mant, b.exp + exp, b.normal⟩ : Magnitude).value = 2 ^ exp * b.value := by
    rw [value, value, mul_left_comm, two_zpow_mul (k := b.exp + exp - 64) (by ring)]
  have htop : (2 : ℚ) ^ 64 * 2 ^ (exp - 64) = 2 ^ exp := two_pow_mul (by push_cast; ring)
  rw [div_lt_iff₀ hb, ← hscaled] at h
  have below := value_le_of_lt h
  rw [hscaled, ← htop] at below
  rw [value_greatest, div_le_iff₀ hb, sub_mul, ← htop]
  linarith

end Magnitude

namespace Rational

variable {p q r : Rational} {x y : ℚ} {neg : Bool} {a b m : Magnitude}

/-- The exponent of a finite number is one that the program can store. -/
def Storable : Rational → Prop
  | .finite _ a => minExp ≤ a.exp ∧ a.exp ≤ maxExp
  | _ => True

instance : DecidablePred Storable
  | .zero _ => .isTrue trivial
  | .finite _ a => inferInstanceAs (Decidable (minExp ≤ a.exp ∧ a.exp ≤ maxExp))
  | .infinite _ => .isTrue trivial

theorem Storable.negate (h : p.Storable) : p.negate.Storable := by
  cases p with
  | zero n => trivial
  | finite n a => exact h
  | infinite n => trivial

theorem storable_ofQuotient (neg : Bool) (num den : ℕ) (exp : ℤ) :
    (ofQuotient neg num den exp).Storable := by
  unfold ofQuotient
  split
  · trivial
  · dsimp only
    split
    · trivial
    · split
      · trivial
      · unfold pack
        split
        · constructor <;> dsimp only <;> omega
        · split
          · constructor <;> dsimp only <;> omega
          · trivial

theorem storable_sumFinite (n : Bool) (a : Magnitude) (k : Bool) (b : Magnitude) :
    (sumFinite n a k b).Storable := by
  unfold sumFinite
  dsimp only
  split
  · exact storable_ofQuotient _ _ _ _
  · exact storable_ofQuotient _ _ _ _

theorem Storable.exists_multiple (h : p.Storable) (hp : p.value? = some x) :
    ∃ i : ℤ, x = i * 2 ^ (minExp - 64) := by
  cases p with
  | zero n =>
    cases hp
    exact ⟨0, by simp⟩
  | finite n a =>
    obtain ⟨k, hk⟩ := Magnitude.exists_value_eq_of_exp_le h.1
    cases hp
    cases n with
    | false => exact ⟨k, by simpa using hk⟩
    | true => exact ⟨-k, by simp [hk]⟩
  | infinite n => cases hp

theorem sum_clear (hp : p.Storable) (hq : q.Storable) (hx : p.value? = some x)
    (hy : q.value? = some y) (h : |x + y| < 2 ^ (minExp - 1)) :
    |x + y| ≤ (Magnitude.greatest (minExp - 1)).value := by
  obtain ⟨i, rfl⟩ := hp.exists_multiple hx
  obtain ⟨j, rfl⟩ := hq.exists_multiple hy
  have hunit : (0 : ℚ) < 2 ^ (minExp - 64) := zpow_pos two_pos _
  have htop : (2 : ℚ) ^ 63 * 2 ^ (minExp - 64) = 2 ^ (minExp - 1) := two_pow_mul (by omega)
  have hhalf : (2 : ℚ) ^ (minExp - 1 - 64) ≤ 2 ^ (minExp - 64) :=
    zpow_le_zpow_right₀ one_le_two (by omega)
  have hsum : |(i * 2 ^ (minExp - 64) + j * 2 ^ (minExp - 64) : ℚ)| =
      ((i + j).natAbs : ℕ) * 2 ^ (minExp - 64) := by
    rw [← add_mul, abs_mul, abs_of_pos hunit, Nat.cast_natAbs]
    push_cast
    rfl
  rw [hsum, ← htop, mul_lt_mul_iff_left₀ hunit] at h
  have step : ((i + j).natAbs : ℚ) + 1 ≤ 2 ^ 63 := by exact_mod_cast h
  rw [hsum, Magnitude.value_greatest, ← htop]
  linarith [mul_le_mul_of_nonneg_right step hunit.le]

section Results

variable {n k : Bool}

theorem num_ne_zero {num den : ℕ} {exp : ℤ} (hx : x ≠ 0)
    (hquotient : |x| = num / den * 2 ^ exp) : num ≠ 0 := by
  rintro rfl
  rw [Nat.cast_zero, zero_div, zero_mul] at hquotient
  exact hx (abs_eq_zero.mp hquotient)

theorem Packs.eq_finite (h : r.Packs x) (hx : x ≠ 0) (nearest : m.Nearest |x|)
    (low : 2 ^ (minExp - 1) ≤ |x|) (high : m.exp ≤ maxExp) : r = .finite (decide (x < 0)) m := by
  obtain ⟨neg, num, den, exp, hd, hquotient, sign, rfl⟩ := h
  obtain ⟨c, nearest', _, packed⟩ := exists_nearest_quotient (num_ne_zero hx hquotient) hd hquotient
  obtain rfl := nearest'.unique nearest
  rw [packed neg low high, sign hx]

theorem Packs.eq_zero (h : r.Packs x) (hx : x ≠ 0) (small : |x| < 2 ^ (minExp - 1)) :
    r = .zero (decide (x < 0)) := by
  obtain ⟨neg, num, den, exp, hd, hquotient, sign, rfl⟩ := h
  rw [ofQuotient_of_lt (num_ne_zero hx hquotient) hd hquotient small, sign hx]

theorem exists_finite (h : p.value? = some x) (hx : x ≠ 0) : ∃ n a, p = .finite n a := by
  cases p with
  | zero n =>
    cases h
    exact absurd rfl hx
  | finite n a => exact ⟨n, a, rfl⟩
  | infinite n => cases h

theorem eq_finite_of_value? (h : r.value? = some x) (nearest : m.Nearest |x|) :
    r = .finite (decide (x < 0)) m := by
  have rounds := rounds_of_value? h
  cases r with
  | zero neg => exact absurd (by rw [show x = 0 from rounds, abs_zero]) nearest.ne_zero
  | finite neg a => rw [rounds.1, rounds.2.unique nearest]
  | infinite neg => cases h

/-- A term this small next to a number changes neither its sign nor its rounding. -/
theorem nearest_add (ha : (finite n a).value? = some x) (small : |y| < 2 ^ (a.exp - 66)) :
    a.Nearest |x + y| ∧ n = decide (x + y < 0) ∧ (2 : ℚ) ^ (a.exp - 2) ≤ |x + y| := by
  obtain ⟨sign, hx⟩ := value?_finite_iff.mp ha
  have hlow := a.two_zpow_le_value
  have hhalf : (2 : ℚ) ^ 1 * 2 ^ (a.exp - 2) = 2 ^ (a.exp - 1) := two_pow_mul (by push_cast; ring)
  have htiny : (2 : ℚ) ^ (a.exp - 66) ≤ 2 ^ (a.exp - 2) := zpow_le_zpow_right₀ one_le_two (by omega)
  have hpos : (0 : ℚ) < 2 ^ (a.exp - 2) := zpow_pos two_pos _
  have difference : |(|x + y| - |x|)| ≤ |y| := by
    simpa using abs_abs_sub_abs_le (x + y) x
  refine ⟨Magnitude.nearest_of_close ?_, ?_, ?_⟩
  · rw [hx]
    exact difference.trans_lt small
  · obtain ⟨below, above⟩ := abs_le.mp small.le
    rw [sign, decide_eq_decide]
    rw [hx] at hlow
    constructor
    · intro negative
      rw [abs_of_neg negative] at hlow
      linarith
    · intro negative
      by_contra nonneg
      rw [abs_of_nonneg (not_lt.mp nonneg)] at hlow
      linarith
  · linarith [(abs_le.mp difference).1]

theorem exists_packs_of_wide (wide : exactGap < a.exp - b.exp) (ha : (finite n a).value? = some x) :
    ∃ t : ℚ, |t| < 2 ^ (a.exp - 66) ∧ (sumFinite n a k b).Packs (x + t) := by
  have hgap : (exactGap : ℤ) = 256 := rfl
  refine ⟨signed k 1 * 2 ^ (a.exp - 64 - exactGap), ?_, ?_⟩
  · have one : |(signed k 1 : ℚ)| = 1 := by cases k <;> simp [signed]
    rw [abs_mul, one, one_mul, abs_of_pos (zpow_pos two_pos _)]
    exact zpow_lt_zpow_right₀ one_lt_two (by omega)
  · have hshift : (2 : ℚ) ^ exactGap * 2 ^ (a.exp - 64 - exactGap) = 2 ^ (a.exp - 64) :=
      two_pow_mul (by ring)
    unfold sumFinite
    rw [if_neg (by omega)]
    apply packs_ofScaled
    rw [Int.cast_add, add_mul, signed_mul n]
    push_cast
    rw [mul_assoc, hshift, ← Option.some.inj ha]
    rfl

/-- Past the exact gap both the sum and the one formed in its place are the larger term. -/
theorem sumFinite_of_wide (wide : exactGap < a.exp - b.exp) (low : minExp ≤ b.exp)
    (high : a.exp ≤ maxExp) (ha : (finite n a).value? = some x) (hb : (finite k b).value? = some y)
    (nearest : m.Nearest |x + y|) : sumFinite n a k b = .finite (decide (x + y < 0)) m := by
  have hgap : (exactGap : ℤ) = 256 := rfl
  have small : |y| < 2 ^ (a.exp - 66) := by
    rw [← (value?_finite_iff.mp hb).2]
    exact b.value_lt_two_zpow.trans_le (zpow_le_zpow_right₀ one_le_two (by omega))
  obtain ⟨nearestSum, sign, _⟩ := nearest_add ha small
  obtain ⟨t, small', packs⟩ := exists_packs_of_wide (k := k) wide ha
  obtain ⟨nearestFormed, sign', large⟩ := nearest_add ha small'
  have inRange : (2 : ℚ) ^ (minExp - 1) ≤ 2 ^ (a.exp - 2) :=
    zpow_le_zpow_right₀ one_le_two (by omega)
  rw [packs.eq_finite (abs_ne_zero.mp nearestFormed.ne_zero) nearestFormed (inRange.trans large) high,
    ← sign', ← sign, nearestSum.unique nearest]

theorem sumFinite_eq_finite (order : b.exp ≤ a.exp) (storableA : (finite n a).Storable)
    (storableB : (finite k b).Storable) (ha : (finite n a).value? = some x)
    (hb : (finite k b).value? = some y) (nearest : m.Nearest |x + y|)
    (low : 2 ^ (minExp - 1) ≤ |x + y|) (high : m.exp ≤ maxExp) :
    sumFinite n a k b = .finite (decide (x + y < 0)) m := by
  rcases le_or_gt (a.exp - b.exp) exactGap with gap | wide
  · exact (packs_sumFinite order gap ha hb).eq_finite (abs_ne_zero.mp nearest.ne_zero) nearest low high
  · exact sumFinite_of_wide wide storableB.1 storableA.2 ha hb nearest

end Results

inductive Operation where
  | add
  | sub
  | mul
  | div

namespace Operation

/-- The operation on exact numbers. -/
def exact : Operation → ℚ → ℚ → ℚ
  | .add, x, y => x + y
  | .sub, x, y => x - y
  | .mul, x, y => x * y
  | .div, x, y => x / y

def apply : Operation → Rational → Rational → Except Undefined Rational
  | .add => Rational.add
  | .sub => Rational.sub
  | .mul => Rational.mul
  | .div => Rational.div

/-- No number is the result: opposite infinities added, equal ones subtracted, zero times
infinity, infinity over infinity. -/
inductive Lacks : Operation → Rational → Rational → Prop
  | opposite (n : Bool) : Lacks .add (.infinite n) (.infinite !n)
  | equal (n : Bool) : Lacks .sub (.infinite n) (.infinite n)
  | zeroInfinite (n k : Bool) : Lacks .mul (.zero n) (.infinite k)
  | infiniteZero (n k : Bool) : Lacks .mul (.infinite n) (.zero k)
  | infinities (n k : Bool) : Lacks .div (.infinite n) (.infinite k)

/-- The exponent is not too small, decided on the nearest number `m`, but for a product on
the exact result `z`. -/
def Reaches (z : ℚ) (m : Magnitude) : Operation → Prop
  | .mul => 2 ^ (minExp - 1) ≤ |z|
  | _ => minExp ≤ m.exp

variable {o : Operation}

theorem Lacks.undefined (h : o.Lacks p q) : ∃ cause, o.apply p q = .error cause := by
  cases h with
  | opposite n => cases n <;> exact ⟨_, rfl⟩
  | equal n => cases n <;> exact ⟨_, rfl⟩
  | zeroInfinite n k => exact ⟨_, rfl⟩
  | infiniteZero n k => exact ⟨_, rfl⟩
  | infinities n k => exact ⟨_, rfl⟩

theorem sub_eq_add (h : ¬ Lacks .sub p q) : Rational.sub p q = Rational.add p q.negate := by
  cases p with
  | zero n => rfl
  | finite n a => rfl
  | infinite n =>
    cases q with
    | zero k => rfl
    | finite k b => rfl
    | infinite k =>
      have distinct : n ≠ k := by
        rintro rfl
        exact h (.equal n)
      rw [Rational.sub, if_neg distinct, Rational.negate, Rational.add, if_pos (Bool.eq_not.mpr distinct)]

theorem Lacks.of_negate (h : Lacks .add p q.negate) : Lacks .sub p q := by
  generalize hq : q.negate = t at h
  cases h with
  | opposite n =>
    have same : q = .infinite n := by
      rw [← negate_negate q, hq]
      simp [Rational.negate]
    rw [same]
    exact .equal n

section Defined

variable (hp : p.Storable) (hq : q.Storable)

include hp hq

theorem exists_sum (defined : ¬ Lacks .add p q) : ∃ r, Rational.add p q = .ok r ∧ r.Storable := by
  cases p with
  | zero n => cases q <;> exact ⟨_, rfl, hq⟩
  | finite n a =>
    cases q with
    | zero k => exact ⟨_, rfl, hp⟩
    | finite k b =>
      refine ⟨_, rfl, ?_⟩
      split
      · exact storable_sumFinite k b n a
      · exact storable_sumFinite n a k b
    | infinite k => exact ⟨_, rfl, trivial⟩
  | infinite n =>
    cases q with
    | zero k => exact ⟨_, rfl, trivial⟩
    | finite k b => exact ⟨_, rfl, trivial⟩
    | infinite k =>
      have same : n = k := by
        by_contra distinct
        rw [Bool.eq_not.mpr (Ne.symm distinct)] at defined
        exact defined (.opposite n)
      exact ⟨.infinite n, by rw [Rational.add, if_pos same], trivial⟩

theorem exists_difference (defined : ¬ Lacks .sub p q) :
    ∃ r, Rational.sub p q = .ok r ∧ r.Storable := by
  rw [sub_eq_add defined]
  exact exists_sum hp hq.negate fun lacks => defined lacks.of_negate

omit hp hq in
theorem exists_product (defined : ¬ Lacks .mul p q) : ∃ r, Rational.mul p q = .ok r ∧ r.Storable := by
  cases p with
  | zero n =>
    cases q with
    | zero k => exact ⟨_, rfl, trivial⟩
    | finite k b => exact ⟨_, rfl, trivial⟩
    | infinite k => exact absurd (.zeroInfinite n k) defined
  | finite n a =>
    cases q with
    | zero k => exact ⟨_, rfl, trivial⟩
    | finite k b => exact ⟨_, rfl, storable_ofQuotient _ _ _ _⟩
    | infinite k => exact ⟨_, rfl, trivial⟩
  | infinite n =>
    cases q with
    | zero k => exact absurd (.infiniteZero n k) defined
    | finite k b => exact ⟨_, rfl, trivial⟩
    | infinite k => exact ⟨_, rfl, trivial⟩

omit hp hq in
theorem exists_quotient (defined : ¬ Lacks .div p q) (nonzero : q.isZero = false) :
    ∃ r, Rational.div p q = .ok r ∧ r.Storable := by
  cases q with
  | zero k => cases nonzero
  | finite k b =>
    cases p with
    | zero n => exact ⟨_, rfl, trivial⟩
    | finite n a => exact ⟨_, rfl, storable_ofQuotient _ _ _ _⟩
    | infinite n => exact ⟨_, rfl, trivial⟩
  | infinite k =>
    cases p with
    | zero n => exact ⟨_, rfl, trivial⟩
    | finite n a => exact ⟨_, rfl, trivial⟩
    | infinite n => exact absurd (.infinities n k) defined

theorem exists_apply (defined : ¬ o.Lacks p q) (nonzero : o = .div → q.isZero = false) :
    ∃ r, o.apply p q = .ok r ∧ r.Storable := by
  cases o with
  | add => exact exists_sum hp hq defined
  | sub => exact exists_difference hp hq defined
  | mul => exact exists_product defined
  | div => exact exists_quotient defined (nonzero rfl)

end Defined

/-- For sums, differences and quotients it does not matter whether the range is asked of
the exact result or of the rounded one. -/
theorem Reaches.two_zpow_le (h : o.Reaches (o.exact x y) m) (hp : p.Storable) (hq : q.Storable)
    (hx : p.value? = some x) (hy : q.value? = some y) (nearest : m.Nearest |o.exact x y|) :
    (2 : ℚ) ^ (minExp - 1) ≤ |o.exact x y| := by
  cases o with
  | add => exact nearest.two_zpow_le h (sum_clear hp hq hx hy)
  | sub =>
    have clear := sum_clear hp hq.negate hx (value?_negate hy)
    rw [← sub_eq_add_neg] at clear
    exact nearest.two_zpow_le h clear
  | mul => exact h
  | div =>
    have nonzero : x / y ≠ 0 := abs_ne_zero.mp nearest.ne_zero
    obtain ⟨n, a, rfl⟩ := exists_finite hx (div_ne_zero_iff.mp nonzero).1
    obtain ⟨k, b, rfl⟩ := exists_finite hy (div_ne_zero_iff.mp nonzero).2
    have quotient : |x / y| = a.value / b.value := by
      rw [abs_div, (value?_finite_iff.mp hx).2, (value?_finite_iff.mp hy).2]
    apply nearest.two_zpow_le h
    intro below
    rw [exact, quotient] at *
    exact a.quotient_clear b below

theorem add_eq_finite (hp : p.Storable) (hq : q.Storable) (hx : p.value? = some x)
    (hy : q.value? = some y) (nearest : m.Nearest |x + y|) (low : 2 ^ (minExp - 1) ≤ |x + y|)
    (high : m.exp ≤ maxExp) : Rational.add p q = .ok (.finite (decide (x + y < 0)) m) := by
  cases p with
  | infinite n => cases hx
  | zero n =>
    cases hx
    rw [zero_add] at *
    obtain ⟨k, b, rfl⟩ := exists_finite hy (abs_ne_zero.mp nearest.ne_zero)
    exact congrArg Except.ok (eq_finite_of_value? hy nearest)
  | finite n a =>
    cases q with
    | infinite k => cases hy
    | zero k =>
      cases hy
      rw [add_zero] at *
      exact congrArg Except.ok (eq_finite_of_value? hx nearest)
    | finite k b =>
      rw [Rational.add]
      apply congrArg Except.ok
      split
      next less =>
        rw [add_comm] at *
        exact sumFinite_eq_finite less.le hq hp hy hx nearest low high
      next notLess => exact sumFinite_eq_finite (not_lt.mp notLess) hp hq hx hy nearest low high

theorem apply_eq_finite (hp : p.Storable) (hq : q.Storable) (hx : p.value? = some x)
    (hy : q.value? = some y) (nearest : m.Nearest |o.exact x y|)
    (low : 2 ^ (minExp - 1) ≤ |o.exact x y|) (high : m.exp ≤ maxExp) :
    o.apply p q = .ok (.finite (decide (o.exact x y < 0)) m) := by
  have nonzero : o.exact x y ≠ 0 := abs_ne_zero.mp nearest.ne_zero
  cases o with
  | add => exact add_eq_finite hp hq hx hy nearest low high
  | sub =>
    have defined : ¬ Lacks .sub p q := by
      rintro ⟨⟩
      cases hx
    rw [apply, sub_eq_add defined]
    rw [exact, sub_eq_add_neg x y] at *
    exact add_eq_finite hp hq.negate hx (value?_negate hy) nearest low high
  | mul =>
    obtain ⟨n, a, rfl⟩ := exists_finite hx (mul_ne_zero_iff.mp nonzero).1
    obtain ⟨k, b, rfl⟩ := exists_finite hy (mul_ne_zero_iff.mp nonzero).2
    exact congrArg Except.ok ((packs_mul hx hy).eq_finite nonzero nearest low high)
  | div =>
    obtain ⟨n, a, rfl⟩ := exists_finite hx (div_ne_zero_iff.mp nonzero).1
    obtain ⟨k, b, rfl⟩ := exists_finite hy (div_ne_zero_iff.mp nonzero).2
    exact congrArg Except.ok ((packs_div hx hy).eq_finite nonzero nearest low high)

theorem mul_of_small (hx : p.value? = some x) (hy : q.value? = some y) (nonzero : x * y ≠ 0)
    (small : |x * y| < 2 ^ (minExp - 1)) :
    Rational.mul p q = .ok (.zero (decide (x * y < 0))) := by
  obtain ⟨n, a, rfl⟩ := exists_finite hx (mul_ne_zero_iff.mp nonzero).1
  obtain ⟨k, b, rfl⟩ := exists_finite hy (mul_ne_zero_iff.mp nonzero).2
  exact congrArg Except.ok ((packs_mul hx hy).eq_zero nonzero small)

end Operation
end Rational
end StackMachine
