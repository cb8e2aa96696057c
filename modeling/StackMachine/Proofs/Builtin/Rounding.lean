import StackMachine.Proofs.Builtin.Calculation
import StackMachine.Proofs.Rational.Operation
/-! Arithmetic of Rationals on the stack: every pair of operands gives the exact result,
rounded once, or is one of the pairs that are refused. -/
namespace StackMachine

namespace Rational.Operation

variable {o : Operation} {p q r : Rational}

def nr : Operation → Int32
  | .add => Builtin.Nr.add
  | .sub => Builtin.Nr.sub
  | .mul => Builtin.Nr.mul
  | .div => Builtin.Nr.div

def onValues : Operation → Value → Value → Except Fault Value
  | .add => Builtin.arithmetic (Builtin.total (· + ·)) (some (Builtin.rounded Rational.add))
  | .sub => Builtin.arithmetic (Builtin.total (· - ·)) (some (Builtin.rounded Rational.sub))
  | .mul => Builtin.arithmetic (Builtin.total (· * ·)) (some (Builtin.rounded Rational.mul))
  | .div => Builtin.arithmetic Builtin.divide (some Builtin.divideRational)

theorem resolve_nr (o : Operation) (held : Nat) (h : 2 ≤ held) :
    Builtin.registry.resolve o.nr held = .ok (Builtin.binary o.onValues) := by
  cases o <;> exact Builtin.resolve_entry rfl rfl rfl h

theorem onValues_rational (nonzero : o = .div → q.isZero = false) :
    o.onValues (.rational p) (.rational q) = .rational <$> Builtin.rounded o.apply p q := by
  cases o with
  | add => rfl
  | sub => rfl
  | mul => rfl
  | div => simp [onValues, apply, Builtin.arithmetic, Builtin.divideRational, nonzero rfl]

theorem onValues_of_ok (nonzero : o = .div → q.isZero = false) (h : o.apply p q = .ok r) :
    o.onValues (.rational p) (.rational q) = .ok (.rational r) := by
  rw [onValues_rational nonzero, Builtin.rounded, h]
  rfl

theorem onValues_of_lacks (h : o.Lacks p q) :
    ∃ f, o.onValues (.rational p) (.rational q) = .error f ∧ f.kind = .invalidOperand := by
  have nonzero : o = .div → q.isZero = false := by
    rintro rfl
    cases h
    rfl
  obtain ⟨cause, hcause⟩ := h.undefined
  refine ⟨.invalidOperand (.undefined cause), ?_, rfl⟩
  rw [onValues_rational nonzero, Builtin.rounded, hcause]
  rfl

theorem onValues_div_zero (h : q.isZero = true) :
    Operation.div.onValues (.rational p) (.rational q) = .error .divisionByZero := by
  simp [onValues, Builtin.arithmetic, Builtin.divideRational, h]

end Rational.Operation

namespace Engine

open Rational Rational.Operation

variable {e : Engine} {p q : Rational}

/-- Rationals are added, subtracted, multiplied and divided exactly and rounded once, to the
nearest number and a tie to the even mantissa, as far as the exponents reach; a product below
the least normal number is lost. Division by a zero and the pairs without a result are
refused, and no other pair is. -/
theorem rationals_are_rounded_once (hreg : e.registry = some Builtin.registry) (o : Operation)
    (hp : p.Storable) (hq : q.Storable) (room : e.HasRoomFor [.rational p, .rational q]) :
    (o = .div → q.isZero = true →
      e.Refuses (dispatchOn o.nr (.rational p) (.rational q)) .divisionByZero) ∧
    (o.Lacks p q → e.Refuses (dispatchOn o.nr (.rational p) (.rational q)) .invalidOperand) ∧
    (¬ o.Lacks p q → (o = .div → q.isZero = false) →
      ∃ r, r.Storable ∧ e.Yields (dispatchOn o.nr (.rational p) (.rational q)) [.rational r] ∧
        ∀ x y, p.value? = some x → q.value? = some y → o.exact x y ≠ 0 →
          ∃ m : Magnitude, m.Nearest |o.exact x y| ∧
            (o.Reaches (o.exact x y) m → m.exp ≤ maxExp →
              r = .finite (decide (o.exact x y < 0)) m) ∧
            (o = .mul → |x * y| < 2 ^ (minExp - 1) → r = .zero (decide (x * y < 0)))) := by
  have known := o.resolve_nr
  refine ⟨?_, ?_, ?_⟩
  · rintro rfl zero
    exact refuses_dispatchOn hreg known room (onValues_div_zero zero)
  · intro lacks
    obtain ⟨f, hf, kind⟩ := onValues_of_lacks lacks
    rw [← kind]
    exact refuses_dispatchOn hreg known room hf
  · intro defined nonzero
    obtain ⟨r, hr, storable⟩ := exists_apply hp hq defined nonzero
    have yields := yields_dispatchOn hreg known room (onValues_of_ok nonzero hr)
      (by simp [Value.footprint])
    refine ⟨r, storable, yields, ?_⟩
    intro x y hx hy hz
    obtain ⟨m, nearest, _⟩ := Magnitude.exists_nearest (abs_pos.mpr hz)
    refine ⟨m, nearest, ?_, ?_⟩
    · intro reaches high
      have low := reaches.two_zpow_le hp hq hx hy nearest
      have rounded := apply_eq_finite hp hq hx hy nearest low high
      exact Except.ok.inj (hr.symm.trans rounded)
    · rintro rfl small
      exact Except.ok.inj (hr.symm.trans (mul_of_small hx hy hz small))

/-- One less a number below the 64 bits, and below the guard bits, is one again. -/
theorem one_absorbs_a_distant_number :
    (finite false (.least 1)).Storable ∧ (finite false (.least (-999))).Storable ∧
    (create { capacity := 2 }).HasRoomFor
      [.rational (.finite false (.least 1)), .rational (.finite false (.least (-999)))] ∧
    (create { capacity := 2 }).Yields
      (dispatchOn Builtin.Nr.sub (.rational (.finite false (.least 1)))
        (.rational (.finite false (.least (-999)))))
      [.rational (.finite false (.least 1))] := by
  have one : (finite false (.least 1)).Storable := by decide
  have distant : (finite false (.least (-999))).Storable := by decide
  have room : (create { capacity := 2 }).HasRoomFor
      [.rational (.finite false (.least 1)), .rational (.finite false (.least (-999)))] :=
    ⟨by decide, by decide⟩
  refine ⟨one, distant, room, ?_⟩
  obtain ⟨r, _, yields, rounded⟩ := (rationals_are_rounded_once rfl .sub one distant room).2.2
    nofun nofun
  have hone : (finite false (.least 1)).value? = some 1 := by
    rw [value?, Magnitude.value_least]
    norm_num
  have hdistant : (finite false (.least (-999))).value? = some (2 ^ (-1000 : ℤ)) := by
    rw [value?, Magnitude.value_least]
    norm_num
  have small : |-(2 ^ (-1000 : ℤ) : ℚ)| < 2 ^ ((Magnitude.least 1).exp - 66) := by
    rw [abs_neg, abs_of_pos (zpow_pos two_pos _)]
    exact zpow_lt_zpow_right₀ one_lt_two (by decide)
  obtain ⟨nearestOne, sign, _⟩ := nearest_add hone small
  rw [← sub_eq_add_neg] at nearestOne sign
  obtain ⟨m, nearest, result, -⟩ := rounded _ _ hone hdistant (abs_ne_zero.mp nearestOne.ne_zero)
  obtain rfl := nearestOne.unique nearest
  have reaches : minExp ≤ (Magnitude.least 1).exp := by decide
  rw [result reaches (by decide)] at yields
  rw [← exact] at sign
  rw [← sign] at yields
  exact yields

/-- Two magnitudes of which the product is short of the least one in range by a `2^126`-th
part. -/
def tinyFactor : Magnitude := ⟨2 ^ 63 + 1, -1073741824, by decide⟩
def tinyCofactor : Magnitude := ⟨2 ^ 64 - 2, -1073741824, by decide⟩

theorem tinyFactor_mul :
    tinyFactor.value * tinyCofactor.value = 2 ^ (minExp - 1) - 2 ^ (minExp - 127) := by
  have mantissas : (tinyFactor.mant : ℚ) * tinyCofactor.mant = 2 ^ 127 - 2 ^ 1 := by
    norm_num [tinyFactor, tinyCofactor]
  rw [Magnitude.value, Magnitude.value, mul_mul_mul_comm,
    two_zpow_mul (k := minExp - 128) (by decide), mantissas, sub_mul,
    two_pow_mul (k := minExp - 1) (by decide), two_pow_mul (k := minExp - 127) (by decide)]

/-- The number nearest to this product is the least one in range, yet the product is lost:
its range is decided before it is rounded. -/
theorem tiny_product_is_lost :
    (finite false tinyFactor).Storable ∧ (finite false tinyCofactor).Storable ∧
    (Magnitude.least minExp).Nearest |tinyFactor.value * tinyCofactor.value| ∧
    (finite false (Magnitude.least minExp)).Storable ∧
    (create { capacity := 2 }).HasRoomFor
      [.rational (.finite false tinyFactor), .rational (.finite false tinyCofactor)] ∧
    (create { capacity := 2 }).Yields
      (dispatchOn Builtin.Nr.mul (.rational (.finite false tinyFactor))
        (.rational (.finite false tinyCofactor)))
      [.rational (.zero false)] := by
  have room : (create { capacity := 2 }).HasRoomFor
      [.rational (.finite false tinyFactor), .rational (.finite false tinyCofactor)] :=
    ⟨by decide, by decide⟩
  refine ⟨by decide, by decide, ?_, by decide, room, ?_⟩
  · have below : (2 : ℚ) ^ (minExp - 127) < 2 ^ (minExp - 1) :=
      zpow_lt_zpow_right₀ one_lt_two (by decide)
    apply Magnitude.nearest_of_close
    rw [tinyFactor_mul, Magnitude.value_least, abs_of_pos (sub_pos.mpr below), sub_sub_cancel_left,
      abs_neg, abs_of_pos (zpow_pos two_pos _)]
    exact zpow_lt_zpow_right₀ one_lt_two (by decide)
  · apply yields_dispatchOn rfl (resolve_nr .mul) room
    · rfl
    · decide

end Engine
end StackMachine
