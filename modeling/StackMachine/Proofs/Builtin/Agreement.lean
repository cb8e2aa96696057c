import StackMachine.Proofs.Builtin.Calculation
import StackMachine.Proofs.Rational.Integer
/-! Integers calculated with as Rationals. A 64-bit mantissa is enough for the order of
two words and for their sums, products and truncated quotients. -/
namespace StackMachine

theorem fit_eq_some {z : ℤ} {n : Int64} (h : n.toInt = z) : fit z = some n := by
  rw [← h, fit_toInt]

theorem fit_eq_none {z : ℤ} (h : ∀ n : Int64, n.toInt ≠ z) : fit z = none := by
  rw [fit, if_neg]
  intro inside
  rw [Int64.toInt_minValue, Int64.toInt_maxValue] at inside
  exact h (.ofInt z) (Int64.toInt_ofInt_of_le inside.1 (by omega))

theorem natAbs_toInt_le (n : Int64) : n.toInt.natAbs ≤ 2 ^ 63 := by
  have := n.toInt_lt
  have := n.le_toInt
  omega

namespace Builtin

variable {r : Rational} (a b : Int64)

theorem asIntegerValue_of_some {n : Int64} (h : r.toInt64? = some n) :
    asIntegerValue (.rational r) = .ok (.integer n) := by
  cases r with
  | infinite neg => cases h
  | zero neg => simp only [asIntegerValue, h]
  | finite neg mag => simp only [asIntegerValue, h]

theorem asIntegerValue_of_none (h : r.toInt64? = none) :
    ∃ f, asIntegerValue (.rational r) = .error f ∧ f.kind = .invalidOperand := by
  cases r with
  | infinite neg => exact ⟨_, rfl, rfl⟩
  | zero neg => cases h
  | finite neg mag =>
    refine ⟨.invalidOperand (.integerOverflow (.finite neg mag)), ?_, rfl⟩
    simp only [asIntegerValue, h]

def comparisons : List (Int32 × (Int → Int → Bool)) :=
  [(Nr.eq, fun x y => x == y), (Nr.ne, fun x y => x != y), (Nr.lt, fun x y => decide (x < y)),
   (Nr.le, fun x y => decide (x ≤ y)), (Nr.gt, fun x y => decide (y < x)),
   (Nr.ge, fun x y => decide (y ≤ x))]

def ringOperations : List (Int32 × (Int → Int → Int)) :=
  [(Nr.add, (· + ·)), (Nr.sub, (· - ·)), (Nr.mul, (· * ·))]

section Comparisons

variable {a b} {relation : Int → Int → Bool}

theorem equality_agrees {wanted : Bool}
    (h : ∀ x y : Int, ((compare x y == .eq) == wanted) = relation x y) :
    equality wanted (.integer a) (.integer b) = .ok (.ofBool (relation a.toInt b.toInt)) ∧
    equality wanted (.rational (.ofInt a.toInt)) (.rational (.ofInt b.toInt)) =
      .ok (.ofBool (relation a.toInt b.toInt)) := by
  have hsame : (a == b) = (compare a.toInt b.toInt == .eq) := by
    rw [Bool.eq_iff_iff, beq_iff_eq, beq_iff_eq, Int.compare_eq_eq, Int64.toInt_inj]
  constructor
  · rw [equality, Value.same, hsame, h]
  · rw [equality, Value.same, Rational.compare_ofInt (natAbs_toInt_le a) (natAbs_toInt_le b), h]

theorem comparison_agrees {holds : Ordering → Bool}
    (h : ∀ x y : Int, holds (compare x y) = relation x y) :
    comparison holds (.integer a) (.integer b) = .ok (.ofBool (relation a.toInt b.toInt)) ∧
    comparison holds (.rational (.ofInt a.toInt)) (.rational (.ofInt b.toInt)) =
      .ok (.ofBool (relation a.toInt b.toInt)) := by
  rw [← h]
  constructor
  · rfl
  · rw [comparison, order, Rational.compare_ofInt (natAbs_toInt_le a) (natAbs_toInt_le b)]
    rfl

end Comparisons

theorem relation_agrees : ∀ p ∈ comparisons, ∃ f,
    (∀ held, 2 ≤ held → registry.resolve p.1 held = .ok (binary f)) ∧
    f (.integer a) (.integer b) = .ok (.ofBool (p.2 a.toInt b.toInt)) ∧
    f (.rational (.ofInt a.toInt)) (.rational (.ofInt b.toInt)) =
      .ok (.ofBool (p.2 a.toInt b.toInt)) := by
  simp only [comparisons, List.mem_cons, List.not_mem_nil, or_false]
  rintro p (rfl | rfl | rfl | rfl | rfl | rfl)
  · refine ⟨_, fun held h => resolve_entry rfl rfl rfl h, equality_agrees ?_⟩
    intro x y
    rw [Bool.eq_iff_iff]
    simp
  · refine ⟨_, fun held h => resolve_entry rfl rfl rfl h, equality_agrees ?_⟩
    intro x y
    rw [Bool.eq_iff_iff]
    simp
  · refine ⟨_, fun held h => resolve_entry rfl rfl rfl h, comparison_agrees ?_⟩
    intro x y
    rw [Bool.eq_iff_iff]
    simp [Int.compare_eq_lt]
  · refine ⟨_, fun held h => resolve_entry rfl rfl rfl h, comparison_agrees ?_⟩
    intro x y
    rw [Bool.eq_iff_iff]
    simp [Int.isLE_compare]
  · refine ⟨_, fun held h => resolve_entry rfl rfl rfl h, comparison_agrees ?_⟩
    intro x y
    rw [Bool.eq_iff_iff]
    simp [Int.compare_eq_gt]
  · refine ⟨_, fun held h => resolve_entry rfl rfl rfl h, comparison_agrees ?_⟩
    intro x y
    rw [Bool.eq_iff_iff]
    simp [Int.isGE_compare]

theorem arithmetic_rounded {f : IntegerOp}
    {g : Rational → Rational → Except Rational.Undefined Rational} {x y r : Rational} (h : g x y = .ok r) :
    arithmetic f (some (rounded g)) (.rational x) (.rational y) = .ok (.rational r) := by
  simp only [arithmetic, rounded, h]
  rfl

theorem ringOperation_agrees : ∀ p ∈ ringOperations, ∃ f r,
    (∀ held, 2 ≤ held → registry.resolve p.1 held = .ok (binary f)) ∧
    f (.rational (.ofInt a.toInt)) (.rational (.ofInt b.toInt)) = .ok (.rational r) ∧
    r.toInt64? = fit (p.2 a.toInt b.toInt) := by
  simp only [ringOperations, List.mem_cons, List.not_mem_nil, or_false]
  rintro p (rfl | rfl | rfl)
  · obtain ⟨r, hr, hfit⟩ := Rational.toInt64?_add (natAbs_toInt_le a) (natAbs_toInt_le b)
    exact ⟨_, r, fun held h => resolve_entry rfl rfl rfl h, arithmetic_rounded hr, hfit⟩
  · obtain ⟨r, hr, hfit⟩ := Rational.toInt64?_sub (natAbs_toInt_le a) (natAbs_toInt_le b)
    exact ⟨_, r, fun held h => resolve_entry rfl rfl rfl h, arithmetic_rounded hr, hfit⟩
  · obtain ⟨r, hr, hfit⟩ := Rational.toInt64?_mul (natAbs_toInt_le a) (natAbs_toInt_le b)
    exact ⟨_, r, fun held h => resolve_entry rfl rfl rfl h, arithmetic_rounded hr, hfit⟩

theorem division_agrees {a b : Int64} (hb : b ≠ 0) : ∃ f r,
    (∀ held, 2 ≤ held → registry.resolve Nr.div held = .ok (binary f)) ∧
    f (.integer a) (.integer b) = .ok (.integer (a / b)) ∧
    f (.rational (.ofInt a.toInt)) (.rational (.ofInt b.toInt)) = .ok (.rational r) ∧
    r.toInt64? = fit (a.toInt.tdiv b.toInt) := by
  have hne : b.toInt ≠ 0 := fun h => hb (Int64.toInt_inj.mp h)
  obtain ⟨r, hr, hfit⟩ := Rational.toInt64?_div (natAbs_toInt_le a) (natAbs_toInt_le b) hne
  have hzero : (Rational.ofInt b.toInt).isZero = false := by
    have hvalue := Rational.value?_ofInt (natAbs_toInt_le b)
    cases h : Rational.ofInt b.toInt with
    | zero neg =>
      rw [h] at hvalue
      exact absurd (Option.some.inj hvalue).symm (by exact_mod_cast hne)
    | finite neg mag => rfl
    | infinite neg => rfl
  refine ⟨_, r, fun held h => resolve_entry rfl rfl rfl h, ?_, ?_, hfit⟩
  · simp only [arithmetic, divide, if_neg hb]
    rfl
  · simp only [arithmetic, divideRational, hzero, rounded, hr]
    rfl

end Builtin

namespace Engine

def onIntegers (a b : Int64) (nrs : List Int32) : List HostCall :=
  [.push (some (.integer a)), .push (some (.integer b))] ++ nrs.map .dispatch

def onRationals (a b : Int64) (nrs : List Int32) : List HostCall :=
  [.push (some (.integer a)), .dispatch Builtin.Nr.toRational,
   .push (some (.integer b)), .dispatch Builtin.Nr.toRational] ++ nrs.map .dispatch

theorem resolve_toRational (held : Nat) (h : 1 ≤ held) :
    Builtin.registry.resolve Builtin.Nr.toRational held = .ok (Builtin.unary Builtin.asRationalValue) :=
  Builtin.resolve_entry rfl rfl rfl h

theorem resolve_toInteger (held : Nat) (h : 1 ≤ held) :
    Builtin.registry.resolve Builtin.Nr.toInteger held = .ok (Builtin.unary Builtin.asIntegerValue) :=
  Builtin.resolve_entry rfl rfl rfl h

section Roomy

variable {e : Engine} (roomy : e.Roomy) (a b : Int64)

include roomy

theorem yields_onIntegers : e.Yields (onIntegers a b []) [.integer a, .integer b] :=
  ((Yields.nil e).push roomy (by simp) (by simp [Value.footprint])).push roomy (by simp)
    (by simp [Value.footprint])

theorem Yields.rational {cs : List HostCall} {vs : List Value} (h : e.Yields cs vs)
    (short : vs.length < 2) (light : (vs.map Value.footprint).sum + 40 ≤ 80) :
    e.Yields (cs ++ [.push (some (.integer a))] ++ [.dispatch Builtin.Nr.toRational])
      (vs ++ [.rational (.ofInt a.toInt)]) := by
  have pushed : e.Yields (cs ++ [.push (some (.integer a))]) (vs ++ [.integer a]) :=
    h.push roomy short (by simp only [Value.footprint]; omega)
  exact pushed.unary roomy resolve_toRational rfl short light

theorem yields_onRationals : e.Yields (onRationals a b [])
    [.rational (.ofInt a.toInt), .rational (.ofInt b.toInt)] :=
  (((Yields.nil e).rational roomy a (by simp) (by simp)).rational roomy b (by simp)
    (by simp [Value.footprint]))

theorem yields_truncated {cs : List HostCall} {r : Rational} {n : Int64}
    (h : e.Yields cs [.rational r]) (hr : r.toInt64? = some n) :
    e.Yields (cs ++ [.dispatch Builtin.Nr.toInteger]) [.integer n] := by
  have alone : e.Yields cs ([] ++ [.rational r]) := h
  exact alone.unary roomy resolve_toInteger (Builtin.asIntegerValue_of_some hr) (by decide)
    (by simp [Value.footprint])

theorem refuses_truncated {cs : List HostCall} {r : Rational}
    (h : e.Yields cs [.rational r]) (hr : r.toInt64? = none) :
    e.Refuses (cs ++ [.dispatch Builtin.Nr.toInteger]) .invalidOperand := by
  obtain ⟨f, hf, hkind⟩ := Builtin.asIntegerValue_of_none hr
  have alone : e.Yields cs ([] ++ [.rational r]) := h
  rw [← hkind]
  exact alone.unary_refused roomy resolve_toInteger hf

end Roomy

/-- With room for two numbers, two words give the same as Integers and as Rationals: each
is restored by truncation; they compare alike; a sum, difference or product truncates to
the exact result, or is refused if that does not fit; and a quotient truncates to that
of Integers, but for the one that does not fit. -/
theorem integers_agree_with_rationals {e : Engine} (roomy : e.Roomy) (a b : Int64) :
    e.Yields [.push (some (.integer a)), .dispatch Builtin.Nr.toRational,
      .dispatch Builtin.Nr.toInteger] [.integer a] ∧
    (∀ p ∈ Builtin.comparisons,
      e.Yields (onIntegers a b [p.1]) [.ofBool (p.2 a.toInt b.toInt)] ∧
      e.Yields (onRationals a b [p.1]) [.ofBool (p.2 a.toInt b.toInt)]) ∧
    (∀ p ∈ Builtin.ringOperations,
      (∀ n : Int64, n.toInt = p.2 a.toInt b.toInt →
        e.Yields (onRationals a b [p.1, Builtin.Nr.toInteger]) [.integer n]) ∧
      ((∀ n : Int64, n.toInt ≠ p.2 a.toInt b.toInt) →
        e.Refuses (onRationals a b [p.1, Builtin.Nr.toInteger]) .invalidOperand)) ∧
    (b ≠ 0 → ∃ v, e.Yields (onIntegers a b [Builtin.Nr.div]) [v] ∧
      (¬ (a = Int64.minValue ∧ b = -1) →
        e.Yields (onRationals a b [Builtin.Nr.div, Builtin.Nr.toInteger]) [v]) ∧
      (a = Int64.minValue ∧ b = -1 → v = .integer Int64.minValue ∧
        e.Refuses (onRationals a b [Builtin.Nr.div, Builtin.Nr.toInteger]) .invalidOperand)) := by
  have integers := yields_onIntegers roomy a b
  have rationals := yields_onRationals roomy a b
  refine ⟨?_, ?_, ?_, ?_⟩
  · have rounds := Rational.rounds_of_value? (Rational.value?_ofInt (natAbs_toInt_le a))
    exact yields_truncated roomy ((Yields.nil e).rational roomy a (by simp) (by simp))
      ((Rational.toInt64?_of_rounds rounds).trans (fit_toInt a))
  · intro p hp
    have light (x : Bool) : (Value.ofBool x).footprint ≤ 80 := by
      simp [Value.footprint, Value.ofBool]
    obtain ⟨f, known, hintegers, hrationals⟩ := Builtin.relation_agrees a b p hp
    exact ⟨integers.binary roomy known hintegers (light _),
      rationals.binary roomy known hrationals (light _)⟩
  · intro p hp
    obtain ⟨f, r, known, hrationals, hr⟩ := Builtin.ringOperation_agrees a b p hp
    have result : e.Yields (onRationals a b [p.1]) [.rational r] :=
      rationals.binary roomy known hrationals (by simp [Value.footprint])
    constructor
    · exact fun n hn => yields_truncated roomy result (hr.trans (fit_eq_some hn))
    · exact fun outside => refuses_truncated roomy result (hr.trans (fit_eq_none outside))
  · intro hb
    obtain ⟨f, r, known, hintegers, hrationals, hr⟩ := Builtin.division_agrees hb
    have result : e.Yields (onRationals a b [Builtin.Nr.div]) [.rational r] :=
      rationals.binary roomy known hrationals (by simp [Value.footprint])
    refine ⟨_, integers.binary roomy known hintegers (by simp [Value.footprint]), ?_, ?_⟩
    · intro inside
      have hquotient : (a / b).toInt = a.toInt.tdiv b.toInt := by
        by_cases ha : a = Int64.minValue
        · exact Int64.toInt_div_of_ne_right a b fun h => inside ⟨ha, h⟩
        · exact Int64.toInt_div_of_ne_left a b ha
      exact yields_truncated roomy result (hr.trans (fit_eq_some hquotient))
    · rintro ⟨rfl, rfl⟩
      exact ⟨rfl, refuses_truncated roomy result (hr.trans rfl)⟩

theorem leastWord_agrees :
    ∃ e, e = create { capacity := 2, limit := 80 } ∧
      e.Yields (onIntegers Int64.minValue (-1) [Builtin.Nr.div]) [.integer Int64.minValue] ∧
      e.Refuses (onRationals Int64.minValue (-1) [Builtin.Nr.div, Builtin.Nr.toInteger])
        .invalidOperand ∧
      e.Yields (onRationals Int64.minValue (-1) [Builtin.Nr.sub, Builtin.Nr.toInteger])
        [.integer (-9223372036854775807)] ∧
      e.Refuses (onRationals Int64.minValue (-1) [Builtin.Nr.add, Builtin.Nr.toInteger])
        .invalidOperand := by
  obtain ⟨_, _, ring, division⟩ := integers_agree_with_rationals
    (e := create { capacity := 2, limit := 80 }) ⟨rfl, by decide, by decide⟩ Int64.minValue (-1)
  obtain ⟨v, yields, _, refused⟩ := division (by decide)
  obtain ⟨rfl, refuses⟩ := refused ⟨rfl, rfl⟩
  have sub := (ring (Builtin.Nr.sub, (· - ·)) (by simp [Builtin.ringOperations])).1
  have add := (ring (Builtin.Nr.add, (· + ·)) (by simp [Builtin.ringOperations])).2
  refine ⟨_, rfl, yields, refuses, sub (-9223372036854775807) (by decide), add ?_⟩
  intro n below
  have least : n.toInt = -2 ^ 63 - 1 := below
  have := n.le_toInt
  omega

end Engine
end StackMachine
