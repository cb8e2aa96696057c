/-! Binary floating point numbers with a 64-bit mantissa: signed zeros, signed
infinities and no NaN. Every finite result is the nearest such number to one
exact quotient, a tie going to the even mantissa. -/
namespace StackMachine

-- A power of naturals is the core one, whichever other instances are in scope.
attribute [local instance (high)] instPowNat

/-- A nonzero magnitude `mant / 2^64 * 2^exp`, so that `2^(exp-1)` is at most
it and `2^exp` is above it. -/
structure Magnitude where
  mant : Nat
  exp : Int
  normal : 2 ^ (63 : Nat) ≤ mant ∧ mant < 2 ^ (64 : Nat)
  deriving DecidableEq, Repr

inductive Rational where
  | zero (neg : Bool)
  | finite (neg : Bool) (mag : Magnitude)
  | infinite (neg : Bool)
  deriving DecidableEq, Repr

namespace Rational

/-- Exponents outside these bounds overflow to an infinity or underflow to a
zero. -/
def minExp : Int := -2147483648
def maxExp : Int := 2147483647

def nearestEven (num den : Nat) : Nat :=
  let quotient := num / den
  let rest := 2 * (num % den)
  if rest < den then quotient
  else if den < rest then quotient + 1
  else quotient + quotient % 2

def bitLength (n : Nat) : Nat := if n = 0 then 0 else n.log2 + 1

/-- The shift `k` with `2^63 ≤ num / den * 2^k < 2^64`, for nonzero `num` and
`den`. -/
def normalShift (num den : Nat) : Int :=
  let k : Int := 64 + bitLength den - bitLength num
  if num * 2 ^ k.toNat < den * 2 ^ (-k).toNat * 2 ^ (64 : Nat) then k else k - 1

/-- Packs a rounded mantissa, at most `2^64`, with its exponent. A mantissa of
`2^64` is the carry into the next binade. -/
def pack (neg : Bool) (mant : Nat) (exp : Int) : Rational :=
  if h : 2 ^ (63 : Nat) ≤ mant ∧ mant < 2 ^ (64 : Nat) then .finite neg ⟨mant, exp, h⟩
  else if exp < maxExp then .finite neg ⟨2 ^ (63 : Nat), exp + 1, by decide⟩
  else .infinite neg

/-- The number nearest to `num / den * 2^exp`. Underflow is decided on the
exact exponent, before rounding; overflow also by the carry of rounding. -/
def ofQuotient (neg : Bool) (num den : Nat) (exp : Int) : Rational :=
  if num = 0 then .zero neg
  else
    let k := normalShift num den
    let top := exp - k + 64
    if top < minExp then .zero neg
    else if maxExp < top then .infinite neg
    else pack neg (nearestEven (num * 2 ^ k.toNat) (den * 2 ^ (-k).toNat)) top

def ofScaled (n : Int) (exp : Int) : Rational :=
  ofQuotient (n < 0) n.natAbs 1 exp

def ofInt (n : Int) : Rational := ofScaled n 0

/-- The exact value of the IEEE 754 double with these bits; NaN has none. -/
def ofBinary64? (bits : UInt64) : Option Rational :=
  let word := bits.toNat
  let neg : Bool := 2 ^ (63 : Nat) ≤ word
  let biased : Nat := word / 2 ^ (52 : Nat) % 2 ^ (11 : Nat)
  let fraction := word % 2 ^ (52 : Nat)
  if biased = 2047 then
    if fraction = 0 then some (.infinite neg) else none
  else if biased = 0 then some (ofQuotient neg fraction 1 (-1074))
  else some (ofQuotient neg (2 ^ (52 : Nat) + fraction) 1 ((biased : Int) - 1075))

def isZero : Rational → Bool
  | .zero _ => true
  | _ => false

def negate : Rational → Rational
  | .zero neg => .zero !neg
  | .finite neg mag => .finite (!neg) mag
  | .infinite neg => .infinite !neg

@[simp] theorem negate_negate (x : Rational) : x.negate.negate = x := by
  cases x <;> simp [negate]

end Rational

def Magnitude.compare (a b : Magnitude) : Ordering :=
  (Ord.compare a.exp b.exp).then (Ord.compare a.mant b.mant)

/-- Order by value; the two zeros are one value. -/
def Rational.compare : Rational → Rational → Ordering
  | .zero _, .zero _ => .eq
  | .zero _, .finite neg _ => if neg then .gt else .lt
  | .zero _, .infinite neg => if neg then .gt else .lt
  | .finite neg _, .zero _ => if neg then .lt else .gt
  | .finite false a, .finite false b => a.compare b
  | .finite true a, .finite true b => b.compare a
  | .finite true _, .finite false _ => .lt
  | .finite false _, .finite true _ => .gt
  | .finite _ _, .infinite neg => if neg then .gt else .lt
  | .infinite neg, .zero _ => if neg then .lt else .gt
  | .infinite neg, .finite _ _ => if neg then .lt else .gt
  | .infinite false, .infinite false => .eq
  | .infinite true, .infinite true => .eq
  | .infinite true, .infinite false => .lt
  | .infinite false, .infinite true => .gt

def Magnitude.floor? (a : Magnitude) : Option Nat :=
  if a.exp ≤ 0 then some 0
  else if a.exp ≤ 64 then some (a.mant / 2 ^ (64 - a.exp).toNat)
  else none

def Rational.toInt64? : Rational → Option Int64
  | .zero _ => some 0
  | .infinite _ => none
  | .finite neg mag => do
    let whole ← mag.floor?
    let n : Int := if neg then -whole else whole
    if Int64.minValue.toInt ≤ n ∧ n ≤ Int64.maxValue.toInt then some (.ofInt n) else none

end StackMachine
