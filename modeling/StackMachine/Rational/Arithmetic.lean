import StackMachine.Rational.Basic
/-! The four operations on 64-bit-mantissa numbers. Each rounds the exact result
once; the pairs without a result are named. -/
namespace StackMachine.Rational

-- A power of naturals is the core one, whichever other instances are in scope.
attribute [local instance (high)] instPowNat

inductive Undefined where
  | sumOfInfinities
  | differenceOfInfinities
  | zeroTimesInfinity
  | quotient
  deriving DecidableEq, Repr

def Undefined.message : Undefined → String
  | .sumOfInfinities => "addition of infinities with opposite signs"
  | .differenceOfInfinities => "subtraction of infinities with equal signs"
  | .zeroTimesInfinity => "multiplication of zero with infinity"
  | .quotient => "division of zero by zero or infinity by infinity"

def signed (neg : Bool) (n : Nat) : Int := if neg then -n else n

/-- Widest exponent gap at which a sum is formed exactly. -/
def exactGap : Nat := 256

/-- The sum of `±big` and `±small`, where `big` has the larger exponent. Past
`exactGap` the smaller term lies below a quarter of the last place, and one unit
below the guard bits rounds as it does. -/
def sumFinite (negBig : Bool) (big : Magnitude) (negSmall : Bool) (small : Magnitude) : Rational :=
  let gap := (big.exp - small.exp).toNat
  if gap ≤ exactGap then
    ofScaled (signed negBig (big.mant * 2 ^ gap) + signed negSmall small.mant) (small.exp - 64)
  else
    ofScaled (signed negBig (big.mant * 2 ^ exactGap) + signed negSmall 1)
      (big.exp - 64 - exactGap)

/-- A sum that is exactly zero is positive, unless both terms are `-0`. -/
def add : Rational → Rational → Except Undefined Rational
  | .finite n a, .finite m b =>
    .ok (if a.exp < b.exp then sumFinite m b n a else sumFinite n a m b)
  | .infinite n, .infinite m =>
    if n = m then .ok (.infinite n) else .error .sumOfInfinities
  | .zero n, .zero m => .ok (.zero (n && m))
  | .infinite n, _ => .ok (.infinite n)
  | .finite n a, .zero _ => .ok (.finite n a)
  | .zero _, y => .ok y
  | .finite _ _, .infinite m => .ok (.infinite m)

def sub (x y : Rational) : Except Undefined Rational :=
  match x, y with
  | .infinite n, .infinite m =>
    if n = m then .error .differenceOfInfinities else .ok (.infinite n)
  | _, _ => add x y.negate

def mul : Rational → Rational → Except Undefined Rational
  | .finite n a, .finite m b =>
    .ok (ofQuotient (n != m) (a.mant * b.mant) 1 (a.exp + b.exp - 128))
  | .zero _, .infinite _ => .error .zeroTimesInfinity
  | .infinite _, .zero _ => .error .zeroTimesInfinity
  | .zero n, .zero m => .ok (.zero (n != m))
  | .zero n, .finite m _ => .ok (.zero (n != m))
  | .finite n _, .zero m => .ok (.zero (n != m))
  | .infinite n, .infinite m => .ok (.infinite (n != m))
  | .infinite n, .finite m _ => .ok (.infinite (n != m))
  | .finite n _, .infinite m => .ok (.infinite (n != m))

def div : Rational → Rational → Except Undefined Rational
  | .finite n a, .finite m b => .ok (ofQuotient (n != m) a.mant b.mant (a.exp - b.exp))
  | .zero _, .zero _ => .error .quotient
  | .infinite _, .infinite _ => .error .quotient
  | .zero n, .finite m _ => .ok (.zero (n != m))
  | .zero n, .infinite m => .ok (.zero (n != m))
  | .finite n _, .infinite m => .ok (.zero (n != m))
  | .infinite n, .zero m => .ok (.infinite (n != m))
  | .infinite n, .finite m _ => .ok (.infinite (n != m))
  | .finite n _, .zero m => .ok (.infinite (n != m))

/-- The number nearest to the fraction `num / den`, for a nonzero `den`; its
sign is that of the two signs, also for a zero. -/
def ofFraction (num den : Int) : Rational :=
  ofQuotient ((num < 0) != (den < 0)) num.natAbs den.natAbs 0

end StackMachine.Rational
