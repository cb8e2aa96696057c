import StackMachine.Rational.Basic
/-! Decimal digits of a magnitude: its exact expansion, and the shortest cut of
it that stays inside the interval of numbers rounding to the magnitude. -/
namespace StackMachine

-- A power of naturals is the core one, whichever other instances are in scope.
attribute [local instance (high)] instPowNat

/-- The number `0.d₁d₂… * 10^point`, digits from the most significant. -/
structure Decimal where
  digits : List Nat
  point : Int
  deriving DecidableEq, Repr

namespace Decimal

/-- The `2^level` digits of a number below `10^2^level`, leading zeros included,
before `tail`. Halving keeps the divisions of a long number few. -/
def digitsOnto : (level n : Nat) → (tail : List Nat) → List Nat
  | 0, n, tail => n :: tail
  | level + 1, n, tail =>
    digitsOnto level (n / 10 ^ (2 ^ level : Nat)) (digitsOnto level (n % 10 ^ (2 ^ level : Nat)) tail)

/-- A level with `n < 10^2^level`: three binary digits make less than one decimal
digit. -/
def levelOf (n : Nat) : Nat := (n.log2 / 3).log2 + 1

def digitsOf (n : Nat) : List Nat := (digitsOnto (levelOf n) n []).dropWhile (· = 0)

def trimZeros (ds : List Nat) : List Nat :=
  (ds.reverse.dropWhile (· = 0)).reverse

def ofScaled (n : Nat) (exp : Int) : Decimal :=
  let whole := n * 2 ^ exp.toNat * 5 ^ (-exp).toNat
  let ds := digitsOf whole
  ⟨trimZeros ds, ds.length - (-exp).toNat⟩

def truncate (d : Decimal) (count : Nat) : Decimal :=
  if count < d.digits.length then { d with digits := trimZeros (d.digits.take count) } else d

def roundUp (d : Decimal) (count : Nat) : Decimal :=
  if count < d.digits.length then
    match (d.digits.take count).reverse.dropWhile (· = 9) with
    | [] => ⟨[1], d.point + 1⟩
    | last :: before => { d with digits := ((last + 1) :: before).reverse }
  else d

/-- Whether the digits from `count` on amount to more than half a unit, or to
exactly half with an odd digit before them. -/
def upperHalf (ds : List Nat) (count : Nat) : Bool :=
  match ds.drop count with
  | [] => false
  | [5] => (ds.take count).getLast?.any (· % 2 = 1)
  | next :: _ => 5 ≤ next

def roundNearest (d : Decimal) (count : Nat) : Decimal :=
  if upperHalf d.digits count then d.roundUp count else d.truncate count

inductive Direction where
  | down
  | up
  | nearest
  deriving DecidableEq, Repr

/-- The fewest leading digits of `x` that identify it between the digits of the
interval's ends, and the directions in which cutting there stays inside. Digits
are compared at equal indexes, each number counted from its own first digit; the
ends belong to the interval when `inclusive`. -/
def cutBetween (inclusive : Bool) : (x lower upper : List Nat) → Option (Nat × Direction)
  | [], _, _ => none
  | m :: x, lower, upper =>
    let l := lower.headD 0
    let u := upper.headD 0
    let down := l != m || (inclusive && lower.length == 1)
    let up := m != u &&
      (inclusive || m + 1 < u || 1 < upper.length || (upper.isEmpty && m < 9))
    if down && up then some (1, .nearest)
    else if down then some (1, .down)
    else if up then some (1, .up)
    else (cutBetween inclusive x lower.tail upper.tail).map fun (n, dir) => (n + 1, dir)

/-- The shortest decimal of a magnitude. The interval reaches half a unit of the
last place to either side, below a power of two as above it. -/
def shortest (a : Magnitude) : Decimal :=
  let exact := ofScaled a.mant (a.exp - 64)
  let lower := ofScaled (2 * a.mant - 1) (a.exp - 65)
  let upper := ofScaled (2 * a.mant + 1) (a.exp - 65)
  match cutBetween (a.mant % 2 == 0) exact.digits lower.digits upper.digits with
  | none => exact
  | some (n, .down) => exact.truncate n
  | some (n, .up) => exact.roundUp n
  | some (n, .nearest) => exact.roundNearest n

end Decimal
end StackMachine
