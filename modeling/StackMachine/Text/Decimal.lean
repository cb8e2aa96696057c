/-! Decimal fractions with an exponent, and whether they fit a binary64. -/
namespace StackMachine.Text

-- A power of naturals is the core one, whichever other instances are in scope.
attribute [local instance (high)] instPowNat

/-- The number `digits * 10 ^ exponent`. -/
structure Decimal where
  digits : Nat
  exponent : Int
  deriving DecidableEq, Repr

/-- Least number that rounds past the largest finite binary64. -/
def binary64Limit : Nat := 2 ^ (1024 : Nat) - 2 ^ (970 : Nat)

/-- Magnitudes that are clear from the number of digits are told first, so that
no large power is ever computed. -/
def Decimal.fitsBinary64 (d : Decimal) : Bool :=
  let size : Int := (Nat.toDigits 10 d.digits).length + d.exponent
  if d.digits = 0 || size < 0 then true
  else if 400 < size then false
  else if 0 ≤ d.exponent then d.digits * 10 ^ d.exponent.toNat < binary64Limit
  else d.digits < binary64Limit * 10 ^ (-d.exponent).toNat

def natOfDigits (digits : List Char) : Nat :=
  digits.foldl (fun n c => 10 * n + (c.toNat - '0'.toNat)) 0

/-- Size of an exponent. It is far out of range once it has five digits, and those
behind them are passed over. -/
def exponentOfDigits (digits : List Char) : Nat :=
  digits.foldl (fun n c => if n < 10000 then 10 * n + (c.toNat - '0'.toNat) else n) 0

def readExponent? : List Char → Option Int
  | [] => some 0
  | mark :: rest =>
    if mark ≠ 'e' ∧ mark ≠ 'E' then none
    else
      let (neg, digits) := match rest with
        | '-' :: digits => (true, digits)
        | '+' :: digits => (false, digits)
        | digits => (false, digits)
      if digits.isEmpty || !digits.all Char.isDigit then none
      else some (if neg then -exponentOfDigits digits else exponentOfDigits digits)

def readDecimal? (text : List Char) : Option Decimal := do
  let whole := text.takeWhile Char.isDigit
  let rest := text.dropWhile Char.isDigit
  let (fraction, rest) := match rest with
    | '.' :: rest => (rest.takeWhile Char.isDigit, rest.dropWhile Char.isDigit)
    | rest => ([], rest)
  if whole.isEmpty && fraction.isEmpty then none
  let exponent ← readExponent? rest
  return { digits := natOfDigits (whole ++ fraction), exponent := exponent - fraction.length }

def readSignedDecimal? : List Char → Option Decimal
  | '-' :: rest => readDecimal? rest
  | '+' :: rest => readDecimal? rest
  | text => readDecimal? text

end StackMachine.Text
