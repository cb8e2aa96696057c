/-! Integer literals: an optional sign, an optional base marker, and digits that
may be set apart by single underscores. -/
namespace StackMachine.Text

-- A power of naturals is the core one, whichever other instances are in scope.
attribute [local instance (high)] instPowNat

inductive IntegerError where
  | badSyntax
  | outOfRange
  deriving DecidableEq, Repr

def IntegerError.message : IntegerError → String
  | .badSyntax => "invalid syntax"
  | .outOfRange => "value out of range"

def ascii (c : Char) : UInt8 := c.toNat.toUInt8

def digitValue? (b : UInt8) : Option Nat :=
  if ascii '0' ≤ b && b ≤ ascii '9' then some (b - ascii '0').toNat
  else if ascii 'a' ≤ b && b ≤ ascii 'z' then some ((b - ascii 'a').toNat + 10)
  else if ascii 'A' ≤ b && b ≤ ascii 'Z' then some ((b - ascii 'A').toNat + 10)
  else none

/-- The base of an unsigned literal, whether something before its digits counts
as a digit, and the digits. -/
structure Unsigned where
  base : Nat
  led : Bool
  digits : List UInt8
  deriving DecidableEq, Repr

/-- A marker needs at least one byte behind it; without one, a leading zero
stands for octal and is itself dropped. -/
def splitBase : List UInt8 → Unsigned
  | zero :: rest =>
    if zero ≠ ascii '0' then ⟨10, false, zero :: rest⟩
    else
      match rest with
      | mark :: first :: more =>
        if mark = ascii 'b' ∨ mark = ascii 'B' then ⟨2, true, first :: more⟩
        else if mark = ascii 'o' ∨ mark = ascii 'O' then ⟨8, true, first :: more⟩
        else if mark = ascii 'x' ∨ mark = ascii 'X' then ⟨16, true, first :: more⟩
        else ⟨8, true, rest⟩
      | _ => ⟨8, true, rest⟩
  | [] => ⟨10, false, []⟩

/-- The number the digits write, underscores passed over. Growing past `bound`
ends the reading at once, before a later bad digit is seen. -/
def readDigits (base bound : Nat) : (n : Nat) → List UInt8 → Except IntegerError Nat
  | n, [] => .ok n
  | n, b :: rest =>
    if b = ascii '_' then readDigits base bound n rest
    else
      match digitValue? b with
      | none => .error .badSyntax
      | some d =>
        if base ≤ d then .error .badSyntax
        else if bound < n * base + d then .error .outOfRange
        else readDigits base bound (n * base + d) rest

/-- Every underscore stands between two digits; `afterDigit` says what came
before. -/
def separated (afterDigit : Bool) : List UInt8 → Bool
  | [] => true
  | b :: rest =>
    if b = ascii '_' then
      afterDigit && (rest.head?.any (· ≠ ascii '_')) && separated false rest
    else separated true rest

def readUnsigned (bound : Nat) (bytes : List UInt8) : Except IntegerError Nat := do
  if bytes.isEmpty then .error .badSyntax
  let literal := splitBase bytes
  let n ← readDigits literal.base bound 0 literal.digits
  if separated literal.led literal.digits then .ok n else .error .badSyntax

def splitSign : List UInt8 → Bool × List UInt8
  | [] => (false, [])
  | sign :: rest =>
    if sign = ascii '-' then (true, rest)
    else if sign = ascii '+' then (false, rest)
    else (false, sign :: rest)

def readSigned (bits : Nat) (bytes : List UInt8) : Except IntegerError Int := do
  let (neg, rest) := splitSign bytes
  let n ← readUnsigned (2 ^ bits - 1) rest
  if neg then if 2 ^ (bits - 1) < n then .error .outOfRange else .ok (-n)
  else if 2 ^ (bits - 1) ≤ n then .error .outOfRange else .ok n

end StackMachine.Text
