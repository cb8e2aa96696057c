import StackMachine.Rational.Decimal
/-! The two written forms of a number: its shortest decimal, and its exact binary
content in hexadecimal. -/
namespace StackMachine

def digitChar (d : Nat) : Char := Char.ofNat (48 + d)

namespace Decimal

def digitText (ds : List Nat) : String := String.ofList (ds.map digitChar)

def exponentText (x : Int) : String :=
  let n := toString x.natAbs
  (if x < 0 then "e-" else "e+") ++ (if x.natAbs < 10 then "0" ++ n else n)

/-- Exponents from `-4` up to this one, exclusive, are written positionally. -/
def positionalLimit : Int := 6

def positional (d : Decimal) : String :=
  let n := d.point.toNat
  let whole := digitText (d.digits.take n) ++ String.ofList (List.replicate (n - d.digits.length) '0')
  let rest := d.digits.drop n
  (if whole.isEmpty then "0" else whole) ++
    if rest.isEmpty then ""
    else "." ++ String.ofList (List.replicate (-d.point).toNat '0') ++ digitText rest

def scientific (d : Decimal) : String :=
  match d.digits with
  | [] => "0"
  | first :: rest =>
    digitText [first] ++ (if rest.isEmpty then "" else "." ++ digitText rest) ++
      exponentText (d.point - 1)

def text (d : Decimal) : String :=
  let x := d.point - 1
  if x < -4 ∨ positionalLimit ≤ x then d.scientific else d.positional

end Decimal

namespace Rational

def signText (neg : Bool) : String := if neg then "-" else ""

def text : Rational → String
  | .zero neg => signText neg ++ "0"
  | .finite neg mag => signText neg ++ (Decimal.shortest mag).text
  | .infinite neg => if neg then "-Inf" else "+Inf"

def hexMantissa (mant : Nat) : String :=
  String.ofList (((Nat.toDigits 16 mant).reverse.dropWhile (· = '0')).reverse)

/-- The exact content: `0x.`, the mantissa, and a signed binary exponent. -/
def exactText : Rational → String
  | .zero neg => signText neg ++ "0"
  | .finite neg mag =>
    signText neg ++ "0x." ++ hexMantissa mag.mant ++ "p" ++
      (if mag.exp < 0 then "" else "+") ++ toString mag.exp
  | .infinite neg => if neg then "-Inf" else "+Inf"

end Rational
end StackMachine
