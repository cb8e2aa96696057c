import StackMachine.Rational.Basic
import StackMachine.Text.Calendar
import StackMachine.Text.Quoted
/-! Spans of time in nanoseconds, written as numbers with units: `1h30m`,
`-1.5s`. A fraction is scaled in binary64 and cut off, never rounded up. -/
namespace StackMachine

-- A power of naturals is the core one, whichever other instances are in scope.
attribute [local instance (high)] instPowNat

structure Duration where
  nanoseconds : Int
  deriving DecidableEq, Repr

inductive DurationError where
  | invalid (text : String)
  | missingUnit (text : String)
  | unknownUnit (unit text : String)
  deriving DecidableEq, Repr

namespace Duration

/-- Quotes keep printable ASCII; all other bytes are written in hexadecimal. -/
def quoteByte (b : UInt8) : String :=
  if b < 0x20 || 0x80 ≤ b then "\\x" ++ Text.hex 2 b.toNat
  else if b = 0x22 then "\\\""
  else if b = 0x5c then "\\\\"
  else (Char.ofNat b.toNat).toString

def quote (s : String) : String := "\"" ++ String.join ((Text.utf8 s).map quoteByte) ++ "\""

end Duration

def DurationError.message : DurationError → String
  | .invalid text => "time: invalid duration " ++ Duration.quote text
  | .missingUnit text => "time: missing unit in duration " ++ Duration.quote text
  | .unknownUnit unit text =>
    "time: unknown unit " ++ Duration.quote unit ++ " in duration " ++ Duration.quote text

namespace Duration

def second : Nat := 1000000000

def unit? (name : List Char) : Option Nat :=
  [("ns", 1), ("us", 1000), ("µs", 1000), ("μs", 1000), ("ms", 1000000),
   ("s", second), ("m", 60 * second), ("h", 3600 * second)].lookup (String.ofList name)

/-- Magnitudes reach one past the largest span, for the sake of the smallest. -/
def limit : Nat := 2 ^ (63 : Nat)

def readWhole? (digits : List Char) : Option Nat :=
  digits.foldlM (fun n c =>
    if limit / 10 < n then none
    else
      let n := 10 * n + Text.Calendar.digit c
      if limit < n then none else some n) 0

def nearestBinary64 (num den : Nat) : Nat × Nat :=
  if num = 0 then (0, 1)
  else
    let k := Rational.normalShift num den - 11
    (Rational.nearestEven (num * 2 ^ k.toNat) (den * 2 ^ (-k).toNat) * 2 ^ (-k).toNat, 2 ^ k.toNat)

/-- Ten times a scale, rounded; from `10 ^ 23` on it is not exact. -/
def nextScale (scale : Nat) : Nat :=
  let (n, d) := nearestBinary64 (10 * scale) 1
  n / d

/-- Digits behind the point and the scale they are over; digits from the first
one that does not fit on are dropped. -/
def readFraction : (n scale : Nat) → List Char → Nat × Nat
  | n, scale, [] => (n, scale)
  | n, scale, c :: rest =>
    let next := 10 * n + Text.Calendar.digit c
    if (limit - 1) / 10 < n || limit < next then (n, scale)
    else readFraction next (nextScale scale) rest

def partOfUnit (fraction scale unit : Nat) : Nat :=
  let (n, d) := nearestBinary64 fraction 1
  let (n', d') := nearestBinary64 unit scale
  let (n'', d'') := nearestBinary64 (n * n') (d * d')
  n'' / d''

def isNumeral (c : Char) : Bool := c == '.' || c.isDigit

def readTerm (whole : String) (text : List Char) : Except DurationError (Nat × List Char) := do
  let digits := text.takeWhile Char.isDigit
  let rest := text.dropWhile Char.isDigit
  let some n := readWhole? digits | .error (.invalid whole)
  let (places, rest) := match rest with
    | '.' :: rest => (rest.takeWhile Char.isDigit, rest.dropWhile Char.isDigit)
    | rest => ([], rest)
  if digits.isEmpty && places.isEmpty then .error (.invalid whole)
  let name := rest.takeWhile (!isNumeral ·)
  if name.isEmpty then .error (.missingUnit whole)
  let some unit := unit? name | .error (.unknownUnit (String.ofList name) whole)
  if limit / unit < n then .error (.invalid whole)
  let (fraction, scale) := readFraction 0 1 places
  let total := n * unit + (if fraction = 0 then 0 else partOfUnit fraction scale unit)
  if limit < total then .error (.invalid whole)
  return (total, rest.dropWhile (!isNumeral ·))

/-- The sum of all terms, in 64 bits; each of them takes at least one character. -/
def readTerms (whole : String) : (fuel sum : Nat) → List Char → Except DurationError Nat
  | _, sum, [] => .ok sum
  | 0, _, _ :: _ => .error (.invalid whole)
  | fuel + 1, sum, c :: text => do
    if !isNumeral c then .error (.invalid whole)
    let (term, rest) ← readTerm whole (c :: text)
    let sum := (sum + term) % 2 ^ (64 : Nat)
    if limit < sum then .error (.invalid whole)
    readTerms whole fuel sum rest

def parse (s : String) : Except DurationError Duration := do
  let (neg, text) := match s.toList with
    | '-' :: rest => (true, rest)
    | '+' :: rest => (false, rest)
    | text => (false, text)
  if text = ['0'] then return ⟨0⟩
  if text.isEmpty then .error (.invalid s)
  let n ← readTerms s text.length 0 text
  if neg then return ⟨-n⟩
  if n < limit then return ⟨n⟩
  .error (.invalid s)

def withPlaces (places n : Nat) : String :=
  let digits := toString (n % 10 ^ places)
  let padded := List.replicate (places - digits.length) '0' ++ digits.toList
  let fraction := (padded.reverse.dropWhile (· == '0')).reverse
  toString (n / 10 ^ places) ++
    (if n % 10 ^ places = 0 then "" else "." ++ String.ofList fraction)

def text (d : Duration) : String :=
  let n := d.nanoseconds.natAbs
  let minutes := n / (60 * second)
  let magnitude :=
    if n = 0 then "0s"
    else if n < 1000 then toString n ++ "ns"
    else if n < 1000000 then withPlaces 3 n ++ "µs"
    else if n < second then withPlaces 6 n ++ "ms"
    else
      (if minutes < 60 then "" else toString (minutes / 60) ++ "h") ++
        (if minutes = 0 then "" else toString (minutes % 60) ++ "m") ++
        withPlaces 9 (n % (60 * second)) ++ "s"
  if d.nanoseconds < 0 then "-" ++ magnitude else magnitude

end Duration
end StackMachine
