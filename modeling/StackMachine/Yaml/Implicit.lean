import StackMachine.Text.Calendar
import StackMachine.Text.Decimal
import StackMachine.Text.Integer
import StackMachine.Text.Utf8
/-! Plain YAML text that a reader would not take for a string: booleans and nulls
in all their spellings, numbers, times and sexagesimal numbers. -/
namespace StackMachine.Yaml
open Text

-- A power of naturals is the core one, whichever other instances are in scope.
attribute [local instance (high)] instPowNat

def nullWords : List String := ["", "~", "null", "Null", "NULL"]

def booleanWords : List String :=
  ["true", "True", "TRUE", "false", "False", "FALSE"]

def switchWords : List String :=
  ["y", "Y", "yes", "Yes", "YES", "on", "On", "ON", "n", "N", "no", "No", "NO", "off", "Off", "OFF"]

def specialNumbers : List String :=
  [".nan", ".NaN", ".NAN", ".inf", ".Inf", ".INF", "+.inf", "+.Inf", "+.INF",
   "-.inf", "-.Inf", "-.INF"]

def isWord (s : String) : Bool :=
  s ∈ nullWords || s ∈ booleanWords || s ∈ switchWords || s ∈ specialNumbers

def isInteger (bytes : List UInt8) : Bool :=
  (readSigned 64 bytes).isOk || (readUnsigned (2 ^ (64 : Nat) - 1) bytes).isOk

def isMarked (base : Nat) (neg : Bool) (bytes : List UInt8) : Bool :=
  let (minus, digits) := if neg then (true, bytes) else splitSign bytes
  let signed := neg || digits.length < bytes.length
  match digits.isEmpty || digits.contains (ascii '_'), readDigits base (2 ^ (64 : Nat) - 1) 0 digits with
  | false, .ok n => !signed || (if minus then n ≤ 2 ^ (63 : Nat) else n < 2 ^ (63 : Nat))
  | _, _ => false

def isMarkedInteger : List Char → Bool
  | '0' :: 'b' :: rest => isMarked 2 false (utf8 (String.ofList rest))
  | '-' :: '0' :: 'b' :: rest => isMarked 2 true (utf8 (String.ofList rest))
  | '0' :: 'o' :: rest => isMarked 8 false (utf8 (String.ofList rest))
  | '-' :: '0' :: 'o' :: rest => isMarked 8 true (utf8 (String.ofList rest))
  | _ => false

def isFloat (text : List Char) : Bool := (readSignedDecimal? text).any Decimal.fitsBinary64

def isPointFloat (text : List Char) : Bool :=
  separatedDigits false text && isFloat (text.filter (· != '_'))
where
  separatedDigits (afterDigit : Bool) : List Char → Bool
    | [] => true
    | c :: rest =>
      if c = '_' then afterDigit && rest.head?.any Char.isDigit && separatedDigits false rest
      else separatedDigits c.isDigit rest

def isTimestamp (text : List Char) : Bool :=
  match Calendar.readDate? false text with
  | none => false
  | some [] => true
  | some (mark :: rest) =>
    if mark = 'T' ∨ mark = 't' then
      Calendar.isEnd (Calendar.readClock? false rest >>= Calendar.readZone?)
    else if mark = ' ' then
      Calendar.isEnd (Calendar.readClock? false (rest.dropWhile (· == ' ')))
    else false

/-- Groups of one or two digits after colons, each below sixty, and a fraction. -/
def sexagesimalTail : List Char → Bool
  | ':' :: a :: b :: rest =>
    if a.isDigit && b.isDigit then
      a ≤ '5' && (tailEnd rest || sexagesimalTail rest)
    else a.isDigit && (tailEnd (b :: rest) || sexagesimalTail (b :: rest))
  | [':', a] => a.isDigit
  | _ => false
where
  tailEnd : List Char → Bool
    | [] => true
    | '.' :: rest => rest.all fun c => c.isDigit || c == '_'
    | _ => false

def isSexagesimal (text : List Char) : Bool :=
  let text := match text with
    | '-' :: rest => rest
    | '+' :: rest => rest
    | text => text
  text.head?.any Char.isDigit &&
    sexagesimalTail (text.dropWhile fun c => c.isDigit || c == '_')

/-- Numbers may have underscores anywhere, and then start with a digit or a sign. -/
def isNumber (text : List Char) : Bool :=
  let digits := text.filter (· != '_')
  isInteger (utf8 (String.ofList digits)) || isFloat digits || isMarkedInteger digits

def readsAsString (s : String) : Bool :=
  let text := s.toList
  !isWord s &&
    match text with
    | [] => false
    | first :: _ =>
      if first = '.' then !isPointFloat text
      else if first.isDigit || first == '-' || first == '+' then
        !isTimestamp text && !isNumber text && !isSexagesimal text
      else true

end StackMachine.Yaml
