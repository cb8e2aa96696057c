import StackMachine.Text.Calendar
import StackMachine.Text.Decimal
import StackMachine.Text.Integer
import StackMachine.Text.Split
import StackMachine.Text.Utf8
import StackMachine.Toml.Basic
/-! Numbers and times of TOML. A reader takes the longest run of characters that
such a value can have, and then checks the run as a whole. -/
namespace StackMachine.Toml
open Text

def underscoresOk (text : List Char) : Bool :=
  go false text
where
  go (afterDigit : Bool) : List Char → Bool
    | [] => afterDigit
    | c :: rest => (c != '_' || afterDigit) && go (isHexDigit c) rest

/-- A zero is no first digit of a longer number, unless it starts a marker. -/
def hasLeadingZero : List Char → Bool
  | '0' :: c :: _ => c != 'b' && c != 'o' && c != 'x'
  | '-' :: '0' :: _ :: _ => true
  | '+' :: '0' :: _ :: _ => true
  | _ => false

def integer? (token : List Char) : Option Scalar :=
  if !underscoresOk token || hasLeadingZero token then none
  else (readSigned 64 (utf8 (String.ofList token))).toOption.map .integer

def periodsOk : List Char → Bool
  | [] => true
  | '.' :: rest => rest.head?.any Char.isDigit && periodsOk rest
  | _ :: rest => periodsOk rest

def float? (token : List Char) : Option Scalar :=
  let parts := runs (fun c => c == '.' || c == 'e' || c == 'E') token
  if !parts.all underscoresOk || parts.head?.any hasLeadingZero || !periodsOk token then none
  else
    match readSignedDecimal? (token.filter (· != '_')) with
    | some d => if d.fitsBinary64 then some .float else none
    | none => none

/-- A date, a time of day, or both with an offset or without; seconds may be
left out. -/
def moment? (token : List Char) : Option Scalar :=
  let text := token.map fun c => if c = 't' ∨ c = ' ' then 'T' else if c = 'z' then 'Z' else c
  let ends (rest : Option (List Char)) : Bool :=
    Calendar.isEnd rest || Calendar.isEnd (rest >>= Calendar.readZone?)
  let dated (rest : List Char) : Bool :=
    rest.isEmpty ||
      match Calendar.skip? 'T' rest with
      | none => false
      | some clock =>
        ends (Calendar.readClock? true clock) || ends (Calendar.readMinute? true clock)
  if (Calendar.readDate? true text).any dated || Calendar.isEnd (Calendar.readClock? true text) ||
      Calendar.isEnd (Calendar.readMinute? true text) then some .moment
  else none

def isMomentChar (c : Char) : Bool := c.isDigit || "-:Tt .Zz+".toList.contains c
def isFloatChar (c : Char) : Bool := c.isDigit || "_.-+eE".toList.contains c

def readRun (check : List Char → Option Scalar) (isPart : Char → Bool) (text : List Char) :
    Option (Scalar × List Char) :=
  (check (text.takeWhile isPart)).map (·, text.dropWhile isPart)

def trimEnd (text : List Char) : List Char := (text.reverse.dropWhile (· == ' ')).reverse

/-- Decimal digits decide by the character behind them what is read. `sign` is a
sign that was read already; with one, no time can follow. -/
def readDecimal (sign : List Char) (text : List Char) : Option (Scalar × List Char) :=
  let isPart (c : Char) : Bool := c.isDigit || c == '_'
  let digits := text.takeWhile isPart
  if !digits.head?.any Char.isDigit then none
  else
    match text.dropWhile isPart with
    | [] => (integer? (sign ++ digits)).map (·, [])
    | next :: rest =>
      if next = '.' ∨ next = 'e' ∨ next = 'E' then
        readRun (fun token => float? (sign ++ token)) isFloatChar text
      else if sign.isEmpty && (next = '-' || next = ':') && !digits.contains '_' then
        readRun (fun token => moment? (trimEnd token)) isMomentChar text
      else (integer? (sign ++ digits)).map (·, next :: rest)

def readMarked (mark : Char) (isDigit : Char → Bool) (text : List Char) :
    Option (Scalar × List Char) :=
  if !text.head?.any isDigit then none
  else
    let isPart (c : Char) : Bool := isDigit c || c == '_'
    (integer? ('0' :: mark :: text.takeWhile isPart)).map (·, text.dropWhile isPart)

def readNumber : List Char → Option (Scalar × List Char)
  | '0' :: 'b' :: rest => readMarked 'b' (fun c => c == '0' || c == '1') rest
  | '0' :: 'o' :: rest => readMarked 'o' (fun c => '0' ≤ c && c ≤ '7') rest
  | '0' :: 'x' :: rest => readMarked 'x' isHexDigit rest
  | text => readDecimal [] text

def readSignedNumber (sign : Char) : List Char → Option (Scalar × List Char)
  | 'i' :: 'n' :: 'f' :: rest => some (.float, rest)
  | 'n' :: 'a' :: 'n' :: rest => some (.float, rest)
  | text => readDecimal [sign] text

end StackMachine.Toml
