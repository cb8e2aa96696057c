import StackMachine.Text.Printable
import StackMachine.Text.Utf8
/-! Text in double quotes: printable characters stand for themselves, all others
are escaped, and a stray byte keeps its value. -/
namespace StackMachine.Text

def hex (width n : Nat) : String :=
  let ds := Nat.toDigits 16 n
  String.ofList (List.replicate (width - ds.length) '0' ++ ds)

def shortEscape? (c : Char) : Option Char :=
  match c.toNat with
  | 0x07 => some 'a'
  | 0x08 => some 'b'
  | 0x0C => some 'f'
  | 0x0A => some 'n'
  | 0x0D => some 'r'
  | 0x09 => some 't'
  | 0x0B => some 'v'
  | _ => none

def quoteChar (c : Char) : String :=
  if c = '"' ∨ c = '\\' then String.ofList ['\\', c]
  else if isPrintable c then c.toString
  else match shortEscape? c with
    | some letter => String.ofList ['\\', letter]
    | none =>
      if c.toNat < 0x80 then "\\x" ++ hex 2 c.toNat
      else if c.toNat < 0x10000 then "\\u" ++ hex 4 c.toNat
      else "\\U" ++ hex 8 c.toNat

def quotePiece : Piece → String
  | .char c => quoteChar c
  | .stray b => "\\x" ++ hex 2 b.toNat

def quotePieces (pieces : List Piece) : String :=
  "\"" ++ String.join (pieces.map quotePiece) ++ "\""

def quote (s : String) : String := quotePieces (s.toList.map .char)

def quoteBytes (bytes : List UInt8) : String := quotePieces (scan bytes)

end StackMachine.Text
