import StackMachine.Text.Integer
import StackMachine.Text.Quoted
import StackMachine.Text.Split
/-! Program text: cells separated by blanks, line ends or commas, with comments
from `#` to the end of the line. -/
namespace StackMachine.Program
open Text (ascii IntegerError)

abbrev Bytes := List UInt8

inductive SourceError where
  | badCell (line : Nat) (field : Bytes) (why : IntegerError)
  | unreadable (why : String)
  deriving DecidableEq, Repr

def SourceError.message : SourceError → String
  | .badCell line field why =>
    let shown := Text.quoteBytes field
    "line " ++ toString line ++ ": invalid cell " ++ shown ++ ": strconv.ParseInt: parsing " ++
      shown ++ ": " ++ why.message
  | .unreadable why => "read bytecode: " ++ why

def newline : UInt8 := ascii '\n'

def isSeparator (b : UInt8) : Bool :=
  b == ascii ',' || b == ascii ' ' || b == ascii '\t' || b == ascii '\r' || b == newline

def lines (text : Bytes) : List Bytes := Text.pieces (· == newline) text

def withoutComment (line : Bytes) : Bytes := line.takeWhile (· != ascii '#')

def fields (line : Bytes) : List Bytes := Text.runs isSeparator line

def readCell (field : Bytes) : Except IntegerError Int32 :=
  (Text.readSigned 32 field).map .ofInt

def parseField (line : Nat) (field : Bytes) : Except SourceError Int32 :=
  (readCell field).mapError (.badCell line field)

def parseLine (line : Nat) (text : Bytes) : Except SourceError (List Int32) :=
  (fields (withoutComment text)).mapM (parseField line)

/-- Cells of lines numbered from `line` on; the first bad cell ends it. -/
def parseLines (line : Nat) : List Bytes → Except SourceError (List Int32)
  | [] => .ok []
  | text :: rest => do
    let cells ← parseLine line text
    let more ← parseLines (line + 1) rest
    return cells ++ more

def parse (text : Bytes) : Except SourceError (List Int32) := parseLines 1 (lines text)

/-- A text whose reading broke off for the reason `why`: its complete lines are
parsed before that is reported. -/
def parseBroken (text : Bytes) (why : String) : Except SourceError (List Int32) := do
  let _ ← parseLines 1 (lines text).dropLast
  .error (.unreadable why)

end StackMachine.Program
