import StackMachine.Text.Quoted
import StackMachine.Yaml.Implicit
/-! Strings as YAML scalars: plain where that is safe, else quoted, and text of
several lines as a literal block. Lines are never folded. -/
namespace StackMachine.Yaml

/-- Columns a scalar's further lines are indented by, and the step between
levels. -/
def scalarIndent : Nat := 6
def indentStep : Nat := 2

def isBreak (c : Char) : Bool :=
  c == '\n' || c == '\r' || c == '\u0085' || c == '\u2028' || c == '\u2029'

def isBlank (c : Char) : Bool := c == ' ' || c == '\t'

def isShown (c : Char) : Bool :=
  c == '\n' || ('\x20' ≤ c && c ≤ '\x7e') || ('\u00a0' ≤ c && c ≤ '\ufffd' && c != '\ufeff')

def isSpecial (c : Char) : Bool := c != '\t' && !isShown c

def hasPair (p : Char → Char → Bool) (text : List Char) : Bool :=
  (text.zip text.tail).any fun (a, b) => p a b

def startsNode : List Char → Bool
  | [] => false
  | first :: rest =>
    "#,[]\x7b\x7d&*!|>'\"%@`".toList.contains first ||
      ("?:-".toList.contains first && rest.head?.all isBlank) ||
      "---".toList.isPrefixOf (first :: rest) || "...".toList.isPrefixOf (first :: rest)

/-- A colon that would end a key, or a number sign that would start a comment. -/
def holdsMark (text : List Char) : Bool :=
  text.tail.getLast? == some ':' || hasPair (fun a b => a == ':' && isBlank b) text.tail ||
    hasPair (fun a b => (isBlank a || isBreak a || a == '\x00') && b == '#') text

def hasOuterSpace (text : List Char) : Bool :=
  let isSpace (c : Char) := c == ' ' || isBreak c
  text.head?.any isSpace || text.getLast?.any isSpace

def holdsSpaceBreak (text : List Char) : Bool := hasPair (fun a b => a == ' ' && isBreak b) text
def holdsBreakSpace (text : List Char) : Bool := hasPair (fun a b => isBreak a && b == ' ') text

def allowsSingle (text : List Char) : Bool :=
  !holdsBreakSpace text && !holdsSpaceBreak text && !text.contains '\t' && !text.any isSpecial

def allowsPlain (text : List Char) : Bool :=
  allowsSingle text && !hasOuterSpace text && !text.any isBreak && !startsNode text &&
    !holdsMark text

def allowsLiteral (text : List Char) : Bool :=
  text.getLast? != some ' ' && !holdsSpaceBreak text && !text.any isSpecial

inductive Style where
  | plain
  | single
  | double
  | literal
  deriving DecidableEq, Repr

def styleOf (s : String) : Style :=
  let text := s.toList
  if text.contains '\n' then if allowsLiteral text then .literal else .double
  else if !readsAsString s then .double
  else if allowsPlain text then .plain
  else if allowsSingle text then .single
  else .double

def shortEscape? (c : Char) : Option Char :=
  [('\x00', '0'), ('\x07', 'a'), ('\x08', 'b'), ('\t', 't'), ('\n', 'n'), ('\x0b', 'v'),
   ('\x0c', 'f'), ('\r', 'r'), ('\x1b', 'e'), ('"', '"'), ('\\', '\\'), ('\u0085', 'N'),
   ('\u00a0', '_'), ('\u2028', 'L'), ('\u2029', 'P')].lookup c

def upperHex (width n : Nat) : String := (Text.hex width n).map Char.toUpper

def escape (c : Char) : String :=
  match shortEscape? c with
  | some e => "\\" ++ e.toString
  | none =>
    if c.toNat ≤ 0xff then "\\x" ++ upperHex 2 c.toNat
    else if c.toNat ≤ 0xffff then "\\u" ++ upperHex 4 c.toNat
    else "\\U" ++ upperHex 8 c.toNat

/-- Behind a byte order mark at the start every character is escaped. -/
def doubleQuoted (text : List Char) : String :=
  let marked := text.head? == some '\ufeff'
  let shown (c : Char) : String :=
    if marked || !isShown c || isBreak c || c == '"' || c == '\\' then escape c else c.toString
  "\"" ++ String.join (text.map shown) ++ "\""

def indentation : List Char := List.replicate scalarIndent ' '

/-- Text with an indentation in front of what follows a break; `fresh` says that
a line has just begun. -/
def indented (fresh : Bool) : List Char → List Char
  | [] => []
  | c :: rest =>
    if isBreak c then c :: indented true rest
    else (if fresh then indentation else []) ++ c :: indented false rest

def singleQuoted (text : List Char) : String :=
  let doubled := (indented false text).flatMap fun c => if c == '\'' then [c, c] else [c]
  "'" ++ String.ofList doubled ++ "'"

/-- `-` if no break ends the text, nothing if one does, and `+` for more. -/
def chomping (text : List Char) : String :=
  match text.reverse with
  | [] => "-"
  | [last] => if isBreak last then "+" else "-"
  | last :: before :: _ => if !isBreak last then "-" else if isBreak before then "+" else ""

/-- The header says how deep the block is indented if its text cannot show it. A
break at the start of the text is the one that ends the header's line. -/
def literalBlock (text : List Char) : String :=
  let hint := if text.head?.any (fun c => c == ' ' || isBreak c) then toString indentStep else ""
  let ending := if text.head?.any isBreak then "" else "\n"
  "|" ++ hint ++ chomping text ++ ending ++ String.ofList (indented true text)

def scalar (s : String) : String :=
  match styleOf s with
  | .plain => s
  | .single => singleQuoted s.toList
  | .double => doubleQuoted s.toList
  | .literal => literalBlock s.toList

def scalarLine (s : String) : String :=
  let text := scalar s
  if text.toList.getLast?.any isBreak then text else text ++ "\n"

end StackMachine.Yaml
