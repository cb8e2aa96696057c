import StackMachine.Toml.Number
import StackMachine.Toml.Strings
/-! Statements of a TOML document, in the dialect with trailing commas, line ends
and comments inside inline tables. -/
namespace StackMachine.Toml

abbrev Reader (α : Type) := List Char → Option (α × List Char)

def isBareChar (c : Char) : Bool := c.isAlphanum || c == '_' || c == '-'

def expect (c : Char) : List Char → Option (List Char)
  | [] => none
  | d :: rest => if c = d then some rest else none

def readName : Reader String
  | '"' :: rest => (readBasic 0 rest).map fun (s, rest) => (String.ofList s, rest)
  | '\'' :: rest => (readLiteral rest).map fun (s, rest) => (String.ofList s, rest)
  | text =>
    let name := text.takeWhile isBareChar
    if name.isEmpty then none else some (String.ofList name, text.dropWhile isBareChar)

def readKey : (fuel : Nat) → Reader Key
  | 0, _ => none
  | fuel + 1, text => do
    let (name, rest) ← readName (skipBlanks text)
    match skipBlanks rest with
    | '.' :: rest =>
      let (more, rest) ← readKey fuel rest
      return (name :: more, rest)
    | rest => return ([name], rest)

def readString : Reader Expr
  | '"' :: '"' :: '"' :: rest =>
    (readMultiline 0 none (dropFirstNewline rest)).map wrap
  | '\'' :: '\'' :: '\'' :: rest =>
    (readMultilineLiteral (dropFirstNewline rest)).map wrap
  | '"' :: rest => (readBasic 0 rest).map wrap
  | '\'' :: rest => (readLiteral rest).map wrap
  | _ => none
where
  wrap : List Char × List Char → Expr × List Char :=
    fun (s, rest) => (.scalar (.text (String.ofList s)), rest)

def readPlain : Reader Expr
  | 't' :: 'r' :: 'u' :: 'e' :: rest => some (.scalar (.boolean true), rest)
  | 'f' :: 'a' :: 'l' :: 's' :: 'e' :: rest => some (.scalar (.boolean false), rest)
  | 'i' :: 'n' :: 'f' :: rest => some (.scalar .float, rest)
  | 'n' :: 'a' :: 'n' :: rest => some (.scalar .float, rest)
  | '-' :: rest => (readSignedNumber '-' rest).map fun (s, rest) => (.scalar s, rest)
  | '+' :: rest => (readSignedNumber '+' rest).map fun (s, rest) => (.scalar s, rest)
  | text => (readNumber text).map fun (s, rest) => (.scalar s, rest)

mutual

/-- A value; every level of nesting and every item takes at least one character,
which is what `fuel` counts. -/
def readValue : (fuel : Nat) → Reader Expr
  | 0, _ => none
  | fuel + 1, text =>
    match text with
    | '[' :: rest => (readItems fuel rest).map fun (items, rest) => (.array items, rest)
    | '\x7b' :: rest =>
      (readEntries fuel rest).map fun (entries, rest) => (.inlineTable entries, rest)
    | '"' :: _ => readString text
    | '\'' :: _ => readString text
    | _ => readPlain text

def readItems : (fuel : Nat) → Reader (List Expr)
  | 0, _ => none
  | fuel + 1, text =>
    match skipVoid false text with
    | ']' :: rest => some ([], rest)
    | text => do
      let (item, rest) ← readValue fuel text
      match skipVoid false rest with
      | ']' :: rest => return ([item], rest)
      | ',' :: rest =>
        let (items, rest) ← readItems fuel rest
        return (item :: items, rest)
      | _ => none

def readEntries : (fuel : Nat) → Reader (List (Key × Expr))
  | 0, _ => none
  | fuel + 1, text =>
    match skipVoid false text with
    | '\x7d' :: rest => some ([], rest)
    | text => do
      let (key, rest) ← readKey fuel text
      let (value, rest) ← readValue fuel (skipBlanks (← expect '=' rest))
      match skipVoid false rest with
      | '\x7d' :: rest => return ([(key, value)], rest)
      | ',' :: rest =>
        let (entries, rest) ← readEntries fuel rest
        return ((key, value) :: entries, rest)
      | _ => none

end

def readStatement (fuel : Nat) : Reader Statement
  | '[' :: '[' :: rest => do
    let (key, rest) ← readKey fuel rest
    return (.arrayTable key, ← expect ']' (← expect ']' rest))
  | '[' :: rest => do
    let (key, rest) ← readKey fuel rest
    return (.table key, ← expect ']' rest)
  | text => do
    let (key, rest) ← readKey fuel text
    let (value, rest) ← readValue fuel (skipBlanks (← expect '=' rest))
    return (.assign key value, rest)

def endsLine (text : List Char) : Bool :=
  (skipBlanks text).head?.all fun c => isNewline c || c == '#'

def readStatements : (fuel : Nat) → List Char → Option (List Statement)
  | 0, _ => none
  | fuel + 1, text =>
    match skipVoid false text with
    | [] => some []
    | text => do
      let (statement, rest) ← readStatement (2 * text.length + 2) text
      if !endsLine rest then none
      let more ← readStatements fuel rest
      return statement :: more

def statements (text : List Char) : Option (List Statement) :=
  if isCleanText text then readStatements (text.length + 1) text else none

end StackMachine.Toml
