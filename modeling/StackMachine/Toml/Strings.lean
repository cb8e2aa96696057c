import StackMachine.Toml.Basic
/-! The four kinds of TOML strings. Readers start behind the opening quotes. -/
namespace StackMachine.Toml

def hexValue (c : Char) : Nat :=
  if c.isDigit then c.toNat - '0'.toNat
  else if 'a' ≤ c then c.toNat - 'a'.toNat + 10
  else c.toNat - 'A'.toNat + 10

def hexChar? (digits : List Char) : Option Char :=
  if !digits.all isHexDigit then none
  else
    let n := digits.foldl (fun n c => 16 * n + hexValue c) 0
    if h : n.isValidChar then some (Char.ofNatAux n h) else none

def simpleEscape? (c : Char) : Option Char :=
  [('b', '\x08'), ('t', '\t'), ('n', '\n'), ('f', '\x0c'), ('r', '\r'), ('e', '\x1b'),
   ('"', '"'), ('\\', '\\')].lookup c

def escapeDigits? (c : Char) : Option Nat := [('x', 2), ('u', 4), ('U', 8)].lookup c

/-- The character an escape stands for, and the number of characters behind the
backslash that it takes. -/
def readEscape? : List Char → Option (Char × Nat)
  | [] => none
  | c :: rest =>
    match simpleEscape? c, escapeDigits? c with
    | some e, _ => some (e, 1)
    | none, some n =>
      if rest.length < n then none else (hexChar? (rest.take n)).map (·, n + 1)
    | none, none => none

def isLineSpace (c : Char) : Bool := isBlank c || isNewline c

/-- A string on one line. `skip` counts characters of an escape that were read
ahead. -/
def readBasic (skip : Nat) : List Char → Option (List Char × List Char)
  | [] => none
  | c :: rest =>
    match skip with
    | skip + 1 => readBasic skip rest
    | 0 =>
      if c = '"' then some ([], rest)
      else if isNewline c then none
      else if c = '\\' then do
        let (e, n) ← readEscape? rest
        let (s, rest) ← readBasic n rest
        return (e :: s, rest)
      else do
        let (s, rest) ← readBasic 0 rest
        return (c :: s, rest)

def readLiteral (text : List Char) : Option (List Char × List Char) :=
  let s := text.takeWhile fun c => c != '\'' && !isNewline c
  match text.dropWhile fun c => c != '\'' && !isNewline c with
  | '\'' :: rest => some (s, rest)
  | _ => none

def dropFirstNewline : List Char → List Char
  | '\n' :: rest => rest
  | '\r' :: '\n' :: rest => rest
  | text => text

/-- Up to two quotes may stand before the three that close a text. A longer run
closes nothing; one more is let through where `raw`, the character before the
run, is a backslash. -/
def closingRun (quote : Char) (raw : Option Char) (text : List Char) : Option Nat :=
  let n := (text.takeWhile (· == quote)).length
  if n ≤ (if raw = some '\\' then 6 else 5) then some n else none

/-- A string over several lines. A backslash at the end of a line takes the line
end and all blank space behind it away. -/
def readMultiline (skip : Nat) (raw : Option Char) : List Char → Option (List Char × List Char)
  | [] => none
  | c :: rest =>
    match skip with
    | skip + 1 => readMultiline skip (some c) rest
    | 0 =>
      if c = '"' ∧ 3 ≤ ((c :: rest).takeWhile (· == '"')).length then do
        let n ← closingRun '"' raw (c :: rest)
        return (List.replicate (n - 3) '"', (c :: rest).drop n)
      else if c = '\\' then
        let space := rest.takeWhile isLineSpace
        if space.contains '\n' then readMultiline space.length (some c) rest
        else do
          let (e, n) ← readEscape? rest
          let (s, rest) ← readMultiline n (some c) rest
          return (e :: s, rest)
      else do
        let (s, rest) ← readMultiline 0 (some c) rest
        return (c :: s, rest)

def readMultilineLiteral : List Char → Option (List Char × List Char)
  | [] => none
  | c :: rest =>
    if c = '\'' ∧ 3 ≤ ((c :: rest).takeWhile (· == '\'')).length then do
      let n ← closingRun '\'' none (c :: rest)
      return (List.replicate (n - 3) '\'', (c :: rest).drop n)
    else do
      let (s, rest) ← readMultilineLiteral rest
      return (c :: s, rest)

end StackMachine.Toml
