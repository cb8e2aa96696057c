/-! TOML as it is written: keys, values and the statements of a document. -/
namespace StackMachine.Toml

abbrev Key := List String

inductive Scalar where
  | integer (n : Int)
  | float
  | boolean (b : Bool)
  | text (s : String)
  | moment
  deriving DecidableEq, Repr

inductive Expr where
  | scalar (s : Scalar)
  | array (items : List Expr)
  | inlineTable (entries : List (Key × Expr))
  deriving Repr

inductive Statement where
  | table (key : Key)
  | arrayTable (key : Key)
  | assign (key : Key) (value : Expr)
  deriving Repr

def isBlank (c : Char) : Bool := c == ' ' || c == '\t'
def isNewline (c : Char) : Bool := c == '\n' || c == '\r'

def isHexDigit (c : Char) : Bool :=
  c.isDigit || ('a' ≤ c && c ≤ 'f') || ('A' ≤ c && c ≤ 'F')

def skipBlanks (text : List Char) : List Char := text.dropWhile isBlank

def skipVoid (inComment : Bool) : List Char → List Char
  | [] => []
  | c :: rest =>
    if inComment then skipVoid (!isNewline c) rest
    else if isBlank c || isNewline c then skipVoid false rest
    else if c = '#' then skipVoid true rest
    else c :: rest

/-- No control characters but tabs and line ends, and no carriage return alone. -/
def isCleanText : List Char → Bool
  | [] => true
  | '\r' :: rest => rest.head? == some '\n' && isCleanText rest
  | c :: rest => (c == '\t' || c == '\n' || (' ' ≤ c && c != '\x7f')) && isCleanText rest

end StackMachine.Toml
