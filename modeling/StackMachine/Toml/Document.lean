import StackMachine.Toml.Reader
import StackMachine.Text.Utf8
/-! The tables that the statements of a document build up. A table that was only
named on the way to another one is implicit: it may be opened once more. -/
namespace StackMachine.Toml

/-- A plain array keeps no content, since nothing asks for it. -/
inductive Node where
  | scalar (s : Scalar)
  | array
  | table (entries : List (String × Node))
  | tables (items : List (List (String × Node)))
  deriving Repr

abbrev Table := List (String × Node)

def Table.set (t : Table) (name : String) (n : Node) : Table :=
  if t.any (·.1 == name) then t.map fun e => if e.1 == name then (name, n) else e
  else t ++ [(name, n)]

/-- Replaces the table at a key; of an array of tables the last one is meant. -/
def Table.update? (f : Table → Option Table) : Key → Table → Option Table
  | [], t => f t
  | name :: rest, t =>
    match t.lookup name with
    | some (.table inner) => do return t.set name (.table (← Table.update? f rest inner))
    | some (.tables items) => do
      let last ← items.getLast?
      return t.set name (.tables (items.dropLast ++ [← Table.update? f rest last]))
    | _ => none

def Table.get? : Key → Table → Option Table
  | [], t => some t
  | name :: rest, t =>
    match t.lookup name with
    | some (.table inner) => Table.get? rest inner
    | some (.tables items) => items.getLast? >>= Table.get? rest
    | _ => none

/-- Puts a value at a key, over any other; the way there leads through tables. -/
def Table.put? (n : Node) : Key → Table → Option Table
  | [], _ => none
  | [name], t => some (t.set name n)
  | name :: rest, t =>
    match t.lookup name with
    | none => do return t.set name (.table (← Table.put? n rest []))
    | some (.table inner) => do return t.set name (.table (← Table.put? n rest inner))
    | some _ => none

/-- A document in the making: implicit tables, and the keys whose last value was
an array. -/
structure Document where
  root : Table := []
  implicit : List Key := []
  arrays : List Key := []

namespace Document

def markImplicit (d : Document) (key : Key) : Document :=
  if d.implicit.contains key then d else { d with implicit := key :: d.implicit }

def unmarkImplicit (d : Document) (key : Key) : Document :=
  { d with implicit := d.implicit.filter (· != key) }

def markArray (d : Document) (context : Key) (name : String) (isArray : Bool) : Document :=
  let key := if name != "" then context ++ [name] else if context.isEmpty then [""] else context
  let others := d.arrays.filter (· != key)
  { d with arrays := if isArray then key :: others else others }

def setAt (d : Document) (context : Key) (name : String) (n : Node) : Option Document := do
  let root ← Table.update? (fun t => some (t.set name n)) context d.root
  return { d with root }

/-- Gives a name its value. A name that has one is refused, unless that is an
implicit table: it stays, or makes way for an array. -/
def define (d : Document) (context : Key) (name : String) (n : Node) : Option Document := do
  let key := context ++ [name]
  let table ← Table.get? context d.root
  if (table.lookup name).isNone then d.setAt context name n
  else if !d.implicit.contains key then none
  else if d.arrays.contains key then (d.unmarkImplicit key).setAt context name n
  else some (d.unmarkImplicit key)

def ensureTable (d : Document) (context : Key) (name : String) : Option Document := do
  let table ← Table.get? context d.root
  if (table.lookup name).isSome then return d
  (d.markImplicit (context ++ [name])).setAt context name (.table [])

def openParents (d : Document) (context : Key) : Key → Option Document
  | [] => some d
  | name :: rest => do
    let d ← d.ensureTable context name
    d.openParents (context ++ [name]) rest

def openTable (d : Document) (key : Key) (inArray : Bool) : Option Document := do
  let name ← key.getLast?
  let parents := key.dropLast
  let d ← d.openParents [] parents
  if !inArray then return ← d.define parents name (.table [])
  let table ← Table.get? parents d.root
  let items ← match table.lookup name with
    | none => some []
    | some (.tables items) => some items
    | some _ => none
  d.setAt parents name (.tables (items ++ [[]]))

def openImplicit (d : Document) (key : Key) : Option Document := (d.markImplicit key).openTable key false

def openDotted (d : Document) (context : Key) : Key → Option Document
  | [] => some d
  | name :: rest => do
    let d ← d.openImplicit (context ++ [name])
    d.openDotted (context ++ [name]) rest

def isArrayNode : Node → Bool
  | .array => true
  | _ => false

def assignUsing (d : Document) (context key : Key)
    (evaluate : Document → Key → String → Option (Node × Document)) :
    Option (Node × Document) := do
  let name ← key.getLast?
  let d ← d.openDotted context key.dropLast
  let context := context ++ key.dropLast
  let (n, d) ← evaluate d context name
  let d ← d.define context name n
  return (n, d.markArray context name (isArrayNode n))

mutual

/-- The value of an expression that is given to a name. Entries of an inline
table go into the document as they are read, and into the table's own value. -/
def evaluate (inArray : Bool) : Expr → Document → Key → String → Option (Node × Document)
  | .scalar s, d, _, _ => some (.scalar s, d)
  | .array items, d, context, name => do
    let d ← evaluateItems items (d.markArray context name true) context name
    return (.array, d)
  | .inlineTable entries, d, context, name => do
    let key := context ++ [name]
    let d ← (d.markImplicit key).openTable key inArray
    let (own, d) ← evaluateEntries entries d key []
    return (.table own, d)

def evaluateItems : List Expr → Document → Key → String → Option Document
  | [], d, _, _ => some d
  | item :: rest, d, context, name => do
    let (_, d) ← evaluate true item d context name
    evaluateItems rest d context name

def evaluateEntries :
    List (Key × Expr) → Document → Key → (own : Table) → Option (Table × Document)
  | [], d, _, own => some (own, d)
  | (key, value) :: rest, d, context, own => do
    let (n, d) ← d.assignUsing context key (evaluate false value)
    evaluateEntries rest d context (← own.put? n key)

end

end Document

def build (d : Document) (context : Key) : List Statement → Option Document
  | [] => some d
  | .table key :: rest => do
    let d ← d.openTable key false
    build (d.markArray key "" false) key rest
  | .arrayTable key :: rest => do
    let d ← d.openTable key true
    build (d.markArray key "" false) key rest
  | .assign key value :: rest => do
    let (_, d) ← d.assignUsing context key (Document.evaluate false value)
    build d context rest

def dropByteOrderMark : List UInt8 → List UInt8
  | 0xff :: 0xfe :: rest => rest
  | 0xfe :: 0xff :: rest => rest
  | 0xef :: 0xbb :: 0xbf :: rest => rest
  | bytes => bytes

def parse? (bytes : List UInt8) : Option Table := do
  let text ← Text.decode? (dropByteOrderMark bytes)
  let d ← build {} [] (← statements text.toList)
  return d.root

end StackMachine.Toml
