import StackMachine.Text.Split
/-! File names as texts with slashes, and their reduction without looking at any
file. -/
namespace StackMachine.Pathname

/-- An absolute place: the names that lead to it from the root. -/
abbrev Place := List String

def names (path : String) : List String :=
  (Text.pieces (· == '/') path.toList).map String.ofList

def isAbsolute (path : String) : Bool := path.toList.head? == some '/'

/-- Drops empty names and dots and lets a double dot cancel the name before it.
At the root a double dot stays there; otherwise it is kept. -/
def reduce (absolute : Bool) : (kept : List String) → List String → List String
  | kept, [] => kept.reverse
  | kept, name :: rest =>
    if name = "" ∨ name = "." then reduce absolute kept rest
    else if name = ".." then
      match kept with
      | [] => reduce absolute (if absolute then [] else [name]) rest
      | last :: before =>
        if last = ".." then reduce absolute (name :: kept) rest else reduce absolute before rest
    else reduce absolute (name :: kept) rest

def ofPlace (place : Place) : String := "/" ++ "/".intercalate place

def clean (path : String) : String :=
  let reduced := reduce (isAbsolute path) [] (names path)
  if isAbsolute path then ofPlace reduced
  else if reduced.isEmpty then "." else "/".intercalate reduced

def join (dir name : String) : String := if dir.isEmpty then clean name else clean (dir ++ "/" ++ name)

def resolve (cwd : Place) (path : String) : Place :=
  if isAbsolute path then reduce true [] (names path) else reduce true [] (cwd ++ names path)

def upward (place : Place) : List Place :=
  (List.range (place.length + 1)).map fun k => place.take (place.length - k)

end StackMachine.Pathname
