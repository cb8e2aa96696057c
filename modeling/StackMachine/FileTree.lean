import StackMachine.Pathname
/-! A tree of files as a value. Paths are followed name by name, so that a file
is never passed through. -/
namespace StackMachine
open Pathname (Place)

inductive FileEntry where
  | directory
  | file (content : List UInt8)
  deriving DecidableEq, Repr

inductive FileError where
  | noEntry
  | notDirectory
  | isDirectory
  | longName
  | badName
  deriving DecidableEq, Repr

def FileError.text : FileError → String
  | .noEntry => "no such file or directory"
  | .notDirectory => "not a directory"
  | .isDirectory => "is a directory"
  | .longName => "file name too long"
  | .badName => "invalid argument"

structure FileFault where
  action : String
  path : String
  cause : FileError
  deriving DecidableEq, Repr

def FileFault.message (f : FileFault) : String :=
  f.action ++ " " ++ f.path ++ ": " ++ f.cause.text

/-- The root is always there and is not listed. -/
structure FileTree where
  entries : List (Place × FileEntry) := []
  deriving DecidableEq, Repr

namespace FileTree

def entry? (t : FileTree) (place : Place) : Option FileEntry :=
  if place.isEmpty then some .directory else t.entries.lookup place

def contains (t : FileTree) (place : Place) : Bool := (t.entry? place).isSome

def put (t : FileTree) (place : Place) (e : FileEntry) : FileTree :=
  { entries := (place, e) :: t.entries.filter (·.1 ≠ place) }

def makeDirectory (t : FileTree) (place : Place) : FileTree :=
  (Pathname.upward place).foldr (fun p t => if t.contains p then t else t.put p .directory) t

def makeFile (t : FileTree) (place : Place) (content : List UInt8) : FileTree :=
  (t.makeDirectory place.dropLast).put place (.file content)

def maxName : Nat := 255
def maxPath : Nat := 4095

def checkPath (path : String) : Except FileError Unit :=
  if path.toList.contains '\x00' then .error .badName
  else if path.isEmpty then .error .noEntry
  else if maxPath < path.utf8ByteSize then .error .longName
  else .ok ()

/-- Follows names from `place`; each of them is looked up in a directory. -/
def walk (t : FileTree) (place : Place) : List String → Except FileError Place
  | [] => if t.contains place then .ok place else .error .noEntry
  | name :: rest =>
    match t.entry? place with
    | none => .error .noEntry
    | some (.file _) => .error .notDirectory
    | some .directory =>
      if name = "" ∨ name = "." then t.walk place rest
      else if name = ".." then t.walk place.dropLast rest
      else if maxName < name.utf8ByteSize then .error .longName
      else t.walk (place ++ [name]) rest

def start (cwd : Place) (path : String) : Place := if Pathname.isAbsolute path then [] else cwd

def locate (t : FileTree) (cwd : Place) (path : String) : Except FileError Place := do
  checkPath path
  t.walk (start cwd path) (Pathname.names path)

def reaches (t : FileTree) (cwd : Place) (path : String) : Bool := (t.locate cwd path).isOk

/-- A directory can be opened; only reading it fails. -/
def read (t : FileTree) (cwd : Place) (path : String) : Except FileFault (List UInt8) :=
  match t.locate cwd path with
  | .error cause => .error ⟨"open", path, cause⟩
  | .ok place =>
    match t.entry? place with
    | some (.file content) => .ok content
    | _ => .error ⟨"read", path, .isDirectory⟩

/-- The place to write to: a name in an existing directory, and no directory
itself. A path that ends in a slash names a directory. -/
def target (t : FileTree) (cwd : Place) (path : String) : Except FileError Place := do
  checkPath path
  let trimmed := ((Pathname.names path).reverse.dropWhile (· == "")).reverse
  let some name := trimmed.getLast? | .error .isDirectory
  let dir ← t.walk (start cwd path) trimmed.dropLast
  match t.entry? dir with
  | some .directory =>
    if trimmed.length < (Pathname.names path).length ∨ name = "." ∨ name = ".." then .error .isDirectory
    else if maxName < name.utf8ByteSize then .error .longName
    else if t.entry? (dir ++ [name]) = some .directory then .error .isDirectory
    else .ok (dir ++ [name])
  | _ => .error .notDirectory

def write (t : FileTree) (cwd : Place) (path : String) (content : List UInt8) :
    Except FileFault FileTree :=
  match t.target cwd path with
  | .error cause => .error ⟨"open", path, cause⟩
  | .ok place => .ok (t.put place (.file content))

def contentAt (t : FileTree) (place : Place) : List UInt8 :=
  match t.entry? place with
  | some (.file content) => content
  | _ => []

def append (t : FileTree) (cwd : Place) (path : String) (content : List UInt8) :
    Except FileFault FileTree :=
  match t.target cwd path with
  | .error cause => .error ⟨"open", path, cause⟩
  | .ok place => .ok (t.put place (.file (t.contentAt place ++ content)))

end FileTree
end StackMachine
