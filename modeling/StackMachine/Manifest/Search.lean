import StackMachine.FileTree
import StackMachine.Manifest.Basic
/-! Manifests in a tree of files: the nearest one upward from a directory counts,
even if it is wrong. -/
namespace StackMachine
open Pathname (Place)

inductive LoadError where
  | unreadable (path : String) (fault : FileFault)
  | wrong (path : String) (why : ManifestError)
  deriving DecidableEq, Repr

def LoadError.message : LoadError → String
  | .unreadable path fault => "cannot read " ++ path ++ ": " ++ fault.message
  | .wrong path why => "parse error in " ++ path ++ ": " ++ why.message

namespace Manifest

def fileName : String := "xtella.toml"

def pathIn (dir : String) : String := Pathname.join dir fileName

def load (t : FileTree) (cwd : Place) (dir : String) : Except LoadError Manifest :=
  let path := pathIn dir
  match t.read cwd path with
  | .error fault => .error (.unreadable path fault)
  | .ok bytes =>
    match parse bytes with
    | .error why => .error (.wrong path why)
    | .ok m => .ok { m with dir := Pathname.ofPlace (Pathname.resolve cwd dir) }

/-- The nearest place upward in which the path of a manifest leads to something. -/
def nearest? (t : FileTree) (cwd place : Place) : Option Place :=
  (Pathname.upward place).find? fun p => t.reaches cwd (pathIn (Pathname.ofPlace p))

def find (t : FileTree) (cwd : Place) (dir : String) : Except LoadError (Option Manifest) :=
  match nearest? t cwd (Pathname.resolve cwd dir) with
  | none => .ok none
  | some place => (load t cwd (Pathname.ofPlace place)).map some

end Manifest
end StackMachine
