import StackMachine.Duration
import StackMachine.Pathname
import StackMachine.Toml.Document
/-! The configuration of a run, read from a TOML text and checked. -/
namespace StackMachine

structure Manifest where
  stackCapacity : Int := 256
  /-- Bytes; zero sets no limit. -/
  memoryLimit : Int := 0
  /-- A duration; an empty text sets none. -/
  timeout : String := ""
  verbosity : Int := 0
  /-- Where the log goes; an empty text is the error stream. -/
  logFile : String := ""
  trace : Bool := false
  dir : String := ""
  deriving DecidableEq, Repr

inductive ManifestError where
  | malformed
  | badCapacity (n : Int)
  | badLimit (n : Int)
  | badTimeout (why : DurationError)
  | negativeTimeout (d : Duration)
  deriving DecidableEq, Repr

def ManifestError.message : ManifestError → String
  | .malformed => "toml"
  | .badCapacity n => "machine.stack-capacity must be positive, got " ++ toString n
  | .badLimit n => "machine.memory-limit must not be negative, got " ++ toString n
  | .badTimeout why => "machine.timeout: " ++ why.message
  | .negativeTimeout d => "machine.timeout must not be negative, got " ++ d.text

namespace Manifest

def default : Manifest := {}

def defaultCapacity : Int := default.stackCapacity

def runTimeout (m : Manifest) : Except ManifestError Duration :=
  if m.timeout.isEmpty then .ok ⟨0⟩
  else
    match Duration.parse m.timeout with
    | .error why => .error (.badTimeout why)
    | .ok d => if d.nanoseconds < 0 then .error (.negativeTimeout d) else .ok d

def withDefaults (m : Manifest) : Manifest :=
  if m.stackCapacity = 0 then { m with stackCapacity := defaultCapacity } else m

def validate (m : Manifest) : Except ManifestError Unit :=
  if m.stackCapacity < 0 then .error (.badCapacity m.stackCapacity)
  else if m.memoryLimit < 0 then .error (.badLimit m.memoryLimit)
  else m.runTimeout.map fun _ => ()

/-- A relative log file is taken from the manifest's directory. -/
def logPath (m : Manifest) : Option String :=
  if m.logFile.isEmpty then none
  else if Pathname.isAbsolute m.logFile || m.dir.isEmpty then some m.logFile
  else some (Pathname.join m.dir m.logFile)

/-! Decoding. A setting that is absent is zero, empty or false; names match
without regard to case. -/

/-- Lower case, with the two letters beyond ASCII that fold into it. -/
def foldCase (c : Char) : Char :=
  if c = '\u017f' then 's' else if c = '\u212a' then 'k' else c.toLower

def sameName (a b : String) : Bool := a.toList.map foldCase == b.toList.map foldCase

def integer? : Toml.Node → Option Int
  | .scalar (.integer n) => some n
  | _ => none

def text? : Toml.Node → Option String
  | .scalar (.text s) => some s
  | _ => none

def boolean? : Toml.Node → Option Bool
  | .scalar (.boolean b) => some b
  | _ => none

def section? : Toml.Node → Option Toml.Table
  | .table entries => some entries
  | _ => none

def readMachine (m : Manifest) (name : String) (n : Toml.Node) : Option Manifest :=
  if sameName name "stack-capacity" then
    (integer? n).map fun stackCapacity => { m with stackCapacity }
  else if sameName name "memory-limit" then
    (integer? n).map fun memoryLimit => { m with memoryLimit }
  else if sameName name "timeout" then (text? n).map fun timeout => { m with timeout }
  else some m

def readLog (m : Manifest) (name : String) (n : Toml.Node) : Option Manifest :=
  if sameName name "verbosity" then (integer? n).map fun verbosity => { m with verbosity }
  else if sameName name "path" then (text? n).map fun logFile => { m with logFile }
  else some m

def readRun (m : Manifest) (name : String) (n : Toml.Node) : Option Manifest :=
  if sameName name "trace" then (boolean? n).map fun trace => { m with trace } else some m

def readSection (read : Manifest → String → Toml.Node → Option Manifest) (m : Manifest)
    (n : Toml.Node) : Option Manifest := do
  (← section? n).foldlM (fun m (name, n) => read m name n) m

def readTop (m : Manifest) (name : String) (n : Toml.Node) : Option Manifest :=
  if sameName name "machine" then readSection readMachine m n
  else if sameName name "log" then readSection readLog m n
  else if sameName name "run" then readSection readRun m n
  else some m

def decode? (bytes : List UInt8) : Option Manifest := do
  (← Toml.parse? bytes).foldlM (fun m (name, n) => readTop m name n) { stackCapacity := 0 }

def parse (bytes : List UInt8) : Except ManifestError Manifest := do
  let some m := decode? bytes | .error .malformed
  let m := m.withDefaults
  m.validate
  return m

end Manifest
end StackMachine
