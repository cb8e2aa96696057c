import StackMachine.Catalog
import StackMachine.Command.Options
import StackMachine.Command.Report
import StackMachine.Manifest.Search
import StackMachine.Program.Listing
import StackMachine.Program.Source
import StackMachine.Snapshot.Wire
/-! The command as a function of its surroundings. It comes to an end by itself,
or it has an engine to run; what is left to do after the run is `Job.finish`. -/
namespace StackMachine.Command
open Pathname (Place)

structure Surroundings where
  args : List String := []
  input : List UInt8 := []
  files : FileTree := {}
  cwd : Place := []
  runId : String := ""
  color : Bool := false
  /-- Why nothing can be written to the output, if so. -/
  outputFailure : Option String := none
  /-- What a log file grows by for messages under a verbosity, times included. -/
  journal : Int → List Message → List UInt8 := fun _ _ => []

inductive Crash where
  | noStack
  | aborted (why : Abort)
  | unlisted (why : Program.Misfit)

structure Outcome where
  exit : Except Crash Nat
  output : String := ""
  errors : String := ""
  files : FileTree
  log : List Message := []

structure Job where
  engine : Engine
  timeout : Duration
  dump : String
  files : FileTree
  cwd : Place
  color : Bool
  outputFailure : Option String
  log : Option String
  journal : List Message → List UInt8

inductive Plan where
  | done (outcome : Outcome)
  | execute (job : Job)

inductive ProgramError where
  | manyFiles (count : Nat)
  | unopened (fault : FileFault)
  | wrong (why : Program.SourceError)
  | wrongFile (path : String) (why : Program.SourceError)
  deriving DecidableEq, Repr

def ProgramError.message : ProgramError → String
  | .manyFiles count => "expected one program file, got " ++ toString count
  | .unopened fault => fault.message
  | .wrong why => why.message
  | .wrongFile path why => path ++ ": " ++ why.message

/-- A file that cannot be read after it was opened counts as a broken text. -/
def readFile (s : Surroundings) (path : String) : Except ProgramError (List Int32) :=
  match s.files.read s.cwd path with
  | .ok bytes => (Program.parse bytes).mapError (.wrongFile path)
  | .error fault =>
    if fault.cause = .isDirectory then
      (Program.parseBroken [] fault.message).mapError (.wrongFile path)
    else .error (.unopened fault)

def readProgram (s : Surroundings) (o : Options) : Except ProgramError (List Int32 × String) :=
  if !o.inline.isEmpty then
    ((Program.parse (Text.utf8 o.inline)).mapError .wrong).map (·, "-e")
  else
    match o.paths with
    | [] => ((Program.parse s.input).mapError .wrong).map (·, "stdin")
    | [path] => (readFile s path).map (·, path)
    | paths => .error (.manyFiles paths.length)

/-- Flags go before the manifest; a trace asks for all messages. -/
def configure (m : Manifest) (o : Options) : Manifest :=
  { m with
    stackCapacity := if 0 < o.capacity then o.capacity else m.stackCapacity
    trace := m.trace || o.trace
    verbosity := max m.verbosity (if m.trace then 2 else o.verbosity) }

/-- Output that cannot be written is lost. -/
def shown (failure : Option String) (text : String) : String :=
  if failure.isSome then "" else text

def failure (files : FileTree) (message : String) : Outcome :=
  { exit := .ok 1, errors := "Error: " ++ message ++ "\n", files }

def printDocs (s : Surroundings) : Outcome :=
  match s.outputFailure with
  | some why => failure s.files (UnwritableCatalog.message ⟨why⟩)
  | none => { exit := .ok 0, output := catalogYaml Builtin.registry.catalog, files := s.files }

def printListing (s : Surroundings) (name : String) (code : List Int32) : Outcome :=
  match Program.disassemble Builtin.registry name code with
  | .error why => { exit := .error (.unlisted why), files := s.files }
  | .ok text => { exit := .ok 0, output := shown s.outputFailure text, files := s.files }

def makeJob (s : Surroundings) (m : Manifest) (o : Options) (code : List Int32) : Plan :=
  let setup : Engine.Setup := {
    runId := s.runId, code := code.toArray, capacity := m.stackCapacity
    limit := .ofInt m.memoryLimit, trace := m.trace }
  match Engine.create? setup with
  | none => .done { exit := .error .noStack, files := s.files }
  | some engine =>
    .execute { engine, timeout := (m.runTimeout.toOption).getD ⟨0⟩, dump := o.dump,
               files := s.files, cwd := s.cwd, color := s.color,
               outputFailure := s.outputFailure, log := m.logPath
               journal := s.journal m.verbosity }

def carryOut (s : Surroundings) (m : Manifest) (o : Options) : Plan :=
  if o.docs then .done (printDocs s)
  else
    match readProgram s o with
    | .error why => .done (failure s.files why.message)
    | .ok (code, name) =>
      if o.disassemble then .done (printListing s name code)
      else makeJob s m o code

def installed : Message :=
  (.debug, "installed " ++ toString Builtin.registry.size ++ " builtin opcodes")

/-- Makes the log file unless there is one. The first message stands in it at once. -/
def openLog (s : Surroundings) (m : Manifest) : Except FileFault FileTree :=
  match m.logPath with
  | none => .ok s.files
  | some path => s.files.append s.cwd path (s.journal m.verbosity [installed])

def plan (s : Surroundings) : Plan :=
  match parse {} s.args with
  | .error e => .done { exit := .ok 2, errors := e.line ++ usage, files := s.files }
  | .ok o =>
    match Manifest.find s.files s.cwd (Pathname.ofPlace s.cwd) with
    | .error e => .done (failure s.files e.message)
    | .ok found =>
      let m := configure (found.getD .default) o
      match openLog s m with
      | .error fault =>
        .done { exit := .ok 1, errors := "log file error: " ++ fault.message ++ "\n",
                files := s.files }
      | .ok files =>
        match carryOut { s with files } m o with
        | .done outcome => .done { outcome with log := [installed] }
        | .execute job => .execute job

/-- The files after messages to the log. What cannot be written there is lost. -/
def Job.note (j : Job) (files : FileTree) (messages : List Message) : FileTree :=
  match j.log with
  | none => files
  | some path => (files.append j.cwd path (j.journal messages)).toOption.getD files

def Job.writeDump (j : Job) (files : FileTree) (e : Engine) : String × FileTree × List Message :=
  if j.dump.isEmpty then ("", files, [])
  else
    match files.write j.cwd j.dump e.snapshot.encode with
    | .error fault => ("Warning: write snapshot: " ++ fault.message ++ "\n", files, [])
    | .ok files =>
      ("", files, [(.info, "wrote snapshot of run " ++ e.runId ++ " to " ++ j.dump)])

def Job.finish (j : Job) : Except Abort (RunReply × Engine) → Outcome
  | .error why => { exit := .error (.aborted why), files := j.files }
  | .ok (reply, e) =>
    let events := e.log.toList.map fun event => (event.level, event.message e.runId)
    let (warning, files, notes) := j.writeDump (j.note j.files events) e
    { exit := .ok (exitCode reply)
      output := shown j.outputFailure (summary j.color e)
      errors := warning ++ complaint reply e
      files := j.note files notes
      log := installed :: events ++ notes }

/-- Runs the engine; `patience` says after how many instructions a time limit
strikes, if it does. -/
def Job.run (j : Job) (patience : Duration → Option Nat) : Except Abort (RunReply × Engine) :=
  let limit := if 0 < j.timeout.nanoseconds then patience j.timeout else none
  match limit with
  | some checks => j.engine.runWithin checks
  | none => j.engine.run

def run (s : Surroundings) (patience : Duration → Option Nat) : Outcome :=
  match plan s with
  | .done outcome => outcome
  | .execute job => job.finish (job.run patience)

end StackMachine.Command
