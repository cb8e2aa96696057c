import StackMachine.Command.Run
/-! The command on real files: what it may look at is read into a tree, and what
changed in the tree is written back. -/
namespace StackMachine.Shell

-- A power of naturals is the core one, whichever other instances are in scope.
attribute [local instance (high)] instPowNat

def probe (path : String) : IO (Option FileEntry) := do
  let place := (← IO.currentDir) / path
  if ← place.isDir then return some .directory
  if ← place.pathExists then return some (.file (← IO.FS.readBinFile place).toList)
  return none

def take (t : FileTree) (place : Pathname.Place) : IO FileTree :=
  (Pathname.upward place).foldrM (fun p t => do
    if p.isEmpty then return t
    match ← probe (Pathname.ofPlace p) with
    | none => return t
    | some e => return t.put p e) t

def places (cwd : Pathname.Place) (o : Command.Options) (log : Option String) : List Pathname.Place :=
  (Pathname.upward cwd).map (· ++ [Manifest.fileName]) ++
    (o.paths ++ [o.dump] ++ log.toList).map (Pathname.resolve cwd)

def gather (cwd : Pathname.Place) (o : Command.Options) : IO FileTree := do
  let t ← (places cwd o none).foldlM take {}
  let log := (Manifest.find t cwd (Pathname.ofPlace cwd)).toOption.join.bind Manifest.logPath
  (places cwd o log).foldlM take t

def writeChanges (before after : FileTree) : IO Unit :=
  for (place, e) in after.entries do
    if before.entry? place != some e then
      match e with
      | .directory => pure ()
      | .file content => IO.FS.writeBinFile (Pathname.ofPlace place) ⟨content.toArray⟩

def newRunId : IO String := do
  let digits (n : Nat) : IO String := do return Text.hex n (← IO.rand 0 (16 ^ n - 1))
  return "-".intercalate [← digits 8, ← digits 4, "4" ++ (← digits 3), "8" ++ (← digits 3),
    ← digits 12]

/-- Steps in slices until the run ends or its time is over. -/
partial def runUntil (deadline : Option Nat) (e : Engine) :
    IO (Except Abort (RunReply × Engine)) := do
  let now ← IO.monoNanosNow
  if deadline.any (· ≤ now) then return .ok (.cancelled, e)
  match e.stepUpTo 4096 with
  | .ok (.cancelled, e) => runUntil deadline e
  | r => return r

def execute (job : Command.Job) : IO Command.Outcome := do
  let timeout := job.timeout.nanoseconds.toNat
  let now ← IO.monoNanosNow
  let deadline := if timeout = 0 then none else some (now + timeout)
  return job.finish (← runUntil deadline job.engine.announce)

def levelNumber : LogLevel → Int
  | .error => 0
  | .info => 1
  | .debug => 2

def journal (verbosity : Int) (messages : List Message) : String :=
  let wanted := messages.filter fun (level, _) => levelNumber level ≤ max 0 verbosity
  String.join (wanted.map fun (level, s) => level.name ++ " " ++ s ++ "\n")

def run (args : List String) : IO UInt32 := do
  let cwd := Pathname.resolve [] (← IO.currentDir).toString
  let o := (Command.parse {} args).toOption.getD {}
  let files ← gather cwd o
  let needsInput := o.inline.isEmpty && o.paths.isEmpty && !o.docs
  let input ← if needsInput then (← IO.getStdin).readBinToEnd else pure .empty
  let s : Command.Surroundings := {
    args, files, cwd, input := input.toList, runId := ← newRunId
    color := ← (← IO.getStdout).isTty
    journal := fun verbosity messages => Text.utf8 (journal verbosity messages) }
  let outcome ← match Command.plan s with
    | .done outcome => pure outcome
    | .execute job => execute job
  writeChanges files outcome.files
  let found := (Manifest.find files cwd (Pathname.ofPlace cwd)).toOption.join
  let m := Command.configure (found.getD .default) o
  if m.logPath.isNone then IO.eprint (journal m.verbosity outcome.log)
  IO.print outcome.output
  IO.eprint outcome.errors
  match outcome.exit with
  | .ok n => return n.toUInt32
  | .error _ => return 2

end StackMachine.Shell

def main (args : List String) : IO UInt32 := StackMachine.Shell.run args
