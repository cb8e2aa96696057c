import StackMachine.Engine.Run
/-! What a run shows on the output and the error stream. -/
namespace StackMachine.Command

/-- A status in capitals, coloured for a terminal: green for halted, red for
faulted, yellow for all others. -/
def paintCode (color : Bool) (status : Nat) : String :=
  let label := (Status.nameOfCode status).map Char.toUpper
  let paint := if status == 2 then "32" else if status == 3 then "31" else "33"
  if color then "\x1b[" ++ paint ++ "m" ++ label ++ "\x1b[0m" else label

def paint (color : Bool) (s : Status) : String := paintCode color s.code

def valueLine (v : Value) : String :=
  "  " ++ Text.padRight 9 v.kind.name ++ " " ++ v.text ++ "\n"

def stackText (s : Stack) : String :=
  if s.values.isEmpty then "stack: empty\n"
  else "stack (top first):\n" ++ String.join (s.values.reverse.map valueLine)

def summary (color : Bool) (e : Engine) : String :=
  paint color e.status ++ " after " ++ toString e.steps.toNat ++ " steps\n" ++ stackText e.stack

def stopReason : RunReply → Option String
  | .finished => none
  | .failed f => some f.message
  | .cancelled => some "context deadline exceeded"

/-- The place is that of the fault, or of the next instruction if there is none. -/
def complaint (r : RunReply) (e : Engine) : String :=
  match stopReason r, e.status.faultIp? with
  | none, _ => ""
  | some why, some ip => "Fault at ip=" ++ toString ip ++ ": " ++ why ++ "\n"
  | some why, none => "Stopped at ip=" ++ toString e.ip ++ ": " ++ why ++ "\n"

def exitCode : RunReply → Nat
  | .finished => 0
  | _ => 1

end StackMachine.Command
