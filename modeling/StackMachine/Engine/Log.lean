import StackMachine.Fault
import StackMachine.Text.Layout
/-! What an engine reports while it runs. Events carry the facts; level and text
are read off them. -/
namespace StackMachine

inductive LogLevel where
  | error
  | info
  | debug
  deriving DecidableEq, Repr

def LogLevel.name : LogLevel → String
  | .error => "error"
  | .info => "info"
  | .debug => "debug"

abbrev Message := LogLevel × String

inductive Event where
  | unequipped
  | started (cells capacity : Nat)
  | executing (ip : Nat) (opcode : String) (depth : Nat)
  | halted (steps : UInt64) (depth : Nat)
  | faulted (ip : Nat) (opcode : String) (fault : Fault)
  deriving DecidableEq, Repr

namespace Event

def level : Event → LogLevel
  | .unequipped => .error
  | .started .. => .info
  | .executing .. => .debug
  | .halted .. => .info
  | .faulted .. => .error

def message (runId : String) : Event → String
  | .unequipped => "run " ++ runId ++ " has no opcode registry"
  | .started cells capacity =>
    "run " ++ runId ++ " started: " ++ toString cells ++ " cells, stack capacity " ++
      toString capacity
  | .executing ip opcode depth =>
    "[" ++ Text.zeroPadded 4 ip ++ "] " ++ Text.padRight 14 opcode ++ " depth=" ++ toString depth
  | .halted steps depth =>
    "run " ++ runId ++ " halted after " ++ toString steps.toNat ++ " steps, stack depth " ++
      toString depth
  | .faulted ip opcode fault =>
    "run " ++ runId ++ " faulted at ip=" ++ toString ip ++ " (" ++ opcode ++ "): " ++ fault.message

def line (runId : String) (e : Event) : String := e.level.name ++ " " ++ e.message runId

end Event
end StackMachine
