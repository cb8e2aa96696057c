import StackMachine.Engine.Basic
/-! Stepping and running. A step of a running engine fetches one opcode and
dispatches it; a halted or faulted engine stays as it is. -/
namespace StackMachine

-- A power of naturals is the core one, whichever other instances are in scope.
attribute [local instance (high)] instPowNat

inductive StepReply where
  | continue
  | halt
  | failed (fault : Fault)
  deriving DecidableEq, Repr

/-- How a run ends: it halted, it failed, or it was cancelled and may be
resumed. -/
inductive RunReply where
  | finished
  | failed (fault : Fault)
  | cancelled
  deriving DecidableEq, Repr

namespace StepReply

def outcomeOfCode (n : Nat) : String := if n == 1 then "halt" else "continue"

def outcome : StepReply → String
  | .continue => outcomeOfCode 0
  | _ => outcomeOfCode 1

end StepReply

namespace Engine

def nameOf (e : Engine) (nr : Int32) : String :=
  e.registry.elim ("??? " ++ toString nr.toInt) (·.nameOf nr)

def failAt (e : Engine) (ip : Nat) (opcode : String) (fault : Fault) : StepReply × Engine :=
  (.failed fault, { e with status := .faulted fault ip }.note (.faulted ip opcode fault))

/-- A step that succeeded is counted; it ends the run when its opcode is HALT or
when a halt was asked for. -/
def complete (e : Engine) (nr : Int32) : StepReply × Engine :=
  let e := { e with steps := e.steps + 1 }
  if nr = Builtin.Nr.halt ∨ e.halting then
    (.halt, { e with halting := false, status := .halted }.note (.halted e.steps e.stack.size))
  else (.continue, e)

def enter (e : Engine) (ip : Nat) (nr : Int32) : Engine :=
  let e := { e with current := some nr, halting := false }
  if e.trace then e.note (.executing ip (e.nameOf nr) e.stack.size) else e

def settle (ip : Nat) (nr : Int32) : Except Fault Unit × Engine → StepReply × Engine
  | (.error f, e) => e.failAt ip (e.nameOf nr) f
  | (.ok (), e) => e.complete nr

def execute (e : Engine) (ip : Nat) (nr : Int32) : Except Abort (StepReply × Engine) :=
  ((e.enter ip nr).dispatch nr).map (settle ip nr)

def step (e : Engine) : Except Abort (StepReply × Engine) :=
  match e.status with
  | .halted => .ok (.halt, e)
  | .faulted fault _ => .ok (.failed fault, e)
  | .ready => .ok (.failed .noRegistry, e)
  | .running =>
    let ip := e.ip
    match e.fetch with
    | (.error f, e) => .ok ({ e with current := none }.failAt ip "-" f)
    | (.ok nr, e) => e.execute ip nr

def stepUpTo : (checks : Nat) → Engine → Except Abort (RunReply × Engine)
  | 0, e => .ok (.cancelled, e)
  | checks + 1, e =>
    match e.step with
    | .error a => .error a
    | .ok (.continue, e) => e.stepUpTo checks
    | .ok (.halt, e) => .ok (.finished, e)
    | .ok (.failed f, e) => .ok (.failed f, e)

def announce (e : Engine) : Engine :=
  if e.status = .running ∧ e.steps = 0 then e.note (.started e.code.size e.stack.capacity) else e

/-- A run that is cancelled after `checks` steps; a cancelled engine is still
running. -/
def runWithin (checks : Nat) (e : Engine) : Except Abort (RunReply × Engine) :=
  e.announce.stepUpTo checks

/-- More steps than any run takes. -/
def horizon : Nat := 2 ^ (62 : Nat)

def run (e : Engine) : Except Abort (RunReply × Engine) := e.runWithin horizon

end Engine
end StackMachine
