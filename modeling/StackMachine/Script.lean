import StackMachine.Routine
/-! Operations written as a list of steps. The first step that fails ends the
script with its fault. -/
namespace StackMachine

inductive ScriptStep where
  | push (v : Option Value)
  | pop
  | pick (depth : Int)
  | len
  | fetch
  | jump (target : Int)
  | dispatch (nr : Int32)
  | halt
  | fail (reason : String)
  | attempt (step : ScriptStep)
  deriving Repr

namespace ScriptStep

/-- `pick` copies a slot to the top, `len` and `fetch` push what they learn, and
`attempt` drops a failure. -/
def routine : ScriptStep → Routine Unit
  | .push v => Routine.perform (.push v)
  | .pop => do let _ ← Routine.pop
  | .pick depth => do Routine.push (← Routine.peek depth)
  | .len => do Routine.push (.integer (.ofNat (← Routine.perform .len)))
  | .fetch => do Routine.push (.integer (← Routine.fetch).toInt64)
  | .jump target => Routine.jump target
  | .dispatch nr => Routine.invoke nr
  | .halt => Routine.halt
  | .fail reason => .fail (.invalidOperand (.stated reason))
  | .attempt step => step.routine.attempt

end ScriptStep

def Routine.ofScript : List ScriptStep → Routine Unit
  | [] => .done ()
  | step :: rest => step.routine.bind fun _ => ofScript rest

end StackMachine
