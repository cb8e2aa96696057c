import StackMachine.Builtin.Operand
/-! Operations that rearrange the stack, move through the code, or hand over to
another opcode. -/
namespace StackMachine.Builtin

def nop : Routine Unit := .done ()

def halt : Routine Unit := Routine.halt

def discard : Routine Unit := do let _ ← Routine.pop

def dup : Routine Unit := do Routine.push (← Routine.peek 0)

def swap : Routine Unit := do
  let (a, b) ← popPair
  Routine.push b
  Routine.push a

def jump : Routine Unit := do Routine.jump (← Routine.fetch).toInt

/-- Jumps when the popped Integer is nonzero, or zero, as `wanted` says. The
target is fetched in either case, and first. -/
def jumpIf (wanted : Bool) : Routine Unit := do
  let target ← Routine.fetch
  let v ← Routine.pop
  let condition ← Routine.ofExcept (Value.asInteger v)
  if (condition != 0) == wanted then Routine.jump target.toInt else .done ()

def invoke : Routine Unit := do
  let v ← Routine.pop
  Routine.invoke (← Routine.ofExcept (Value.asOpcodeRef v))

end StackMachine.Builtin
