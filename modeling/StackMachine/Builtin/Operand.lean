import StackMachine.Routine
/-! Operations that replace the top values of the stack by the value of a
function. The function sees the operands in the order they were pushed. -/
namespace StackMachine.Builtin

def mismatch {α : Type} (expected found : Kind) : Except Fault α :=
  .error (.typeMismatch expected found)

def unary (f : Value → Except Fault Value) : Routine Unit := do
  let a ← Routine.pop
  Routine.push (← Routine.ofExcept (f a))

def popPair : Routine (Value × Value) := do
  let b ← Routine.pop
  let a ← Routine.pop
  return (a, b)

def binary (f : Value → Value → Except Fault Value) : Routine Unit := do
  let (a, b) ← popPair
  Routine.push (← Routine.ofExcept (f a b))

end StackMachine.Builtin
