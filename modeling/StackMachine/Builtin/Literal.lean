import StackMachine.Builtin.Operand
/-! Operations that push a value spelled out in the cells behind the opcode. -/
namespace StackMachine.Builtin

/-- A 64-bit integer from its signed high and unsigned low half. -/
def joinHalves (hi lo : Int32) : Int64 :=
  (hi.toInt64 <<< 32) ||| lo.toUInt32.toUInt64.toInt64

def charOf? (cell : Int32) : Option Char :=
  if 0 ≤ cell ∧ cell.toInt.toNat.isValidChar then some (Char.ofNat cell.toInt.toNat) else none

/-- Reads `count` characters behind the `offset` already read into `text`. -/
def readChars : (count offset : Nat) → (text : String) → Routine String
  | 0, _, text => .done text
  | count + 1, offset, text => do
    let cell ← Routine.fetch
    match charOf? cell with
    | some c => readChars count (offset + 1) (text.push c)
    | none => .fail (.invalidOperand (.rune cell offset))

def pushInt : Routine Unit := do
  Routine.push (.integer (← Routine.fetch).toInt64)

def pushWide : Routine Unit := do
  let hi ← Routine.fetch
  let lo ← Routine.fetch
  Routine.push (.integer (joinHalves hi lo))

def pushString : Routine Unit := do
  let count ← Routine.fetch
  if count < 0 then .fail (.invalidOperand (.stringLength count))
  else
    Routine.push (.ofBytes (Text.utf8 (← readChars count.toInt.toNat 0 "")))

def pushRational : Routine Unit := do
  let num ← Routine.fetch
  let den ← Routine.fetch
  if den = 0 then .fail (.invalidOperand .zeroDenominator)
  else Routine.push (.rational (.ofFraction num.toInt den.toInt))

def pushOpcode : Routine Unit := do
  Routine.push (.opcodeRef (← Routine.fetch))

end StackMachine.Builtin
