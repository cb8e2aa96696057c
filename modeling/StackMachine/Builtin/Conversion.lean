import StackMachine.Builtin.Operand
/-! Operations on strings, and between Integers and Rationals. -/
namespace StackMachine.Builtin

def append (a b : Value) : Except Fault Value := do
  let x ← Value.asString a
  let y ← Value.asString b
  return .ofBytes (Text.utf8 (x ++ y))

def lengthOf (v : Value) : Except Fault Value := do
  let s ← Value.asString v
  return .integer (.ofNat s.length)

def asRationalValue : Value → Except Fault Value
  | .rational r => .ok (.rational r)
  | .integer n => .ok (.rational (.ofInt n.toInt))
  | v => mismatch .integer v.kind

def asIntegerValue : Value → Except Fault Value
  | .integer n => .ok (.integer n)
  | .rational (.infinite neg) => .error (.invalidOperand (.noIntegerValue (.infinite neg)))
  | .rational r =>
    match r.toInt64? with
    | some n => .ok (.integer n)
    | none => .error (.invalidOperand (.integerOverflow r))
  | v => mismatch .rational v.kind

def concat : Routine Unit := binary append
def strlen : Routine Unit := unary lengthOf
def toRational : Routine Unit := unary asRationalValue
def toInteger : Routine Unit := unary asIntegerValue

end StackMachine.Builtin
