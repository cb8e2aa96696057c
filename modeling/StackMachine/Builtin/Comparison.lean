import StackMachine.Builtin.Operand
/-! Equality of any two values, and the order within a kind. Strings are ordered
by their UTF-8 bytes; opcode references have no order. -/
namespace StackMachine.Builtin

def compareBytes (a b : String) : Ordering := compare (Text.utf8 a) (Text.utf8 b)

def order : Value → Value → Except Fault Ordering
  | .integer a, .integer b => .ok (compare a.toInt b.toInt)
  | .rational a, .rational b => .ok (a.compare b)
  | .string a, .string b => .ok (compareBytes a b)
  | .opcodeRef _, .opcodeRef _ => mismatch .integer .opcodeRef
  | a, b => mismatch a.kind b.kind

def equality (wanted : Bool) : Value → Value → Except Fault Value := fun a b =>
  .ok (.ofBool (a.same b == wanted))

def comparison (holds : Ordering → Bool) : Value → Value → Except Fault Value := fun a b =>
  (order a b).map fun o => .ofBool (holds o)

def eq : Routine Unit := binary (equality true)
def ne : Routine Unit := binary (equality false)
def lt : Routine Unit := binary (comparison Ordering.isLT)
def le : Routine Unit := binary (comparison Ordering.isLE)
def gt : Routine Unit := binary (comparison Ordering.isGT)
def ge : Routine Unit := binary (comparison Ordering.isGE)

end StackMachine.Builtin
