import StackMachine.Builtin.Operand
/-! Arithmetic on two Integers or two Rationals. Integers wrap around at 64 bits;
only division by zero and shift counts past the word fail. -/
namespace StackMachine.Builtin

abbrev IntegerOp := Int64 → Int64 → Except Fault Int64
abbrev RationalOp := Rational → Rational → Except Fault Rational

/-- The first operand decides the kind; an operation without a rational part is
for Integers only. -/
def arithmetic (onIntegers : IntegerOp) (onRationals : Option RationalOp) :
    Value → Value → Except Fault Value
  | .integer a, .integer b => .integer <$> onIntegers a b
  | .integer _, b => mismatch .integer b.kind
  | .rational a, b =>
    match onRationals, b with
    | none, _ => mismatch .integer .rational
    | some op, .rational b => .rational <$> op a b
    | some _, b => mismatch .rational b.kind
  | a, _ => mismatch .integer a.kind

def total (f : Int64 → Int64 → Int64) : IntegerOp := fun a b => .ok (f a b)

/-- Division truncates toward zero. -/
def divide : IntegerOp := fun a b => if b = 0 then .error .divisionByZero else .ok (a / b)

def remainder : IntegerOp := fun a b => if b = 0 then .error .divisionByZero else .ok (a % b)

def shift (f : Int64 → Int64 → Int64) : IntegerOp := fun a b =>
  if 0 ≤ b ∧ b ≤ 63 then .ok (f a b) else .error (.invalidOperand (.shiftCount b))

def rounded (f : Rational → Rational → Except Rational.Undefined Rational) : RationalOp :=
  fun a b => (f a b).mapError fun cause => .invalidOperand (.undefined cause)

def divideRational : RationalOp := fun a b =>
  if b.isZero then .error .divisionByZero else rounded Rational.div a b

def negate : Value → Except Fault Value
  | .integer n => .ok (.integer (-n))
  | .rational r => .ok (.rational r.negate)
  | a => mismatch .integer a.kind

def add : Routine Unit := binary (arithmetic (total (· + ·)) (some (rounded Rational.add)))
def sub : Routine Unit := binary (arithmetic (total (· - ·)) (some (rounded Rational.sub)))
def mul : Routine Unit := binary (arithmetic (total (· * ·)) (some (rounded Rational.mul)))
def div : Routine Unit := binary (arithmetic divide (some divideRational))
def mod : Routine Unit := binary (arithmetic remainder none)
def neg : Routine Unit := unary negate
def band : Routine Unit := binary (arithmetic (total (· &&& ·)) none)
def bor : Routine Unit := binary (arithmetic (total (· ||| ·)) none)
def bxor : Routine Unit := binary (arithmetic (total (· ^^^ ·)) none)
def shl : Routine Unit := binary (arithmetic (shift (· <<< ·)) none)
def shr : Routine Unit := binary (arithmetic (shift (· >>> ·)) none)

end StackMachine.Builtin
