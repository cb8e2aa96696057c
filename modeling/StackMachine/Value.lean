import StackMachine.Rational.Text
import StackMachine.Text.Quoted
/-! Operand values of four kinds: how they are measured, written and told apart.
An absent value is `none`; it has the kind `invalid` and equals nothing. -/
namespace StackMachine

inductive Kind where
  | invalid
  | integer
  | string
  | rational
  | opcodeRef
  deriving DecidableEq, Repr

namespace Kind

def name : Kind → String
  | .invalid => "invalid"
  | .integer => "Integer"
  | .string => "String"
  | .rational => "Rational"
  | .opcodeRef => "OpcodeRef"

def ofCode : Nat → Kind
  | 1 => .integer
  | 2 => .string
  | 3 => .rational
  | 4 => .opcodeRef
  | _ => .invalid

end Kind

inductive Value where
  | integer (n : Int64)
  | string (s : String)
  | rational (r : Rational)
  | opcodeRef (nr : Int32)
  deriving DecidableEq, Repr

namespace Value

def kind : Value → Kind
  | .integer _ => .integer
  | .string _ => .string
  | .rational _ => .rational
  | .opcodeRef _ => .opcodeRef

def footprint : Value → Nat
  | .integer _ => 8
  | .string s => 16 + s.utf8ByteSize
  | .rational _ => 40
  | .opcodeRef _ => 4

def text : Value → String
  | .integer n => toString n.toInt
  | .string s => Text.quote s
  | .rational r => r.text
  | .opcodeRef nr => "&" ++ toString nr.toInt

/-- Bytes as a string value; a run of stray bytes becomes one replacement. -/
def ofBytes (bytes : List UInt8) : Value := .string (Text.repairRuns bytes)

def ofBool (b : Bool) : Value := .integer (if b then 1 else 0)

/-- Same kind and same payload; numbers by value, so that the zeros are one. -/
def same : Value → Value → Bool
  | .integer a, .integer b => a == b
  | .string a, .string b => a == b
  | .rational a, .rational b => a.compare b == .eq
  | .opcodeRef a, .opcodeRef b => a == b
  | _, _ => false

end Value

def Kind.of (v : Option Value) : Kind := v.elim .invalid Value.kind

def Value.equal : Option Value → Option Value → Bool
  | some a, some b => a.same b
  | _, _ => false

end StackMachine
