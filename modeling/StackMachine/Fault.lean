import StackMachine.Rational.Arithmetic
import StackMachine.Value
/-! Why a machine call fails. A fault is a cause; its report is what is shown of
it, and its message is written from the report alone. -/
namespace StackMachine

inductive FaultKind where
  | outOfMemory
  | typeMismatch
  | duplicateOpcode
  | unknownOpcode
  | unimplementedOpcode
  | stackOverflow
  | stackUnderflow
  | endOfBytecode
  | invalidOperand
  | divisionByZero
  | noRegistry
  deriving DecidableEq, Repr

namespace FaultKind

def name : FaultKind → String
  | .outOfMemory => "out of memory"
  | .typeMismatch => "type mismatch"
  | .duplicateOpcode => "duplicate opcode"
  | .unknownOpcode => "unknown opcode"
  | .unimplementedOpcode => "unimplemented opcode"
  | .stackOverflow => "stack overflow"
  | .stackUnderflow => "stack underflow"
  | .endOfBytecode => "end of bytecode"
  | .invalidOperand => "invalid operand"
  | .divisionByZero => "division by zero"
  | .noRegistry => "no opcode registry"

/-- In order of their codes, which start at 1. -/
def all : List FaultKind :=
  [.outOfMemory, .typeMismatch, .duplicateOpcode, .unknownOpcode, .unimplementedOpcode,
   .stackOverflow, .stackUnderflow, .endOfBytecode, .invalidOperand, .divisionByZero, .noRegistry]

def code (k : FaultKind) : Nat := all.findIdx (· = k) + 1

def ofCode? : Nat → Option FaultKind
  | 0 => none
  | n + 1 => all[n]?

def nameOfCode (n : Nat) : String :=
  (ofCode? n).elim ("ErrorKind(" ++ toString n ++ ")") name

end FaultKind

/-- What is shown of a fault. Fields that do not belong to its kind are zero. -/
structure Report where
  code : Nat
  opcode : Int32 := 0
  expected : Kind := .invalid
  found : Kind := .invalid
  detail : String := ""
  deriving DecidableEq, Repr

namespace Report

def head (r : Report) : String :=
  match FaultKind.ofCode? r.code with
  | some .typeMismatch =>
    "type mismatch: expected " ++ r.expected.name ++ ", found " ++ r.found.name
  | some .duplicateOpcode | some .unknownOpcode | some .unimplementedOpcode =>
    FaultKind.nameOfCode r.code ++ " " ++ toString r.opcode.toInt
  | _ => FaultKind.nameOfCode r.code

def message (r : Report) : String :=
  if r.detail.isEmpty then r.head else r.head ++ ": " ++ r.detail

def sameSort (a b : Report) : Bool := a.code == b.code

end Report

inductive Refusal where
  | jumpTarget (target : Int) (cells : Nat)
  | shiftCount (n : Int64)
  | stringLength (n : Int32)
  | rune (cell : Int32) (offset : Nat)
  | zeroDenominator
  | undefined (cause : Rational.Undefined)
  | noIntegerValue (r : Rational)
  | integerOverflow (r : Rational)
  | stated (reason : String)
  deriving DecidableEq, Repr

def Refusal.detail : Refusal → String
  | .jumpTarget target cells =>
    "jump target " ++ toString target ++ " outside [0, " ++ toString cells ++ "]"
  | .shiftCount n => "shift count " ++ toString n.toInt
  | .stringLength n => "string length " ++ toString n.toInt
  | .rune cell offset =>
    "invalid rune " ++ toString cell.toInt ++ " at offset " ++ toString offset
  | .zeroDenominator => "zero denominator"
  | .undefined cause => cause.message
  | .noIntegerValue r => r.text ++ " has no integer value"
  | .integerOverflow r =>
    r.text ++ " overflows Integer (max " ++ toString Int64.maxValue.toInt ++ ")"
  | .stated reason => reason

inductive Fault where
  | outOfMemory (size : Nat) (used limit : Int64)
  | typeMismatch (expected found : Kind)
  | absentValue
  | duplicateOpcode (nr : Int32)
  | unknownOpcode (nr : Int32)
  | unimplementedOpcode (nr : Int32)
  | stackOverflow (capacity : Nat)
  | stackUnderflow
  | missingOperands (nr : Int32) (name : String) (params held : Nat)
  | endOfBytecode (ip : Option Nat)
  | invalidOperand (why : Refusal)
  | divisionByZero
  | noRegistry
  deriving DecidableEq, Repr

namespace Fault

def kind : Fault → FaultKind
  | .outOfMemory .. => .outOfMemory
  | .typeMismatch .. => .typeMismatch
  | .absentValue => .typeMismatch
  | .duplicateOpcode _ => .duplicateOpcode
  | .unknownOpcode _ => .unknownOpcode
  | .unimplementedOpcode _ => .unimplementedOpcode
  | .stackOverflow _ => .stackOverflow
  | .stackUnderflow => .stackUnderflow
  | .missingOperands .. => .stackUnderflow
  | .endOfBytecode _ => .endOfBytecode
  | .invalidOperand _ => .invalidOperand
  | .divisionByZero => .divisionByZero
  | .noRegistry => .noRegistry

def opcode : Fault → Int32
  | .duplicateOpcode nr => nr
  | .unknownOpcode nr => nr
  | .unimplementedOpcode nr => nr
  | .missingOperands nr .. => nr
  | _ => 0

def detail : Fault → String
  | .outOfMemory size used limit =>
    toString size ++ " bytes requested, " ++ toString used ++ " of " ++ toString limit ++ " in use"
  | .absentValue => "cannot push a nil value"
  | .stackOverflow capacity => "capacity " ++ toString capacity
  | .missingOperands _ name params held =>
    name ++ " needs " ++ toString params ++ " operands, stack holds " ++ toString held
  | .endOfBytecode (some ip) => "ip=" ++ toString ip
  | .invalidOperand why => why.detail
  | _ => ""

def report (f : Fault) : Report where
  code := f.kind.code
  opcode := f.opcode
  expected := match f with
    | .typeMismatch expected _ => expected
    | _ => .invalid
  found := match f with
    | .typeMismatch _ found => found
    | _ => .invalid
  detail := f.detail

def message (f : Fault) : String := f.report.message

end Fault

namespace Value

def asInteger : Option Value → Except Fault Int64
  | some (.integer n) => .ok n
  | v => .error (.typeMismatch .integer (.of v))

def asString : Option Value → Except Fault String
  | some (.string s) => .ok s
  | v => .error (.typeMismatch .string (.of v))

def asRational : Option Value → Except Fault Rational
  | some (.rational r) => .ok r
  | v => .error (.typeMismatch .rational (.of v))

def asOpcodeRef : Option Value → Except Fault Int32
  | some (.opcodeRef nr) => .ok nr
  | v => .error (.typeMismatch .opcodeRef (.of v))

end Value
end StackMachine
