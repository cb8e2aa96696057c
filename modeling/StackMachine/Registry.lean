import StackMachine.Routine
/-! Numbered descriptors of operations. The first registration of a number stays;
dispatch looks a number up, checks that the stack is high enough, and runs the
operation on the machine that asked. -/
namespace StackMachine

/-- One opcode. `immediates` counts the cells behind the opcode; `-1` says that
the first of them counts the others. Without an operation it is only declared. -/
structure Descriptor where
  number : Int32
  name : String := ""
  params : UInt32 := 0
  results : UInt32 := 0
  immediates : Int := 0
  builtin : Bool := false
  docs : String := ""
  operation : Option (Routine Unit) := none

def Descriptor.label (d : Descriptor) : String :=
  if d.name.isEmpty then "op" ++ toString d.number.toInt else d.name

/-- Descriptors in increasing order of their numbers. -/
structure Registry where
  entries : List Descriptor := []

/-- Why a call gives no answer: there is no registry to ask, there is nothing to
run, or routines call each other deeper than they are allowed to. -/
inductive Abort where
  | noRegistry
  | noOperation
  | tooDeep
  deriving DecidableEq, Repr

namespace Registry

def find? (reg : Registry) (nr : Int32) : Option Descriptor :=
  reg.entries.find? (·.number == nr)

def lookup (reg : Registry) (nr : Int32) : Except Fault Descriptor :=
  match reg.find? nr with
  | some d => .ok d
  | none => .error (.unknownOpcode nr)

def insertOrdered (d : Descriptor) : List Descriptor → List Descriptor
  | [] => [d]
  | e :: rest => if d.number < e.number then d :: e :: rest else e :: insertOrdered d rest

def register (reg : Registry) (d : Descriptor) : Except Fault Registry :=
  match reg.find? d.number with
  | some _ => .error (.duplicateOpcode d.number)
  | none => .ok { entries := insertOrdered d reg.entries }

/-- Registers in order up to the first duplicate, which is returned. -/
def registerAll (reg : Registry) : List Descriptor → Option Descriptor × Registry
  | [] => (none, reg)
  | d :: rest =>
    match reg.register d with
    | .error _ => (some d, reg)
    | .ok reg => reg.registerAll rest

def size (reg : Registry) : Nat := reg.entries.length

def descriptors (reg : Registry) : List Descriptor := reg.entries

def nameOf (reg : Registry) (nr : Int32) : String :=
  (reg.find? nr).elim ("??? " ++ toString nr.toInt) Descriptor.label

def resolve (reg : Registry) (nr : Int32) (held : Nat) : Except Fault (Routine Unit) := do
  let d ← reg.lookup nr
  match d.operation with
  | none => .error (.unimplementedOpcode nr)
  | some operation =>
    if held < d.params.toNat then .error (.missingOperands nr d.label d.params.toNat held)
    else .ok operation

variable {σ : Type} [Machine σ]

/-- Runs opcode `nr` on a machine, dispatches nesting at most `depth` deep. -/
def dispatch (reg : Registry) : (depth : Nat) → Int32 → σ → Except Abort (Except Fault Unit × σ)
  | 0, _, _ => .error .tooDeep
  | depth + 1, nr, s =>
    match reg.resolve nr (Machine.len s) with
    | .error f => .ok (.error f, s)
    | .ok operation => operation.run (reg.dispatch depth) s

end Registry
end StackMachine
