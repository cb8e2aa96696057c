import StackMachine.Execution
import StackMachine.Stack
/-! A bare machine: an operand stack beside a tape of cells that is read once. It
cannot jump, it counts halts, and pushes may be rationed. -/
namespace StackMachine

structure Tape where
  stack : Stack
  cells : List Int32
  halts : Nat := 0
  /-- Pushes still granted; `none` is no restriction. -/
  ration : Option Nat := none

namespace Tape

def push (v : Option Value) (t : Tape) : Except Fault Unit × Tape :=
  match t.ration with
  | some 0 => (.error (.invalidOperand (.stated "push denied")), t)
  | ration =>
    let t := { t with ration := ration.map (· - 1) }
    let (r, stack) := t.stack.push v
    (r, { t with stack })

def pop (t : Tape) : Except Fault Value × Tape :=
  let (r, stack) := t.stack.pop
  (r, { t with stack })

def fetch (t : Tape) : Except Fault Int32 × Tape :=
  match t.cells with
  | [] => (.error (.endOfBytecode none), t)
  | cell :: cells => (.ok cell, { t with cells })

def depth (t : Tape) : Nat := Registry.defaultNesting + t.stack.size + 1

instance : Machine Tape where
  push := push
  pop := pop
  peek depth t := t.stack.peek depth
  len t := t.stack.size
  fetch := fetch
  jump _ t := (.error (.invalidOperand (.stated "no bytecode")), t)
  halt t := { t with halts := t.halts + 1 }

end Tape
end StackMachine
