import StackMachine.Builtin.Table
import StackMachine.Engine.Log
import StackMachine.Execution
import StackMachine.Stack
/-! An engine runs a buffer of cells, one opcode a step. This module holds its
state and its answers to machine calls; none of them looks at the status. -/
namespace StackMachine

/-- Where a run stands. A fault is kept with the place of its instruction. -/
inductive Status where
  | ready
  | running
  | halted
  | faulted (fault : Fault) (ip : Nat)
  deriving DecidableEq, Repr

namespace Status

def code : Status → Nat
  | .ready => 0
  | .running => 1
  | .halted => 2
  | .faulted .. => 3

def nameOfCode : Nat → String
  | 0 => "ready"
  | 1 => "running"
  | 2 => "halted"
  | 3 => "faulted"
  | n => "State(" ++ toString n ++ ")"

def terminalCode (n : Nat) : Bool := n == 2 || n == 3

def name (s : Status) : String := nameOfCode s.code

def isTerminal (s : Status) : Bool := terminalCode s.code

def fault? : Status → Option Fault
  | .faulted fault _ => some fault
  | _ => none

def faultIp? : Status → Option Nat
  | .faulted _ ip => some ip
  | _ => none

end Status

structure Engine where
  runId : String
  code : Array Int32
  registry : Option Registry
  stack : Stack
  ip : Nat := 0
  status : Status
  /-- The opcode of the last step, unless none could be fetched. -/
  current : Option Int32 := none
  steps : UInt64 := 0
  /-- A halt was asked for within the current step. -/
  halting : Bool := false
  trace : Bool := false
  /-- How deep operations may dispatch without using up the stack. -/
  nesting : Nat
  log : Array Event := #[]

namespace Engine

structure Setup where
  runId : String := ""
  code : Array Int32 := #[]
  registry : Option Registry := some Builtin.registry
  capacity : Int := 0
  limit : Int64 := 0
  trace : Bool := false
  nesting : Nat := Registry.defaultNesting

/-- A fresh engine at the first cell. Without a registry it never runs. -/
def create (s : Setup) : Engine where
  runId := s.runId
  code := s.code
  registry := s.registry
  stack := .empty s.capacity { limit := s.limit }
  status := if s.registry.isSome then .running else .ready
  trace := s.trace
  nesting := s.nesting
  log := if s.registry.isSome then #[] else #[.unequipped]

/-- `create`, unless storage for that many slots cannot be reserved. -/
def create? (s : Setup) : Option Engine :=
  if s.capacity ≤ Stack.maxCapacity then some (create s) else none

/-- The place of the faulting instruction, `-1` without a fault. -/
def faultIp (e : Engine) : Int := e.status.faultIp?.elim (-1) Int.ofNat

def note (e : Engine) (event : Event) : Engine := { e with log := e.log.push event }

def push (v : Option Value) (e : Engine) : Except Fault Unit × Engine :=
  let (r, stack) := e.stack.push v
  (r, { e with stack })

def pop (e : Engine) : Except Fault Value × Engine :=
  let (r, stack) := e.stack.pop
  (r, { e with stack })

def fetch (e : Engine) : Except Fault Int32 × Engine :=
  match e.code[e.ip]? with
  | some cell => (.ok cell, { e with ip := e.ip + 1 })
  | none => (.error (.endOfBytecode (some e.ip)), e)

/-- The place behind the last cell is a valid target; the next fetch fails. -/
def jump (target : Int) (e : Engine) : Except Fault Unit × Engine :=
  if 0 ≤ target ∧ target ≤ e.code.size then (.ok (), { e with ip := target.toNat })
  else (.error (.invalidOperand (.jumpTarget target e.code.size)), e)

def halt (e : Engine) : Engine := { e with halting := true }

instance : Machine Engine where
  push := push
  pop := pop
  peek depth e := e.stack.peek depth
  len e := e.stack.size
  fetch := fetch
  jump := jump
  halt := halt

/-- Deep enough for every chain in which each dispatch takes a value off the
stack. -/
def depth (e : Engine) : Nat := e.nesting + e.stack.size + 1

def dispatch (nr : Int32) (e : Engine) : Except Abort (Except Fault Unit × Engine) :=
  match e.registry with
  | none => .error .noRegistry
  | some reg => reg.execute e.depth nr e

end Engine
end StackMachine
