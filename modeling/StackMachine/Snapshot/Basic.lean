import StackMachine.Engine.Basic
/-! The state of an engine as plain data: texts and numbers only. -/
namespace StackMachine

structure SlotSnapshot where
  kind : String := ""
  repr : String := ""
  deriving DecidableEq, Repr

structure Snapshot where
  runId : String := ""
  state : String := ""
  ip : Int64 := 0
  faultIp : Int64 := 0
  opcode : Int32 := 0
  steps : UInt64 := 0
  stack : List SlotSnapshot := []
  fault : String := ""
  code : List Int32 := []
  deriving DecidableEq, Repr

def Value.snapshot (v : Value) : SlotSnapshot := { kind := v.kind.name, repr := v.text }

/-- Without an opcode or a fault, their numbers are `-1`. -/
def Engine.snapshot (e : Engine) : Snapshot where
  runId := e.runId
  state := e.status.name
  ip := .ofNat e.ip
  faultIp := .ofInt e.faultIp
  opcode := e.current.getD (-1)
  steps := e.steps
  stack := e.stack.values.map Value.snapshot
  fault := e.status.fault?.elim "" Fault.message
  code := e.code.toList

end StackMachine
