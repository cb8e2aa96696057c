import StackMachine.Stack
/-! What a host may ask of a stack, and of the budget that the stack charges, and a whole
history of such calls. -/
namespace StackMachine

inductive StackCall where
  | push (v : Option Value)
  | pop
  | peek (depth : Int)
  | allocate (v : Value)
  | release (v : Value)
  deriving DecidableEq, Repr

inductive StackReply where
  | done (reply : Except Fault Unit)
  | value (reply : Except Fault Value)

namespace StackReply

def fault? : StackReply → Option Fault
  | .done (.error f) => some f
  | .value (.error f) => some f
  | _ => none

end StackReply

namespace Stack

def call (c : StackCall) (s : Stack) : StackReply × Stack :=
  match c with
  | .push v => let (r, s) := s.push v; (.done r, s)
  | .pop => let (r, s) := s.pop; (.value r, s)
  | .peek depth => (.value (s.peek depth), s)
  | .allocate v =>
    match s.budget.allocate v with
    | .error f => (.done (.error f), s)
    | .ok budget => (.done (.ok ()), { s with budget })
  | .release v => (.done (.ok ()), { s with budget := s.budget.release v })

def calls : List StackCall → Stack → List StackReply × Stack
  | [], s => ([], s)
  | c :: rest, s =>
    let (reply, s) := s.call c
    let (replies, s) := s.calls rest
    (reply :: replies, s)

end Stack
end StackMachine
