import StackMachine.Engine.Run
/-! What a host may ask of an engine, and a whole history of such calls. -/
namespace StackMachine

inductive HostCall where
  | look
  | step
  | run
  | runWithin (checks : Nat)
  | push (v : Option Value)
  | pop
  | peek (depth : Int)
  | len
  | fetch
  | jump (target : Int)
  | dispatch (nr : Int32)
  | halt
  deriving Repr

inductive HostReply where
  | nothing
  | stepped (reply : StepReply)
  | ran (reply : RunReply)
  | done (reply : Except Fault Unit)
  | value (reply : Except Fault Value)
  | cell (reply : Except Fault Int32)
  | length (n : Nat)

namespace Engine

def call (c : HostCall) (e : Engine) : Except Abort (HostReply × Engine) :=
  match c with
  | .look => .ok (.nothing, e)
  | .step => e.step.map fun (r, e) => (.stepped r, e)
  | .run => e.run.map fun (r, e) => (.ran r, e)
  | .runWithin checks => (e.runWithin checks).map fun (r, e) => (.ran r, e)
  | .push v => let (r, e) := e.push v; .ok (.done r, e)
  | .pop => let (r, e) := e.pop; .ok (.value r, e)
  | .peek depth => .ok (.value (e.stack.peek depth), e)
  | .len => .ok (.length e.stack.size, e)
  | .fetch => let (r, e) := e.fetch; .ok (.cell r, e)
  | .jump target => let (r, e) := e.jump target; .ok (.done r, e)
  | .dispatch nr => (e.dispatch nr).map fun (r, e) => (.done r, e)
  | .halt => .ok (.done (.ok ()), e.halt)

def calls : List HostCall → Engine → Except Abort (List HostReply × Engine)
  | [], e => .ok ([], e)
  | c :: rest, e => do
    let (reply, e) ← e.call c
    let (replies, e) ← e.calls rest
    return (reply :: replies, e)

end Engine
end StackMachine
