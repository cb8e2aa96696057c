import StackMachine.Fault
/-! What an operation may do. A routine is a finite tree of calls to a machine and
dispatches of other opcodes, each branch chosen by the reply; which machine
answers, and what a dispatch runs, is left open. -/
namespace StackMachine

inductive Call where
  | push (v : Option Value)
  | pop
  | peek (depth : Int)
  | len
  | fetch
  | jump (target : Int)
  | halt
  deriving DecidableEq, Repr

abbrev Call.Reply : Call → Type
  | .push _ => Unit
  | .pop => Value
  | .peek _ => Value
  | .len => Nat
  | .fetch => Int32
  | .jump _ => Unit
  | .halt => Unit

inductive Routine (α : Type) where
  | done (a : α)
  | fail (f : Fault)
  | call (c : Call) (next : Except Fault c.Reply → Routine α)
  | dispatch (nr : Int32) (next : Except Fault Unit → Routine α)

class Machine (σ : Type) where
  push : Option Value → σ → Except Fault Unit × σ
  pop : σ → Except Fault Value × σ
  peek : Int → σ → Except Fault Value
  len : σ → Nat
  fetch : σ → Except Fault Int32 × σ
  jump : Int → σ → Except Fault Unit × σ
  halt : σ → σ

def Machine.answer {σ : Type} [Machine σ] : (c : Call) → σ → Except Fault c.Reply × σ
  | .push v, s => Machine.push v s
  | .pop, s => Machine.pop s
  | .peek depth, s => (Machine.peek depth s, s)
  | .len, s => (.ok (Machine.len s), s)
  | .fetch, s => Machine.fetch s
  | .jump target, s => Machine.jump target s
  | .halt, s => (.ok (), Machine.halt s)

namespace Routine

variable {α β σ ε : Type}

def bind : Routine α → (α → Routine β) → Routine β
  | .done a, k => k a
  | .fail f, _ => .fail f
  | .call c next, k => .call c fun reply => (next reply).bind k
  | .dispatch nr next, k => .dispatch nr fun reply => (next reply).bind k

instance : Monad Routine where
  pure := .done
  bind := bind

def ofExcept : Except Fault α → Routine α
  | .ok a => .done a
  | .error f => .fail f

/-- A call whose failure ends the routine. -/
def perform (c : Call) : Routine c.Reply := .call c ofExcept

def push (v : Value) : Routine Unit := perform (.push (some v))
def pop : Routine Value := perform .pop
def peek (depth : Int) : Routine Value := perform (.peek depth)
def fetch : Routine Int32 := perform .fetch
def jump (target : Int) : Routine Unit := perform (.jump target)
def halt : Routine Unit := perform .halt

def invoke (nr : Int32) : Routine Unit := .dispatch nr ofExcept

def attempt : Routine Unit → Routine Unit
  | .done _ => .done ()
  | .fail _ => .done ()
  | .call c next => .call c fun reply => attempt (next reply)
  | .dispatch nr next => .dispatch nr fun reply => attempt (next reply)

variable [Machine σ]

/-- Runs a routine on a machine, given what a dispatch does. `ε` is what keeps a
dispatch from coming to an end. -/
def run (dispatch : Int32 → σ → Except ε (Except Fault Unit × σ)) :
    Routine α → σ → Except ε (Except Fault α × σ)
  | .done a, s => .ok (.ok a, s)
  | .fail f, s => .ok (.error f, s)
  | .call c next, s =>
    let (reply, t) := Machine.answer c s
    run dispatch (next reply) t
  | .dispatch nr next, s =>
    match dispatch nr s with
    | .error e => .error e
    | .ok (reply, t) => run dispatch (next reply) t

theorem bind_assoc {γ : Type} (r : Routine α) (k : α → Routine β) (l : β → Routine γ) :
    (r.bind k).bind l = r.bind fun a => (k a).bind l := by
  induction r with
  | done a => rfl
  | fail f => rfl
  | call c next ih =>
    simp only [bind]
    congr
    funext reply
    exact ih reply
  | dispatch nr next ih =>
    simp only [bind]
    congr
    funext reply
    exact ih reply

theorem run_bind (dispatch : Int32 → σ → Except ε (Except Fault Unit × σ))
    (r : Routine α) (k : α → Routine β) (s : σ) :
    (r.bind k).run dispatch s =
      match r.run dispatch s with
      | .error e => .error e
      | .ok (.error f, t) => .ok (.error f, t)
      | .ok (.ok a, t) => (k a).run dispatch t := by
  induction r generalizing s with
  | done a => rfl
  | fail f => rfl
  | call c next ih => exact ih _ _
  | dispatch nr next ih =>
    simp only [bind, run]
    cases dispatch nr s with
    | error e => rfl
    | ok p => exact ih _ _

theorem run_dispatch (dispatch : Int32 → σ → Except ε (Except Fault Unit × σ)) (nr : Int32)
    (next : Except Fault Unit → Routine α) (s : σ) :
    (Routine.dispatch nr next).run dispatch s =
      (dispatch nr s).bind fun p => (next p.1).run dispatch p.2 := by
  rw [run]
  cases dispatch nr s <;> rfl

theorem run_ofExcept (dispatch : Int32 → σ → Except ε (Except Fault Unit × σ))
    (x : Except Fault α) (s : σ) : (ofExcept x).run dispatch s = .ok (x, s) := by
  cases x <;> rfl

theorem run_perform (dispatch : Int32 → σ → Except ε (Except Fault Unit × σ)) (c : Call) (s : σ) :
    (perform c).run dispatch s = .ok (Machine.answer c s) :=
  run_ofExcept dispatch _ _

theorem run_invoke (dispatch : Int32 → σ → Except ε (Except Fault Unit × σ)) (nr : Int32)
    (s : σ) : (invoke nr).run dispatch s = dispatch nr s := by
  rw [invoke, run_dispatch]
  cases dispatch nr s with
  | error e => rfl
  | ok p => exact run_ofExcept dispatch p.1 p.2

theorem run_perform_of_error {dispatch : Int32 → σ → Except ε (Except Fault Unit × σ)} {c : Call}
    {s t : σ} {f : Fault} (h : Machine.answer c s = (.error f, t)) (k : c.Reply → Routine β) :
    (perform c >>= k).run dispatch s = .ok (.error f, t) := by
  change ((perform c).bind k).run dispatch s = _
  rw [run_bind, run_perform, h]

theorem run_perform_of_ok {dispatch : Int32 → σ → Except ε (Except Fault Unit × σ)} {c : Call}
    {s t : σ} {a : c.Reply} (h : Machine.answer c s = (.ok a, t)) (k : c.Reply → Routine β) :
    (perform c >>= k).run dispatch s = (k a).run dispatch t := by
  change ((perform c).bind k).run dispatch s = _
  rw [run_bind, run_perform, h]

end Routine
end StackMachine
