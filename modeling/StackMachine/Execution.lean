import StackMachine.Registry
/-! Dispatch as a loop. The routines that wait for an opcode they dispatched are
kept in a list, innermost first, so that a deep nest needs no deep recursion.
The loop ends because each move brings the nested evaluation of what is left
nearer to its end, and its result is that of `Registry.dispatch`. -/
namespace StackMachine

-- A power of naturals is the core one, whichever other instances are in scope.
attribute [local instance (high)] instPowNat

abbrev Waiting := Except Fault Unit → Routine Unit

variable {σ : Type} [Machine σ]

def Routine.moves (dispatch : Int32 → σ → Except Abort (Except Fault Unit × σ))
    (inner : Int32 → σ → Nat) : Routine Unit → σ → Nat
  | .done _, _ => 1
  | .fail _, _ => 1
  | .call c next, s =>
    let (reply, t) := Machine.answer c s
    moves dispatch inner (next reply) t + 1
  | .dispatch nr next, s =>
    match dispatch nr s with
    | .error _ => inner nr s + 1
    | .ok (reply, t) => inner nr s + moves dispatch inner (next reply) t + 1

namespace Registry

def moves (reg : Registry) : (depth : Nat) → Int32 → σ → Nat
  | 0, _, _ => 0
  | depth + 1, nr, s =>
    match reg.resolve nr (Machine.len s) with
    | .error _ => 0
    | .ok operation => operation.moves (reg.dispatch depth) (reg.moves depth) s

def backlog (reg : Registry) (room : Nat) (r : Routine Unit) (s : σ) : List Waiting → Nat
  | [] => r.moves (reg.dispatch room) (reg.moves room) s
  | w :: waiting =>
    r.moves (reg.dispatch room) (reg.moves room) s +
      match r.run (reg.dispatch room) s with
      | .error _ => 0
      | .ok (reply, t) => backlog reg (room + 1) (w reply) t waiting

theorem backlog_call (reg : Registry) (room : Nat) (c : Call)
    (next : Except Fault c.Reply → Routine Unit) (s : σ) (waiting : List Waiting) :
    reg.backlog room (.call c next) s waiting =
      reg.backlog room (next (Machine.answer c s).1) (Machine.answer c s).2 waiting + 1 := by
  cases waiting with
  | nil => rfl
  | cons w waiting => simp only [backlog, Routine.moves, Routine.run]; omega

theorem backlog_refused {reg : Registry} {room : Nat} {nr : Int32} {next : Waiting} {s : σ}
    {f : Fault} (h : reg.resolve nr (Machine.len s) = .error f) (waiting : List Waiting) :
    reg.backlog (room + 1) (.dispatch nr next) s waiting =
      reg.backlog (room + 1) (next (.error f)) s waiting + 1 := by
  cases waiting with
  | nil => simp [backlog, Routine.moves, dispatch, moves, h]
  | cons w waiting => simp [backlog, Routine.moves, Routine.run, dispatch, moves, h]; omega

theorem backlog_entered {reg : Registry} {room : Nat} {nr : Int32} {next : Waiting} {s : σ}
    {operation : Routine Unit} (h : reg.resolve nr (Machine.len s) = .ok operation)
    (waiting : List Waiting) :
    reg.backlog (room + 1) (.dispatch nr next) s waiting =
      reg.backlog room operation s (next :: waiting) + 1 := by
  cases waiting with
  | nil =>
    simp only [backlog, Routine.moves, dispatch, moves, h]
    cases operation.run (reg.dispatch room) s <;> rfl
  | cons w waiting =>
    simp only [backlog, Routine.moves, Routine.run, dispatch, moves, h]
    cases operation.run (reg.dispatch room) s with
    | error a => rfl
    | ok p => simp only; omega

/-- Runs a routine whose dispatches may nest `room` deep, and then those that
wait for it. -/
def resume (reg : Registry) (room : Nat) (r : Routine Unit) (s : σ) (waiting : List Waiting) :
    Except Abort (Except Fault Unit × σ) :=
  match r with
  | .done a =>
    match waiting with
    | [] => .ok (.ok a, s)
    | w :: waiting => reg.resume (room + 1) (w (.ok a)) s waiting
  | .fail f =>
    match waiting with
    | [] => .ok (.error f, s)
    | w :: waiting => reg.resume (room + 1) (w (.error f)) s waiting
  | .call c next =>
    let answered := Machine.answer c s
    reg.resume room (next answered.1) answered.2 waiting
  | .dispatch nr next =>
    match room with
    | 0 => .error .tooDeep
    | room + 1 =>
      match h : reg.resolve nr (Machine.len s) with
      | .error f => reg.resume (room + 1) (next (.error f)) s waiting
      | .ok operation => reg.resume room operation s (next :: waiting)
termination_by reg.backlog room r s waiting
decreasing_by
  · simp [backlog, Routine.moves, Routine.run]
  · simp [backlog, Routine.moves, Routine.run]
  · simp [backlog_call]
  · simp [backlog_refused h]
  · simp [backlog_entered h]

/-- The end of a routine is handed to the innermost that waits. -/
theorem resume_eq (reg : Registry) (room : Nat) (r : Routine Unit) (s : σ)
    (waiting : List Waiting) :
    reg.resume room r s waiting =
      match r.run (reg.dispatch room) s with
      | .error a => .error a
      | .ok (reply, t) =>
        match waiting with
        | [] => .ok (reply, t)
        | w :: waiting => reg.resume (room + 1) (w reply) t waiting := by
  induction room generalizing r s waiting with
  | zero =>
    induction r generalizing s with
    | done a => cases waiting <;> simp [resume, Routine.run]
    | fail f => cases waiting <;> simp [resume, Routine.run]
    | call c next ih => rw [resume, Routine.run]; exact ih _ _
    | dispatch nr next _ => simp [resume, Routine.run, dispatch]
  | succ room deeper =>
    induction r generalizing s with
    | done a => cases waiting <;> simp [resume, Routine.run]
    | fail f => cases waiting <;> simp [resume, Routine.run]
    | call c next ih => rw [resume, Routine.run]; exact ih _ _
    | dispatch nr next ih =>
      cases h : reg.resolve nr (Machine.len s) with
      | error f => rw [resume, Routine.run, dispatch, h]; exact ih _ _
      | ok operation =>
        rw [resume, Routine.run, dispatch, h]
        simp only
        rw [deeper]
        cases operation.run (reg.dispatch room) s with
        | error a => rfl
        | ok p => exact ih _ _

/-- How deep dispatches may nest if nothing else is said, those apart that each
take a value off the stack. -/
def defaultNesting : Nat := 2 ^ (21 : Nat)

def execute (reg : Registry) (depth : Nat) (nr : Int32) (s : σ) :
    Except Abort (Except Fault Unit × σ) :=
  reg.resume depth (.dispatch nr .ofExcept) s []

theorem execute_eq_dispatch (reg : Registry) (depth : Nat) (nr : Int32) (s : σ) :
    reg.execute depth nr s = reg.dispatch depth nr s := by
  rw [execute, resume_eq, Routine.run]
  cases reg.dispatch depth nr s with
  | error a => rfl
  | ok p => rcases p with ⟨_ | _, t⟩ <;> rfl

def operate (reg : Registry) (depth : Nat) (nr : Int32) (s : σ) :
    Except Fault (Except Abort (Except Fault Unit × σ)) := do
  let d ← reg.lookup nr
  match d.operation with
  | none => .ok (.error .noOperation)
  | some operation => .ok (reg.resume depth operation s [])

end Registry
end StackMachine
