import StackMachine.Fault
/-! A byte budget, and an operand stack of bounded height that charges it. A call
that fails changes nothing. -/
namespace StackMachine

-- A power of naturals is the core one, whichever other instances are in scope.
attribute [local instance (high)] instPowNat

/-- Bytes in use and their maximum so far, in words: a sum past the largest word wraps
around. A limit of zero or less is none. -/
structure Budget where
  limit : Int64 := 0
  used : Int64 := 0
  peak : Int64 := 0
  deriving DecidableEq, Repr

namespace Budget

def refuses (b : Budget) (size : Nat) : Bool := 0 < b.limit && b.limit < b.used + .ofNat size

def allocate (b : Budget) (v : Value) : Except Fault Budget :=
  if b.refuses v.footprint then .error (.outOfMemory v.footprint b.used b.limit)
  else
    let used := b.used + .ofNat v.footprint
    .ok { b with used, peak := max b.peak used }

def release (b : Budget) (v : Value) : Budget :=
  let used := b.used - .ofNat v.footprint
  { b with used := if used < 0 then 0 else used }

end Budget

structure Stack where
  capacity : Nat
  slots : Array Value := #[]
  budget : Budget := {}
  deriving DecidableEq, Repr

namespace Stack

/-- Most slots that storage can be reserved for. -/
def maxCapacity : Nat := 2 ^ (44 : Nat)

def empty (capacity : Int) (budget : Budget) : Stack :=
  { capacity := capacity.toNat, budget }

def values (s : Stack) : List Value := s.slots.toList

def size (s : Stack) : Nat := s.slots.size

/-- Refuses an absent value, then a full stack, then an exhausted budget. -/
def push (s : Stack) : Option Value → Except Fault Unit × Stack
  | none => (.error .absentValue, s)
  | some v =>
    if s.capacity ≤ s.size then (.error (.stackOverflow s.capacity), s)
    else
      match s.budget.allocate v with
      | .error f => (.error f, s)
      | .ok budget => (.ok (), { s with slots := s.slots.push v, budget })

def pop (s : Stack) : Except Fault Value × Stack :=
  match s.slots.back? with
  | none => (.error .stackUnderflow, s)
  | some v => (.ok v, { s with slots := s.slots.pop, budget := s.budget.release v })

def peek (s : Stack) (depth : Int) : Except Fault Value :=
  if 0 ≤ depth ∧ depth < s.size then
    match s.slots[s.size - 1 - depth.toNat]? with
    | some v => .ok v
    | none => .error .stackUnderflow
  else .error .stackUnderflow

theorem size_eq_length (s : Stack) : s.size = s.values.length := rfl

theorem push_of_error {s : Stack} {v : Option Value} {f : Fault} (h : (s.push v).1 = .error f) :
    (s.push v).2 = s := by
  revert h
  cases v with
  | none => intro; rfl
  | some v =>
    simp only [push]
    split
    · intro; rfl
    · cases s.budget.allocate v with
      | error g => intro; rfl
      | ok b => intro h; cases h

theorem values_push {s : Stack} {v : Value} (h : (s.push (some v)).1 = .ok ()) :
    (s.push (some v)).2.values = s.values ++ [v] := by
  revert h
  simp only [push]
  split
  · intro h; cases h
  · cases s.budget.allocate v with
    | error g => intro h; cases h
    | ok b => intro; simp [values]

theorem pop_of_error {s : Stack} {f : Fault} (h : s.pop.1 = .error f) : s.pop.2 = s := by
  revert h
  simp only [pop]
  cases s.slots.back? with
  | none => intro; rfl
  | some v => intro h; cases h

theorem values_pop {s : Stack} {v : Value} (h : s.pop.1 = .ok v) :
    s.values = s.pop.2.values ++ [v] := by
  revert h
  simp only [pop]
  cases hb : s.slots.back? with
  | none => intro h; cases h
  | some w =>
    intro h
    cases h
    have hl : s.slots.toList.getLast? = some v := by simpa using hb
    obtain ⟨ys, hy⟩ := List.getLast?_eq_some_iff.mp hl
    simp [values, hy]

end Stack
end StackMachine
