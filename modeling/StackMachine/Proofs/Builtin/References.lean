import StackMachine.Proofs.Alike
import StackMachine.Proofs.Builtin.Arity
/-! Opcodes run through references. INVOKE takes its reference off and dispatches the opcode
named there, so a chain of references to INVOKE does what the opcode at its end does on the
stack below. Pushing and popping the references leaves its trace in the account alone, and
there in the peak alone as long as the bytes can be counted. No call looks at the peak, nor
at the bytes in use unless there is a limit. -/
namespace StackMachine

namespace Stack

variable {s : Stack} {counted : Prop} {used : Int64}

def withAccount (s : Stack) (used peak : Int64) : Stack :=
  { s with budget := { s.budget with used, peak } }

/-- In place of the bytes in use `used` would do: it is the same, or nothing was counted and
there is no limit to hold it against. -/
def Tolerates (counted : Prop) (s : Stack) (used : Int64) : Prop :=
  used = s.budget.used ∨ ¬ counted ∧ s.budget.limit ≤ 0

theorem Tolerates.refuses_eq (h : s.Tolerates counted used) (peak : Int64) (size : Nat) :
    (s.withAccount used peak).budget.refuses size = s.budget.refuses size := by
  rcases h with rfl | ⟨_, unlimited⟩
  · rfl
  · rw [Budget.grants_of_unlimited unlimited]
    exact Budget.grants_of_unlimited (b := (s.withAccount used peak).budget) unlimited size

theorem Tolerates.eq_of_refuses (h : s.Tolerates counted used) {size : Nat}
    (refused : s.budget.refuses size = true) : used = s.budget.used := by
  rcases h with same | ⟨_, unlimited⟩
  · exact same
  · rw [Budget.grants_of_unlimited unlimited] at refused
    cases refused

theorem push_withAccount (h : s.Tolerates counted used) (v : Option Value) (peak : Int64) :
    ∃ used' peak', (s.withAccount used peak).push v =
        ((s.push v).1, (s.push v).2.withAccount used' peak') ∧
      (s.push v).2.Tolerates counted used' := by
  cases v with
  | none => exact ⟨used, peak, rfl, h⟩
  | some v =>
    by_cases full : s.capacity ≤ s.size
    · rw [push_of_full full, push_of_full (s := s.withAccount used peak) full]
      exact ⟨used, peak, rfl, h⟩
    · have room : s.size < s.capacity := Nat.lt_of_not_le full
      have refuses_eq := h.refuses_eq peak v.footprint
      cases hr : s.budget.refuses v.footprint with
      | true =>
        have same := h.eq_of_refuses hr
        rw [push_of_refuses room hr,
          push_of_refuses (s := s.withAccount used peak) room (refuses_eq.trans hr)]
        refine ⟨used, peak, ?_, h⟩
        rw [← same]
        rfl
      | false =>
        rw [push_of_grants room hr,
          push_of_grants (s := s.withAccount used peak) room (refuses_eq.trans hr)]
        refine ⟨_, _, rfl, ?_⟩
        rcases h with rfl | unlimited
        · exact .inl rfl
        · exact .inr unlimited

theorem pop_withAccount (h : s.Tolerates counted used) (peak : Int64) :
    ∃ used', (s.withAccount used peak).pop = (s.pop.1, s.pop.2.withAccount used' peak) ∧
      s.pop.2.Tolerates counted used' := by
  have slots : (s.withAccount used peak).slots = s.slots := rfl
  unfold pop
  rw [slots]
  cases s.slots.back? with
  | none => exact ⟨used, rfl, h⟩
  | some v =>
    refine ⟨_, rfl, ?_⟩
    rcases h with rfl | unlimited
    · exact .inl rfl
    · exact .inr unlimited

theorem eq_withAccount {t : Stack} (values : t.values = s.values)
    (capacity : t.capacity = s.capacity) (limit : t.budget.limit = s.budget.limit)
    (exact : 0 < s.budget.limit ∨ counted → s.Balanced ∧ t.Balanced) :
    t = s.withAccount t.budget.used t.budget.peak ∧ s.Tolerates counted t.budget.used := by
  constructor
  · have slots : t.slots = s.slots := Array.toList_inj.mp values
    obtain ⟨_, _, ⟨_, _, _⟩⟩ := t
    cases capacity
    cases slots
    cases limit
    rfl
  · by_cases held : 0 < s.budget.limit ∨ counted
    · obtain ⟨hs, ht⟩ := exact held
      refine .inl (Int64.toInt_inj.mp ?_)
      rw [hs.used_eq, ht.used_eq, footprint, footprint, values]
    · obtain ⟨unlimited, uncounted⟩ := not_or.mp held
      exact .inr ⟨uncounted, Int64.not_lt.mp unlimited⟩

end Stack

namespace Engine

variable {a b e : Engine} {s : Setup} {reg : Registry} {below : List Value} {nr : Int32}
  {counted : Prop}

/-- The engines differ at most in their accounts, and if the bytes were counted, in the
peaks of them alone. -/
def SameButAccount (counted : Prop) (a b : Engine) : Prop :=
  ∃ used peak, b = { a with stack := a.stack.withAccount used peak } ∧
    a.stack.Tolerates counted used

namespace SameButAccount

theorem blind : Blind (SameButAccount counted) where
  answer := by
    rintro c a _ ⟨used, peak, rfl, h⟩
    cases c with
    | push v =>
      obtain ⟨used', peak', hpush, h'⟩ := Stack.push_withAccount h v peak
      rw [answer_push (e := { a with stack := a.stack.withAccount used peak }) hpush]
      exact ⟨rfl, used', peak', rfl, h'⟩
    | pop =>
      obtain ⟨used', hpop, h'⟩ := Stack.pop_withAccount h peak
      change a.pop.1 = (pop _).1 ∧ SameButAccount counted a.pop.2 (pop _).2
      simp only [pop, hpop]
      exact ⟨trivial, used', peak, rfl, h'⟩
    | peek depth => exact ⟨rfl, used, peak, rfl, h⟩
    | len => exact ⟨rfl, used, peak, rfl, h⟩
    | fetch =>
      change a.fetch.1 = (fetch _).1 ∧ SameButAccount counted a.fetch.2 (fetch _).2
      simp only [fetch]
      cases a.code[a.ip]? <;> exact ⟨rfl, used, peak, rfl, h⟩
    | jump target =>
      change (a.jump target).1 = (jump target _).1 ∧
        SameButAccount counted (a.jump target).2 (jump target _).2
      simp only [jump]
      split <;> exact ⟨rfl, used, peak, rfl, h⟩
    | halt => exact ⟨rfl, used, peak, rfl, h⟩
  registry_eq := by
    rintro a _ ⟨used, peak, rfl, _⟩
    rfl
  nesting_eq := by
    rintro a _ ⟨used, peak, rfl, _⟩
    rfl

theorem used_eq (h : SameButAccount counted a b) (exact : counted) :
    b.stack.budget.used = a.stack.budget.used := by
  obtain ⟨used, peak, rfl, same | ⟨uncounted, _⟩⟩ := h
  · exact same
  · exact absurd exact uncounted

end SameButAccount

section Chain

variable (equipped : s.registry = some reg) (builtins : Builtin.Installed reg)

include equipped builtins

/-- INVOKE pops its reference; the engine it leaves for the opcode named there could have
been reached without it. -/
theorem Reachable.invoke_reference (reachable : Reachable s e)
    (top : e.stack.values = below ++ [.opcodeRef nr]) :
    Reachable s { e with stack := e.stack.dropping (.opcodeRef nr) } ∧
      (ReachableInRange s e →
        ReachableInRange s { e with stack := e.stack.dropping (.opcodeRef nr) }) ∧
      e.dispatch Builtin.Nr.invoke =
        dispatch nr { e with stack := e.stack.dropping (.opcodeRef nr) } := by
  have hreg := (reachable_wellFormed reachable).registry_eq.trans equipped
  have hpop : e.pop = _ := answer_pop_of_values top
  have hcall : e.call .pop = .ok (.value (.ok (.opcodeRef nr)),
      { e with stack := e.stack.dropping (.opcodeRef nr) }) := by
    rw [Engine.call, hpop]
  refine ⟨reachable.call hcall, fun inRange => inRange.pop hpop,
    dispatch_invoke (fun held some => ?_) hreg top⟩
  exact builtins.resolve_entry rfl rfl rfl some

theorem Reachable.invoke_chain (reachable : Reachable s e) (k : Nat)
    (top : e.stack.values =
      below ++ .opcodeRef nr :: List.replicate k (.opcodeRef Builtin.Nr.invoke)) :
    ∃ stack, Reachable s { e with stack } ∧
      (ReachableInRange s e → ReachableInRange s { e with stack }) ∧ stack.values = below ∧
      e.dispatch Builtin.Nr.invoke = dispatch nr { e with stack } := by
  induction k generalizing e with
  | zero =>
    obtain ⟨popped, inRange, hinvoke⟩ := reachable.invoke_reference equipped builtins top
    exact ⟨_, popped, inRange, Stack.values_dropping_of_top top, hinvoke⟩
  | succ k ih =>
    rw [List.replicate_succ', ← List.cons_append, ← List.append_assoc] at top
    obtain ⟨popped, inRange, hinvoke⟩ := reachable.invoke_reference equipped builtins top
    obtain ⟨stack, reached, below', values, hdispatch⟩ :=
      ih popped (Stack.values_dropping_of_top top)
    exact ⟨stack, reached, fun h => below' (inRange h), values, hinvoke.trans hdispatch⟩

end Chain

theorem Reachable.sameButAccount (ha : Reachable s a) (hb : Reachable s b)
    (exact : 0 < s.limit ∨ counted → ReachableInRange s a ∧ ReachableInRange s b)
    (same : b = { a with stack := b.stack }) (values : b.stack.values = a.stack.values) :
    SameButAccount counted a b := by
  have wa := reachable_wellFormed ha
  have wb := reachable_wellFormed hb
  have balanced (held : 0 < a.stack.budget.limit ∨ counted) :
      a.stack.Balanced ∧ b.stack.Balanced := by
    rw [wa.limit_eq] at held
    exact ⟨(exact held).1.balanced, (exact held).2.balanced⟩
  obtain ⟨stack, tolerates⟩ := Stack.eq_withAccount values
    (wb.capacity_eq.trans wa.capacity_eq.symm) (wb.limit_eq.trans wa.limit_eq.symm) balanced
  refine ⟨b.stack.budget.used, b.stack.budget.peak, ?_, tolerates⟩
  rw [← stack]
  exact same

def addFetched : Descriptor where
  number := 100
  params := 1
  results := 1
  operation := some (.ofScript [.fetch, .dispatch Builtin.Nr.add, .halt])

def withAddFetched : Setup where
  code := #[41, 42]
  capacity := 4
  limit := 20
  registry := some (Builtin.registry.registerAll [addFetched]).2

def addByReference : List HostCall :=
  [.push (some (.integer 7)), .push (some (.opcodeRef 100)),
    .push (some (.opcodeRef Builtin.Nr.invoke)), .push (some (.opcodeRef Builtin.Nr.invoke))]

end Engine
end StackMachine
