import StackMachine.Proofs.Accounting
import StackMachine.Proofs.Builtin.Termination
/-! A builtin opcode that fails leaves the bottom of the stack it found: operands
may be gone, but no result is there. INVOKE takes its reference off before it hands
over, so a chain of them comes to an end, and what it leaves is a bottom part too. -/
namespace StackMachine

open Engine

variable {α ε : Type} {dispatch : Int32 → Engine → Except ε (Except Fault Unit × Engine)}
  {e t : Engine} {f : Fault}

theorem Engine.answer_bottom (c : Call) (e : Engine)
    (h : Routine.IsPush c → ∃ f, (Machine.answer c e).1 = .error f) :
    (Machine.answer c e).2.stack.values <+: e.stack.values := by
  cases c with
  | push v =>
    obtain ⟨f, hf⟩ := h ⟨v, rfl⟩
    have hpush : (e.stack.push v).2 = e.stack := Stack.push_of_error hf
    change (e.stack.push v).2.values <+: _
    simp [hpush]
  | pop =>
    rcases e.answer_pop_cases with ⟨_, hpop⟩ | ⟨v, top, hpop⟩
    · simp [hpop]
    · rw [hpop]
      exact ⟨[v], top.symm⟩
  | peek depth => exact List.prefix_rfl
  | len => exact List.prefix_rfl
  | fetch =>
    change e.fetch.2.stack.values <+: _
    unfold fetch
    split <;> exact List.prefix_rfl
  | jump target =>
    change (e.jump target).2.stack.values <+: _
    unfold jump
    split <;> exact List.prefix_rfl
  | halt => exact List.prefix_rfl

theorem Routine.PushesLast.run_bottom {r : Routine Unit} (h : r.PushesLast)
    (hrun : r.run dispatch e = .ok (.error f, t)) : t.stack.values <+: e.stack.values := by
  induction r generalizing e with
  | done a => cases hrun
  | fail g =>
    cases hrun
    exact List.prefix_rfl
  | call c next ih =>
    have hbottom := e.answer_bottom c
    rw [run] at hrun
    cases hc : Machine.answer c e with
    | mk reply u =>
      rw [hc] at hrun hbottom
      cases reply with
      | error g =>
        simp only [h.1 g] at hrun
        cases hrun
        exact hbottom fun _ => ⟨f, rfl⟩
      | ok a =>
        by_cases push : IsPush c
        · simp only [h.2.1 push a] at hrun
          cases hrun
        · exact (ih _ (h.2.2 a) hrun).trans (hbottom fun hpush => absurd hpush push)
  | dispatch nr next ih => exact h.elim

namespace Builtin

theorem swap_eq : swap = Routine.pop >>= fun b => Routine.pop >>= fun a =>
    Routine.push b >>= fun _ => Routine.push a :=
  (Routine.bind_assoc _ _ _).trans (congrArg _ (funext fun _ => Routine.bind_assoc _ _ _))

theorem push_exchanged {s : Stack} {a b : Value} (reliable : s.Reliable)
    (fits : s.size ≤ s.capacity) (topb : s.values = (s.dropping b).values ++ [b])
    (topa : (s.dropping b).values = ((s.dropping b).dropping a).values ++ [a]) :
    ((s.dropping b).dropping a).push (some b) = (.ok (), ((s.dropping b).dropping a).holding b) ∧
    (((s.dropping b).dropping a).holding b).push (some a) =
      (.ok (), (((s.dropping b).dropping a).holding b).holding a) := by
  have hsize : s.size = ((s.dropping b).dropping a).size + 2 := by
    simp only [Stack.size_eq_length]
    rw [topb, topa]
    simp
  -- Neither balance exceeds the one before the pops, which the limit allowed.
  have bytes (limited : 0 < s.budget.limit) :
      ((s.dropping b).dropping a).budget.used.toInt + b.footprint + a.footprint ≤
        s.budget.limit.toInt := by
    have balanced := reliable limited
    have hb := balanced.used_dropping topb
    have ha := (balanced.dropping topb).used_dropping topa
    have hle := balanced.bounded.used_le_limit limited
    omega
  constructor
  · refine Stack.push_of_fits ?_ ?_
    · simp only [Stack.capacity_dropping]
      omega
    · intro limited
      have := bytes limited
      simp only [Stack.limit_dropping]
      omega
  · refine Stack.push_of_fits ?_ ?_
    · simp only [Stack.size_holding, Stack.capacity_holding, Stack.capacity_dropping]
      omega
    · intro limited
      have := bytes limited
      have := Budget.toInt_add_ofNat_le ((s.dropping b).dropping a).budget.used b.footprint
      rw [Stack.used_holding]
      simp only [Stack.limit_holding, Stack.limit_dropping]
      omega

theorem run_swap {a b : Value} (reliable : e.stack.Reliable)
    (fits : e.stack.size ≤ e.stack.capacity)
    (topb : e.stack.values = (e.stack.dropping b).values ++ [b])
    (topa : (e.stack.dropping b).values = ((e.stack.dropping b).dropping a).values ++ [a]) :
    swap.run dispatch e = .ok (.ok (),
      { e with stack := (((e.stack.dropping b).dropping a).holding b).holding a }) := by
  obtain ⟨pushb, pusha⟩ := push_exchanged reliable fits topb topa
  have first := answer_pop_of_top topb
  have second := answer_pop_of_top (e := { e with stack := e.stack.dropping b }) topa
  have third := answer_push (e := { e with stack := (e.stack.dropping b).dropping a }) pushb
  have fourth :=
    answer_push (e := { e with stack := ((e.stack.dropping b).dropping a).holding b }) pusha
  rw [swap_eq, Routine.pop, Routine.run_perform_of_ok first, Routine.run_perform_of_ok second]
  rw [Routine.push, Routine.run_perform_of_ok third, Routine.push, Routine.run_perform, fourth]

theorem swap_bottom (reliable : e.stack.Reliable) (fits : e.stack.size ≤ e.stack.capacity)
    (hrun : swap.run dispatch e = .ok (.error f, t)) : t.stack.values <+: e.stack.values := by
  rcases e.answer_pop_cases with ⟨_, hpop⟩ | ⟨b, topb, hpop⟩
  · rw [swap_eq, Routine.pop, Routine.run_perform_of_error hpop] at hrun
    cases hrun
    exact List.prefix_rfl
  · rcases answer_pop_cases { e with stack := e.stack.dropping b } with ⟨_, hpop'⟩ | ⟨a, topa, _⟩
    · rw [swap_eq, Routine.pop, Routine.run_perform_of_ok hpop,
        Routine.run_perform_of_error hpop'] at hrun
      cases hrun
      exact ⟨[b], topb.symm⟩
    · rw [run_swap reliable fits topb topa] at hrun
      cases hrun

theorem run_invoke_of_top {nr : Int32} {below : List Value}
    (top : e.stack.values = below ++ [.opcodeRef nr]) :
    invoke.run dispatch e = dispatch nr { e with stack := e.stack.dropping (.opcodeRef nr) } := by
  unfold invoke
  rw [Routine.pop, Routine.run_perform_of_ok (answer_pop_of_values top)]
  exact Routine.run_invoke dispatch nr _

theorem run_invoke_cases (dispatch : Int32 → Engine → Except ε (Except Fault Unit × Engine))
    (e : Engine) :
    (∃ f t, invoke.run dispatch e = .ok (.error f, t) ∧ t.stack.values <+: e.stack.values) ∨
    ∃ nr, e.stack.values = (e.stack.dropping (.opcodeRef nr)).values ++ [.opcodeRef nr] := by
  rcases e.answer_pop_cases with ⟨_, hpop⟩ | ⟨v, top, hpop⟩
  · unfold invoke
    rw [Routine.pop, Routine.run_perform_of_error hpop]
    exact .inl ⟨_, e, rfl, List.prefix_rfl⟩
  · have fails (f : Fault) (h : Value.asOpcodeRef (some v) = .error f) :
        ∃ f t, invoke.run dispatch e = .ok (.error f, t) ∧ t.stack.values <+: e.stack.values := by
      unfold invoke
      rw [Routine.pop, Routine.run_perform_of_ok hpop, h]
      exact ⟨f, _, rfl, [v], top.symm⟩
    cases v with
    | integer n => exact .inl (fails _ rfl)
    | string s => exact .inl (fails _ rfl)
    | rational r => exact .inl (fails _ rfl)
    | opcodeRef nr => exact .inr ⟨nr, top⟩

/-- A dispatch may nest once for each value on the stack, and needs no more. -/
theorem dispatch_returns {depth : Nat} (nr : Int32) (deep : e.stack.size < depth) :
    ∃ reply t, registry.dispatch depth nr e = .ok (reply, t) := by
  obtain ⟨⟨reply, t⟩, w, course, nesting, _⟩ := endsWithin_dispatch nr e
  exact ⟨reply, t, Registry.dispatch_eq_ok_iff.mpr ⟨w, course, by omega⟩⟩

theorem dispatch_bottom {depth : Nat} {nr : Int32} (reliable : e.stack.Reliable)
    (fits : e.stack.size ≤ e.stack.capacity)
    (h : registry.dispatch depth nr e = .ok (.error f, t)) :
    t.stack.values <+: e.stack.values := by
  induction depth generalizing nr e with
  | zero => cases h
  | succ depth ih =>
    rw [Registry.dispatch] at h
    cases hr : registry.resolve nr (Machine.len e) with
    | error g =>
      rw [hr] at h
      cases h
      exact List.prefix_rfl
    | ok r =>
      rw [hr] at h
      cases resolve_shape hr with
      | plain shape => exact shape.run_bottom h
      | swap => exact swap_bottom reliable fits h
      | invoke =>
        rcases run_invoke_cases (registry.dispatch depth) e with ⟨g, u, hu, short⟩ | ⟨nr', top⟩
        · simp only [hu] at h
          cases h
          exact short
        · simp only [run_invoke_of_top top] at h
          have fits' : (e.stack.dropping (.opcodeRef nr')).size ≤ e.stack.capacity := by
            rw [Stack.size_dropping]
            omega
          have inner := ih (e := { e with stack := e.stack.dropping (.opcodeRef nr') })
            (reliable.dropping top) fits' h
          exact inner.trans ⟨[_], top.symm⟩

end Builtin

namespace Engine

theorem dispatch_of_resolve_error {reg : Registry} {nr : Int32} (hreg : e.registry = some reg)
    (h : reg.resolve nr e.stack.size = .error f) : e.dispatch nr = .ok (.error f, e) := by
  have resolved : reg.resolve nr (Machine.len e) = .error f := h
  rw [dispatch_eq hreg, depth, Registry.dispatch, resolved]

theorem dispatch_of_resolve_ok {reg : Registry} {nr : Int32} {r : Routine Unit}
    (hreg : e.registry = some reg) (h : reg.resolve nr e.stack.size = .ok r) :
    e.dispatch nr = r.run (reg.dispatch (e.nesting + e.stack.size)) e := by
  have resolved : reg.resolve nr (Machine.len e) = .ok r := h
  rw [dispatch_eq hreg, depth, Registry.dispatch, resolved]

def invokeChain : List HostCall :=
  [.push (some (.integer 1)), .push (some (.opcodeRef 2)),
    .push (some (.opcodeRef Builtin.Nr.invoke)), .push (some (.opcodeRef Builtin.Nr.invoke))]

end Engine
end StackMachine
