import Mathlib.Algebra.GroupWithZero.Nat
import StackMachine.Proofs.Builtin.Failure
/-! Calculations on the stack of an engine: a host pushes operands and dispatches opcodes
that exchange them for a result. As long as there is room nothing else of the stack
changes, and a calculation fails only where a function of operands does. -/
namespace StackMachine

variable {ε : Type} {dispatch : Int32 → Engine → Except ε (Except Fault Unit × Engine)}
  {e t : Engine} {vs : List Value} {a b v w : Value}

namespace Builtin

theorem run_unary {f : Value → Except Fault Value} {below : List Value}
    (top : e.stack.values = below ++ [v]) :
    (unary f).run dispatch e = (Routine.ofExcept (f v) >>= Routine.push).run dispatch
      { e with stack := e.stack.dropping v } := by
  unfold unary
  rw [Routine.pop, Routine.run_perform_of_ok (Engine.answer_pop_of_values top)]

theorem binary_eq (f : Value → Value → Except Fault Value) :
    binary f = Routine.pop >>= fun b => Routine.pop >>= fun a =>
      Routine.ofExcept (f a b) >>= Routine.push :=
  (Routine.bind_assoc _ _ _).trans (congrArg _ (funext fun _ => Routine.bind_assoc _ _ _))

theorem run_binary {f : Value → Value → Except Fault Value} {below : List Value}
    (top : e.stack.values = below ++ [a, b]) :
    (binary f).run dispatch e = (Routine.ofExcept (f a b) >>= Routine.push).run dispatch
      { e with stack := (e.stack.dropping b).dropping a } := by
  have topb : e.stack.values = (below ++ [a]) ++ [b] := by simpa using top
  have topa := Stack.values_dropping_of_top topb
  rw [binary_eq, Routine.pop, Routine.run_perform_of_ok (Engine.answer_pop_of_values topb),
    Routine.run_perform_of_ok
      (Engine.answer_pop_of_values (e := { e with stack := e.stack.dropping b }) topa)]

end Builtin

namespace Engine

/-- The engine `t` is `e` with `vs` on top of the stack, as far as a calculation sees:
without a limit it does not see the account. -/
structure Holds (e : Engine) (vs : List Value) (t : Engine) : Prop where
  registry_eq : t.registry = e.registry
  values_eq : t.stack.values = e.stack.values ++ vs
  capacity_eq : t.stack.capacity = e.stack.capacity
  limit_eq : t.stack.budget.limit = e.stack.budget.limit
  used_eq : 0 < e.stack.budget.limit → 0 ≤ e.stack.budget.used.toInt →
    t.stack.budget.used.toInt = e.stack.budget.used.toInt + (vs.map Value.footprint).sum

/-- Over the builtin opcodes, with room for two numbers of either kind. -/
structure Roomy (e : Engine) : Prop where
  registry_eq : e.registry = some Builtin.registry
  slots : e.stack.size + 2 ≤ e.stack.capacity
  bytes : 0 < e.stack.budget.limit → 0 ≤ e.stack.budget.used.toInt ∧
    e.stack.budget.used.toInt + 80 ≤ e.stack.budget.limit.toInt

/-- With a slot and the bytes for each of these. -/
structure HasRoomFor (e : Engine) (vs : List Value) : Prop where
  slots : e.stack.size + vs.length ≤ e.stack.capacity
  bytes : 0 < e.stack.budget.limit → 0 ≤ e.stack.budget.used.toInt ∧
    e.stack.budget.used.toInt + (vs.map Value.footprint).sum ≤ e.stack.budget.limit.toInt

theorem Roomy.hasRoomFor (roomy : e.Roomy) (short : vs.length ≤ 2)
    (light : (vs.map Value.footprint).sum ≤ 80) : e.HasRoomFor vs := by
  have hslots := roomy.slots
  refine ⟨by omega, fun limited => ?_⟩
  have hbytes := roomy.bytes limited
  omega

theorem Roomy.hasRoomFor_append (roomy : e.Roomy) (short : vs.length < 2)
    (light : (vs.map Value.footprint).sum + v.footprint ≤ 80) : e.HasRoomFor (vs ++ [v]) := by
  apply roomy.hasRoomFor
  · rw [List.length_append]
    exact short
  · simpa using light

theorem HasRoomFor.mono {ws : List Value} (room : e.HasRoomFor ws) (short : vs.length ≤ ws.length)
    (light : (vs.map Value.footprint).sum ≤ (ws.map Value.footprint).sum) : e.HasRoomFor vs := by
  have hslots := room.slots
  refine ⟨by omega, fun limited => ?_⟩
  have hbytes := room.bytes limited
  omega

theorem Holds.refl (e : Engine) : e.Holds [] e :=
  ⟨rfl, (List.append_nil _).symm, rfl, rfl, fun _ _ => (Int.add_zero _).symm⟩

theorem Holds.size_eq (h : e.Holds vs t) : t.stack.size = e.stack.size + vs.length := by
  rw [Stack.size_eq_length, Stack.size_eq_length, h.values_eq, List.length_append]

theorem Holds.push_of_room (h : e.Holds vs t) (room : e.HasRoomFor (vs ++ [v])) :
    t.stack.push (some v) = (.ok (), t.stack.holding v) ∧
      e.Holds (vs ++ [v]) { t with stack := t.stack.holding v } := by
  have hsize := h.size_eq
  have hslots := room.slots
  have hbytes := room.bytes
  simp only [List.length_append, List.length_singleton] at hslots
  simp only [List.map_append, List.map_cons, List.map_nil, List.sum_append, List.sum_cons,
    List.sum_nil] at hbytes
  have hpush : t.stack.push (some v) = (.ok (), t.stack.holding v) := by
    refine Stack.push_of_fits ?_ ?_
    · rw [hsize, h.capacity_eq]
      omega
    · rw [h.limit_eq]
      intro limited
      obtain ⟨positive, fits⟩ := hbytes limited
      have hused := h.used_eq limited positive
      omega
  refine ⟨hpush, h.registry_eq, ?_, h.capacity_eq, h.limit_eq, ?_⟩
  · rw [Stack.values_holding, h.values_eq, List.append_assoc]
  · intro limited positive
    have hused := h.used_eq limited positive
    have hlimit := e.stack.budget.limit.toInt_lt
    obtain ⟨_, fits⟩ := hbytes limited
    rw [Stack.used_holding, Budget.toInt_add_ofNat (by omega), hused]
    simp [Int.add_assoc]

theorem Holds.drop (h : e.Holds (vs ++ [v]) t) :
    e.Holds vs { t with stack := t.stack.dropping v } := by
  refine ⟨h.registry_eq, ?_, h.capacity_eq, h.limit_eq, ?_⟩
  · rw [Stack.values_dropping, h.values_eq, ← List.append_assoc, List.dropLast_concat]
  · intro limited positive
    have hused := h.used_eq limited positive
    simp only [List.map_append, List.map_cons, List.map_nil, List.sum_append, List.sum_cons,
      List.sum_nil] at hused
    have covered : v.footprint ≤ t.stack.budget.used.toInt := by omega
    change (t.stack.budget.release v).used.toInt = _
    rw [Budget.used_release_of_le covered]
    omega

/-- Every call succeeds, and together they push `vs`. -/
def Yields (e : Engine) (cs : List HostCall) (vs : List Value) : Prop :=
  ∃ t, e.calls cs = .ok (List.replicate cs.length (.done (.ok ())), t) ∧ e.Holds vs t

/-- The last call is the first to fail, with a fault of this kind. -/
def Refuses (e : Engine) (cs : List HostCall) (kind : FaultKind) : Prop :=
  ∃ f t, e.calls cs = .ok (List.replicate (cs.length - 1) (.done (.ok ())) ++ [.done (.error f)], t) ∧
    f.kind = kind

variable {cs : List HostCall} {nr : Int32}

theorem Yields.nil (e : Engine) : e.Yields [] [] := ⟨e, rfl, .refl e⟩

theorem Yields.append {c : HostCall} {ws : List Value} (h : e.Yields cs vs)
    (next : ∀ t, e.Holds vs t → ∃ u, t.call c = .ok (.done (.ok ()), u) ∧ e.Holds ws u) :
    e.Yields (cs ++ [c]) ws := by
  obtain ⟨t, hcs, holds⟩ := h
  obtain ⟨u, hc, holds⟩ := next t holds
  refine ⟨u, ?_, holds⟩
  rw [calls_append hcs hc, List.length_append, List.length_singleton, List.replicate_succ']

theorem Yields.push_of_room (h : e.Yields cs vs) (room : e.HasRoomFor (vs ++ [v])) :
    e.Yields (cs ++ [.push (some v)]) (vs ++ [v]) := by
  refine h.append fun t holds => ?_
  obtain ⟨hpush, holds⟩ := holds.push_of_room room
  exact ⟨_, by rw [call, Engine.push, hpush], holds⟩

theorem Yields.push (h : e.Yields cs vs) (roomy : e.Roomy) (short : vs.length < 2)
    (light : (vs.map Value.footprint).sum + v.footprint ≤ 80) :
    e.Yields (cs ++ [.push (some v)]) (vs ++ [v]) :=
  h.push_of_room (roomy.hasRoomFor_append short light)

theorem refuses_of_call {c : HostCall} {g : Fault} {u : Engine}
    (hcs : e.calls cs = .ok (List.replicate cs.length (.done (.ok ())), t))
    (hcall : t.call c = .ok (.done (.error g), u)) : e.Refuses (cs ++ [c]) g.kind := by
  refine ⟨g, u, ?_, rfl⟩
  rw [calls_append hcs hcall, List.length_append, List.length_singleton, Nat.add_sub_cancel]

theorem Yields.unique {ws : List Value} (h : e.Yields cs vs) (h' : e.Yields cs ws) : vs = ws := by
  obtain ⟨t, hcs, holds⟩ := h
  obtain ⟨u, hcs', holds'⟩ := h'
  cases hcs.symm.trans hcs'
  exact List.append_cancel_left (holds.values_eq.symm.trans holds'.values_eq)

theorem Yields.not_refuses {kind : FaultKind} (h : e.Yields cs vs) : ¬ e.Refuses cs kind := by
  obtain ⟨t, hcs, _⟩ := h
  rintro ⟨f, u, hcs', _⟩
  obtain ⟨replies, _⟩ := Prod.mk.inj (Except.ok.inj (hcs.symm.trans hcs'))
  have failed : HostReply.done (.error f) ∈ List.replicate cs.length (HostReply.done (.ok ())) := by
    rw [replies]
    simp
  cases List.eq_of_mem_replicate failed

theorem Holds.exchange (h : e.Holds vs t) (room : e.HasRoomFor (vs ++ [w]))
    (dispatch : Int32 → Engine → Except ε (Except Fault Unit × Engine)) :
    ∃ u, (Routine.ofExcept (.ok w) >>= Routine.push).run dispatch t = .ok (.ok (), u) ∧
      e.Holds (vs ++ [w]) u := by
  obtain ⟨hpush, holds⟩ := h.push_of_room room
  exact ⟨_, (Routine.run_perform dispatch (.push (some w)) t).trans
    (congrArg Except.ok (answer_push hpush)), holds⟩

/-- A host pushes two operands and dispatches an opcode. -/
def dispatchOn (nr : Int32) (a b : Value) : List HostCall :=
  [.push (some a), .push (some b), .dispatch nr]

section Pairs

variable {f : Value → Value → Except Fault Value} (hreg : e.registry = some Builtin.registry)
  (known : ∀ held, 2 ≤ held → Builtin.registry.resolve nr held = .ok (Builtin.binary f))

include hreg known

theorem Holds.call_binary (h : e.Holds [a, b] t) :
    t.call (.dispatch nr) = ((Routine.ofExcept (f a b) >>= Routine.push).run
      (Builtin.registry.dispatch (t.nesting + t.stack.size))
      { t with stack := (t.stack.dropping b).dropping a }).map fun p => (.done p.1, p.2) := by
  have hsize : 2 ≤ t.stack.size := by simp [h.size_eq]
  rw [call, dispatch_of_resolve_ok (h.registry_eq.trans hreg) (known _ hsize),
    Builtin.run_binary h.values_eq]

theorem Yields.binary_of_room (h : e.Yields cs [a, b]) (hf : f a b = .ok w)
    (room : e.HasRoomFor [w]) : e.Yields (cs ++ [.dispatch nr]) [w] := by
  refine h.append fun t holds => ?_
  have first : e.Holds ([] ++ [a]) { t with stack := t.stack.dropping b } := Holds.drop holds
  obtain ⟨u, hu, kept⟩ := first.drop.exchange room
    (Builtin.registry.dispatch (t.nesting + t.stack.size))
  refine ⟨u, ?_, kept⟩
  rw [holds.call_binary hreg known, hf, hu]
  rfl

theorem Yields.binary_refused {g : Fault} (h : e.Yields cs [a, b]) (hf : f a b = .error g) :
    e.Refuses (cs ++ [.dispatch nr]) g.kind := by
  obtain ⟨t, hcs, holds⟩ := h
  apply refuses_of_call hcs
  rw [holds.call_binary hreg known, hf]
  rfl

section Host

variable (room : e.HasRoomFor [a, b])

include room

omit hreg known in
theorem yields_pair : e.Yields [.push (some a), .push (some b)] [a, b] :=
  ((Yields.nil e).push_of_room (room.mono (by simp) (by simp))).push_of_room room

theorem yields_dispatchOn (hf : f a b = .ok w) (light : w.footprint ≤ a.footprint + b.footprint) :
    e.Yields (dispatchOn nr a b) [w] :=
  (yields_pair room).binary_of_room hreg known hf (room.mono (by simp) (by simpa using light))

theorem refuses_dispatchOn {g : Fault} (hf : f a b = .error g) :
    e.Refuses (dispatchOn nr a b) g.kind :=
  (yields_pair room).binary_refused hreg known hf

end Host

end Pairs

section Unary

variable {f : Value → Except Fault Value} (hreg : e.registry = some Builtin.registry)
  (known : ∀ held, 1 ≤ held → Builtin.registry.resolve nr held = .ok (Builtin.unary f))

include hreg known

theorem Holds.call_unary (h : e.Holds (vs ++ [v]) t) :
    t.call (.dispatch nr) = ((Routine.ofExcept (f v) >>= Routine.push).run
      (Builtin.registry.dispatch (t.nesting + t.stack.size))
      { t with stack := t.stack.dropping v }).map fun p => (.done p.1, p.2) := by
  have hsize : 1 ≤ t.stack.size := by
    rw [h.size_eq, List.length_append, List.length_singleton]
    omega
  have top : t.stack.values = (e.stack.values ++ vs) ++ [v] := by
    rw [h.values_eq, List.append_assoc]
  rw [call, dispatch_of_resolve_ok (h.registry_eq.trans hreg) (known _ hsize),
    Builtin.run_unary top]

theorem Yields.unary_of_room (h : e.Yields cs (vs ++ [v])) (hf : f v = .ok w)
    (room : e.HasRoomFor (vs ++ [w])) : e.Yields (cs ++ [.dispatch nr]) (vs ++ [w]) := by
  refine h.append fun t holds => ?_
  obtain ⟨u, hu, kept⟩ := holds.drop.exchange room
    (Builtin.registry.dispatch (t.nesting + t.stack.size))
  refine ⟨u, ?_, kept⟩
  rw [holds.call_unary hreg known, hf, hu]
  rfl

end Unary

section Operations

variable (roomy : e.Roomy)

include roomy

theorem Yields.unary {f : Value → Except Fault Value} (h : e.Yields cs (vs ++ [v]))
    (known : ∀ held, 1 ≤ held → Builtin.registry.resolve nr held = .ok (Builtin.unary f))
    (hf : f v = .ok w) (short : vs.length < 2)
    (light : (vs.map Value.footprint).sum + w.footprint ≤ 80) :
    e.Yields (cs ++ [.dispatch nr]) (vs ++ [w]) :=
  h.unary_of_room roomy.registry_eq known hf (roomy.hasRoomFor_append short light)

theorem Yields.unary_refused {f : Value → Except Fault Value} {g : Fault}
    (h : e.Yields cs (vs ++ [v]))
    (known : ∀ held, 1 ≤ held → Builtin.registry.resolve nr held = .ok (Builtin.unary f))
    (hf : f v = .error g) : e.Refuses (cs ++ [.dispatch nr]) g.kind := by
  obtain ⟨t, hcs, holds⟩ := h
  apply refuses_of_call hcs
  rw [holds.call_unary roomy.registry_eq known, hf]
  rfl

theorem Yields.binary {f : Value → Value → Except Fault Value} (h : e.Yields cs [a, b])
    (known : ∀ held, 2 ≤ held → Builtin.registry.resolve nr held = .ok (Builtin.binary f))
    (hf : f a b = .ok w) (light : w.footprint ≤ 80) : e.Yields (cs ++ [.dispatch nr]) [w] :=
  h.binary_of_room roomy.registry_eq known hf (roomy.hasRoomFor (by simp) (by simpa))

end Operations

end Engine
end StackMachine
