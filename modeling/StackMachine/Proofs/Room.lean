import StackMachine.Proofs.Builtin.Shape
import StackMachine.Proofs.Lockstep
/-! More stack and more code never change a run that halts. An engine that is given
more slots and more cells behind its code goes the same way as before, up to the
first call for which the smaller one had no slot or no cell; and at that call the
smaller one fails. -/
namespace StackMachine

variable {extra : Nat} {behind : Array Int32}

def Fault.Scarce : Fault → Prop
  | .stackOverflow _ => True
  | .endOfBytecode _ => True
  | .invalidOperand (.jumpTarget _ _) => True
  | _ => False

namespace Stack

def withRoom (s : Stack) (extra : Nat) : Stack := { s with capacity := s.capacity + extra }

/-- More room is seen by a push onto a full stack only. -/
theorem push_withRoom (s : Stack) (v : Option Value) (extra : Nat) :
    s.push v = (.error (.stackOverflow s.capacity), s) ∨
      (s.withRoom extra).push v = ((s.push v).1, (s.push v).2.withRoom extra) := by
  cases v with
  | none => exact .inr rfl
  | some w =>
    by_cases full : s.capacity ≤ s.size
    · exact .inl (push_of_full full w)
    · have room : s.size < s.capacity := Nat.lt_of_not_le full
      have roomier : (s.withRoom extra).size < (s.withRoom extra).capacity :=
        Nat.lt_add_right extra room
      refine .inr ?_
      cases hr : s.budget.refuses w.footprint with
      | true =>
        rw [push_of_refuses room hr, push_of_refuses roomier hr]
        rfl
      | false =>
        rw [push_of_grants room hr, push_of_grants roomier hr]
        rfl

theorem pop_withRoom (s : Stack) (extra : Nat) :
    (s.withRoom extra).pop = (s.pop.1, s.pop.2.withRoom extra) := by
  unfold pop withRoom
  cases s.slots.back? <;> rfl

end Stack

namespace Engine

def withRoom (e : Engine) (extra : Nat) (behind : Array Int32) (log : Array Event) : Engine :=
  { e with code := e.code ++ behind, stack := e.stack.withRoom extra, log }

/-- `b` is `a` with `extra` more slots and the cells `behind` its code; what they noted
down may differ. -/
structure Roomier (extra : Nat) (behind : Array Int32) (a b : Engine) : Prop where
  eq_withRoom : ∃ log, b = a.withRoom extra behind log
  registry_eq : a.registry = some Builtin.registry

theorem Roomier.of_eq {a b t : Engine} {log : Array Event} (h : Roomier extra behind a b)
    (registry : t.registry = a.registry) :
    Roomier extra behind t (t.withRoom extra behind log) where
  eq_withRoom := ⟨log, rfl⟩
  registry_eq := registry.trans h.registry_eq

variable {a b : Engine}

theorem push_roomier (v : Option Value) (h : Roomier extra behind a b) :
    Lockstep (ε := Abort) (Roomier extra behind) (Fails Fault.Scarce) (fun _ => True)
      (.ok (a.push v)) (.ok (b.push v)) := by
  obtain ⟨log, rfl⟩ := h.eq_withRoom
  unfold Engine.push withRoom
  rcases a.stack.push_withRoom v extra with full | same
  · simp only [full]
    exact .refuse ⟨_, rfl, trivial⟩ fun _ _ _ => trivial
  · simp only [same]
    exact .agree (h.of_eq rfl)

theorem pop_roomier (h : Roomier extra behind a b) :
    Lockstep (ε := Abort) (Roomier extra behind) (Fails Fault.Scarce) (fun _ => True)
      (.ok a.pop) (.ok b.pop) := by
  obtain ⟨log, rfl⟩ := h.eq_withRoom
  unfold Engine.pop withRoom
  simp only [Stack.pop_withRoom]
  exact .agree (h.of_eq rfl)

theorem fetch_roomier (h : Roomier extra behind a b) :
    Lockstep (ε := Abort) (Roomier extra behind) (Fails Fault.Scarce) (fun _ => True)
      (.ok a.fetch) (.ok b.fetch) := by
  obtain ⟨log, rfl⟩ := h.eq_withRoom
  by_cases inside : a.ip < a.code.size
  · have cell : (a.code ++ behind)[a.ip]? = some a.code[a.ip] := by
      rw [Array.getElem?_append_left inside, Array.getElem?_eq_getElem inside]
    rw [fetch_of_lt inside]
    unfold fetch withRoom
    simp only [cell]
    exact .agree (h.of_eq rfl)
  · rw [fetch_of_le (Nat.le_of_not_lt inside)]
    exact .refuse ⟨_, rfl, trivial⟩ fun _ _ _ => trivial

theorem jump_roomier (target : Int) (h : Roomier extra behind a b) :
    Lockstep (ε := Abort) (Roomier extra behind) (Fails Fault.Scarce) (fun _ => True)
      (.ok (a.jump target)) (.ok (b.jump target)) := by
  obtain ⟨log, rfl⟩ := h.eq_withRoom
  unfold jump withRoom
  by_cases inside : 0 ≤ target ∧ target ≤ a.code.size
  · have within : 0 ≤ target ∧ target ≤ (a.code ++ behind).size := by
      rw [Array.size_append]
      omega
    simp only [if_pos inside, if_pos within]
    exact .agree (h.of_eq rfl)
  · simp only [if_neg inside]
    exact .refuse ⟨_, rfl, trivial⟩ fun _ _ _ => trivial

theorem answer_roomier (c : Call) (h : Roomier extra behind a b) :
    Lockstep (Roomier extra behind) (Fails Fault.Scarce) (fun _ => True)
      (.ok (Machine.answer c a) : Except Abort (Except Fault c.Reply × Engine))
      (.ok (Machine.answer c b)) := by
  cases c with
  | push v => exact push_roomier v h
  | pop => exact pop_roomier h
  | peek depth =>
    obtain ⟨log, rfl⟩ := h.eq_withRoom
    exact .agree h
  | len =>
    obtain ⟨log, rfl⟩ := h.eq_withRoom
    exact .agree h
  | fetch => exact fetch_roomier h
  | jump target => exact jump_roomier target h
  | halt =>
    obtain ⟨log, rfl⟩ := h.eq_withRoom
    exact .agree (h.of_eq (t := a.halt) rfl)

theorem roomier_restricts (extra : Nat) (behind : Array Int32) :
    Restricts Builtin.registry (Roomier extra behind) Fault.Scarce (fun _ => True) where
  strict _ _ _ h := (Builtin.resolve_shape h).strict
  registry h := by
    obtain ⟨log, rfl⟩ := h.eq_withRoom
    exact ⟨h.registry_eq, h.registry_eq⟩
  nesting_eq h := by
    obtain ⟨log, rfl⟩ := h.eq_withRoom
    rfl
  status_eq h := by
    obtain ⟨log, rfl⟩ := h.eq_withRoom
    rfl
  ip_eq h := by
    obtain ⟨log, rfl⟩ := h.eq_withRoom
    rfl
  size_eq h := by
    obtain ⟨log, rfl⟩ := h.eq_withRoom
    rfl
  answer := answer_roomier
  announce := by
    intro a b h
    obtain ⟨log, rfl⟩ := h.eq_withRoom
    obtain ⟨logA, hA⟩ := a.announce_eq
    obtain ⟨logB, hB⟩ := (a.withRoom extra behind log).announce_eq
    rw [hA, hB]
    exact h.of_eq (t := { a with log := logA }) rfl
  enter := by
    intro a b ip nr h
    obtain ⟨log, rfl⟩ := h.eq_withRoom
    obtain ⟨logA, hA⟩ := a.enter_eq ip nr
    obtain ⟨logB, hB⟩ := (a.withRoom extra behind log).enter_eq ip nr
    rw [hA, hB]
    exact h.of_eq (t := { a with current := some nr, halting := false, log := logA }) rfl
  starve h := by
    obtain ⟨log, rfl⟩ := h.eq_withRoom
    exact h.of_eq rfl
  fail _ _ _ h := by
    obtain ⟨log, rfl⟩ := h.eq_withRoom
    exact h.of_eq rfl
  complete := by
    intro a b nr h
    obtain ⟨log, rfl⟩ := h.eq_withRoom
    unfold complete withRoom
    simp only
    split
    · exact ⟨rfl, h.of_eq rfl⟩
    · exact ⟨rfl, h.of_eq rfl⟩
  past _ _ _ _ := trivial

theorem create_roomier {s : Setup} (builtin : s.registry = some Builtin.registry) {capacity : Int}
    (more : s.capacity ≤ capacity) (behind : Array Int32) :
    Roomier (capacity.toNat - s.capacity.toNat) behind (create s)
      (create { s with capacity, code := s.code ++ behind }) where
  eq_withRoom := by
    have hcapacity : capacity.toNat = s.capacity.toNat + (capacity.toNat - s.capacity.toNat) := by
      omega
    refine ⟨(create s).log, ?_⟩
    simp only [create, withRoom, Stack.withRoom, Stack.empty, ← hcapacity]
  registry_eq := builtin

/-- If a run of the builtin opcodes halts, then with a capacity that is no smaller and
with any cells behind its code it halts after the same steps, with the same stack and
the same account. A full `run` is one of `horizon` checks. -/
theorem room_keeps_halting_runs (s : Setup) (builtin : s.registry = some Builtin.registry)
    (checks : Nat) {reply : RunReply} {e : Engine}
    (h : (create s).runWithin checks = .ok (reply, e)) (halted : e.status = .halted)
    (capacity : Int) (more : s.capacity ≤ capacity) (behind : Array Int32) :
    ∃ t, (create { s with capacity, code := s.code ++ behind }).runWithin checks = .ok (reply, t) ∧
      (∀ u, create? { s with capacity, code := s.code ++ behind } = some u →
        u.runWithin checks = .ok (reply, t)) ∧
      t.status = .halted ∧ t.stack.values = e.stack.values ∧ t.ip = e.ip ∧ t.steps = e.steps ∧
      t.stack.budget.used = e.stack.budget.used ∧ t.stack.budget.peak = e.stack.budget.peak := by
  have start := create_roomier builtin more behind
  have lockstep := (roomier_restricts _ behind).runWithin_lockstep checks start
  rw [h] at lockstep
  generalize made : (create { s with capacity, code := s.code ++ behind }).runWithin checks = outcome
    at lockstep
  cases lockstep with
  | @agree _ _ t roomier =>
    obtain ⟨log, rfl⟩ := roomier.eq_withRoom
    refine ⟨_, rfl, fun u hu => ?_, halted, rfl, rfl, rfl, rfl, rfl⟩
    rw [eq_create hu, made]
  | refuse refused _ =>
    -- A run that was refused something has stopped at a fault, and this one has halted.
    obtain ⟨f, _, _, ip, faulted⟩ := refused
    cases halted.symm.trans faulted

def countdown : Setup where
  code := #[Builtin.Nr.pushInt, 3, Builtin.Nr.pushInt, 1, Builtin.Nr.sub, 12,
    Builtin.Nr.jumpIfTrue, 2, Builtin.Nr.halt]
  capacity := 2
  limit := 16

theorem countdown_keeps_halting :
    ∃ reply e, (create countdown).runWithin 20 = .ok (reply, e) ∧ e.status = .halted ∧
      ∃ t, (create { countdown with capacity := 9, code := countdown.code ++ #[99, 0] }).runWithin 20 =
          .ok (reply, t) ∧
        t.status = .halted ∧ t.stack.values = e.stack.values ∧ t.steps = e.steps := by
  have hrun : ((create countdown).runWithin 20).toOption.map (fun p => p.2.status) =
      some .halted := by decide +kernel
  cases h : (create countdown).runWithin 20 with
  | error a => simp [h, Except.toOption] at hrun
  | ok p =>
    obtain ⟨reply, e⟩ := p
    have halted : e.status = .halted := by simpa [h, Except.toOption] using hrun
    obtain ⟨t, ht, _, hhalted, hvalues, _, hsteps, _⟩ :=
      room_keeps_halting_runs countdown rfl 20 h halted 9 (by decide) #[99, 0]
    exact ⟨reply, e, rfl, halted, t, ht, hhalted, hvalues, hsteps⟩

end Engine
end StackMachine
