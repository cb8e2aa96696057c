import Mathlib.Algebra.GroupWithZero.Nat
import StackMachine.Proofs.WellFormed
/-! The budget of an engine counts exactly what lies on its stack, as long as that is
not more than a word can count. Every charge is paired with a release of the same value,
through all successes and failures, so the account is never cut off at zero and its peak
is the largest balance of the whole history. -/
namespace StackMachine

namespace Stack

/-- Bytes of all values on the stack. -/
def footprint (s : Stack) : Nat := (s.values.map Value.footprint).sum

structure Balanced (s : Stack) : Prop where
  used_eq : s.budget.used.toInt = s.footprint
  bounded : s.budget.Bounded

theorem footprint_holding (s : Stack) (v : Value) :
    (s.holding v).footprint = s.footprint + v.footprint := by
  simp [footprint]

theorem footprint_dropping {s : Stack} {v : Value}
    (top : s.values = (s.dropping v).values ++ [v]) :
    (s.dropping v).footprint + v.footprint = s.footprint := by
  unfold footprint
  rw [top]
  simp

theorem balanced_empty (capacity : Int) (limit : Int64) : Balanced (.empty capacity { limit }) where
  used_eq := rfl
  bounded := Budget.bounded_fresh limit

theorem Balanced.used_holding {s : Stack} {v : Value} (h : Balanced s)
    (inRange : (s.holding v).footprint < 2 ^ 63) :
    (s.holding v).budget.used.toInt = s.budget.used.toInt + v.footprint := by
  have hused := h.used_eq
  rw [footprint_holding] at inRange
  exact Budget.used_charge (by omega)

theorem Balanced.holding {s : Stack} {v : Value} (h : Balanced s)
    (granted : s.budget.refuses v.footprint = false) (inRange : (s.holding v).footprint < 2 ^ 63) :
    Balanced (s.holding v) where
  used_eq := by
    rw [h.used_holding inRange, footprint_holding, h.used_eq]
    rfl
  bounded := h.bounded.charge granted

theorem Balanced.covers {s : Stack} {v : Value} (h : Balanced s)
    (top : s.values = (s.dropping v).values ++ [v]) : v.footprint ≤ s.budget.used.toInt := by
  have hfoot := footprint_dropping top
  have hused := h.used_eq
  omega

theorem Balanced.used_dropping {s : Stack} {v : Value} (h : Balanced s)
    (top : s.values = (s.dropping v).values ++ [v]) :
    (s.dropping v).budget.used.toInt = s.budget.used.toInt - v.footprint :=
  Budget.used_release_of_le (h.covers top)

theorem Balanced.dropping {s : Stack} {v : Value} (h : Balanced s)
    (top : s.values = (s.dropping v).values ++ [v]) : Balanced (s.dropping v) where
  used_eq := by
    have hfoot := footprint_dropping top
    have hused := h.used_eq
    rw [h.used_dropping top]
    omega
  bounded := by
    have covers := h.covers top
    have := s.budget.used.toInt_lt
    exact h.bounded.release (by omega) (by omega)

/-- A limit, if there is one, is held against the right balance. -/
def Reliable (s : Stack) : Prop := 0 < s.budget.limit → s.Balanced

theorem Reliable.dropping {s : Stack} {v : Value} (h : Reliable s)
    (top : s.values = (s.dropping v).values ++ [v]) : Reliable (s.dropping v) :=
  fun limited => (h limited).dropping top

theorem Balanced.footprint_le {s : Stack} {v : Value} (h : Balanced s) (hv : s.pop.1 = .ok v) :
    v.footprint ≤ s.budget.used.toInt := by
  rcases s.pop_cases with ⟨_, hpop⟩ | ⟨w, top, hpop⟩
  · rw [hpop] at hv
    cases hv
  · rw [hpop] at hv
    cases hv
    exact h.covers top

end Stack

namespace Engine

theorem Move.stack_cases {e t : Engine} (m : Move e t) :
    t.stack = e.stack ∨
    (∃ v, e.stack.budget.refuses v.footprint = false ∧ t.stack = e.stack.holding v) ∨
    ∃ v, e.stack.values = (e.stack.dropping v).values ++ [v] ∧ t.stack = e.stack.dropping v := by
  cases m with
  | push v _ granted => exact .inr (.inl ⟨v, granted, rfl⟩)
  | pop v top => exact .inr (.inr ⟨v, top, rfl⟩)
  | announce =>
    obtain ⟨log, hlog⟩ := e.announce_eq
    exact .inl (by rw [hlog])
  | enter ip nr _ =>
    obtain ⟨log, hlog⟩ := e.enter_eq ip nr
    exact .inl (by rw [hlog])
  | complete nr _ =>
    rcases e.complete_eq nr with hc | ⟨log, hc⟩
    · exact .inl (by rw [hc])
    · exact .inl (by rw [hc])
  | stay => exact .inl rfl
  | goto => exact .inl rfl
  | halt => exact .inl rfl
  | starve => exact .inl rfl
  | fail => exact .inl rfl

theorem balanced_move {e t : Engine} (m : Move e t) (h : e.stack.Balanced)
    (inRange : t.stack.footprint < 2 ^ 63) : t.stack.Balanced := by
  rcases m.stack_cases with hs | ⟨v, granted, hs⟩ | ⟨v, top, hs⟩
  · rw [hs]
    exact h
  · rw [hs] at inRange ⊢
    exact h.holding granted inRange
  · rw [hs]
    exact h.dropping top

theorem balanced_path {e t : Engine} {l : List Engine} (path : Path Move e l t)
    (h : e.stack.Balanced) (inRange : ∀ m ∈ l, m.stack.footprint < 2 ^ 63) :
    ∀ m ∈ e :: l, m.stack.Balanced :=
  (path.along inRange).invariant (fun _ _ m h => balanced_move m.1 h m.2) h

theorem peak_move {e t : Engine} (m : Move e t) (h : e.stack.Balanced) :
    t.stack.budget.peak = max e.stack.budget.peak t.stack.budget.used := by
  have hle := Int64.le_iff_toInt_le.mp h.bounded.used_le
  rcases m.stack_cases with hs | ⟨v, _, hs⟩ | ⟨v, top, hs⟩
  · rw [hs, ← Int64.toInt_inj, Budget.toInt_max]
    omega
  · rw [hs, Stack.peak_holding, Stack.used_holding]
  · have hused := h.used_dropping top
    rw [hs, Stack.peak_dropping, ← Int64.toInt_inj, Budget.toInt_max]
    omega

theorem peak_path {e t : Engine} {l : List Engine} (path : Path Move e l t)
    (h : e.stack.Balanced) (inRange : ∀ m ∈ l, m.stack.footprint < 2 ^ 63) :
    t.stack.budget.peak = (l.map (·.stack.budget.used)).foldl max e.stack.budget.peak := by
  induction path with
  | nil => rfl
  | cons m _ ih =>
    obtain ⟨first, rest⟩ := List.forall_mem_cons.mp inRange
    rw [List.map_cons, List.foldl_cons, ← peak_move m h]
    exact ih (balanced_move m h first) rest

theorem create_balanced (s : Setup) : (create s).stack.Balanced :=
  Stack.balanced_empty s.capacity s.limit

/-- Left by a history at no moment of which the values on the stack took more bytes than
a word counts. -/
def ReachableInRange (s : Setup) (e : Engine) : Prop :=
  ∃ cs replies, (create s).calls cs = .ok (replies, e) ∧
    ∀ m ∈ (create s).history cs, m.stack.footprint < 2 ^ 63

theorem ReachableInRange.balanced {s : Setup} {e : Engine} (h : ReachableInRange s e) :
    e.stack.Balanced := by
  obtain ⟨cs, replies, hcs, inRange⟩ := h
  have leads := calls_leads cs (create s)
  rw [hcs] at leads
  exact balanced_path leads.path (create_balanced s) inRange e leads.path.last_mem

theorem ReachableInRange.pop {s : Setup} {e t : Engine} {reply : Except Fault Value}
    (h : ReachableInRange s e) (hpop : e.pop = (reply, t)) : ReachableInRange s t := by
  have held := h.balanced
  obtain ⟨cs, replies, hcs, inRange⟩ := h
  have hcall : e.call .pop = .ok (.value reply, t) := by rw [call, hpop]
  refine ⟨cs ++ [.pop], replies ++ [.value reply], calls_append hcs hcall, ?_⟩
  have trail : e.callTrail .pop = [t] := by
    change endOf (e.call .pop) = _
    rw [hcall]
    rfl
  have shrinks : t.stack.footprint ≤ e.stack.footprint := by
    unfold Engine.pop at hpop
    rcases e.stack.pop_cases with ⟨_, hstack⟩ | ⟨v, top, hstack⟩
    · rw [hstack] at hpop
      cases hpop
      exact Nat.le_refl _
    · rw [hstack] at hpop
      cases hpop
      exact Nat.le.intro (Stack.footprint_dropping top)
  have counted : e.stack.footprint < 2 ^ 63 := by
    have := e.stack.budget.used.toInt_lt
    have := held.used_eq
    omega
  rw [history_append hcs, trail]
  refine List.forall_mem_append.mpr ⟨inRange, ?_⟩
  intro m hm
  cases List.mem_singleton.mp hm
  omega

theorem Reachable.reliable {s : Setup} {e : Engine} (h : Reachable s e)
    (inRange : 0 < s.limit → ReachableInRange s e) : e.stack.Reliable := by
  intro limited
  rw [(reachable_wellFormed h).limit_eq] at limited
  exact (inRange limited).balanced

/-- After any history the bytes in use are those of the values on the stack, and
their peak is the largest balance of all moments, which lead one by one from the
fresh engine to the last. At no moment does a pop release more than is in use. -/
theorem calls_account_exactly (s : Setup) (cs : List HostCall) {replies : List HostReply}
    {e : Engine} (h : (create s).calls cs = .ok (replies, e))
    (inRange : ∀ m ∈ (create s).history cs, m.stack.footprint < 2 ^ 63) :
    Path Move (create s) ((create s).history cs) e ∧
    e.stack.budget.used.toInt = (e.stack.values.map Value.footprint).sum ∧
    ((create s :: (create s).history cs).map (·.stack.budget.used)).max? =
      some e.stack.budget.peak ∧
    e.stack.budget.used ≤ e.stack.budget.peak ∧
    (0 < s.limit → e.stack.budget.peak ≤ s.limit) ∧
    ∀ m ∈ create s :: (create s).history cs, ∀ v, m.stack.pop.1 = .ok v →
      v.footprint ≤ m.stack.budget.used.toInt := by
  have leads := calls_leads cs (create s)
  rw [h] at leads
  have path := leads.path
  have balanced := balanced_path path (create_balanced s) inRange
  have last := balanced e path.last_mem
  have hlimit := (reachable_wellFormed ⟨cs, replies, h⟩).limit_eq
  refine ⟨path, last.used_eq, ?_, last.bounded.used_le, ?_, ?_⟩
  · rw [List.map_cons, List.max?_cons', peak_path path (create_balanced s) inRange]
    rfl
  · intro hpos
    rw [← hlimit] at hpos ⊢
    exact last.bounded.peak_le hpos
  · intro m hm v hv
    exact (balanced m hm).footprint_le hv

theorem nestedFailure_accounts_exactly :
    ∃ replies e,
      (create { nestedFailure with limit := 12 }).calls afterNestedFailure = .ok (replies, e) ∧
      e.stack.budget.used.toInt = (e.stack.values.map Value.footprint).sum ∧
      e.stack.budget.peak ≤ 12 := by
  have hok : ((create { nestedFailure with limit := 12 }).calls afterNestedFailure).isOk = true := by
    decide +kernel
  have inRange : ∀ m ∈ (create { nestedFailure with limit := 12 }).history afterNestedFailure,
      m.stack.footprint < 2 ^ 63 := by decide +kernel
  cases h : (create { nestedFailure with limit := 12 }).calls afterNestedFailure with
  | error a =>
    rw [h] at hok
    cases hok
  | ok p =>
    obtain ⟨_, hused, _, _, hpeak, _⟩ := calls_account_exactly _ _ h inRange
    exact ⟨p.1, p.2, rfl, hused, hpeak (by decide)⟩

end Engine
end StackMachine
