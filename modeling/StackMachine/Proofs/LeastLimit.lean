import Mathlib.Control.Monad.Basic
import StackMachine.Proofs.Accounting
import StackMachine.Proofs.Builtin.Shape
import StackMachine.Proofs.Lockstep
/-! The peak of a run without memory limit is the least limit that suffices for
it. A run under another limit goes the same way until it is refused a push, and
at that push the unlimited run rises above the limit. -/
namespace StackMachine

variable {limit : Int64}

def Fault.OutOfMemory (f : Fault) : Prop := f.kind = .outOfMemory

namespace Stack

def withLimit (s : Stack) (limit : Int64) : Stack :=
  { s with budget := { s.budget with limit } }

theorem refuses_withLimit_iff (positive : 0 < limit) (s : Stack) (size : Nat) :
    (s.withLimit limit).budget.refuses size = true ↔ limit < s.budget.used + .ofNat size := by
  rw [Budget.refuses_iff]
  exact and_iff_right positive

/-- With a limit a push fails where it fails without one, or where the new balance
is above the limit. -/
theorem push_withLimit (positive : 0 < limit) {s : Stack} (unlimited : s.budget.limit ≤ 0)
    (v : Option Value) :
    (∃ f, s.push v = (.error f, s) ∧
      (s.withLimit limit).push v = (.error f, s.withLimit limit)) ∨
    ∃ w, s.push v = (.ok (), s.holding w) ∧
      ((s.budget.used + .ofNat w.footprint ≤ limit ∧
        (s.withLimit limit).push v = (.ok (), (s.holding w).withLimit limit)) ∨
      (limit < s.budget.used + .ofNat w.footprint ∧
        ∃ f : Fault, f.OutOfMemory ∧
          (s.withLimit limit).push v = (.error f, s.withLimit limit))) := by
  cases v with
  | none => exact .inl ⟨.absentValue, rfl, rfl⟩
  | some w =>
    by_cases full : s.capacity ≤ s.size
    · exact .inl ⟨_, push_of_full full w, push_of_full (s := s.withLimit limit) full w⟩
    · have room : s.size < s.capacity := Nat.lt_of_not_le full
      have hrefuses := refuses_withLimit_iff positive s w.footprint
      refine .inr ⟨w, push_of_grants room (Budget.grants_of_unlimited unlimited _), ?_⟩
      cases hr : (s.withLimit limit).budget.refuses w.footprint with
      | true =>
        exact .inr ⟨hrefuses.mp hr, .outOfMemory _ _ _, rfl,
          push_of_refuses (s := s.withLimit limit) room hr⟩
      | false =>
        have hle : s.budget.used + .ofNat w.footprint ≤ limit := by
          rw [hr] at hrefuses
          simpa only [Bool.false_eq_true, false_iff, Int64.not_lt] using hrefuses
        exact .inl ⟨hle, push_of_grants (s := s.withLimit limit) room hr⟩

theorem pop_withLimit (s : Stack) (limit : Int64) :
    (s.withLimit limit).pop = (s.pop.1, s.pop.2.withLimit limit) := by
  unfold pop withLimit
  cases s.slots.back? <;> rfl

end Stack

namespace Engine

def withLimit (e : Engine) (limit : Int64) : Engine := { e with stack := e.stack.withLimit limit }

/-- `a` is `b` under a limit that `b`, having none, has kept so far. -/
structure Limited (limit : Int64) (a b : Engine) : Prop where
  eq_withLimit : a = b.withLimit limit
  registry_eq : b.registry = some Builtin.registry
  unlimited : b.stack.budget.limit ≤ 0
  peak_le : b.stack.budget.peak ≤ limit

def Above (limit : Int64) (e : Engine) : Prop := limit < e.stack.budget.peak

theorem above_move (a b : Engine) (m : Move a b) (h : Above limit a) : Above limit b := by
  unfold Above at *
  rcases m.stack_cases with hs | ⟨v, _, hs⟩ | ⟨v, _, hs⟩
  · rw [hs]
    exact h
  · rw [hs, Stack.peak_holding]
    exact Budget.lt_word_max.mpr (.inl h)
  · rw [hs, Stack.peak_dropping]
    exact h

theorem push_limited (positive : 0 < limit) {a b : Engine} (v : Option Value)
    (h : Limited limit a b) :
    Lockstep (ε := Abort) (Limited limit) (Fails Fault.OutOfMemory) (Above limit)
      (.ok (a.push v)) (.ok (b.push v)) := by
  obtain ⟨rfl, hreg, unlimited, hpeak⟩ := h
  have hpush := Stack.push_withLimit positive unlimited v
  unfold Engine.push withLimit
  rcases hpush with ⟨f, hb, ha⟩ | ⟨w, hb, ⟨hle, ha⟩ | ⟨hlt, f, hf, ha⟩⟩
  · simp only [ha, hb]
    exact .agree ⟨rfl, hreg, unlimited, hpeak⟩
  · simp only [ha, hb]
    refine .agree ⟨rfl, hreg, unlimited, ?_⟩
    exact Budget.word_max_le.mpr ⟨hpeak, hle⟩
  · simp only [ha, hb]
    refine .refuse ⟨f, rfl, hf⟩ ?_
    intro _ t ht
    cases ht
    exact Budget.lt_word_max.mpr (.inr hlt)

theorem Limited.of_eq {a b a' b' : Engine} (h : Limited limit a b)
    (heq : a' = b'.withLimit limit) (registry : b'.registry = b.registry)
    (limit_eq : b'.stack.budget.limit = b.stack.budget.limit)
    (peak_eq : b'.stack.budget.peak = b.stack.budget.peak) : Limited limit a' b' where
  eq_withLimit := heq
  registry_eq := registry.trans h.registry_eq
  unlimited := limit_eq ▸ h.unlimited
  peak_le := peak_eq ▸ h.peak_le

theorem pop_limited {a b : Engine} (h : Limited limit a b) :
    a.pop.1 = b.pop.1 ∧ Limited limit a.pop.2 b.pop.2 := by
  have hpop := b.stack.pop_withLimit limit
  cases h.eq_withLimit
  unfold Engine.pop withLimit
  simp only [hpop]
  refine ⟨trivial, ?_⟩
  rcases b.stack.pop_cases with ⟨_, hb⟩ | ⟨v, _, hb⟩
  · simp only [hb]
    exact h
  · simp only [hb]
    exact h.of_eq rfl rfl rfl rfl

theorem answer_limited (positive : 0 < limit) {a b : Engine} (c : Call) (h : Limited limit a b) :
    Lockstep (Limited limit) (Fails Fault.OutOfMemory) (Above limit)
      (.ok (Machine.answer c a) : Except Abort (Except Fault c.Reply × Engine))
      (.ok (Machine.answer c b)) := by
  cases c with
  | push v => exact push_limited positive v h
  | pop => exact .of_eq (pop_limited h).1 (pop_limited h).2
  | peek depth =>
    cases h.eq_withLimit
    exact .agree h
  | len =>
    cases h.eq_withLimit
    exact .agree h
  | fetch =>
    cases h.eq_withLimit
    change Lockstep _ _ _ (.ok (b.withLimit limit).fetch) (.ok b.fetch)
    unfold fetch withLimit
    cases b.code[b.ip]? with
    | none => exact .agree h
    | some cell => exact .agree (h.of_eq rfl rfl rfl rfl)
  | jump target =>
    cases h.eq_withLimit
    change Lockstep _ _ _ (.ok ((b.withLimit limit).jump target)) (.ok (b.jump target))
    unfold jump withLimit
    simp only
    split
    · exact .agree (h.of_eq rfl rfl rfl rfl)
    · exact .agree h
  | halt =>
    cases h.eq_withLimit
    exact .agree (h.of_eq rfl rfl rfl rfl)

theorem limited_restricts (positive : 0 < limit) :
    Restricts Builtin.registry (Limited limit) Fault.OutOfMemory (Above limit) where
  strict _ _ _ h := (Builtin.resolve_shape h).strict
  registry h := ⟨h.eq_withLimit ▸ h.registry_eq, h.registry_eq⟩
  nesting_eq h := by
    rw [h.eq_withLimit]
    rfl
  status_eq h := by
    rw [h.eq_withLimit]
    rfl
  ip_eq h := by
    rw [h.eq_withLimit]
    rfl
  size_eq h := by
    rw [h.eq_withLimit]
    rfl
  answer := answer_limited positive
  announce := by
    intro a b h
    cases h.eq_withLimit
    unfold announce withLimit
    simp only
    split
    · exact h.of_eq rfl rfl rfl rfl
    · exact h
  enter := by
    intro a b ip nr h
    cases h.eq_withLimit
    unfold enter withLimit
    simp only
    split
    · exact h.of_eq rfl rfl rfl rfl
    · exact h.of_eq rfl rfl rfl rfl
  starve h := by
    cases h.eq_withLimit
    exact h.of_eq rfl rfl rfl rfl
  fail _ _ _ h := by
    cases h.eq_withLimit
    exact h.of_eq rfl rfl rfl rfl
  complete := by
    intro a b nr h
    cases h.eq_withLimit
    unfold complete withLimit
    simp only
    split
    · exact ⟨rfl, h.of_eq rfl rfl rfl rfl⟩
    · exact ⟨rfl, h.of_eq rfl rfl rfl rfl⟩
  past := above_move

theorem create_limited {s : Setup} (builtin : s.registry = some Builtin.registry)
    (unlimited : s.limit ≤ 0) (positive : 0 < limit) :
    Limited limit (create { s with limit }) (create s) where
  eq_withLimit := rfl
  registry_eq := builtin
  unlimited := unlimited
  peak_le := Int64.le_of_lt positive

/-- If a run of the builtin opcodes halts without a memory limit, then it goes the
same way under every limit from its peak on, and under every smaller one it ends out
of memory. A full `run` is one of `horizon` checks. -/
theorem peak_is_least_limit (s : Setup) (builtin : s.registry = some Builtin.registry)
    (unlimited : s.limit ≤ 0) (checks : Nat) {reply : RunReply} {e : Engine}
    (h : (create s).runWithin checks = .ok (reply, e)) (halted : e.status = .halted)
    (limit : Int64) (positive : 0 < limit) :
    (e.stack.budget.peak ≤ limit → ∃ t, (create { s with limit }).runWithin checks = .ok (reply, t) ∧
      t.status = .halted ∧ t.stack.values = e.stack.values ∧ t.ip = e.ip ∧ t.steps = e.steps ∧
      t.stack.budget.used = e.stack.budget.used ∧ t.stack.budget.peak = e.stack.budget.peak) ∧
    (limit < e.stack.budget.peak → ∃ f ip t,
      (create { s with limit }).runWithin checks = .ok (.failed f, t) ∧
      t.status = .faulted f ip ∧ f.kind = .outOfMemory) := by
  have start := create_limited builtin unlimited positive
  have lockstep := (limited_restricts positive).runWithin_lockstep checks start
  rw [h] at lockstep
  generalize (create { s with limit }).runWithin checks = outcome at lockstep
  -- Agreement up to the end keeps the peak within the limit, a refusal lifts it above.
  cases lockstep with
  | @agree _ t _ hlimited =>
    cases hlimited.eq_withLimit
    have hpeak := hlimited.peak_le
    refine ⟨fun _ => ⟨_, rfl, halted, rfl, rfl, rfl, rfl, rfl⟩, ?_⟩
    intro above
    exact absurd hpeak (Int64.not_le.mpr above)
  | refuse refused past =>
    obtain ⟨f, rfl, hf, ip, hstatus⟩ := refused
    have above : limit < e.stack.budget.peak := past reply e rfl
    refine ⟨?_, fun _ => ⟨f, ip, _, rfl, hstatus, hf⟩⟩
    intro hle
    exact absurd hle (Int64.not_le.mpr above)

def textAndSum : Setup where
  code := #[Builtin.Nr.pushString, 2, 104, 105, Builtin.Nr.pushInt, 21, 12,
    Builtin.Nr.pushOpcode, 2, Builtin.Nr.invoke, Builtin.Nr.halt]
  capacity := 4

theorem textAndSum_least_limit :
    ∃ reply e, (create textAndSum).runWithin 10 = .ok (reply, e) ∧ e.stack.budget.peak = 38 ∧
      (∃ t, (create { textAndSum with limit := 38 }).runWithin 10 = .ok (reply, t) ∧
        t.status = .halted ∧ t.stack.values = e.stack.values) ∧
      ∃ f ip t, (create { textAndSum with limit := 37 }).runWithin 10 = .ok (.failed f, t) ∧
        t.status = .faulted f ip ∧ f.kind = .outOfMemory := by
  have hrun : ((create textAndSum).runWithin 10).map
      (fun p => (p.2.status, p.2.stack.budget.peak)) = .ok (.halted, 38) := by decide +kernel
  obtain ⟨⟨reply, e⟩, h, hend⟩ := exists_of_map_ok hrun
  have halted : e.status = .halted := congrArg Prod.fst hend
  have hpeak : e.stack.budget.peak = 38 := congrArg Prod.snd hend
  have at_limit := peak_is_least_limit textAndSum rfl (Int64.le_refl 0) 10 h halted
  obtain ⟨t, ht, hhalted, hvalues, _⟩ := (at_limit 38 (by decide)).1 (by rw [hpeak]; decide)
  exact ⟨reply, e, h, hpeak, ⟨t, ht, hhalted, hvalues⟩, (at_limit 37 (by decide)).2 (by rw [hpeak]; decide)⟩

end Engine
end StackMachine
