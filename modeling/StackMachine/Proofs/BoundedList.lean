import StackMachine.Proofs.Moves
import StackMachine.Stack.Host
/-! The stack as a plain bounded list. A list beside its account is moved on by the calls
that succeed, in whole numbers that may be charged and discharged past the list; whatever
the history, stack and budget hold what the list and the account do, and the list alone
says what the next call is answered. -/
namespace StackMachine

/-- A list, the value pushed last in front, and the bytes accounted. -/
structure BoundedList where
  capacity : Int
  limit : Int
  items : List Value := []
  used : Int := 0
  peak : Int := 0

namespace BoundedList

def charge (b : BoundedList) (v : Value) : BoundedList :=
  { b with used := b.used + v.footprint, peak := max b.peak (b.used + v.footprint) }

def discharge (b : BoundedList) (v : Value) : BoundedList :=
  { b with used := max 0 (b.used - v.footprint) }

def after (b : BoundedList) : StackCall → StackReply → BoundedList
  | .push (some v), .done (.ok _) => { b.charge v with items := v :: b.items }
  | .pop, .value (.ok v) => { b.discharge v with items := b.items.tail }
  | .allocate v, .done (.ok _) => b.charge v
  | .release v, .done (.ok _) => b.discharge v
  | _, _ => b

/-- The list after a history of calls with these replies. -/
def replay (b : BoundedList) : List StackCall → List StackReply → BoundedList
  | c :: cs, reply :: replies => (b.after c reply).replay cs replies
  | _, _ => b

theorem replay_bounds (b : BoundedList) (cs : List StackCall) (replies : List StackReply) :
    (b.replay cs replies).capacity = b.capacity ∧ (b.replay cs replies).limit = b.limit := by
  induction cs generalizing b replies with
  | nil => exact ⟨rfl, rfl⟩
  | cons c rest ih =>
    cases replies with
    | nil => exact ⟨rfl, rfl⟩
    | cons reply replies =>
      have kept : (b.after c reply).capacity = b.capacity ∧ (b.after c reply).limit = b.limit := by
        unfold after
        split <;> exact ⟨rfl, rfl⟩
      rw [replay, (ih _ _).1, (ih _ _).2]
      exact kept

/-- The limit, if there is one, leaves no room for the value. -/
def lacksRoom (b : BoundedList) (v : Value) : Bool := 0 < b.limit && b.limit < b.used + v.footprint

/-- Why a push fails, if it does: the first reason that applies. -/
def refusal? (b : BoundedList) : Option Value → Option FaultKind
  | none => some .typeMismatch
  | some v =>
    if (b.items.length : Int) = max b.capacity 0 then some .stackOverflow
    else if b.lacksRoom v then some .outOfMemory
    else none

end BoundedList

namespace Stack

/-- The stack holds what the list does, and both keep their bounds. -/
structure Refines (s : Stack) (b : BoundedList) : Prop where
  capacity_eq : s.capacity = b.capacity.toNat
  limit_eq : s.budget.limit.toInt = b.limit
  items_eq : s.values.reverse = b.items
  used_eq : s.budget.used.toInt = b.used
  peak_eq : s.budget.peak.toInt = b.peak
  size_le : s.size ≤ s.capacity
  used_nonneg : 0 ≤ s.budget.used.toInt
  fits : ∀ v ∈ s.values, v.footprint < 2 ^ 63
  bounded : s.budget.Bounded

theorem empty_refines (capacity : Int) (limit : Int64) :
    (empty capacity { limit }).Refines { capacity, limit := limit.toInt } where
  capacity_eq := rfl
  limit_eq := rfl
  items_eq := rfl
  used_eq := rfl
  peak_eq := rfl
  size_le := Nat.zero_le _
  used_nonneg := Int.le_refl 0
  fits := by simp [empty, values]
  bounded := Budget.bounded_fresh limit

namespace Refines

variable {s : Stack} {b : BoundedList}

theorem length_items (h : s.Refines b) : b.items.length = s.size := by
  rw [← h.items_eq, List.length_reverse, size_eq_length]

/-- Room is lacking where it is refused, unless the sum asked for is none that a word
can hold. -/
theorem lacksRoom_eq (h : s.Refines b) {v : Value} (inRange : b.used + v.footprint < 2 ^ 63) :
    b.lacksRoom v = s.budget.refuses v.footprint := by
  have sum : (s.budget.used + .ofNat v.footprint).toInt = b.used + v.footprint := by
    rw [← h.used_eq] at inRange ⊢
    exact Budget.toInt_add_ofNat inRange
  rw [Bool.eq_iff_iff, Budget.refuses_iff, Int64.lt_iff_toInt_lt, Int64.lt_iff_toInt_lt, sum,
    h.limit_eq]
  simp [BoundedList.lacksRoom]

theorem charge (h : s.Refines b) {v : Value} (granted : s.budget.refuses v.footprint = false)
    (inRange : (b.charge v).used < 2 ^ 63) :
    ({ s with budget := s.budget.charge v } : Stack).Refines (b.charge v) := by
  change b.used + v.footprint < 2 ^ 63 at inRange
  have nonneg := h.used_nonneg
  have sum : (s.budget.used + .ofNat v.footprint).toInt = b.used + v.footprint := by
    rw [← h.used_eq] at inRange ⊢
    exact Budget.toInt_add_ofNat inRange
  exact {
    capacity_eq := h.capacity_eq
    limit_eq := h.limit_eq
    items_eq := h.items_eq
    used_eq := sum
    peak_eq := by
      change (max s.budget.peak (s.budget.used + .ofNat v.footprint)).toInt = _
      rw [Budget.toInt_max, h.peak_eq, sum]
      rfl
    size_le := h.size_le
    used_nonneg := by
      change 0 ≤ (s.budget.used + .ofNat v.footprint).toInt
      rw [sum, ← h.used_eq]
      omega
    fits := h.fits
    bounded := h.bounded.charge granted }

theorem discharge (h : s.Refines b) {v : Value} (fits : v.footprint < 2 ^ 63) :
    ({ s with budget := s.budget.release v } : Stack).Refines (b.discharge v) := by
  have nonneg := h.used_nonneg
  have released : (s.budget.release v).used.toInt = max 0 (s.budget.used.toInt - v.footprint) :=
    Budget.used_release nonneg fits
  exact {
    capacity_eq := h.capacity_eq
    limit_eq := h.limit_eq
    items_eq := h.items_eq
    used_eq := by
      rw [released, h.used_eq]
      rfl
    peak_eq := h.peak_eq
    size_le := h.size_le
    used_nonneg := by
      rw [released]
      exact Int.le_max_left _ _
    fits := h.fits
    bounded := h.bounded.release nonneg fits }

theorem holding (h : s.Refines b) {v : Value} (room : s.size < s.capacity)
    (granted : s.budget.refuses v.footprint = false) (inRange : (b.charge v).used < 2 ^ 63) :
    (s.holding v).Refines { b.charge v with items := v :: b.items } :=
  { h.charge granted inRange with
    items_eq := by
      rw [values_holding, List.reverse_append, h.items_eq]
      rfl
    size_le := by
      rw [size_holding]
      exact room
    fits := by
      have nonneg := h.used_nonneg
      have := h.used_eq
      change b.used + v.footprint < 2 ^ 63 at inRange
      rw [values_holding]
      refine List.forall_mem_append.mpr ⟨h.fits, List.forall_mem_singleton.mpr ?_⟩
      omega }

theorem dropping (h : s.Refines b) {v : Value} (top : s.values = (s.dropping v).values ++ [v]) :
    (s.dropping v).Refines { b.discharge v with items := b.items.tail } := by
  have fits := h.fits
  rw [top] at fits
  obtain ⟨below, last⟩ := List.forall_mem_append.mp fits
  exact { h.discharge (last v List.mem_cons_self) with
    items_eq := by
      rw [values_dropping, ← h.items_eq, List.tail_reverse]
    size_le := by
      rw [size_dropping]
      exact Nat.le_trans (Nat.sub_le _ _) h.size_le
    fits := below }

theorem call (h : s.Refines b) (c : StackCall) (inRange : (b.after c (s.call c).1).used < 2 ^ 63)
    (fits : ∀ v, c = .release v → v.footprint < 2 ^ 63) :
    (s.call c).2.Refines (b.after c (s.call c).1) := by
  cases c with
  | push v =>
    rcases s.push_cases v with ⟨f, hpush⟩ | ⟨w, rfl, room, granted, hpush⟩
    · simp only [Stack.call, hpush]
      cases v <;> exact h
    · simp only [Stack.call, hpush] at inRange ⊢
      exact h.holding room granted inRange
  | pop =>
    rcases s.pop_cases with ⟨_, hpop⟩ | ⟨v, top, hpop⟩
    · simp only [Stack.call, hpop]
      exact h
    · simp only [Stack.call, hpop]
      exact h.dropping top
  | peek depth => exact h
  | allocate v =>
    cases granted : s.budget.refuses v.footprint with
    | true =>
      simp only [Stack.call, Budget.allocate_of_refuses granted]
      exact h
    | false =>
      simp only [Stack.call, Budget.allocate_of_grants granted] at inRange ⊢
      exact h.charge granted inRange
  | release v => exact h.discharge (fits v rfl)

theorem calls (h : s.Refines b) (cs : List StackCall)
    (inRange : ∀ n ≤ cs.length, (b.replay (cs.take n) (s.calls cs).1).used < 2 ^ 63)
    (fits : ∀ v, .release v ∈ cs → v.footprint < 2 ^ 63) :
    (s.calls cs).2.Refines (b.replay cs (s.calls cs).1) := by
  induction cs generalizing s b with
  | nil => exact h
  | cons c rest ih =>
    have later (n : Nat) (hn : n ≤ rest.length) := inRange (n + 1) (Nat.succ_le_succ hn)
    have first : (b.after c (s.call c).1).used < 2 ^ 63 := later 0 (Nat.zero_le _)
    refine ih (h.call c first ?_) later fun v hv => fits v (List.mem_cons_of_mem c hv)
    rintro v rfl
    exact fits v List.mem_cons_self

end Refines

theorem call_of_fault {s : Stack} {c : StackCall} (h : (s.call c).1.fault? ≠ none) :
    (s.call c).2 = s := by
  cases c with
  | push v =>
    cases hpush : (s.push v).1 with
    | error f => exact push_of_error hpush
    | ok _ => simp [call, hpush, StackReply.fault?] at h
  | pop =>
    cases hpop : s.pop.1 with
    | error f => exact pop_of_error hpop
    | ok v => simp [call, hpop, StackReply.fault?] at h
  | peek depth => rfl
  | allocate v =>
    cases granted : s.budget.refuses v.footprint with
    | true => simp only [call, Budget.allocate_of_refuses granted]
    | false => simp [call, Budget.allocate_of_grants granted, StackReply.fault?] at h
  | release v => exact absurd rfl h

namespace Refines

variable {s : Stack} {b : BoundedList}

theorem push_fault (h : s.Refines b) {v : Option Value}
    (inRange : ∀ w, v = some w → b.used + w.footprint < 2 ^ 63) :
    (s.call (.push v)).1.fault?.map Fault.kind = b.refusal? v := by
  cases v with
  | none => rfl
  | some w =>
    have hlength := h.length_items
    have hcapacity := h.capacity_eq
    have hle := h.size_le
    simp only [BoundedList.refusal?, h.lacksRoom_eq (inRange w rfl)]
    by_cases full : s.capacity ≤ s.size
    · rw [if_pos (by omega)]
      simp only [Stack.call, push_of_full full]
      rfl
    · have room : s.size < s.capacity := Nat.lt_of_not_le full
      rw [if_neg (by omega)]
      cases granted : s.budget.refuses w.footprint with
      | true =>
        simp only [Stack.call, push_of_refuses room granted]
        rfl
      | false =>
        simp only [Stack.call, push_of_grants room granted]
        rfl

theorem pop_eq_ok_iff (h : s.Refines b) (v : Value) :
    (s.call .pop).1 = .value (.ok v) ↔ b.items.head? = some v := by
  rw [← h.items_eq, List.head?_reverse]
  rcases s.pop_cases with ⟨hempty, hpop⟩ | ⟨w, top, hpop⟩
  · simp [Stack.call, hpop, hempty]
  · rw [top]
    simp [Stack.call, hpop]

theorem peek_eq_ok_iff (h : s.Refines b) (depth : Int) (v : Value) :
    (s.call (.peek depth)).1 = .value (.ok v) ↔
      0 ≤ depth ∧ depth < b.items.length ∧ b.items[depth.toNat]? = some v := by
  rw [h.length_items, ← h.items_eq]
  change StackReply.value (s.peek depth) = _ ↔ _
  by_cases inside : 0 ≤ depth ∧ depth < s.size
  · obtain ⟨w, hpeek, hitem⟩ := peek_of_lt inside
    rw [hpeek, hitem]
    simp [inside]
  · rw [peek_of_not_lt inside]
    simp only [StackReply.value.injEq, reduceCtorEq, false_iff]
    exact fun found => inside ⟨found.1, found.2.1⟩

theorem allocate_fault (h : s.Refines b) {v : Value} (inRange : b.used + v.footprint < 2 ^ 63) :
    (s.call (.allocate v)).1.fault?.map Fault.kind =
      if b.lacksRoom v then some .outOfMemory else none := by
  rw [h.lacksRoom_eq inRange]
  cases granted : s.budget.refuses v.footprint with
  | true =>
    simp only [Stack.call, Budget.allocate_of_refuses granted]
    rfl
  | false =>
    simp only [Stack.call, Budget.allocate_of_grants granted]
    rfl

end Refines

/-- Whatever was asked of a fresh stack and of its budget, the stack holds the list to which
the pushes and pops that succeeded were applied, and the budget the account of it and of what
went past it, which never leaves its bounds. From there a call that fails changes nothing; a
push fails for the first reason that the list gives, a pop takes the front of the list, a peek
sees the value at its place, and a charge fails if there is no room. All totals are ones that
a word can hold. -/
theorem stack_refines_bounded_list (capacity : Int) (limit : Int64) (cs : List StackCall)
    (inRange : ∀ n ≤ cs.length, (BoundedList.replay { capacity, limit := limit.toInt } (cs.take n)
      ((empty capacity { limit }).calls cs).1).used < 2 ^ 63)
    (fits : ∀ v, .release v ∈ cs → v.footprint < 2 ^ 63) :
    ∃ replies s b, (empty capacity { limit }).calls cs = (replies, s) ∧
      b = BoundedList.replay { capacity, limit := limit.toInt } cs replies ∧
      b.capacity = capacity ∧ b.limit = limit.toInt ∧
      s.values.reverse = b.items ∧ s.budget.used.toInt = b.used ∧ s.budget.peak.toInt = b.peak ∧
      0 ≤ b.used ∧ b.used ≤ b.peak ∧ (0 < limit → b.peak ≤ limit.toInt) ∧
      (∀ c, (s.call c).1.fault? ≠ none → (s.call c).2 = s) ∧
      (∀ v, (∀ w, v = some w → b.used + w.footprint < 2 ^ 63) →
        (s.call (.push v)).1.fault?.map Fault.kind = b.refusal? v) ∧
      (∀ v, (s.call .pop).1 = .value (.ok v) ↔ b.items.head? = some v) ∧
      (∀ depth v, (s.call (.peek depth)).1 = .value (.ok v) ↔
        0 ≤ depth ∧ depth < b.items.length ∧ b.items[depth.toNat]? = some v) ∧
      (∀ v, b.used + v.footprint < 2 ^ 63 →
        (s.call (.allocate v)).1.fault?.map Fault.kind =
          if b.lacksRoom v then some .outOfMemory else none) ∧
      ∀ e, Engine.create? { capacity, limit } = some e → e.stack.calls cs = (replies, s) := by
  have refines := (empty_refines capacity limit).calls cs inRange fits
  obtain ⟨hcapacity, hlimit⟩ := BoundedList.replay_bounds { capacity, limit := limit.toInt } cs
    ((empty capacity { limit }).calls cs).1
  refine ⟨_, _, _, rfl, rfl, hcapacity, hlimit, refines.items_eq, refines.used_eq, refines.peak_eq,
    ?_, ?_, ?_, fun _ => call_of_fault, fun _ => refines.push_fault, refines.pop_eq_ok_iff,
    refines.peek_eq_ok_iff, fun _ => refines.allocate_fault, ?_⟩
  · rw [← refines.used_eq]
    exact refines.used_nonneg
  · rw [← refines.used_eq, ← refines.peak_eq]
    exact Int64.le_iff_toInt_le.mp refines.bounded.used_le
  · intro limited
    have same : ((empty capacity { limit }).calls cs).2.budget.limit = limit :=
      Int64.toInt_inj.mp (refines.limit_eq.trans hlimit)
    have hpeak := refines.bounded.peak_le
    rw [same] at hpeak
    rw [← refines.peak_eq]
    exact Int64.le_iff_toInt_le.mp (hpeak limited)
  · intro e made
    rw [Engine.eq_create made]
    rfl

/-- A text of 24 bytes is released that was never charged, and then charged past the stack. -/
def directCharges : List StackCall :=
  [.push (some (.integer 7)), .release (.string "released"), .push none,
    .allocate (.string "released"), .peek 1]

theorem directCharges_refine_bounded_list :
    ∃ replies s, (empty 2 { limit := 32 }).calls directCharges = (replies, s) ∧
      s.values = [.integer 7] ∧ s.budget.used = 24 ∧ s.budget.peak = 24 ∧
      (s.call (.push (some (.string "")))).1.fault?.map Fault.kind = some .outOfMemory ∧
      (s.call (.push (some (.integer 0)))).1.fault?.map Fault.kind = none ∧
      (s.call (.peek 0)).1 = .value (.ok (.integer 7)) ∧
      (s.call (.allocate (.string ""))).2 = s := by
  have inRange : ∀ n ≤ directCharges.length,
      (BoundedList.replay { capacity := 2, limit := Int64.toInt 32 } (directCharges.take n)
        ((empty 2 { limit := 32 }).calls directCharges).1).used < 2 ^ 63 := by decide +kernel
  have fits : ∀ v, .release v ∈ directCharges → v.footprint < 2 ^ 63 := by
    intro v hv
    simp only [directCharges, List.mem_cons, reduceCtorEq, StackCall.release.injEq, List.not_mem_nil,
      false_or, or_false] at hv
    rw [hv]
    decide +kernel
  obtain ⟨replies, s, b, hcalls, hb, _, _, items, used, peak, _, _, _, unchanged, push, _, peeks,
    allocate, _⟩ := stack_refines_bounded_list 2 32 directCharges inRange fits
  have hreplies : replies = [.done (.ok ()), .done (.ok ()), .done (.error .absentValue),
      .done (.ok ()), .value (.error .stackUnderflow)] :=
    (congrArg Prod.fst hcalls).symm
  rw [hreplies] at hb
  cases hb
  refine ⟨replies, s, hcalls, ?_, ?_, ?_, push _ ?_, push _ ?_, ?_, ?_⟩
  · exact List.reverse_eq_iff.mp items
  · exact Int64.toInt_inj.mp used
  · exact Int64.toInt_inj.mp peak
  · rintro _ ⟨⟩
    decide +kernel
  · rintro _ ⟨⟩
    decide +kernel
  · exact (peeks 0 _).mpr ⟨by decide, by decide, rfl⟩
  · refine unchanged _ ?_
    intro none
    have refused := allocate (.string "") (by decide +kernel)
    rw [none] at refused
    cases refused

end Stack
end StackMachine
