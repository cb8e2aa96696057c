import Mathlib.Algebra.Group.Int.Defs
import Mathlib.Algebra.Group.Nat.Defs
import StackMachine.Stack
/-! The two changes of an operand stack, written as states: a value put on top
and charged, and the top value taken off and released. Every push and every pop
is one of them or changes nothing. The account is in words, so a sum of it is the
sum of the bytes only as long as that is a word. -/
namespace StackMachine

namespace Budget

theorem toInt_max (a b : Int64) : (max a b).toInt = max a.toInt b.toInt := by
  change (if a ≤ b then b else a).toInt = _
  split
  case isTrue h =>
    rw [Int64.le_iff_toInt_le] at h
    omega
  case isFalse h =>
    rw [Int64.le_iff_toInt_le] at h
    omega

theorem word_max_le {a b c : Int64} : max a b ≤ c ↔ a ≤ c ∧ b ≤ c := by
  simp only [Int64.le_iff_toInt_le, toInt_max, Int.max_le]

theorem lt_word_max {a b c : Int64} : c < max a b ↔ c < a ∨ c < b := by
  simp only [Int64.lt_iff_toInt_lt, toInt_max]
  omega

/-- A sum that wraps around is too small, never too large. -/
theorem toInt_add_ofNat_le (n : Int64) (size : Nat) :
    (n + .ofNat size).toInt ≤ n.toInt + size := by
  have := n.le_toInt
  rw [Int64.toInt_add, Int64.toInt_ofNat', Int.add_bmod_bmod, Int.bmod_def, Int64.size]
  omega

theorem toInt_add_ofNat {n : Int64} {size : Nat} (fits : n.toInt + size < 2 ^ 63) :
    (n + .ofNat size).toInt = n.toInt + size := by
  have := n.le_toInt
  rw [Int64.toInt_add, Int64.toInt_ofNat', Int.add_bmod_bmod, Int.bmod_def, Int64.size]
  omega

theorem toInt_sub_ofNat {n : Int64} {size : Nat} (nonneg : 0 ≤ n.toInt) (fits : size < 2 ^ 63) :
    (n - .ofNat size).toInt = n.toInt - size := by
  have := n.toInt_lt
  rw [Int64.toInt_sub, Int64.toInt_ofNat', Int.sub_bmod_bmod, Int.bmod_def, Int64.size]
  omega

def charge (b : Budget) (v : Value) : Budget :=
  { b with used := b.used + .ofNat v.footprint, peak := max b.peak (b.used + .ofNat v.footprint) }

theorem allocate_of_refuses {b : Budget} {v : Value} (h : b.refuses v.footprint = true) :
    b.allocate v = .error (.outOfMemory v.footprint b.used b.limit) := by
  unfold allocate
  rw [if_pos h]

theorem allocate_of_grants {b : Budget} {v : Value} (h : b.refuses v.footprint = false) :
    b.allocate v = .ok (b.charge v) := by
  unfold allocate
  rw [h]
  rfl

theorem refuses_iff (b : Budget) (size : Nat) :
    b.refuses size = true ↔ 0 < b.limit ∧ b.limit < b.used + .ofNat size := by
  simp [refuses]

theorem grants_iff (b : Budget) (size : Nat) :
    b.refuses size = false ↔ (0 < b.limit → b.used + .ofNat size ≤ b.limit) := by
  rw [Bool.eq_false_iff, ne_eq, refuses_iff, not_and, Int64.not_lt]

theorem grants_of_unlimited {b : Budget} (h : b.limit ≤ 0) (size : Nat) :
    b.refuses size = false := by
  rw [grants_iff]
  intro limited
  exact absurd h (Int64.not_le.mpr limited)

theorem grants_of_fits {b : Budget} {size : Nat}
    (h : 0 < b.limit → b.used.toInt + size ≤ b.limit.toInt) : b.refuses size = false := by
  rw [grants_iff]
  intro limited
  rw [Int64.le_iff_toInt_le]
  exact Int.le_trans (toInt_add_ofNat_le b.used size) (h limited)

theorem used_charge {b : Budget} {v : Value} (fits : b.used.toInt + v.footprint < 2 ^ 63) :
    (b.charge v).used.toInt = b.used.toInt + v.footprint :=
  toInt_add_ofNat fits

theorem used_release {b : Budget} {v : Value} (nonneg : 0 ≤ b.used.toInt)
    (fits : v.footprint < 2 ^ 63) :
    (b.release v).used.toInt = max 0 (b.used.toInt - v.footprint) := by
  have difference := toInt_sub_ofNat nonneg fits
  have negative : b.used - .ofNat v.footprint < 0 ↔ b.used.toInt - v.footprint < 0 := by
    rw [Int64.lt_iff_toInt_lt, difference, Int64.toInt_zero]
  by_cases h : b.used.toInt - v.footprint < 0
  · simp only [release, if_pos (negative.mpr h), Int64.toInt_zero]
    omega
  · simp only [release, if_neg (mt negative.mp h), difference]
    omega

theorem used_release_of_le {b : Budget} {v : Value} (covered : v.footprint ≤ b.used.toInt) :
    (b.release v).used.toInt = b.used.toInt - v.footprint := by
  have := b.used.toInt_lt
  rw [used_release (by omega) (by omega)]
  omega

/-- The peak is the most that was in use, and a limit holds for it. -/
structure Bounded (b : Budget) : Prop where
  used_le : b.used ≤ b.peak
  peak_le : 0 < b.limit → b.peak ≤ b.limit

theorem bounded_fresh (limit : Int64) : Bounded { limit } := ⟨Int64.le_refl 0, Int64.le_of_lt⟩

theorem Bounded.used_le_limit {b : Budget} (h : b.Bounded) (limited : 0 < b.limit) :
    b.used.toInt ≤ b.limit.toInt :=
  Int64.le_iff_toInt_le.mp (Int64.le_trans h.used_le (h.peak_le limited))

theorem Bounded.charge {b : Budget} {v : Value} (h : b.Bounded)
    (granted : b.refuses v.footprint = false) : (b.charge v).Bounded where
  used_le := (word_max_le.mp (Int64.le_refl _)).2
  peak_le := by
    intro limited
    exact word_max_le.mpr ⟨h.peak_le limited, (b.grants_iff _).mp granted limited⟩

theorem Bounded.release {b : Budget} (h : b.Bounded) {v : Value} (nonneg : 0 ≤ b.used.toInt)
    (fits : v.footprint < 2 ^ 63) : (b.release v).Bounded where
  used_le := by
    have used := Int64.le_iff_toInt_le.mp h.used_le
    rw [Int64.le_iff_toInt_le, used_release nonneg fits]
    change _ ≤ b.peak.toInt
    omega
  peak_le := h.peak_le

end Budget

namespace Stack

def holding (s : Stack) (v : Value) : Stack :=
  { s with slots := s.slots.push v, budget := s.budget.charge v }

def dropping (s : Stack) (v : Value) : Stack :=
  { s with slots := s.slots.pop, budget := s.budget.release v }

@[simp] theorem values_holding (s : Stack) (v : Value) :
    (s.holding v).values = s.values ++ [v] := by
  simp [holding, values]

@[simp] theorem values_dropping (s : Stack) (v : Value) :
    (s.dropping v).values = s.values.dropLast := by
  simp [dropping, values]

theorem values_dropping_of_top {s : Stack} {below : List Value} {v : Value}
    (top : s.values = below ++ [v]) : (s.dropping v).values = below := by
  simp [top]

@[simp] theorem size_holding (s : Stack) (v : Value) : (s.holding v).size = s.size + 1 := by
  simp [holding, size]

@[simp] theorem size_dropping (s : Stack) (v : Value) : (s.dropping v).size = s.size - 1 := by
  simp [dropping, size]

@[simp] theorem capacity_holding (s : Stack) (v : Value) :
    (s.holding v).capacity = s.capacity := rfl

@[simp] theorem capacity_dropping (s : Stack) (v : Value) :
    (s.dropping v).capacity = s.capacity := rfl

@[simp] theorem limit_holding (s : Stack) (v : Value) :
    (s.holding v).budget.limit = s.budget.limit := rfl

@[simp] theorem limit_dropping (s : Stack) (v : Value) :
    (s.dropping v).budget.limit = s.budget.limit := rfl

@[simp] theorem used_holding (s : Stack) (v : Value) :
    (s.holding v).budget.used = s.budget.used + .ofNat v.footprint := rfl

@[simp] theorem peak_holding (s : Stack) (v : Value) :
    (s.holding v).budget.peak = max s.budget.peak (s.budget.used + .ofNat v.footprint) := rfl

@[simp] theorem peak_dropping (s : Stack) (v : Value) :
    (s.dropping v).budget.peak = s.budget.peak := rfl

theorem push_of_full {s : Stack} (full : s.capacity ≤ s.size) (v : Value) :
    s.push (some v) = (.error (.stackOverflow s.capacity), s) := by
  rw [push, if_pos full]

theorem push_of_refuses {s : Stack} {v : Value} (room : s.size < s.capacity)
    (h : s.budget.refuses v.footprint = true) :
    s.push (some v) = (.error (.outOfMemory v.footprint s.budget.used s.budget.limit), s) := by
  rw [push, if_neg (Nat.not_le_of_lt room), Budget.allocate_of_refuses h]

theorem push_of_grants {s : Stack} {v : Value} (room : s.size < s.capacity)
    (h : s.budget.refuses v.footprint = false) : s.push (some v) = (.ok (), s.holding v) := by
  rw [push, if_neg (Nat.not_le_of_lt room), Budget.allocate_of_grants h]
  rfl

theorem push_of_fits {s : Stack} {v : Value} (room : s.size < s.capacity)
    (h : 0 < s.budget.limit → s.budget.used.toInt + v.footprint ≤ s.budget.limit.toInt) :
    s.push (some v) = (.ok (), s.holding v) :=
  push_of_grants room (Budget.grants_of_fits h)

/-- A push that succeeds had a slot and the bytes; one that fails changes nothing. -/
theorem push_cases (s : Stack) (v : Option Value) :
    (∃ f, s.push v = (.error f, s)) ∨
    ∃ w, v = some w ∧ s.size < s.capacity ∧ s.budget.refuses w.footprint = false ∧
      s.push v = (.ok (), s.holding w) := by
  cases v with
  | none => exact .inl ⟨_, rfl⟩
  | some w =>
    by_cases full : s.capacity ≤ s.size
    · exact .inl ⟨_, push_of_full full w⟩
    · have room : s.size < s.capacity := Nat.lt_of_not_le full
      cases hr : s.budget.refuses w.footprint with
      | true => exact .inl ⟨_, push_of_refuses room hr⟩
      | false => exact .inr ⟨w, rfl, room, hr, push_of_grants room hr⟩

theorem pop_cases (s : Stack) :
    (s.values = [] ∧ s.pop = (.error .stackUnderflow, s)) ∨
    ∃ v, s.values = (s.dropping v).values ++ [v] ∧ s.pop = (.ok v, s.dropping v) := by
  cases hb : s.slots.back? with
  | none =>
    refine .inl ⟨?_, by rw [pop, hb]⟩
    simpa [values] using hb
  | some v =>
    have hpop : s.pop = (.ok v, s.dropping v) := by
      rw [pop, hb]
      rfl
    have hvalues := values_pop (s := s) (v := v) (by rw [hpop])
    rw [hpop] at hvalues
    exact .inr ⟨v, hvalues, hpop⟩

theorem peek_of_lt {s : Stack} {depth : Int} (h : 0 ≤ depth ∧ depth < s.size) :
    ∃ v, s.peek depth = .ok v ∧ s.values.reverse[depth.toNat]? = some v := by
  have hlt : s.size - 1 - depth.toNat < s.slots.size := by
    unfold size at *
    omega
  have index : depth.toNat < s.values.length := by
    rw [← size_eq_length]
    omega
  refine ⟨s.slots[s.size - 1 - depth.toNat], ?_, ?_⟩
  · unfold peek
    rw [if_pos h, Array.getElem?_eq_getElem hlt]
  · rw [List.getElem?_reverse index, ← size_eq_length, values, Array.getElem?_toList,
      Array.getElem?_eq_getElem hlt]

theorem peek_of_not_lt {s : Stack} {depth : Int} (h : ¬ (0 ≤ depth ∧ depth < s.size)) :
    s.peek depth = .error .stackUnderflow := by
  unfold peek
  rw [if_neg h]

end Stack
end StackMachine
