import Mathlib.Data.List.TakeWhile
import StackMachine.Proofs.Rational.Rounding
import StackMachine.Rational.Decimal
/-! What decimal digits stand for. The expansion of a binary number is exact, and has no
zeros in front or behind. -/
namespace StackMachine.Decimal

variable {ds es : List ℕ} {d : ℕ}

/-- The number `0.d₁d₂…`. -/
def fraction : List ℕ → ℚ
  | [] => 0
  | d :: ds => (d + fraction ds) / 10

def value (d : Decimal) : ℚ := fraction d.digits * 10 ^ d.point

theorem fraction_append (ds es : List ℕ) :
    fraction (ds ++ es) = fraction ds + fraction es / 10 ^ ds.length := by
  induction ds with
  | nil => simp [fraction]
  | cons d ds ih =>
    simp only [List.cons_append, fraction, ih, List.length_cons, pow_succ]
    field_simp
    ring

theorem fraction_zeros (k : ℕ) : fraction (List.replicate k 0) = 0 := by
  induction k with
  | zero => rfl
  | succ k ih => simp [List.replicate_succ, fraction, ih]

theorem fraction_nonneg (ds : List ℕ) : 0 ≤ fraction ds := by
  induction ds with
  | nil => exact le_rfl
  | cons d ds ih =>
    rw [fraction]
    positivity

def Digital (ds : List ℕ) : Prop := ∀ d ∈ ds, d < 10

theorem digital_nil : Digital [] := by simp [Digital]

theorem digital_cons : Digital (d :: ds) ↔ d < 10 ∧ Digital ds := List.forall_mem_cons

theorem Digital.fraction_lt_one (h : Digital ds) : fraction ds < 1 := by
  induction ds with
  | nil => norm_num [fraction]
  | cons d ds ih =>
    obtain ⟨hd, hds⟩ := digital_cons.mp h
    have bound : (d : ℚ) ≤ 9 := by exact_mod_cast Nat.le_of_lt_succ hd
    rw [fraction]
    linarith [ih hds]

def Trimmed (ds : List ℕ) : Prop := ∀ d ∈ ds.getLast?, d ≠ 0

theorem Trimmed.tail (h : Trimmed ds) : Trimmed ds.tail := by
  match ds with
  | [] => exact h
  | [d] => simp [Trimmed]
  | d :: e :: es => simpa [Trimmed] using h

theorem Trimmed.fraction_pos (h : Trimmed ds) (nonempty : ds ≠ []) : 0 < fraction ds := by
  induction ds with
  | nil => exact absurd rfl nonempty
  | cons d ds ih =>
    rw [fraction]
    by_cases empty : ds = []
    · subst empty
      have hd : d ≠ 0 := h d (by simp)
      have : (0 : ℚ) < d := by exact_mod_cast Nat.pos_of_ne_zero hd
      simp [fraction, this]
    · have := ih h.tail empty
      positivity

theorem exists_dropWhile (d : ℕ) (ds : List ℕ) :
    ∃ k, ds = List.replicate k d ++ ds.dropWhile (· = d) := by
  have run : ds.takeWhile (· = d) = List.replicate (ds.takeWhile (· = d)).length d := by
    apply List.eq_replicate_of_mem
    intro e he
    simpa using List.mem_takeWhile_imp he
  refine ⟨(ds.takeWhile (· = d)).length, ?_⟩
  rw [← run, List.takeWhile_append_dropWhile]

theorem exists_trimZeros (ds : List ℕ) : ∃ k, ds = trimZeros ds ++ List.replicate k 0 := by
  obtain ⟨k, hk⟩ := exists_dropWhile 0 ds.reverse
  refine ⟨k, ?_⟩
  rw [← List.reverse_inj, trimZeros, List.reverse_append, List.reverse_reverse,
    List.reverse_replicate, ← hk]

theorem mem_head?_of_trimZeros (h : d ∈ (trimZeros ds).head?) : d ∈ ds.head? := by
  obtain ⟨k, hk⟩ := exists_trimZeros ds
  rw [hk, List.head?_append, Option.mem_def.mp h]
  rfl

theorem fraction_trimZeros (ds : List ℕ) : fraction (trimZeros ds) = fraction ds := by
  obtain ⟨k, hk⟩ := exists_trimZeros ds
  conv_rhs => rw [hk]
  rw [fraction_append, fraction_zeros, zero_div, add_zero]

theorem ne_of_head?_dropWhile {e : ℕ} (h : d ∈ (ds.dropWhile (· = e)).head?) : d ≠ e := by
  have first := List.head?_dropWhile_not (fun d => decide (d = e)) ds
  rw [Option.mem_def.mp h] at first
  simpa using first

theorem trimmed_trimZeros (ds : List ℕ) : Trimmed (trimZeros ds) := by
  intro d hd
  rw [trimZeros, List.getLast?_reverse] at hd
  exact ne_of_head?_dropWhile hd

theorem Digital.trimZeros (h : Digital ds) : Digital (trimZeros ds) := by
  obtain ⟨k, hk⟩ := exists_trimZeros ds
  intro d hd
  exact h d (by rw [hk]; exact List.mem_append_left _ hd)

theorem fraction_digitsOnto (level n : ℕ) (tail : List ℕ) :
    fraction (digitsOnto level n tail) = (n + fraction tail) / 10 ^ 2 ^ level := by
  induction level generalizing n tail with
  | zero => simp [digitsOnto, fraction]
  | succ level ih =>
    have split : (n : ℚ) = (n / 10 ^ 2 ^ level : ℕ) * 10 ^ 2 ^ level + (n % 10 ^ 2 ^ level : ℕ) := by
      exact_mod_cast (Nat.div_add_mod' n _).symm
    rw [digitsOnto, ih, ih, pow_succ 2 level, pow_mul]
    conv_rhs => rw [split]
    have : (0 : ℚ) < 10 ^ 2 ^ level := by positivity
    field_simp
    ring

theorem length_digitsOnto (level n : ℕ) (tail : List ℕ) :
    (digitsOnto level n tail).length = 2 ^ level + tail.length := by
  induction level generalizing n tail with
  | zero => simp [digitsOnto, Nat.add_comm]
  | succ level ih =>
    rw [digitsOnto, ih, ih]
    omega

theorem digital_digitsOnto (level : ℕ) {n : ℕ} {tail : List ℕ} (h : n < 10 ^ 2 ^ level)
    (ht : Digital tail) : Digital (digitsOnto level n tail) := by
  induction level generalizing n tail with
  | zero =>
    rw [digitsOnto, digital_cons]
    exact ⟨by simpa using h, ht⟩
  | succ level ih =>
    have hpos : 0 < 10 ^ 2 ^ level := Nat.pow_pos (by decide)
    rw [pow_succ, pow_mul, pow_two] at h
    rw [digitsOnto]
    exact ih (Nat.div_lt_of_lt_mul h) (ih (Nat.mod_lt n hpos) ht)

theorem lt_levelOf (n : ℕ) : n < 10 ^ 2 ^ levelOf n := by
  have hlevel : n.log2 / 3 + 1 ≤ 2 ^ levelOf n := Nat.lt_log2_self
  calc n < 2 ^ (n.log2 + 1) := Nat.lt_log2_self
    _ ≤ 2 ^ (3 * (n.log2 / 3 + 1)) := Nat.pow_le_pow_right (by decide) (by omega)
    _ = 8 ^ (n.log2 / 3 + 1) := by rw [pow_mul, show 2 ^ 3 = 8 from rfl]
    _ ≤ 10 ^ (n.log2 / 3 + 1) := Nat.pow_le_pow_left (by decide) _
    _ ≤ 10 ^ 2 ^ levelOf n := Nat.pow_le_pow_right (by decide) hlevel

theorem digital_digitsOf (n : ℕ) : Digital (digitsOf n) := by
  intro d hd
  apply digital_digitsOnto _ (lt_levelOf n) digital_nil
  exact (List.dropWhile_sublist _).subset hd

theorem fraction_digitsOf (n : ℕ) : fraction (digitsOf n) * 10 ^ (digitsOf n).length = n := by
  have hlength := length_digitsOnto (levelOf n) n []
  have hfraction := fraction_digitsOnto (levelOf n) n []
  obtain ⟨k, hk⟩ := exists_dropWhile 0 (digitsOnto (levelOf n) n [])
  rw [← digitsOf] at hk
  rw [hk, List.length_append, List.length_replicate, List.length_nil, add_zero] at hlength
  rw [hk, fraction_append, fraction_zeros, List.length_replicate, zero_add, fraction, add_zero,
    ← hlength, pow_add] at hfraction
  field_simp at hfraction
  exact hfraction

theorem value_ofScaled (n : ℕ) (exp : ℤ) : (ofScaled n exp).value = n * 2 ^ exp := by
  have hscale : (2 : ℚ) ^ (-exp).toNat * 2 ^ exp = 2 ^ exp.toNat := by
    rw [two_pow_mul (k := (exp.toNat : ℤ)) (by omega), zpow_natCast]
  have hten : (10 : ℚ) ^ (-exp).toNat = 2 ^ (-exp).toNat * 5 ^ (-exp).toNat := by
    rw [← mul_pow]
    norm_num
  unfold value ofScaled
  dsimp only
  rw [fraction_trimZeros, zpow_sub₀ (by norm_num), zpow_natCast, zpow_natCast, ← mul_div_assoc,
    fraction_digitsOf, hten]
  push_cast
  rw [← hscale]
  field_simp

/-- Digits of a number from a tenth up to one: no zero in front and none behind. -/
structure Normal (ds : List ℕ) : Prop where
  digital : Digital ds
  trimmed : Trimmed ds
  first : ∀ d ∈ ds.head?, d ≠ 0

theorem normal_ofScaled (n : ℕ) (exp : ℤ) : Normal (ofScaled n exp).digits := by
  refine ⟨(digital_digitsOf _).trimZeros, trimmed_trimZeros _, ?_⟩
  intro d hd
  exact ne_of_head?_dropWhile (mem_head?_of_trimZeros hd)

theorem Normal.tenth_le (h : Normal ds) (nonempty : ds ≠ []) : 1 / 10 ≤ fraction ds := by
  cases ds with
  | nil => exact absurd rfl nonempty
  | cons d ds =>
    have one : (1 : ℚ) ≤ d := by exact_mod_cast Nat.one_le_iff_ne_zero.mpr (h.first d rfl)
    rw [fraction]
    linarith [fraction_nonneg ds]

end StackMachine.Decimal
