import StackMachine.Proofs.Rational.Decimal
/-! The shortest decimal of a magnitude stays inside the interval of numbers that round
to it. The digits of the magnitude are followed beside those of the two ends: as long as
no cut is possible they agree with the lower end, and with the upper end too or are all
that is left below it. -/
namespace StackMachine.Decimal

variable {inclusive : Bool} {x lower upper ds : List ℕ} {m n : ℕ} {lo hi y z : ℚ}

section Cuts

theorem fraction_nines (k : ℕ) : fraction (List.replicate k 9) = 1 - 1 / 10 ^ k := by
  induction k with
  | zero => simp [fraction]
  | succ k ih =>
    rw [List.replicate_succ, fraction, ih, pow_succ]
    field_simp
    ring

theorem fraction_take_add (n : ℕ) (ds : List ℕ) :
    fraction ds = fraction (ds.take n) + fraction (ds.drop n) / 10 ^ (ds.take n).length := by
  rw [← fraction_append, List.take_append_drop]

theorem value_truncate (d : Decimal) (n : ℕ) :
    (d.truncate n).value = fraction (d.digits.take n) * 10 ^ d.point := by
  unfold truncate
  split
  · rw [value, fraction_trimZeros]
  · rw [List.take_of_length_le (by omega), value]

theorem value_roundUp {d : Decimal} (h : n < d.digits.length) :
    (d.roundUp n).value = (fraction (d.digits.take n) + 1 / 10 ^ n) * 10 ^ d.point := by
  have hlength : (d.digits.take n).length = n := List.length_take_of_le h.le
  obtain ⟨k, hk⟩ := exists_dropWhile 9 (d.digits.take n).reverse
  unfold roundUp
  rw [if_pos h]
  split
  next all =>
    rw [all, List.append_nil, ← List.reverse_inj, List.reverse_reverse, List.reverse_replicate] at hk
    rw [hk, List.length_replicate] at hlength
    rw [hk, fraction_nines, hlength, sub_add_cancel, one_mul, value, zpow_add_one₀ (by norm_num)]
    simp only [fraction]
    ring
  next last before rest =>
    rw [rest, ← List.reverse_inj, List.reverse_reverse, List.reverse_append, List.reverse_replicate,
      List.reverse_cons] at hk
    have hn : n = before.length + 1 + k := by
      rw [← hlength, hk]
      simp only [List.length_append, List.length_reverse, List.length_singleton,
        List.length_replicate]
    rw [hk, value, fraction_append, fraction_append, fraction_nines, List.reverse_cons,
      fraction_append, hn]
    simp only [fraction, List.length_append, List.length_reverse, List.length_singleton, pow_add,
      Nat.cast_add, Nat.cast_one]
    field_simp
    ring

theorem digital_truncate {d : Decimal} (h : Digital d.digits) (n : ℕ) :
    Digital (d.truncate n).digits := by
  unfold truncate
  split
  · exact Digital.trimZeros fun e he => h e (List.mem_of_mem_take he)
  · exact h

theorem digital_roundUp {d : Decimal} (h : Digital d.digits) (n : ℕ) :
    Digital (d.roundUp n).digits := by
  unfold roundUp
  split
  · split
    · exact digital_cons.mpr ⟨by decide, digital_nil⟩
    next last before rest =>
      have kept {e : ℕ} (he : e ∈ last :: before) : e < 10 := by
        rw [← rest] at he
        have taken := List.mem_reverse.mp ((List.dropWhile_sublist _).subset he)
        exact h e (List.mem_of_mem_take taken)
      have notNine : last ≠ 9 := ne_of_head?_dropWhile (by rw [rest]; rfl)
      intro e he
      rcases List.mem_cons.mp (List.mem_reverse.mp he) with rfl | he
      · have := kept List.mem_cons_self
        omega
      · exact kept (List.mem_cons_of_mem _ he)
  · exact h

theorem roundNearest_cases (d : Decimal) (n : ℕ) :
    d.roundNearest n = d.truncate n ∨ d.roundNearest n = d.roundUp n := by
  unfold roundNearest
  split
  · exact .inr rfl
  · exact .inl rfl

end Cuts

/-- Before, or at the same place if the ends belong to the interval. -/
def Precedes (inclusive : Bool) (y z : ℚ) : Prop := y < z ∨ inclusive = true ∧ y = z

theorem Precedes.of_lt (h : y < z) : Precedes inclusive y z := .inl h

theorem Precedes.of_le (h : y ≤ z) (ends : inclusive = true) : Precedes inclusive y z := by
  rcases h.lt_or_eq with less | equal
  · exact .inl less
  · exact .inr ⟨ends, equal⟩

theorem Precedes.le (h : Precedes inclusive y z) : y ≤ z := by
  rcases h with less | ⟨_, equal⟩
  · exact less.le
  · exact equal.le

theorem Precedes.lt (h : Precedes inclusive y z) (ends : inclusive = false) : y < z := by
  rcases h with less | ⟨included, _⟩
  · exact less
  · rw [ends] at included
    cases included

theorem Precedes.shift (m : ℕ) (h : Precedes inclusive y (10 * z - m)) :
    Precedes inclusive ((m + y) / 10) z := by
  rcases h with less | ⟨ends, equal⟩
  · exact .inl (by linarith)
  · exact .inr ⟨ends, by linarith⟩

theorem Precedes.shift' (m : ℕ) (h : Precedes inclusive (10 * y - m) z) :
    Precedes inclusive y ((m + z) / 10) := by
  rcases h with less | ⟨ends, equal⟩
  · exact .inl (by linarith)
  · exact .inr ⟨ends, by linarith⟩

theorem Precedes.of_div {unit : ℚ} (pos : 0 < unit) (h : Precedes inclusive (y / unit) z) :
    Precedes inclusive y (z * unit) := by
  rcases h with less | ⟨ends, equal⟩
  · exact .inl ((div_lt_iff₀ pos).mp less)
  · exact .inr ⟨ends, (div_eq_iff pos.ne').mp equal⟩

theorem Precedes.of_le_div {unit : ℚ} (pos : 0 < unit) (h : Precedes inclusive y (z / unit)) :
    Precedes inclusive (y * unit) z := by
  rcases h with less | ⟨ends, equal⟩
  · exact .inl ((lt_div_iff₀ pos).mp less)
  · exact .inr ⟨ends, (eq_div_iff pos.ne').mp equal⟩

theorem Precedes.of_mul {unit : ℚ} (pos : 0 < unit) (h : Precedes inclusive (y * unit) (z * unit)) :
    Precedes inclusive y z := by
  rcases h with less | ⟨ends, equal⟩
  · exact .inl (lt_of_mul_lt_mul_right less pos.le)
  · exact .inr ⟨ends, mul_right_cancel₀ pos.ne' equal⟩

/-- Cutting in a direction that is offered stays inside the interval. -/
structure Fits (inclusive : Bool) (lo hi : ℚ) (x : List ℕ) (n : ℕ) (dir : Direction) : Prop where
  bound : n ≤ x.length
  down : dir ≠ .up → Precedes inclusive lo (fraction (x.take n))
  up : dir ≠ .down → Precedes inclusive (fraction (x.take n) + 1 / 10 ^ n) hi

def cutsDown (inclusive : Bool) (m : ℕ) (lower : List ℕ) : Bool :=
  lower.headD 0 != m || (inclusive && lower.length == 1)

def cutsUp (inclusive : Bool) (m : ℕ) (upper : List ℕ) : Bool :=
  m != upper.headD 0 &&
    (inclusive || m + 1 < upper.headD 0 || 1 < upper.length || (upper.isEmpty && m < 9))

theorem cutsDown_iff : cutsDown inclusive m lower = true ↔
    lower.headD 0 ≠ m ∨ inclusive = true ∧ lower.length = 1 := by
  unfold cutsDown
  generalize lower.headD 0 = l
  simp

theorem cutsUp_iff : cutsUp inclusive m upper = true ↔ m ≠ upper.headD 0 ∧
    (inclusive = true ∨ m + 1 < upper.headD 0 ∨ 1 < upper.length ∨ upper = [] ∧ m < 9) := by
  unfold cutsUp
  generalize upper.headD 0 = u
  simp [or_assoc]

/-- Where a greater digit gives no room, it is the last one of an end that is not part of
the interval. -/
theorem adjacent_of_not_cutsUp (h : cutsUp inclusive m upper = false) (distinct : m ≠ upper.headD 0) :
    inclusive = false ∧ upper.headD 0 ≤ m + 1 ∧ upper.length ≤ 1 := by
  have noRoom : ¬ (inclusive = true ∨ m + 1 < upper.headD 0 ∨ 1 < upper.length ∨
      upper = [] ∧ m < 9) := by
    intro room
    rw [cutsUp_iff.mpr ⟨distinct, room⟩] at h
    cases h
  simp only [not_or, not_lt, Bool.not_eq_true] at noRoom
  exact ⟨noRoom.1, noRoom.2.1, noRoom.2.2.1⟩

theorem cutBetween_cons (inclusive : Bool) (m : ℕ) (x lower upper : List ℕ) :
    cutBetween inclusive (m :: x) lower upper =
      if cutsDown inclusive m lower && cutsUp inclusive m upper then some (1, .nearest)
      else if cutsDown inclusive m lower then some (1, .down)
      else if cutsUp inclusive m upper then some (1, .up)
      else (cutBetween inclusive x lower.tail upper.tail).map fun (n, dir) => (n + 1, dir) := rfl

/-- One digit: if it cannot be cut there, the rest is searched in an interval of ten times
the size. -/
theorem fits_cons {dir : Direction}
    (down : cutsDown inclusive m lower = true → Precedes inclusive lo (m / 10))
    (up : cutsUp inclusive m upper = true → Precedes inclusive ((m + 1) / 10) hi)
    (rest : cutsDown inclusive m lower = false → cutsUp inclusive m upper = false →
      ∀ n dir, cutBetween inclusive x lower.tail upper.tail = some (n, dir) →
        Fits inclusive (10 * lo - m) (10 * hi - m) x n dir)
    (h : cutBetween inclusive (m :: x) lower upper = some (n, dir)) :
    Fits inclusive lo hi (m :: x) n dir := by
  have first {dir : Direction} (low : dir ≠ .up → Precedes inclusive lo (m / 10))
      (high : dir ≠ .down → Precedes inclusive ((m + 1) / 10) hi) :
      Fits inclusive lo hi (m :: x) 1 dir := by
    refine ⟨by simp, ?_, ?_⟩
    · intro hdir
      simpa [fraction] using low hdir
    · intro hdir
      have := high hdir
      simpa [fraction, add_div] using this
  rw [cutBetween_cons] at h
  cases hd : cutsDown inclusive m lower with
  | true =>
    cases hu : cutsUp inclusive m upper with
    | true =>
      rw [hd, hu] at h
      cases h
      exact first (fun _ => down hd) (fun _ => up hu)
    | false =>
      rw [hd, hu] at h
      cases h
      exact first (fun _ => down hd) (fun h => absurd rfl h)
  | false =>
    cases hu : cutsUp inclusive m upper with
    | true =>
      rw [hd, hu] at h
      cases h
      exact first (fun h => absurd rfl h) (fun _ => up hu)
    | false =>
      rw [hd, hu] at h
      obtain ⟨⟨k, dir'⟩, hk, heq⟩ := Option.map_eq_some_iff.mp h
      cases heq
      have fits := rest hd hu k _ hk
      refine ⟨Nat.succ_le_succ fits.bound, ?_, ?_⟩
      · intro hdir
        exact (fits.down hdir).shift' m
      · intro hdir
        have next := (fits.up hdir).shift m
        rw [List.take_succ_cons, fraction, pow_succ]
        convert next using 1
        field_simp
        ring

theorem Digital.tail (h : Digital ds) : Digital ds.tail := fun d hd => h d (List.mem_of_mem_tail hd)

theorem fraction_eq_headD (ds : List ℕ) : fraction ds = (ds.headD 0 + fraction ds.tail) / 10 := by
  cases ds with
  | nil => simp [fraction]
  | cons d ds => rfl

theorem Trimmed.fraction_tail_pos (h : Trimmed ds) (long : 1 < ds.length) : 0 < fraction ds.tail := by
  apply h.tail.fraction_pos
  rw [← List.length_pos_iff, List.length_tail]
  omega

section Lower

variable (digital : Digital x) (below : fraction lower < fraction (m :: x))

include digital below

theorem headD_le_of_lt : lower.headD 0 ≤ m := by
  have hx := digital.fraction_lt_one
  have hl := fraction_nonneg lower.tail
  rw [fraction_eq_headD lower, fraction] at below
  have : (lower.headD 0 : ℚ) < m + 1 := by linarith
  exact Nat.lt_succ_iff.mp (by exact_mod_cast this)

theorem precedes_of_cutsDown (lowerDigital : Digital lower)
    (h : cutsDown inclusive m lower = true) : Precedes inclusive (fraction lower) (m / 10) := by
  have order := headD_le_of_lt digital below
  by_cases same : lower.headD 0 = m
  · obtain ⟨ends, whole⟩ := (cutsDown_iff.mp h).resolve_left (not_not.mpr same)
    obtain ⟨l, rfl⟩ := List.length_eq_one_iff.mp whole
    exact .inr ⟨ends, by simpa [fraction] using same⟩
  · have less : (lower.headD 0 : ℚ) + 1 ≤ m := by
      exact_mod_cast Nat.lt_of_le_of_ne order same
    have := lowerDigital.tail.fraction_lt_one
    apply Precedes.of_lt
    rw [fraction_eq_headD]
    linarith

omit digital below in
theorem fraction_tail_of_not_cutsDown (h : cutsDown inclusive m lower = false) :
    fraction lower.tail = 10 * fraction lower - m := by
  have same : lower.headD 0 = m := by
    by_contra distinct
    rw [cutsDown_iff.mpr (.inl distinct)] at h
    cases h
  rw [fraction_eq_headD lower, same]
  ring

end Lower

/-- The upper end: its digits continue as those of `x` have so far, or it is at least
one unit above them, its own digits being used up, and is not part of the interval. -/
inductive Upper (inclusive : Bool) : List ℕ → ℚ → Prop
  | level (upper : List ℕ) : Upper inclusive upper (fraction upper)
  | past {hi : ℚ} (ends : inclusive = false) (unit : 1 ≤ hi) : Upper inclusive [] hi

section Upper

variable (above : fraction (m :: x) < hi) (state : Upper inclusive upper hi)
  (upperDigital : Digital upper)

include above upperDigital

theorem le_headD_of_lt (h : hi = fraction upper) : m ≤ upper.headD 0 := by
  have hx := fraction_nonneg x
  have hu := upperDigital.tail.fraction_lt_one
  rw [h, fraction_eq_headD upper, fraction] at above
  have : (m : ℚ) < upper.headD 0 + 1 := by linarith
  exact Nat.lt_succ_iff.mp (by exact_mod_cast this)

include state

theorem precedes_of_cutsUp (trimmed : Trimmed upper) (h : cutsUp inclusive m upper = true) :
    Precedes inclusive ((m + 1) / 10) hi := by
  have hpos := fraction_nonneg (m :: x)
  obtain ⟨distinct, room⟩ := cutsUp_iff.mp h
  cases state with
  | level =>
    have order := le_headD_of_lt above upperDigital rfl
    have next : (m : ℚ) + 1 ≤ upper.headD 0 := by exact_mod_cast Nat.lt_of_le_of_ne order distinct
    have rest := fraction_nonneg upper.tail
    have whole := fraction_eq_headD upper
    rcases room with ends | wide | long | ⟨rfl, _⟩
    · exact .of_le (by linarith) ends
    · have wide : (m : ℚ) + 1 < upper.headD 0 := by exact_mod_cast wide
      exact .of_lt (by linarith)
    · have more := trimmed.fraction_tail_pos long
      exact .of_lt (by linarith)
    · exact absurd above (not_lt.mpr hpos)
  | past ends unit =>
    have small : m < 9 := by simpa [ends] using room
    have : (m : ℚ) + 1 ≤ 9 := by exact_mod_cast small
    exact .of_lt (by linarith)

theorem Upper.tail (digital : Digital (m :: x)) (h : cutsUp inclusive m upper = false) :
    Upper inclusive upper.tail (10 * hi - m) := by
  have digit : (m : ℚ) ≤ 9 := by exact_mod_cast Nat.le_of_lt_succ (digital_cons.mp digital).1
  cases state with
  | level =>
    by_cases same : m = upper.headD 0
    · have rest : 10 * fraction upper - m = fraction upper.tail := by
        rw [fraction_eq_headD upper, ← same]
        ring
      rw [rest]
      exact .level _
    · -- the last digit of an end that is not part of the interval
      have order := le_headD_of_lt above upperDigital rfl
      obtain ⟨ends, adjacent, short⟩ := adjacent_of_not_cutsUp h same
      match upper with
      | [] => exact absurd above (not_lt.mpr (fraction_nonneg _))
      | [u] =>
        have digitAbove : u = m + 1 := Nat.le_antisymm adjacent (Nat.lt_of_le_of_ne order same)
        refine .past ends ?_
        rw [digitAbove, fraction, fraction]
        push_cast
        linarith
      | u :: v :: rest => simp at short
  | past ends unit => exact .past ends (by linarith)

end Upper

theorem fits_of_aligned {dir : Direction} (digital : Digital x) (lowerDigital : Digital lower)
    (upperDigital : Digital upper) (trimmed : Trimmed upper) (below : fraction lower < fraction x)
    (above : fraction x < hi) (state : Upper inclusive upper hi)
    (h : cutBetween inclusive x lower upper = some (n, dir)) :
    Fits inclusive (fraction lower) hi x n dir := by
  induction x generalizing lower upper hi n dir with
  | nil => cases h
  | cons m x ih =>
    have tailDigital := (digital_cons.mp digital).2
    refine fits_cons (precedes_of_cutsDown tailDigital below lowerDigital)
      (precedes_of_cutsUp above state upperDigital trimmed) ?_ h
    intro notDown notUp k dir' hk
    have lowerTail := fraction_tail_of_not_cutsDown notDown
    rw [fraction] at below above
    rw [← lowerTail]
    refine ih tailDigital lowerDigital.tail upperDigital.tail trimmed.tail ?_ ?_ ?_ hk
    · linarith
    · linarith
    · exact state.tail above upperDigital digital notUp

theorem headD_lt {k : ℕ} (h : 10 * fraction ds < k) : ds.headD 0 < k := by
  have rest := fraction_nonneg ds.tail
  rw [fraction_eq_headD] at h
  have : (ds.headD 0 : ℚ) < k := by linarith
  exact_mod_cast this

theorem le_headD {k : ℕ} (digital : Digital ds) (h : k ≤ 10 * fraction ds) : k ≤ ds.headD 0 := by
  have rest := digital.tail.fraction_lt_one
  rw [fraction_eq_headD] at h
  have : (k : ℚ) < ds.headD 0 + 1 := by linarith
  exact Nat.lt_succ_iff.mp (by exact_mod_cast this)

section Misaligned

variable {dir : Direction} (normal : Normal x) (lowerNormal : Normal lower)
  (upperNormal : Normal upper) (h : cutBetween inclusive x lower upper = some (n, dir))

include normal lowerNormal upperNormal h

/-- The lower end is one place shorter: then `x` begins with a one, which is already
above that end. -/
theorem fits_of_lower_shorter (large : 5 ≤ 10 * fraction lower) (small : 10 * fraction x < 2)
    (above : fraction x < fraction upper) :
    Fits inclusive (fraction lower / 10) (fraction upper) x n dir := by
  have lowerDigit : 5 ≤ lower.headD 0 := le_headD lowerNormal.digital (by exact_mod_cast large)
  have digit : x.headD 0 < 2 := headD_lt (by exact_mod_cast small)
  have lowerBelow := lowerNormal.digital.fraction_lt_one
  cases x with
  | nil => cases h
  | cons m x =>
    have nonzero : (1 : ℚ) ≤ m := by
      exact_mod_cast Nat.one_le_iff_ne_zero.mpr (normal.first m rfl)
    have distinct : lower.headD 0 ≠ m := by
      simp only [List.headD_cons] at digit
      omega
    refine fits_cons (fun _ => .of_lt (by linarith))
      (precedes_of_cutsUp above (.level upper) upperNormal.digital upperNormal.trimmed) ?_ h
    intro notDown
    rw [cutsDown_iff.mpr (.inl distinct)] at notDown
    cases notDown

/-- The upper end is one place longer: then it is one or more in the unit of `x`. -/
theorem fits_of_upper_longer (below : fraction lower < fraction x) (large : 5 ≤ 10 * fraction x)
    (small : 10 * fraction upper < 2) (unit : 1 ≤ 10 * fraction upper) :
    Fits inclusive (fraction lower) (10 * fraction upper) x n dir := by
  have digit : 5 ≤ x.headD 0 := le_headD normal.digital (by exact_mod_cast large)
  have upperDigit : upper.headD 0 < 2 := headD_lt (by exact_mod_cast small)
  have upperOne : 1 ≤ upper.headD 0 := le_headD upperNormal.digital (by exact_mod_cast unit)
  cases x with
  | nil => cases h
  | cons m x =>
    obtain ⟨below10, tailDigital⟩ := digital_cons.mp normal.digital
    have nine : (m : ℚ) ≤ 9 := by exact_mod_cast Nat.le_of_lt_succ below10
    simp only [List.headD_cons] at digit
    refine fits_cons (precedes_of_cutsDown tailDigital below lowerNormal.digital) ?_ ?_ h
    · intro up
      rcases (cutsUp_iff.mp up).2 with ends | wide | long | ⟨rfl, _⟩
      · exact .of_le (by linarith) ends
      · omega
      · have more := upperNormal.trimmed.fraction_tail_pos long
        have one : (1 : ℚ) ≤ upper.headD 0 := by exact_mod_cast upperOne
        have whole := fraction_eq_headD upper
        exact .of_lt (by linarith)
      · exact absurd upperOne (by decide)
    · intro notDown notUp k dir' hk
      obtain ⟨ends, _, short⟩ := adjacent_of_not_cutsUp notUp (by omega)
      have lowerTail := fraction_tail_of_not_cutsDown notDown
      have tailBelow := tailDigital.fraction_lt_one
      have usedUp : upper.tail = [] := List.length_eq_zero_iff.mp (by rw [List.length_tail]; omega)
      rw [fraction] at below
      rw [usedUp] at hk
      rw [← lowerTail]
      refine fits_of_aligned tailDigital lowerNormal.digital.tail digital_nil (by simp [Trimmed]) ?_ ?_
        (.past ends ?_) hk
      · linarith
      · linarith
      · linarith

end Misaligned

section Points

variable {d : Decimal}

theorem digits_ne_nil (pos : 0 < d.value) : d.digits ≠ [] := by
  intro empty
  rw [value, empty, fraction, zero_mul] at pos
  exact absurd pos (lt_irrefl 0)

theorem Normal.value_bounds (h : Normal d.digits) (pos : 0 < d.value) :
    (10 : ℚ) ^ (d.point - 1) ≤ d.value ∧ d.value < 10 ^ d.point := by
  have scale : (0 : ℚ) < 10 ^ d.point := zpow_pos (by norm_num) _
  have low := h.tenth_le (digits_ne_nil pos)
  have high := h.digital.fraction_lt_one
  rw [value, zpow_sub_one₀ (by norm_num)]
  constructor
  · nlinarith
  · nlinarith

theorem point_le {c : Decimal} (hd : Normal d.digits) (hc : Normal c.digits) (pos : 0 < d.value)
    (less : d.value < c.value) (close : c.value ≤ 2 * d.value) :
    d.point ≤ c.point ∧ c.point ≤ d.point + 1 := by
  obtain ⟨dLow, dHigh⟩ := hd.value_bounds pos
  obtain ⟨cLow, cHigh⟩ := hc.value_bounds (pos.trans less)
  have ten : (1 : ℚ) < 10 := by norm_num
  have next : (10 : ℚ) ^ (d.point + 1) = 10 ^ d.point * 10 := zpow_add_one₀ (by norm_num) _
  constructor
  · have := (zpow_lt_zpow_iff_right₀ ten).mp (dLow.trans_lt (less.trans cHigh))
    omega
  · have : (10 : ℚ) ^ (c.point - 1) < 10 ^ (d.point + 1) := by linarith
    have := (zpow_lt_zpow_iff_right₀ ten).mp this
    omega

theorem value_div_of_eq {p : ℤ} (h : d.point = p) : d.value / 10 ^ p = fraction d.digits := by
  rw [value, h, mul_div_cancel_right₀ _ (zpow_ne_zero p (by norm_num))]

theorem value_div_of_succ {p : ℤ} (h : d.point = p + 1) :
    d.value / 10 ^ p = 10 * fraction d.digits := by
  rw [value, h, zpow_add_one₀ (by norm_num), mul_comm, mul_assoc,
    mul_div_cancel_left₀ _ (zpow_ne_zero p (by norm_num))]

/-- Whatever the places of the points, a cut of `d` stays between ends that are within a
factor of two. -/
theorem fits_of_close {low high : Decimal} {dir : Direction} (lowNormal : Normal low.digits)
    (normal : Normal d.digits) (highNormal : Normal high.digits) (pos : 0 < low.value)
    (below : low.value < d.value) (above : d.value < high.value) (close : high.value ≤ 2 * low.value)
    (h : cutBetween inclusive d.digits low.digits high.digits = some (n, dir)) :
    Fits inclusive (low.value / 10 ^ d.point) (high.value / 10 ^ d.point) d.digits n dir := by
  obtain ⟨lowLe, leLow⟩ := point_le lowNormal normal pos below (by linarith)
  obtain ⟨leHigh, highLe⟩ := point_le normal highNormal (pos.trans below) above (by linarith)
  obtain ⟨_, adjacent⟩ := point_le lowNormal highNormal pos (below.trans above) close
  have lowBelow := lowNormal.digital.fraction_lt_one
  have tenth := normal.tenth_le (digits_ne_nil (pos.trans below))
  have tenthHigh := highNormal.tenth_le (digits_ne_nil (pos.trans (below.trans above)))
  -- all three in the unit of the lower end
  have unit : (0 : ℚ) < 10 ^ low.point := zpow_pos (by norm_num) _
  rw [← div_lt_div_iff_of_pos_right unit] at below above
  rw [← div_le_div_iff_of_pos_right unit, mul_div_assoc] at close
  rcases lowLe.eq_or_lt with sameLow | shorter
  · rcases leHigh.eq_or_lt with sameHigh | longer
    · rw [value_div_of_eq sameLow, value_div_of_eq sameHigh.symm]
      rw [sameLow, value_div_of_eq sameLow, value_div_of_eq rfl] at below
      rw [sameLow, value_div_of_eq rfl, value_div_of_eq sameHigh.symm] at above
      exact fits_of_aligned normal.digital lowNormal.digital highNormal.digital highNormal.trimmed
        below above (.level _) h
    · have longer : high.point = d.point + 1 := by omega
      rw [value_div_of_eq sameLow, value_div_of_succ longer]
      rw [sameLow, value_div_of_eq sameLow, value_div_of_eq rfl] at below
      rw [sameLow, value_div_of_eq sameLow, value_div_of_succ longer] at close
      exact fits_of_upper_longer normal lowNormal highNormal h below (by linarith) (by linarith)
        (by linarith)
  · have shorter : d.point = low.point + 1 := by omega
    have sameHigh : high.point = d.point := by omega
    have lowScaled : low.value / 10 ^ d.point = fraction low.digits / 10 := by
      rw [shorter, zpow_add_one₀ (by norm_num), ← div_div, value_div_of_eq rfl]
    rw [lowScaled, value_div_of_eq sameHigh]
    rw [value_div_of_succ shorter, value_div_of_succ (sameHigh.trans shorter)] at above
    rw [value_div_of_eq rfl, value_div_of_succ (sameHigh.trans shorter)] at close
    exact fits_of_lower_shorter normal lowNormal highNormal h (by linarith) (by linarith)
      (by linarith)

end Points

structure Inside (inclusive : Bool) (lo hi y : ℚ) : Prop where
  low : Precedes inclusive lo y
  high : Precedes inclusive y hi

section Chosen

variable {d : Decimal} {dir : Direction} (above : d.value < hi)
  (fits : Fits inclusive (lo / 10 ^ d.point) (hi / 10 ^ d.point) d.digits n dir)

include above fits

theorem inside_truncate (offered : dir ≠ .up) : Inside inclusive lo hi (d.truncate n).value := by
  have unit : (0 : ℚ) < 10 ^ d.point := zpow_pos (by norm_num) _
  have part : fraction (d.digits.take n) ≤ fraction d.digits := by
    have rest := fraction_nonneg (d.digits.drop n)
    rw [fraction_take_add n d.digits]
    exact le_add_of_nonneg_right (by positivity)
  rw [value_truncate]
  refine ⟨(fits.down offered).of_div unit, .of_lt ?_⟩
  exact (mul_le_mul_of_nonneg_right part unit.le).trans_lt above

theorem inside_roundUp (digital : Digital d.digits) (below : lo < d.value) (offered : dir ≠ .down) :
    Inside inclusive lo hi (d.roundUp n).value := by
  have unit : (0 : ℚ) < 10 ^ d.point := zpow_pos (by norm_num) _
  by_cases short : n < d.digits.length
  · have more : fraction d.digits < fraction (d.digits.take n) + 1 / 10 ^ n := by
      have rest : fraction (d.digits.drop n) < 1 :=
        Digital.fraction_lt_one fun e he => digital e (List.mem_of_mem_drop he)
      rw [fraction_take_add n d.digits, List.length_take_of_le short.le]
      gcongr
    rw [value_roundUp short]
    refine ⟨.of_lt (below.trans ?_), (fits.up offered).of_le_div unit⟩
    exact mul_lt_mul_of_pos_right more unit
  · rw [roundUp, if_neg short]
    exact ⟨.of_lt below, .of_lt above⟩

end Chosen

/-- The ends of the interval around a magnitude, half of the last place away. -/
def lowerEnd (a : Magnitude) : ℚ := (a.mant - 1 / 2) * 2 ^ (a.exp - 64)
def upperEnd (a : Magnitude) : ℚ := (a.mant + 1 / 2) * 2 ^ (a.exp - 64)

section Ends

variable (a : Magnitude)

theorem last_place_eq : (2 : ℚ) ^ (a.exp - 64) = 2 * 2 ^ (a.exp - 65) := by
  rw [← zpow_one_add₀ two_ne_zero]
  congr 1
  ring

theorem value_lower : (ofScaled (2 * a.mant - 1) (a.exp - 65)).value = lowerEnd a := by
  have one_le : 1 ≤ 2 * a.mant := by
    have := a.normal
    omega
  rw [value_ofScaled, Nat.cast_sub one_le, lowerEnd, last_place_eq]
  push_cast
  ring

theorem value_upper : (ofScaled (2 * a.mant + 1) (a.exp - 65)).value = upperEnd a := by
  rw [value_ofScaled, upperEnd, last_place_eq]
  push_cast
  ring

theorem lowerEnd_pos : 0 < lowerEnd a := by
  have large : (2 : ℚ) ^ 63 ≤ a.mant := by exact_mod_cast a.normal.1
  exact mul_pos (by linarith) (zpow_pos two_pos _)

theorem lowerEnd_lt_value : lowerEnd a < a.value := by
  apply mul_lt_mul_of_pos_right _ (zpow_pos two_pos _)
  linarith

theorem value_lt_upperEnd : a.value < upperEnd a := by
  apply mul_lt_mul_of_pos_right _ (zpow_pos two_pos _)
  linarith

theorem upperEnd_le : upperEnd a ≤ 2 * lowerEnd a := by
  have large : (2 : ℚ) ^ 63 ≤ a.mant := by exact_mod_cast a.normal.1
  rw [upperEnd, lowerEnd, ← mul_assoc]
  apply mul_le_mul_of_nonneg_right _ (zpow_nonneg zero_le_two _)
  linarith

theorem shortest_cases : shortest a = ofScaled a.mant (a.exp - 64) ∨
    ∃ n dir, cutBetween (a.mant % 2 == 0) (ofScaled a.mant (a.exp - 64)).digits
        (ofScaled (2 * a.mant - 1) (a.exp - 65)).digits
        (ofScaled (2 * a.mant + 1) (a.exp - 65)).digits = some (n, dir) ∧
      (dir ≠ .up ∧ shortest a = (ofScaled a.mant (a.exp - 64)).truncate n ∨
        dir ≠ .down ∧ shortest a = (ofScaled a.mant (a.exp - 64)).roundUp n) := by
  unfold shortest
  dsimp only
  split
  · exact .inl rfl
  next n h => exact .inr ⟨n, .down, h, .inl ⟨nofun, rfl⟩⟩
  next n h => exact .inr ⟨n, .up, h, .inr ⟨nofun, rfl⟩⟩
  next n h =>
    refine .inr ⟨n, .nearest, h, ?_⟩
    rcases roundNearest_cases (ofScaled a.mant (a.exp - 64)) n with down | up
    · exact .inl ⟨nofun, down⟩
    · exact .inr ⟨nofun, up⟩

theorem inside_shortest :
    Inside (a.mant % 2 == 0) (lowerEnd a) (upperEnd a) (shortest a).value := by
  have pos := lowerEnd_pos a
  have below := lowerEnd_lt_value a
  have above := value_lt_upperEnd a
  have close := upperEnd_le a
  have exact : (ofScaled a.mant (a.exp - 64)).value = a.value := value_ofScaled _ _
  rw [← exact, ← value_lower] at below
  rw [← exact, ← value_upper] at above
  rw [← value_lower] at pos close
  rw [← value_upper] at close
  rw [← value_lower, ← value_upper]
  have normal := normal_ofScaled a.mant (a.exp - 64)
  obtain kept | ⟨n, dir, h, cut⟩ := shortest_cases a
  · rw [kept]
    exact ⟨.of_lt below, .of_lt above⟩
  · have fits := fits_of_close (normal_ofScaled _ _) normal (normal_ofScaled _ _) pos below above close h
    obtain ⟨offered, down⟩ | ⟨offered, up⟩ := cut
    · rw [down]
      exact inside_truncate above fits offered
    · rw [up]
      exact inside_roundUp above fits normal.digital below offered

theorem abs_shortest_sub_le : |(shortest a).value - a.value| ≤ 2 ^ (a.exp - 65) := by
  have inside := inside_shortest a
  have low := inside.low.le
  have high := inside.high.le
  rw [lowerEnd, last_place_eq] at low
  rw [upperEnd, last_place_eq] at high
  have exact : a.value = a.mant * (2 * 2 ^ (a.exp - 65)) := by
    rw [Magnitude.value, last_place_eq]
  rw [abs_le, exact]
  constructor
  · linarith
  · linarith

theorem digital_shortest : Digital (shortest a).digits := by
  have digital := (normal_ofScaled a.mant (a.exp - 64)).digital
  obtain kept | ⟨n, _, _, ⟨_, down⟩ | ⟨_, up⟩⟩ := shortest_cases a
  · rw [kept]
    exact digital
  · rw [down]
    exact digital_truncate digital n
  · rw [up]
    exact digital_roundUp digital n

theorem shortest_pos : 0 < (shortest a).value := (lowerEnd_pos a).trans_le (inside_shortest a).low.le

end Ends

/-- A number in the interval has no nearer magnitude, unless the mantissa is the least
one, below which magnitudes are closer. -/
theorem nearest_of_inside {a : Magnitude} (h : a.mant ≠ 2 ^ 63)
    (inside : Inside (a.mant % 2 == 0) (lowerEnd a) (upperEnd a) y) : a.Nearest y := by
  have unit : (0 : ℚ) < 2 ^ (a.exp - 64) := zpow_pos two_pos _
  have large : (2 : ℚ) ^ 63 + 1 ≤ a.mant := by
    exact_mod_cast Nat.lt_of_le_of_ne a.normal.1 h.symm
  obtain ⟨t, rfl⟩ : ∃ t, y = t * 2 ^ (a.exp - 64) := ⟨_, (div_mul_cancel₀ y unit.ne').symm⟩
  have low := inside.low.of_mul unit
  have high := inside.high.of_mul unit
  apply Magnitude.nearest_of_scaled _ _ _ rfl
  · linarith [low.le]
  · exact abs_le.mpr ⟨by linarith [low.le], by linarith [high.le]⟩
  · intro tie
    by_contra odd
    have ends : (a.mant % 2 == 0) = false := by simpa using odd
    have strict : |t - a.mant| < 1 / 2 :=
      abs_lt.mpr ⟨by linarith [low.lt ends], by linarith [high.lt ends]⟩
    exact strict.ne tie

theorem nearest_shortest {a : Magnitude} (h : a.mant ≠ 2 ^ 63) : a.Nearest (shortest a).value :=
  nearest_of_inside h (inside_shortest a)

-- The last digit is increased although the upper end has no digit there: it was cut before.
example : (shortest ⟨0xb8699e4c60fe25e3, 70, by decide⟩).digits =
    [8, 5, 0, 4, 5, 2, 8, 7, 8, 4, 9, 0, 5, 8, 1, 1, 7, 0, 3, 7] := by
  decide +kernel

end StackMachine.Decimal
