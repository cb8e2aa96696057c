import Mathlib.Algebra.Group.Nat.Defs
import StackMachine.Text.Integer
/-! The grammar of integer literals, and that reading accepts exactly the literals whose
numbers are in range: a sign, then decimal digits, or a zero and octal digits, or a zero, a
mark for the base and digits. An underscore may stand in front of a digit that follows
another digit, the zero or the mark. -/
namespace StackMachine.Text

variable {b : UInt8} {d n m base bound : Nat} {rest bytes : List UInt8} {z : Int}

section Grammar

def Digit (b : UInt8) (d : Nat) : Prop :=
  d < 10 ∧ b.toNat = '0'.toNat + d ∨
    10 ≤ d ∧ d < 36 ∧ (b.toNat + 10 = 'a'.toNat + d ∨ b.toNat + 10 = 'A'.toNat + d)

/-- Digits behind the number `n`, each alone or with one underscore before it, make it `m`. -/
inductive Extends (base : Nat) : Nat → List UInt8 → Nat → Prop where
  | done {n : Nat} : Extends base n [] n
  | digit {b : UInt8} {d n m : Nat} {rest : List UInt8} :
      Digit b d → d < base → Extends base (n * base + d) rest m → Extends base n (b :: rest) m
  | apart {b : UInt8} {d n m : Nat} {rest : List UInt8} :
      Digit b d → d < base → Extends base (n * base + d) rest m →
      Extends base n (ascii '_' :: b :: rest) m

def baseMarks : List (Char × Nat) := [('b', 2), ('B', 2), ('o', 8), ('O', 8), ('x', 16), ('X', 16)]

/-- The literals of natural numbers. A zero alone is the octal literal without more digits. -/
inductive Natural : List UInt8 → Nat → Prop where
  | decimal {b : UInt8} {d n : Nat} {rest : List UInt8} :
      Digit b d → 0 < d → d < 10 → Extends 10 d rest n → Natural (b :: rest) n
  | octal {n : Nat} {rest : List UInt8} : Extends 8 0 rest n → Natural (ascii '0' :: rest) n
  | marked {mark : Char} {base n : Nat} {rest : List UInt8} :
      (mark, base) ∈ baseMarks → rest ≠ [] → Extends base 0 rest n →
      Natural (ascii '0' :: ascii mark :: rest) n

inductive Signed : List UInt8 → Int → Prop where
  | plain {n : Nat} {bytes : List UInt8} : Natural bytes n → Signed bytes n
  | plus {n : Nat} {bytes : List UInt8} : Natural bytes n → Signed (ascii '+' :: bytes) n
  | minus {n : Nat} {bytes : List UInt8} : Natural bytes n → Signed (ascii '-' :: bytes) (-n)

end Grammar

section Digits

theorem toNat_ascii {c : Char} (single : c.toNat < 256) : (ascii c).toNat = c.toNat :=
  Nat.mod_eq_of_lt single

theorem toNat_sub_ascii {c : Char} (single : c.toNat < 256) (h : c.toNat ≤ b.toNat) :
    (b - ascii c).toNat = b.toNat - c.toNat := by
  have below : ascii c ≤ b := by rwa [UInt8.le_iff_toNat_le, toNat_ascii single]
  rw [UInt8.toNat_sub_of_le _ _ below, toNat_ascii single]

theorem digitValue?_eq_some_iff : digitValue? b = some d ↔ Digit b d := by
  have zero : '0'.toNat = 48 ∧ '9'.toNat = 57 := by decide
  have small : 'a'.toNat = 97 ∧ 'z'.toNat = 122 := by decide
  have capital : 'A'.toNat = 65 ∧ 'Z'.toNat = 90 := by decide
  simp only [digitValue?, Digit, Bool.and_eq_true, decide_eq_true_eq, UInt8.le_iff_toNat_le]
  simp (disch := decide) only [toNat_ascii]
  split
  next range =>
    rw [toNat_sub_ascii (by decide) range.1]
    rw [Option.some.injEq]
    omega
  next =>
    split
    next range =>
      rw [toNat_sub_ascii (by decide) range.1]
      rw [Option.some.injEq]
      omega
    next =>
      split
      next range =>
        rw [toNat_sub_ascii (by decide) range.1]
        rw [Option.some.injEq]
        omega
      next =>
        simp only [reduceCtorEq, false_iff]
        omega

theorem Digit.ne_underscore (h : Digit b d) : b ≠ ascii '_' := by
  rintro rfl
  cases digitValue?_eq_some_iff.mpr h

theorem Digit.ne_of_other {c : Char} (h : Digit b d) (below : d < 10)
    (other : c.toNat < 256 ∧ (c.toNat < '0'.toNat ∨ '9'.toNat < c.toNat)) : b ≠ ascii c := by
  rintro rfl
  have : '9'.toNat = '0'.toNat + 9 := rfl
  simp only [Digit, toNat_ascii other.1] at h
  omega

theorem readDigits_digit (h : Digit b d) (below : d < base) (fits : n * base + d ≤ bound) :
    readDigits base bound n (b :: rest) = readDigits base bound (n * base + d) rest := by
  rw [readDigits, if_neg h.ne_underscore, digitValue?_eq_some_iff.mpr h]
  simp [Nat.not_le.mpr below, Nat.not_lt.mpr fits]

theorem exists_digit (other : b ≠ ascii '_') (h : readDigits base bound n (b :: rest) = .ok m) :
    ∃ d, Digit b d ∧ d < base ∧ n * base + d ≤ bound ∧
      readDigits base bound (n * base + d) rest = .ok m := by
  rw [readDigits, if_neg other] at h
  split at h
  next => cases h
  next d value =>
    split at h
    next => cases h
    next below =>
      split at h
      next => cases h
      next fits =>
        exact ⟨d, digitValue?_eq_some_iff.mp value, by omega, by omega, h⟩

theorem readDigits_underscore :
    readDigits base bound n (ascii '_' :: rest) = readDigits base bound n rest := by
  rw [readDigits, if_pos rfl]

theorem separated_digit (other : b ≠ ascii '_') (afterDigit : Bool) :
    separated afterDigit (b :: rest) = separated true rest := by
  rw [separated, if_neg other]

theorem separated_underscore : separated true (ascii '_' :: rest) = true ↔
    ∃ b more, rest = b :: more ∧ b ≠ ascii '_' ∧ separated true more = true := by
  rw [separated, if_pos rfl]
  cases rest with
  | nil => simp
  | cons b more =>
    by_cases other : b = ascii '_'
    · simp [other]
    · rw [separated_digit other]
      constructor
      · intro h
        exact ⟨b, more, rfl, other, by simpa [other] using h⟩
      · rintro ⟨_, _, same, _, h⟩
        cases same
        simp [other, h]

theorem Extends.le (h : Extends base n rest m) (pos : 0 < base) : n ≤ m := by
  have grows (n d : Nat) : n ≤ n * base + d := by
    have := Nat.le_mul_of_pos_right n pos
    omega
  induction h with
  | done => exact Nat.le_refl _
  | digit _ _ _ ih => exact Nat.le_trans (grows _ _) ih
  | apart _ _ _ ih => exact Nat.le_trans (grows _ _) ih

theorem Extends.reads (h : Extends base n rest m) (pos : 0 < base) (fits : m ≤ bound) :
    readDigits base bound n rest = .ok m ∧ separated true rest = true := by
  induction h with
  | done => exact ⟨rfl, rfl⟩
  | digit value below more ih =>
    have := more.le pos
    rw [readDigits_digit value below (by omega), separated_digit value.ne_underscore]
    exact ih fits
  | apart value below more ih =>
    have := more.le pos
    rw [readDigits_underscore, readDigits_digit value below (by omega), separated_underscore]
    exact ⟨(ih fits).1, _, _, rfl, value.ne_underscore, (ih fits).2⟩

theorem extends_of_reads : ∀ {n : Nat} {rest : List UInt8}, n ≤ bound →
    readDigits base bound n rest = .ok m → separated true rest = true →
    Extends base n rest m ∧ m ≤ bound
  | n, [], small, h, _ => by
    cases h
    exact ⟨.done, small⟩
  | n, b :: rest, small, h, apart => by
    by_cases underscore : b = ascii '_'
    · subst underscore
      rw [readDigits_underscore] at h
      obtain ⟨b, more, rfl, other, apart⟩ := separated_underscore.mp apart
      obtain ⟨d, value, below, fits, h⟩ := exists_digit other h
      obtain ⟨tail, within⟩ := extends_of_reads fits h apart
      exact ⟨.apart value below tail, within⟩
    · rw [separated_digit underscore] at apart
      obtain ⟨d, value, below, fits, h⟩ := exists_digit underscore h
      obtain ⟨tail, within⟩ := extends_of_reads fits h apart
      exact ⟨.digit value below tail, within⟩

end Digits

section Literals

theorem pos_of_mem_baseMarks : ∀ entry ∈ baseMarks, 0 < entry.2 := by decide

theorem readUnsigned_ok_iff : readUnsigned bound bytes = .ok n ↔
    bytes ≠ [] ∧ readDigits (splitBase bytes).base bound 0 (splitBase bytes).digits = .ok n ∧
      separated (splitBase bytes).led (splitBase bytes).digits = true := by
  cases bytes with
  | nil => simp [readUnsigned, bind, Except.bind]
  | cons b rest =>
    simp only [readUnsigned, List.isEmpty_cons, ne_eq, reduceCtorEq, not_false_eq_true, true_and]
    cases readDigits (splitBase (b :: rest)).base bound 0 (splitBase (b :: rest)).digits with
    | error e => simp [bind, Except.bind]
    | ok k =>
      cases separated (splitBase (b :: rest)).led (splitBase (b :: rest)).digits <;>
        simp [bind, Except.bind]

theorem splitBase_of_ne (other : b ≠ ascii '0') : splitBase (b :: rest) = ⟨10, false, b :: rest⟩ := by
  simp [splitBase, other]

theorem splitBase_marked {mark : Char} (h : (mark, base) ∈ baseMarks) (some : rest ≠ []) :
    splitBase (ascii '0' :: ascii mark :: rest) = ⟨base, true, rest⟩ := by
  obtain ⟨first, more, rfl⟩ := List.exists_cons_of_ne_nil some
  simp only [baseMarks, List.mem_cons, Prod.mk.injEq, List.not_mem_nil, or_false] at h
  rcases h with ⟨rfl, rfl⟩ | ⟨rfl, rfl⟩ | ⟨rfl, rfl⟩ | ⟨rfl, rfl⟩ | ⟨rfl, rfl⟩ | ⟨rfl, rfl⟩ <;> rfl

theorem splitBase_zero (rest : List UInt8) :
    (∃ mark base more, (mark, base) ∈ baseMarks ∧ more ≠ [] ∧ rest = ascii mark :: more) ∨
      splitBase (ascii '0' :: rest) = ⟨8, true, rest⟩ := by
  match rest with
  | [] => exact .inr rfl
  | [_] => exact .inr rfl
  | byte :: first :: more =>
    by_cases marks : ∃ entry ∈ baseMarks, byte = ascii entry.1
    · obtain ⟨⟨mark, base⟩, mem, rfl⟩ := marks
      exact .inl ⟨mark, base, first :: more, mem, by simp, rfl⟩
    · simp only [baseMarks, List.mem_cons, List.not_mem_nil, or_false, exists_eq_or_imp,
        exists_eq_left, not_or] at marks
      right
      simp [splitBase, marks]

theorem not_extends_mark {mark : Char} (h : (mark, base) ∈ baseMarks) :
    ¬ Extends 8 0 (ascii mark :: rest) n := by
  have other : ∀ entry ∈ baseMarks, digitValue? (ascii entry.1) ≠ none ∧
      ∀ d < 8, digitValue? (ascii entry.1) ≠ some d := by decide
  obtain ⟨letter, large⟩ := other _ h
  intro octal
  generalize code : ascii mark = byte at octal letter large
  cases octal with
  | digit value below _ => exact large _ below (digitValue?_eq_some_iff.mpr value)
  | apart => exact letter rfl

theorem Digit.eq_zero_iff (h : Digit b d) : b = ascii '0' ↔ d = 0 := by
  constructor
  · rintro rfl
    exact (Option.some.inj (digitValue?_eq_some_iff.mpr h)).symm
  · rintro rfl
    rcases h with ⟨_, code⟩ | ⟨large, _⟩
    · exact UInt8.toNat_inj.mp code
    · omega

theorem Natural.reads (h : Natural bytes n) (fits : n ≤ bound) : readUnsigned bound bytes = .ok n := by
  rw [readUnsigned_ok_iff]
  refine ⟨by cases h <;> simp, ?_⟩
  cases h with
  | decimal value pos below more =>
    have least := more.le (by decide)
    rw [splitBase_of_ne fun zero => by rw [value.eq_zero_iff.mp zero] at pos; omega,
      readDigits_digit value below (by omega), separated_digit value.ne_underscore, Nat.zero_mul,
      Nat.zero_add]
    exact more.reads (by decide) fits
  | @octal _ rest more =>
    rcases splitBase_zero rest with ⟨mark, base, tail, marks, _, rfl⟩ | split
    · exact absurd more (not_extends_mark marks)
    · rw [split]
      exact more.reads (by decide) fits
  | marked marks some more =>
    rw [splitBase_marked marks some]
    exact more.reads (pos_of_mem_baseMarks _ marks) fits

theorem natural_of_reads (h : readUnsigned bound bytes = .ok n) : Natural bytes n ∧ n ≤ bound := by
  obtain ⟨some, digits, apart⟩ := readUnsigned_ok_iff.mp h
  obtain ⟨b, rest, rfl⟩ := List.exists_cons_of_ne_nil some
  by_cases zero : b = ascii '0'
  · subst zero
    rcases splitBase_zero rest with ⟨mark, base, tail, marks, more, rfl⟩ | split
    · rw [splitBase_marked marks more] at digits apart
      obtain ⟨written, fits⟩ := extends_of_reads (Nat.zero_le _) digits apart
      exact ⟨.marked marks more written, fits⟩
    · rw [split] at digits apart
      obtain ⟨written, fits⟩ := extends_of_reads (Nat.zero_le _) digits apart
      exact ⟨.octal written, fits⟩
  · rw [splitBase_of_ne zero] at digits apart
    have other : b ≠ ascii '_' := by
      rintro rfl
      simp [separated] at apart
    obtain ⟨d, value, below, small, digits⟩ := exists_digit other digits
    rw [separated_digit other] at apart
    obtain ⟨written, fits⟩ := extends_of_reads small digits apart
    rw [Nat.zero_mul, Nat.zero_add] at written
    have pos : d ≠ 0 := fun h => zero (value.eq_zero_iff.mpr h)
    exact ⟨.decimal value (by omega) below written, fits⟩

theorem readUnsigned_eq_ok_iff : readUnsigned bound bytes = .ok n ↔ Natural bytes n ∧ n ≤ bound :=
  ⟨natural_of_reads, fun ⟨written, fits⟩ => written.reads fits⟩

theorem Natural.exists_digit (h : Natural bytes n) :
    ∃ b rest d, bytes = b :: rest ∧ Digit b d ∧ d < 10 := by
  have zero : Digit (ascii '0') 0 := digitValue?_eq_some_iff.mp rfl
  cases h with
  | decimal value _ below _ => exact ⟨_, _, _, rfl, value, below⟩
  | octal => exact ⟨_, _, _, rfl, zero, by decide⟩
  | marked => exact ⟨_, _, _, rfl, zero, by decide⟩

theorem splitSign_of_natural (h : Natural bytes n) : splitSign bytes = (false, bytes) := by
  obtain ⟨b, rest, d, rfl, value, below⟩ := h.exists_digit
  have noMinus : b ≠ ascii '-' := value.ne_of_other below (by decide)
  have noPlus : b ≠ ascii '+' := value.ne_of_other below (by decide)
  simp [splitSign, noMinus, noPlus]

theorem signed_iff : Signed bytes z ↔
    ∃ n : Nat, Natural (splitSign bytes).2 n ∧ z = if (splitSign bytes).1 then -(n : Int) else n := by
  constructor
  · intro h
    cases h with
    | plain written =>
      rw [splitSign_of_natural written]
      exact ⟨_, written, rfl⟩
    | plus written => exact ⟨_, written, rfl⟩
    | minus written => exact ⟨_, written, rfl⟩
  · rintro ⟨n, written, rfl⟩
    cases bytes with
    | nil => exact .plain written
    | cons b rest =>
      by_cases minus : b = ascii '-'
      · subst minus
        exact .minus written
      · by_cases plus : b = ascii '+'
        · subst plus
          exact .plus written
        · have whole : splitSign (b :: rest) = (false, b :: rest) := by simp [splitSign, minus, plus]
          rw [whole] at written ⊢
          exact .plain written

theorem readSigned_ok_iff {bits : Nat} : readSigned bits bytes = .ok z ↔
    ∃ n : Nat, readUnsigned (2 ^ bits - 1) (splitSign bytes).2 = .ok n ∧
      (z = if (splitSign bytes).1 then -(n : Int) else n) ∧
      if (splitSign bytes).1 then n ≤ 2 ^ (bits - 1) else n < 2 ^ (bits - 1) := by
  change (readUnsigned (2 ^ bits - 1) (splitSign bytes).2 >>= fun n : Nat =>
    if (splitSign bytes).1 then
      if 2 ^ (bits - 1) < n then .error .outOfRange else .ok (-(n : Int))
    else if 2 ^ (bits - 1) ≤ n then .error .outOfRange else .ok (n : Int)) = _ ↔ _
  cases readUnsigned (2 ^ bits - 1) (splitSign bytes).2 with
  | error e => simp [bind, Except.bind]
  | ok n =>
    generalize 2 ^ (bits - 1) = half
    cases (splitSign bytes).1 with
    | false =>
      rcases Nat.lt_or_ge n half with small | large
      · simp [bind, Except.bind, small, Nat.not_le.mpr small, eq_comm]
      · simp [bind, Except.bind, large]
    | true =>
      rcases Nat.lt_or_ge half n with large | small
      · simp [bind, Except.bind, large]
      · simp [bind, Except.bind, small, Nat.not_lt.mpr small, eq_comm]

theorem readSigned_eq_ok_iff {bits : Nat} (pos : 0 < bits) : readSigned bits bytes = .ok z ↔
    Signed bytes z ∧ -((2 ^ (bits - 1) : Nat) : Int) ≤ z ∧ z < (2 ^ (bits - 1) : Nat) := by
  have double : 2 ^ bits = 2 ^ (bits - 1) * 2 := by
    rw [← Nat.pow_succ, Nat.succ_eq_add_one, Nat.sub_add_cancel pos]
  have least : 0 < 2 ^ (bits - 1) := Nat.two_pow_pos _
  simp only [readSigned_ok_iff, signed_iff, readUnsigned_eq_ok_iff, double]
  generalize 2 ^ (bits - 1) = half at least
  cases (splitSign bytes).1 with
  | false =>
    constructor
    · rintro ⟨n, ⟨written, _⟩, rfl, below⟩
      exact ⟨⟨n, written, rfl⟩, by simp at below ⊢; omega⟩
    · rintro ⟨⟨n, written, rfl⟩, range⟩
      simp only [Bool.false_eq_true, if_false] at range ⊢
      exact ⟨n, ⟨written, by omega⟩, rfl, by omega⟩
  | true =>
    constructor
    · rintro ⟨n, ⟨written, _⟩, rfl, below⟩
      exact ⟨⟨n, written, rfl⟩, by simp at below ⊢; omega⟩
    · rintro ⟨⟨n, written, rfl⟩, range⟩
      simp only [if_true] at range ⊢
      exact ⟨n, ⟨written, by omega⟩, rfl, by omega⟩

end Literals

end StackMachine.Text
