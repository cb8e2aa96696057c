import StackMachine.Proofs.Rational.Separation
import StackMachine.Proofs.Rational.Shortest
import StackMachine.Rational.Text
import StackMachine.Text.Decimal
/-! Decimal numerals read as exact numbers, with exponents of any size. Both written
forms of a decimal are read as the number it stands for, so the text of a rational reads
back as a number that rounds to it. -/
namespace StackMachine

namespace Numeral

def natural? (ds : List Char) : Option ℕ :=
  if !ds.isEmpty && ds.all Char.isDigit then some (Text.natOfDigits ds) else none

def exponent? : List Char → Option ℤ
  | [] => some 0
  | 'e' :: '+' :: ds => (natural? ds).map fun n : ℕ => (n : ℤ)
  | 'e' :: '-' :: ds => (natural? ds).map fun n : ℕ => -(n : ℤ)
  | _ => none

def number (whole rest : List Char) (x : ℤ) : ℚ :=
  Text.natOfDigits (whole ++ rest) * 10 ^ (x - rest.length)

/-- At least one digit, then perhaps a point and the digits behind it, then an exponent. -/
def unsigned? (cs : List Char) : Option ℚ :=
  let whole := cs.takeWhile Char.isDigit
  if whole = [] then none
  else match cs.dropWhile Char.isDigit with
    | '.' :: rest =>
      (exponent? (rest.dropWhile Char.isDigit)).map (number whole (rest.takeWhile Char.isDigit))
    | rest => (exponent? rest).map (number whole [])

def read? (text : String) : Option ℚ :=
  match text.toList with
  | '-' :: cs => (unsigned? cs).map fun y => -y
  | cs => unsigned? cs

variable {cs : List Char} {x : ℤ} {y : ℚ} {text : String}

theorem natural?_eq_some_iff {n : ℕ} : natural? cs = some n ↔
    cs ≠ [] ∧ (∀ c ∈ cs, c.isDigit = true) ∧ Text.natOfDigits cs = n := by
  simp [natural?, and_assoc]

theorem isDigit_toDigits (n : ℕ) : ∀ c ∈ Nat.toDigits 10 n, c.isDigit = true := fun _ hc =>
  Nat.isDigit_of_mem_toDigits (by decide) (by decide) hc

theorem natOfDigits_toDigits (n : ℕ) : Text.natOfDigits (Nat.toDigits 10 n) = n :=
  Nat.ofDigitChars_toDigits (by decide) (by decide)

theorem natural?_repr (n : ℕ) : natural? (Nat.toDigits 10 n) = some n := by
  rw [natural?_eq_some_iff]
  exact ⟨Nat.toDigits_ne_nil, isDigit_toDigits n, natOfDigits_toDigits n⟩

theorem natural?_cons_zero {n : ℕ} (h : natural? cs = some n) : natural? ('0' :: cs) = some n := by
  obtain ⟨_, digits, number⟩ := natural?_eq_some_iff.mp h
  exact natural?_eq_some_iff.mpr
    ⟨List.cons_ne_nil _ _, List.forall_mem_cons.mpr ⟨rfl, digits⟩, number⟩

theorem exponent?_nil : exponent? [] = some 0 := rfl

theorem eq_nil_or_cons_of_exponent? (h : exponent? cs = some x) :
    cs = [] ∨ ∃ rest, cs = 'e' :: rest := by
  unfold exponent? at h
  split at h
  · exact .inl rfl
  · exact .inr ⟨_, rfl⟩
  · exact .inr ⟨_, rfl⟩
  · cases h

theorem takeWhile_of_exponent? (h : exponent? cs = some x) :
    cs.takeWhile Char.isDigit = [] ∧ cs.dropWhile Char.isDigit = cs := by
  obtain rfl | ⟨rest, rfl⟩ := eq_nil_or_cons_of_exponent? h
  · exact ⟨rfl, rfl⟩
  · exact ⟨rfl, rfl⟩

section Parts

variable {whole rest : List Char} (hw : ∀ c ∈ whole, c.isDigit = true) (nonempty : whole ≠ [])
  (hx : exponent? cs = some x)

include hw nonempty hx

theorem unsigned?_whole : unsigned? (whole ++ cs) = some (number whole [] x) := by
  obtain ⟨noDigits, remaining⟩ := takeWhile_of_exponent? hx
  rw [unsigned?, List.takeWhile_append_of_pos hw, List.dropWhile_append_of_pos hw, noDigits, remaining,
    List.append_nil, if_neg nonempty]
  obtain rfl | ⟨tail, rfl⟩ := eq_nil_or_cons_of_exponent? hx
  · exact congrArg (Option.map _) hx
  · exact congrArg (Option.map _) hx

theorem unsigned?_point (hr : ∀ c ∈ rest, c.isDigit = true) :
    unsigned? (whole ++ '.' :: (rest ++ cs)) = some (number whole rest x) := by
  obtain ⟨noDigits, remaining⟩ := takeWhile_of_exponent? hx
  have stop : ('.' :: (rest ++ cs)).takeWhile Char.isDigit = [] := rfl
  have point : ('.' :: (rest ++ cs)).dropWhile Char.isDigit = '.' :: (rest ++ cs) := rfl
  rw [unsigned?, List.takeWhile_append_of_pos hw, List.dropWhile_append_of_pos hw, stop, point,
    List.append_nil, if_neg nonempty]
  change Option.map (number _ ((_ ++ cs).takeWhile _)) (exponent? ((_ ++ cs).dropWhile _)) = _
  rw [List.takeWhile_append_of_pos hr, List.dropWhile_append_of_pos hr, noDigits, remaining,
    List.append_nil, hx, Option.map_some]

end Parts

theorem read?_of_unsigned? (h : unsigned? text.toList = some y) : read? text = some y := by
  unfold read?
  split
  next cs minus =>
    rw [minus] at h
    cases h
  · exact h

theorem read?_minus (h : unsigned? text.toList = some y) : read? ("-" ++ text) = some (-y) := by
  have minus : ("-" ++ text).toList = '-' :: text.toList := String.toList_append
  rw [read?, minus]
  exact congrArg (Option.map fun y => -y) h

theorem unsigned?_repr (n : ℕ) : unsigned? n.repr.toList = some (n : ℚ) := by
  have whole := unsigned?_whole (isDigit_toDigits n) Nat.toDigits_ne_nil exponent?_nil
  rw [List.append_nil, number, List.append_nil, natOfDigits_toDigits] at whole
  rw [Nat.toList_repr, whole]
  simp

theorem read?_toString (z : ℤ) : read? (toString z) = some (z : ℚ) := by
  cases z with
  | ofNat n => exact read?_of_unsigned? (unsigned?_repr n)
  | negSucc n =>
    refine (read?_minus (unsigned?_repr (n + 1))).trans ?_
    rw [Int.cast_negSucc]

end Numeral

namespace Decimal

open Numeral

variable {ds whole rest : List ℕ} {cs : List Char} {x : ℤ} {d : Decimal}

theorem digitChar_digit :
    ∀ d < 10, (digitChar d).isDigit = true ∧ (digitChar d).toNat - '0'.toNat = d := by
  decide

theorem isDigit_of_digital (h : Digital ds) : ∀ c ∈ ds.map digitChar, c.isDigit = true := by
  intro c hc
  obtain ⟨d, hd, rfl⟩ := List.mem_map.mp hc
  exact (digitChar_digit d (h d hd)).1

theorem natOfDigits_map (h : Digital ds) :
    (Text.natOfDigits (ds.map digitChar) : ℚ) = fraction ds * 10 ^ ds.length := by
  -- the digits read so far stand before the point
  have shifted (k : ℕ) :
      (((ds.map digitChar).foldl (fun n c => 10 * n + (c.toNat - '0'.toNat)) k : ℕ) : ℚ) =
        (k + fraction ds) * 10 ^ ds.length := by
    induction ds generalizing k with
    | nil => simp [fraction]
    | cons d ds ih =>
      obtain ⟨hd, hds⟩ := digital_cons.mp h
      rw [List.map_cons, List.foldl_cons, (digitChar_digit d hd).2, ih hds, fraction, List.length_cons,
        pow_succ]
      push_cast
      ring
  rw [Text.natOfDigits, shifted, Nat.cast_zero, zero_add]

theorem number_map (hw : Digital whole) (hr : Digital rest) (x : ℤ) :
    number (whole.map digitChar) (rest.map digitChar) x =
      fraction (whole ++ rest) * 10 ^ (whole.length + x) := by
  have digital : Digital (whole ++ rest) := List.forall_mem_append.mpr ⟨hw, hr⟩
  rw [number, ← List.map_append, natOfDigits_map digital, List.length_append, List.length_map, mul_assoc,
    ← zpow_natCast, ← zpow_add₀ (by norm_num)]
  congr 2
  push_cast
  ring

/-- The common form of all numerals: digits after a point appear only if there are some. -/
def pointed (whole rest : List ℕ) : List Char :=
  whole.map digitChar ++ if rest = [] then [] else '.' :: rest.map digitChar

theorem unsigned?_pointed (hw : Digital whole) (nonempty : whole ≠ []) (hr : Digital rest)
    (hx : exponent? cs = some x) :
    unsigned? (pointed whole rest ++ cs) = some (fraction (whole ++ rest) * 10 ^ (whole.length + x)) := by
  have before := isDigit_of_digital hw
  have written : whole.map digitChar ≠ [] := by simpa using nonempty
  rw [← number_map hw hr, pointed, List.append_assoc]
  split
  next empty =>
    rw [empty, List.nil_append]
    exact unsigned?_whole before written hx
  · exact unsigned?_point before written hx (isDigit_of_digital hr)

theorem digital_zeros (k : ℕ) : Digital (List.replicate k 0) := by
  intro d hd
  rw [List.eq_of_mem_replicate hd]
  decide

theorem natural?_padded (n : ℕ) :
    natural? (if n < 10 then "0" ++ toString n else toString n).toList = some n := by
  have digits : (toString n).toList = Nat.toDigits 10 n := Nat.toList_repr
  split
  · have zero : ("0" ++ toString n).toList = '0' :: Nat.toDigits 10 n := by
      rw [String.toList_append, digits]
      rfl
    rw [zero]
    exact natural?_cons_zero (natural?_repr n)
  · rw [digits, natural?_repr]

theorem exponent?_exponentText (x : ℤ) : exponent? (exponentText x).toList = some x := by
  have padded := natural?_padded x.natAbs
  unfold exponentText
  dsimp only
  generalize (if x.natAbs < 10 then "0" ++ toString x.natAbs else toString x.natAbs) = digits at padded ⊢
  rw [String.toList_append]
  split
  next negative =>
    change (natural? digits.toList).map (fun n : ℕ => -(n : ℤ)) = _
    rw [padded, Option.map_some, Int.ofNat_natAbs_of_nonpos negative.le, neg_neg]
  next positive =>
    change (natural? digits.toList).map (fun n : ℕ => (n : ℤ)) = _
    rw [padded, Option.map_some, Int.natAbs_of_nonneg (not_lt.mp positive)]

theorem toList_scientific (first : ℕ) (rest : List ℕ) (p : ℤ) :
    (scientific ⟨first :: rest, p⟩).toList = pointed [first] rest ++ (exponentText (p - 1)).toList := by
  unfold scientific pointed digitText
  dsimp only
  split <;> simp_all

def wholeDigits (d : Decimal) : List ℕ :=
  if 0 < d.point then d.digits.take d.point.toNat ++ List.replicate (d.point.toNat - d.digits.length) 0
  else [0]

def restDigits (d : Decimal) : List ℕ :=
  if 0 < d.point then d.digits.drop d.point.toNat
  else List.replicate (-d.point).toNat 0 ++ d.digits

theorem digitText_append (ds es : List ℕ) : digitText ds ++ digitText es = digitText (ds ++ es) := by
  rw [digitText, digitText, digitText, List.map_append, String.ofList_append]

theorem digitText_zeros (k : ℕ) : String.ofList (List.replicate k '0') = digitText (List.replicate k 0) := by
  rw [digitText, List.map_replicate]
  rfl

theorem toList_digitText (ds : List ℕ) : (digitText ds).toList = ds.map digitChar :=
  String.toList_ofList

theorem isEmpty_digitText (ds : List ℕ) : (digitText ds).isEmpty = ds.isEmpty := by
  rw [Bool.eq_iff_iff, String.isEmpty_iff, ← String.toList_eq_nil_iff, toList_digitText,
    List.map_eq_nil_iff, List.isEmpty_iff]

theorem wholeDigits_ne_nil (nonempty : d.digits ≠ []) : d.wholeDigits ≠ [] := by
  unfold wholeDigits
  split
  next positive =>
    simp only [ne_eq, List.append_eq_nil_iff, List.take_eq_nil_iff, nonempty, or_false, not_and]
    omega
  · exact List.cons_ne_nil _ _

theorem toList_positional (nonempty : d.digits ≠ []) :
    d.positional.toList = pointed d.wholeDigits d.restDigits := by
  have some := wholeDigits_ne_nil nonempty
  unfold positional pointed
  dsimp only
  rw [digitText_zeros, digitText_zeros, digitText_append, isEmpty_digitText, String.toList_append]
  by_cases positive : 0 < d.point
  · have whole : d.digits.take d.point.toNat ++ List.replicate (d.point.toNat - d.digits.length) 0 =
      d.wholeDigits := (if_pos positive).symm
    have rest : d.digits.drop d.point.toNat = d.restDigits := (if_pos positive).symm
    have noZeros : (-d.point).toNat = 0 := by omega
    rw [whole, rest, noZeros, if_neg (by simpa using some), toList_digitText]
    by_cases empty : d.restDigits = []
    · simp [empty]
    · simp [empty, digitText]
  · have none : d.point.toNat = 0 := by omega
    have whole : d.wholeDigits = [0] := if_neg positive
    have rest : d.restDigits = List.replicate (-d.point).toNat 0 ++ d.digits := if_neg positive
    rw [whole, rest, none]
    simp [nonempty, toList_digitText]
    rfl

theorem digital_wholeDigits (h : Digital d.digits) : Digital d.wholeDigits := by
  unfold wholeDigits
  split
  · exact List.forall_mem_append.mpr ⟨fun e he => h e (List.mem_of_mem_take he), digital_zeros _⟩
  · exact digital_zeros 1

theorem digital_restDigits (h : Digital d.digits) : Digital d.restDigits := by
  unfold restDigits
  split
  · exact fun e he => h e (List.mem_of_mem_drop he)
  · exact List.forall_mem_append.mpr ⟨digital_zeros _, h⟩

theorem fraction_positional (d : Decimal) :
    fraction (d.wholeDigits ++ d.restDigits) * 10 ^ (d.wholeDigits.length : ℤ) = d.value := by
  unfold wholeDigits restDigits value
  split
  next positive =>
    have point : (d.point.toNat : ℤ) = d.point := Int.toNat_of_nonneg positive.le
    rcases le_total d.digits.length d.point.toNat with short | long
    · rw [List.take_of_length_le short, List.drop_of_length_le short, List.append_nil, fraction_append,
        fraction_zeros, zero_div, add_zero, List.length_append, List.length_replicate,
        Nat.add_sub_cancel' short, point]
    · rw [Nat.sub_eq_zero_of_le long, List.replicate_zero, List.append_nil, List.take_append_drop,
        List.length_take_of_le long, point]
  next negative =>
    obtain ⟨k, hk⟩ : ∃ k : ℕ, d.point = -k := ⟨(-d.point).toNat, by omega⟩
    rw [hk, neg_neg, Int.toNat_natCast, ← List.append_assoc, ← List.replicate_one,
      ← List.replicate_add, fraction_append, fraction_zeros, List.length_replicate,
      List.length_replicate, zero_add, pow_add, zpow_neg, zpow_natCast, zpow_natCast]
    field_simp

theorem unsigned?_text (digital : Digital d.digits) (nonempty : d.digits ≠ []) :
    unsigned? d.text.toList = some d.value := by
  unfold text
  dsimp only
  split
  · match d, digital, nonempty with
    | ⟨first :: rest, p⟩, digital, _ =>
      obtain ⟨hf, hr⟩ := digital_cons.mp digital
      rw [toList_scientific, unsigned?_pointed (digital_cons.mpr ⟨hf, digital_nil⟩)
        (List.cons_ne_nil _ _) hr (exponent?_exponentText _), value, List.length_singleton,
        Nat.cast_one, add_sub_cancel]
      rfl
  · have plain := unsigned?_pointed (digital_wholeDigits digital) (wholeDigits_ne_nil nonempty)
      (digital_restDigits digital) exponent?_nil
    rw [toList_positional nonempty, ← List.append_nil (pointed _ _), plain, add_zero,
      fraction_positional]

end Decimal

namespace Rational

open Numeral

variable {r : Rational} {neg : Bool} {y : ℚ} {text : String}

/-- All but the finite numbers whose mantissa is a power of two: other numbers are closer
to those from below than from above, and their texts are chosen as if they were not. -/
def Legible : Rational → Prop
  | .finite _ a => ¬ a.mant.isPowerOfTwo
  | _ => True

instance : DecidablePred Legible
  | .zero _ => inferInstanceAs (Decidable True)
  | .finite _ a => inferInstanceAs (Decidable (¬ a.mant.isPowerOfTwo))
  | .infinite _ => inferInstanceAs (Decidable True)

theorem read?_signText (neg : Bool) (h : unsigned? text.toList = some y) :
    read? (signText neg ++ text) = some (if neg then -y else y) := by
  cases neg with
  | false =>
    rw [signText, if_neg Bool.false_ne_true, String.empty_append]
    exact read?_of_unsigned? h
  | true => exact read?_minus h

/-- The text of a number, read exactly, is a number that rounds to it. -/
theorem exists_read?_text {x : ℚ} (legible : r.Legible) (hx : r.value? = some x) :
    ∃ y, read? r.text = some y ∧ r.Rounds y := by
  cases r with
  | zero neg =>
    have zero : unsigned? "0".toList = some ((0 : ℕ) : ℚ) := unsigned?_repr 0
    refine ⟨_, read?_signText neg zero, ?_⟩
    cases neg <;> simp [Rounds]
  | finite neg a =>
    have pos := Decimal.shortest_pos a
    have ordinary : a.mant ≠ 2 ^ 63 := fun h => legible ⟨63, h⟩
    have nearest := Decimal.nearest_shortest ordinary
    refine ⟨_, read?_signText neg (Decimal.unsigned?_text (Decimal.digital_shortest a)
      (Decimal.digits_ne_nil pos)), ?_⟩
    cases neg with
    | false => exact ⟨by simp [pos.le], by simpa [abs_of_pos pos] using nearest⟩
    | true => exact ⟨by simp [pos], by simpa [abs_of_pos pos] using nearest⟩
  | infinite neg => cases hx

theorem Rounds.iff_eq_finite {a : Magnitude} (h : (finite neg a).Rounds y) :
    r.Rounds y ↔ r = .finite neg a := by
  constructor
  · intro rounds
    cases r with
    | zero n => exact absurd (by rw [show y = 0 from rounds, abs_zero]) h.2.ne_zero
    | finite n b => rw [rounds.1, ← h.1, rounds.2.unique h.2]
    | infinite n => exact rounds.elim
  · rintro rfl
    exact h

/-- What the text of a number tells. A finite one is read as a number that is off by half of
the last place at most; if it is legible, that number rounds to it and to no other. -/
def ReadsBack (text : String) : Rational → Prop
  | .zero neg => text = if neg then "-0" else "0"
  | .infinite neg => text = if neg then "-Inf" else "+Inf"
  | .finite neg a => ∃ y, read? text = some y ∧ neg = decide (y < 0) ∧
      |(|y| - a.value)| ≤ 2 ^ (a.exp - 65) ∧
      ((finite neg a).Legible → ∀ r : Rational, r.Rounds y ↔ r = .finite neg a)

theorem readsBack_text (r : Rational) : r.ReadsBack r.text := by
  cases r with
  | zero neg => cases neg <;> rfl
  | infinite neg => rfl
  | finite neg a =>
    have pos := Decimal.shortest_pos a
    have read := read?_signText neg (Decimal.unsigned?_text (Decimal.digital_shortest a)
      (Decimal.digits_ne_nil pos))
    refine ⟨_, read, ?_, ?_, ?_⟩
    · cases neg with
      | false => simp [pos.le]
      | true => simp [pos]
    · have size : |(if neg then -(Decimal.shortest a).value else (Decimal.shortest a).value)| =
          (Decimal.shortest a).value := by
        cases neg with
        | false => simp [abs_of_pos pos]
        | true => simp [abs_of_pos pos]
      rw [size]
      exact Decimal.abs_shortest_sub_le a
    · intro legible r
      obtain ⟨y, hy, rounds⟩ := exists_read?_text legible rfl
      cases read.symm.trans hy
      exact rounds.iff_eq_finite

theorem read?_infinite (h : r.value? = none) : read? r.text = none := by
  cases r with
  | zero neg => cases h
  | finite neg a => cases h
  | infinite neg => cases neg <;> rfl

theorem text_infinite_inj : ∀ n m, (infinite n).text = (infinite m).text → n = m := by
  decide

theorem compare_eq_of_text_eq {p q : Rational} (hp : p.Legible) (hq : q.Legible)
    (h : p.text = q.text) : p.compare q = .eq := by
  cases hx : p.value? with
  | some x =>
    obtain ⟨y, readP, roundsP⟩ := exists_read?_text hp hx
    cases hz : q.value? with
    | some z =>
      obtain ⟨y', readQ, roundsQ⟩ := exists_read?_text hq hz
      have same : y = y' := by
        rw [h, readQ] at readP
        exact (Option.some.inj readP).symm
      have alike := roundsP.value?_unique (same ▸ roundsQ)
      rw [hx, hz] at alike
      rw [compare_of_value? hx hz, compare_eq_iff_eq]
      exact Option.some.inj alike
    | none =>
      rw [h, read?_infinite hz] at readP
      cases readP
  | none =>
    cases hz : q.value? with
    | some z =>
      obtain ⟨y, readQ, _⟩ := exists_read?_text hq hz
      rw [← h, read?_infinite hx] at readQ
      cases readQ
    | none =>
      cases p with
      | infinite n =>
        cases q with
        | infinite m =>
          rw [text_infinite_inj n m h]
          cases m <;> rfl
        | _ => cases hz
      | _ => cases hx

end Rational
end StackMachine
