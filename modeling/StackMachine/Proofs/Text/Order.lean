import Mathlib.Data.Char
import Mathlib.Data.List.Lex
import StackMachine.Builtin.Comparison
import StackMachine.Proofs.Text.Utf8
/-! The order of texts. UTF-8 keeps the order of characters: an encoding that is longer has a
larger lead byte, encodings of one length list the digits of the code to the base 64, and none
is the beginning of another. So texts compared by their bytes are ordered by their characters. -/
namespace StackMachine.Text

section Lists

variable {α β : Type} {r : α → α → Prop} {q : β → β → Prop} {l m : List α}

theorem lex_append_append (h : List.Lex r l m) (free : ¬ l <+: m) (x y : List α) :
    List.Lex r (l ++ x) (m ++ y) := by
  induction h with
  | nil => exact absurd List.nil_prefix free
  | rel less => exact .rel less
  | cons _ ih => exact .cons (ih fun begins => free ((List.prefix_cons_inj _).mpr begins))

theorem lex_iff_of_mono [Std.Trichotomous r] [Std.Asymm q] {f : List α → List β}
    (mono : ∀ {l m}, List.Lex r l m → List.Lex q (f l) (f m)) :
    List.Lex q (f l) (f m) ↔ List.Lex r l m := by
  refine ⟨fun less => ?_, mono⟩
  by_contra notLess
  by_cases greater : List.Lex r m l
  · exact Std.Asymm.asymm _ _ less (mono greater)
  · obtain rfl := Std.Trichotomous.trichotomous l m notLess greater
    exact Std.Asymm.asymm _ _ less less

end Lists

section Digits

variable {k l mark mark' m n : Nat}

theorem ofNat_lt_ofNat (less : m < n) (small : n < 256) : UInt8.ofNat m < UInt8.ofNat n := by
  rw [UInt8.lt_iff_toNat_lt, UInt8.toNat_ofNat', UInt8.toNat_ofNat']
  omega

/-- The part of a code that is in the lead byte, before `k` digits to the base 64. -/
def lead : (k code : Nat) → Nat
  | 0, code => code
  | k + 1, code => lead k (code / 64)

def trail : (k code : Nat) → List UInt8
  | 0, _ => []
  | k + 1, code => trail k (code / 64) ++ [.ofNat (code % 64 + 0x80)]

theorem length_trail (k n : Nat) : (trail k n).length = k := by
  induction k generalizing n with
  | zero => rfl
  | succ k ih => rw [trail, List.length_append, ih, List.length_singleton]

theorem lead_mono (h : m ≤ n) : lead k m ≤ lead k n := by
  induction k generalizing m n with
  | zero => exact h
  | succ k ih => exact ih (Nat.div_le_div_right h)

theorem lex_trail (less : m < n) (same : lead k m = lead k n) :
    List.Lex (· < ·) (trail k m) (trail k n) := by
  induction k generalizing m n with
  | zero => exact absurd same less.ne
  | succ k ih =>
    rw [trail, trail]
    by_cases higher : m / 64 = n / 64
    · rw [higher]
      exact .append_left _ (.rel (ofNat_lt_ofNat (by omega) (by omega))) _
    · have earlier := ih (by omega) same
      refine lex_append_append earlier (fun begins => ?_) _ _
      rw [begins.eq_of_length (by rw [length_trail, length_trail])] at earlier
      exact Std.Irrefl.irrefl _ earlier

/-- The lengths of encodings: how many bytes follow the lead byte, how that is marked, and
the codes that have this length. -/
def Fits (k mark n : Nat) : Prop :=
  k = 0 ∧ mark = 0 ∧ n < 0x80 ∨ k = 1 ∧ mark = 0xC0 ∧ 0x80 ≤ n ∧ n < 0x800 ∨
  k = 2 ∧ mark = 0xE0 ∧ 0x800 ≤ n ∧ n < 0x10000 ∨ k = 3 ∧ mark = 0xF0 ∧ 0x10000 ≤ n ∧ n < 0x110000

theorem Fits.small (h : Fits k mark n) : mark + lead k n < 256 := by
  rcases h with ⟨rfl, rfl, _⟩ | ⟨rfl, rfl, _⟩ | ⟨rfl, rfl, _⟩ | ⟨rfl, rfl, _⟩ <;>
    simp only [lead] <;> omega

theorem Fits.lead_lt (h : Fits k mark m) (h' : Fits l mark' n) (less : m < n) :
    mark + lead k m < mark' + lead l n ∨ k = l ∧ mark = mark' := by
  rcases h with ⟨rfl, rfl, _⟩ | ⟨rfl, rfl, _⟩ | ⟨rfl, rfl, _⟩ | ⟨rfl, rfl, _⟩ <;>
    rcases h' with ⟨rfl, rfl, _⟩ | ⟨rfl, rfl, _⟩ | ⟨rfl, rfl, _⟩ | ⟨rfl, rfl, _⟩ <;>
    simp only [lead, and_self, or_true] <;> omega

end Digits

variable {c d : Char} {cs ds : List Char}

theorem exists_encode_eq (c : Char) : ∃ k mark, Fits k mark c.val.toNat ∧
    String.utf8EncodeChar c = .ofNat (mark + lead k c.val.toNat) :: trail k c.val.toNat := by
  have valid : c.val.toNat < 0x110000 := by
    rcases c.valid with small | ⟨_, large⟩
    · exact Nat.lt_trans small (by decide)
    · exact large
  simp only [String.utf8EncodeChar]
  split_ifs with one two three
  · exact ⟨0, 0, .inl ⟨rfl, rfl, by omega⟩, by simp [lead, trail]⟩
  · refine ⟨1, 0xC0, .inr (.inl ⟨rfl, rfl, by omega⟩), ?_⟩
    have digit : c.val.toNat / 64 % 32 + 192 = 192 + c.val.toNat / 64 := by omega
    simp only [lead, trail, digit, List.nil_append]
  · refine ⟨2, 0xE0, .inr (.inr (.inl ⟨rfl, rfl, by omega⟩)), ?_⟩
    have digit : c.val.toNat / 4096 % 16 + 224 = 224 + c.val.toNat / 64 / 64 := by omega
    simp only [lead, trail, digit, List.nil_append, List.cons_append]
  · refine ⟨3, 0xF0, .inr (.inr (.inr ⟨rfl, rfl, by omega⟩)), ?_⟩
    have digit : c.val.toNat / 262144 % 8 + 240 = 240 + c.val.toNat / 64 / 64 / 64 := by omega
    have second : c.val.toNat / 4096 = c.val.toNat / 64 / 64 := by omega
    simp only [lead, trail, digit, second, List.nil_append, List.cons_append]

theorem lex_encode (less : c < d) :
    List.Lex (· < ·) (String.utf8EncodeChar c) (String.utf8EncodeChar d) := by
  obtain ⟨k, mark, fits, encoded⟩ := exists_encode_eq c
  obtain ⟨l, mark', fits', encoded'⟩ := exists_encode_eq d
  have codes : c.val.toNat < d.val.toNat := less
  rw [encoded, encoded']
  rcases fits.lead_lt fits' codes with smaller | ⟨rfl, rfl⟩
  · exact .rel (ofNat_lt_ofNat smaller fits'.small)
  · rcases (lead_mono codes.le).lt_or_eq with smaller | same
    · exact .rel (ofNat_lt_ofNat (Nat.add_lt_add_left smaller mark) fits'.small)
    · rw [same]
      exact .cons (lex_trail codes same)

theorem eq_of_encode (begins : String.utf8EncodeChar c <+: String.utf8EncodeChar d) : c = d := by
  obtain ⟨rest, encoded⟩ := begins
  have first := firstChar?_encode d []
  rw [List.append_nil, ← encoded, firstChar?_encode] at first
  exact Option.some.inj first

theorem lex_flatMap (h : List.Lex (· < ·) cs ds) : List.Lex (· < ·)
    (cs.flatMap String.utf8EncodeChar) (ds.flatMap String.utf8EncodeChar) := by
  induction h with
  | @nil d ds =>
    rw [List.flatMap_cons]
    cases encoded : String.utf8EncodeChar d with
    | nil => exact absurd encoded String.utf8EncodeChar_ne_nil
    | cons b bytes => exact .nil
  | rel less =>
    exact lex_append_append (lex_encode less) (fun begins => less.ne (eq_of_encode begins)) _ _
  | cons _ ih => exact .append_left _ ih _

theorem lex_utf8_iff (s t : String) :
    List.Lex (· < ·) (utf8 s) (utf8 t) ↔ List.Lex (· < ·) s.toList t.toList := by
  rw [utf8_eq_flatMap, utf8_eq_flatMap]
  exact lex_iff_of_mono lex_flatMap

theorem compareLex_eq_lt_iff (l m : List UInt8) :
    List.compareLex compare l m = .lt ↔ List.Lex (· < ·) l m := by
  induction l generalizing m with
  | nil =>
    cases m with
    | nil => simp [List.compareLex_nil_nil]
    | cons b m => simp [List.compareLex_nil_cons]
  | cons a l ih =>
    cases m with
    | nil => simp [List.compareLex_cons_nil]
    | cons b m =>
      rw [List.compareLex_cons_cons, Ordering.then_eq_lt, ih, List.cons_lex_cons_iff,
        Std.compare_eq_lt, Std.compare_eq_iff_eq]

/-- Compared by their bytes, texts are in the lexicographic order of their characters. -/
theorem compareBytes_eq_lt_iff (s t : String) :
    Builtin.compareBytes s t = .lt ↔ List.Lex (· < ·) s.toList t.toList := by
  rw [← lex_utf8_iff, ← compareLex_eq_lt_iff]
  rfl

end StackMachine.Text
