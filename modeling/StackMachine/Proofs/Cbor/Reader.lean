import Mathlib.Algebra.Group.Nat.Defs
import StackMachine.Cbor.Item
/-! What was written is read, whatever stands behind it. A reader takes a piece of bytes
when it reads them to their end and leaves the rest; heads, strings, arrays and maps
that are written piece by piece are taken piece by piece. -/
namespace StackMachine.Cbor

variable {α β : Type}

/-- From these bytes and any others behind them the reader reads `a` and leaves the
others. -/
def Takes (one : Reader α) (bytes : Bytes) (a : α) : Prop :=
  ∀ rest, one (bytes ++ rest) = some (a, rest)

theorem length_bigEndian (count n : Nat) : (bigEndian count n).length = count := by
  induction count with
  | zero => rfl
  | succ count ih => rw [bigEndian, List.length_cons, ih]

theorem foldl_bigEndian (count n acc : Nat) :
    (bigEndian count n).foldl (fun m b => 256 * m + b.toNat) acc =
      acc * 256 ^ count + n % 256 ^ count := by
  induction count generalizing acc with
  | zero => simp [bigEndian, Nat.mod_one]
  | succ count ih =>
    have hbyte : (n / 256 ^ count % 256).toUInt8.toNat = n / 256 ^ count % 256 := by simp
    have hsplit : n % 256 ^ (count + 1) = n % 256 ^ count + 256 ^ count * (n / 256 ^ count % 256) := by
      rw [Nat.pow_succ, Nat.mod_mul]
    rw [bigEndian, List.foldl_cons, ih, hbyte, hsplit]
    grind

theorem ofBigEndian_bigEndian {count n : Nat} (h : n < 256 ^ count) :
    ofBigEndian (bigEndian count n) = n := by
  rw [ofBigEndian, foldl_bigEndian, Nat.zero_mul, Nat.zero_add, Nat.mod_eq_of_lt h]

theorem take?_append {count : Nat} {front : Bytes} (h : front.length = count) (rest : Bytes) :
    take? count (front ++ rest) = some (front, rest) := by
  have enough : reaches count (front ++ rest) = true := by
    rw [reaches_iff, List.length_append]
    omega
  rw [take?, if_pos enough, List.splitAt_eq, ← h, List.take_left, List.drop_left]

theorem readHead_of_first {major info n : Nat} {behind : Bytes} (hmajor : major < 7)
    (hinfo : info < 28) (hwidth : behind.length = argumentWidth info)
    (hargument : argumentOf info behind = some n) (rest : Bytes) :
    readHead ((32 * major + info).toUInt8 :: (behind ++ rest)) =
      some (⟨major, info, some n⟩, rest) := by
  have hfirst : (32 * major + info).toUInt8.toNat = 32 * major + info := by
    simp only [Nat.toUInt8_eq, UInt8.toNat_ofNat']
    omega
  have hdiv : (32 * major + info) / 32 = major := by omega
  have hmod : (32 * major + info) % 32 = info := by omega
  have hwell : Head.wellFormed ⟨major, info, some n⟩ = true := by
    have hplain : (info == 31) = false := by
      rw [beq_eq_false_iff_ne]
      omega
    have hmajor' : (major == Major.primitive) = false := by
      rw [beq_eq_false_iff_ne, Major.primitive]
      omega
    simp [Head.wellFormed, hplain, hmajor', hinfo]
  simp only [readHead, Head.ofFirst, hfirst, hdiv, hmod, take?_append hwidth]
  simp [hargument, hwell]

/-- Every head that is written is read back; which of the five forms it has is not told
from its argument again. -/
theorem readHead_writeHead (major : Nat) {n : Nat} (hmajor : major < 7) (hn : n < 2 ^ 64) :
    ∃ info, Takes readHead (writeHead major n) ⟨major, info, some n⟩ := by
  have wide (info count : Nat) (hinfo : info < 28) (hfull : ¬ info < 24)
      (hcount : argumentWidth info = count) (hlt : n < 256 ^ count) :
      Takes readHead ((32 * major + info).toUInt8 :: bigEndian count n) ⟨major, info, some n⟩ := by
    have hargument : argumentOf info (bigEndian count n) = some n := by
      rw [argumentOf, if_neg hfull, if_neg (by omega), ofBigEndian_bigEndian hlt]
    exact readHead_of_first hmajor hinfo (by rw [length_bigEndian, hcount]) hargument
  unfold writeHead
  simp only
  split
  next small =>
    have hwidth : ([] : Bytes).length = argumentWidth n := by simp [argumentWidth, small]
    exact ⟨n, readHead_of_first hmajor (by omega) hwidth (if_pos small)⟩
  split
  next h => exact ⟨24, wide 24 1 (by omega) (by omega) rfl h⟩
  split
  next h => exact ⟨25, wide 25 2 (by omega) (by omega) rfl h⟩
  split
  next h => exact ⟨26, wide 26 4 (by omega) (by omega) rfl h⟩
  next => exact ⟨27, wide 27 8 (by omega) (by omega) rfl hn⟩

theorem takes_readExactly {one : Reader β} {write : α → Bytes} {read : α → β} {l : List α}
    (each : ∀ a ∈ l, Takes one (write a) (read a)) :
    Takes (readExactly one l.length) (l.flatMap write) (l.map read) := by
  intro rest
  induction l with
  | nil => rfl
  | cons a l ih =>
    have first := each a List.mem_cons_self (l.flatMap write ++ rest)
    have others := ih fun b hb => each b (List.mem_cons_of_mem a hb)
    rw [List.flatMap_cons, List.append_assoc, List.length_cons, readExactly, first]
    simp [others]

theorem takes_pairOf {one : Reader α} {front back : Bytes} {key value : α}
    (hkey : Takes one front key) (hvalue : Takes one back value) :
    Takes (pairOf one) (front ++ back) (key, value) := by
  intro rest
  simp [pairOf, hkey (back ++ rest), hvalue rest]

theorem takes_unsigned {n : Nat} (hn : n < 2 ^ 64) (levels : Nat) :
    Takes (readItem levels false) (writeHead Major.unsigned n) (.unsigned n) := by
  obtain ⟨info, head⟩ := readHead_writeHead Major.unsigned (by decide) hn
  intro rest
  rw [readItem, head rest]
  rfl

theorem takes_negative {n : Nat} (hn : n < 2 ^ 64) (levels : Nat) :
    Takes (readItem levels false) (writeHead Major.negative n) (.negative n) := by
  obtain ⟨info, head⟩ := readHead_writeHead Major.negative (by decide) hn
  intro rest
  rw [readItem, head rest]
  rfl

theorem takes_text {bytes : Bytes} (hn : bytes.length < 2 ^ 64) (levels : Nat) :
    Takes (readItem levels false) (writeHead Major.text bytes.length ++ bytes) (.text [bytes]) := by
  obtain ⟨info, head⟩ := readHead_writeHead Major.text (by decide) hn
  intro rest
  rw [List.append_assoc, readItem, head (bytes ++ rest)]
  simp [readString, take?_append, build, Major.text]

theorem takes_array {write : α → Bytes} {read : α → Item} {l : List α} {levels : Nat}
    (hcount : l.length ≤ maxCount) (each : ∀ a ∈ l, Takes (readItem levels false) (write a) (read a)) :
    Takes (readItem (levels + 1) false) (writeHead Major.array l.length ++ l.flatMap write)
      (.array (l.map read)) := by
  have hn : l.length < 2 ^ 64 := Nat.lt_of_le_of_lt hcount (by decide)
  obtain ⟨info, head⟩ := readHead_writeHead Major.array (by decide) hn
  intro rest
  rw [List.append_assoc, readItem, head (l.flatMap write ++ rest)]
  simp [readSequence, hcount, takes_readExactly each rest, build, Major.array]

theorem takes_map {write : α → Bytes} {read : α → Item × Item} {l : List α} {levels : Nat}
    (hcount : l.length ≤ maxCount)
    (each : ∀ a ∈ l, Takes (pairOf (readItem levels false)) (write a) (read a)) :
    Takes (readItem (levels + 1) false) (writeHead Major.map l.length ++ l.flatMap write)
      (.map (l.map read)) := by
  have hn : l.length < 2 ^ 64 := Nat.lt_of_le_of_lt hcount (by decide)
  obtain ⟨info, head⟩ := readHead_writeHead Major.map (by decide) hn
  intro rest
  rw [List.append_assoc, readItem, head (l.flatMap write ++ rest)]
  simp [readSequence, hcount, takes_readExactly each rest, build, Major.map]

end StackMachine.Cbor
