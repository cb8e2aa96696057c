import Mathlib.Data.Int.ModEq
import Mathlib.Data.Rat.Floor
import StackMachine.Proofs.Builtin.Agreement
/-! Arithmetic on words. Sums, differences, products and shifts are those of the integers,
wrapped around at 64 bits; quotient and remainder satisfy the law of truncated division, also
where the quotient does not fit. -/
namespace StackMachine

/-- The word that an integer wraps around to; no other word has its residue. -/
def Wraps (z : ℤ) (n : Int64) : Prop := n.toInt ≡ z [ZMOD 2 ^ 64]

/-- The quotient and the remainder of two words. -/
structure Divides (a b q r : Int64) : Prop where
  identity : q.toInt * b.toInt + r.toInt ≡ a.toInt [ZMOD 2 ^ 64]
  small : |r.toInt| < |b.toInt|
  sign : r.toInt = 0 ∨ r.toInt.sign = a.toInt.sign
  truncated : ∀ n : Int64, n.toInt = a.toInt.tdiv b.toInt → q = n

def ShiftCount (b : Int64) : Prop := 0 ≤ b.toInt ∧ b.toInt ≤ 63

variable {a b n : Int64} {z : ℤ}

theorem wraps_of_bmod (h : n.toInt = z.bmod (2 ^ 64)) : Wraps z n := by
  unfold Wraps Int.ModEq
  rw [h]
  exact Int.bmod_emod

theorem divides_div_mod (hb : b ≠ 0) : Divides a b (a / b) (a % b) := by
  have nonzero : b.toInt ≠ 0 := fun h => hb (Int64.toInt_inj.mp h)
  have remainder := Int64.toInt_mod a b
  have quotient : Wraps (a.toInt.tdiv b.toInt) (a / b) := wraps_of_bmod (Int64.toInt_div a b)
  constructor
  · have sum := (quotient.mul_right b.toInt).add_right (a.toInt.tmod b.toInt)
    rwa [Int.tdiv_mul_add_tmod, ← remainder] at sum
  · rw [remainder, Int.abs_eq_natAbs, Int.abs_eq_natAbs, Int.natAbs_tmod]
    exact_mod_cast Nat.mod_lt a.toInt.natAbs (Int.natAbs_pos.mpr nonzero)
  · rw [remainder, Int.sign_tmod]
    by_cases divides : b.toInt ∣ a.toInt
    · exact .inl (Int.tmod_eq_zero_of_dvd divides)
    · exact .inr (if_neg divides)
  · intro n fits
    apply Int64.toInt_inj.mp
    rw [Int64.toInt_div, ← fits]
    exact n.toInt_bmod_size

/-! Shifts take their count as a word of its own, modulo the width. -/

theorem ShiftCount.smod_width (count : ShiftCount b) : b.toBitVec.smod 64 = b.toBitVec := by
  apply BitVec.eq_of_toInt_eq
  rw [BitVec.toInt_smod, Int64.toInt_toBitVec]
  exact Int.fmod_eq_of_lt count.1 (Int.lt_add_one_of_le count.2)

theorem ShiftCount.toNat_toBitVec (count : ShiftCount b) :
    b.toBitVec.toNat = b.toInt.toNat := by
  rw [← BitVec.toNat_toInt_of_sle (x := b.toBitVec)]
  · rfl
  · simpa [BitVec.sle] using count.1

theorem toInt_modEq_toNat (a : Int64) : a.toInt ≡ a.toBitVec.toNat [ZMOD 2 ^ 64] := by
  rw [← Int64.toInt_toBitVec, BitVec.toInt_eq_toNat_bmod]
  exact Int.bmod_emod

theorem ShiftCount.wraps_shiftLeft (count : ShiftCount b) (a : Int64) :
    Wraps (a.toInt * 2 ^ b.toInt.toNat) (a <<< b) := by
  have shifted : Wraps (a.toBitVec.toNat * 2 ^ b.toInt.toNat : ℕ) (a <<< b) := by
    apply wraps_of_bmod
    rw [← Int64.toInt_toBitVec, Int64.toBitVec_shiftLeft, count.smod_width, BitVec.shiftLeft_eq',
      BitVec.toInt_shiftLeft, Nat.shiftLeft_eq, count.toNat_toBitVec]
  apply shifted.trans
  push_cast
  exact (toInt_modEq_toNat a).symm.mul_right _

theorem ShiftCount.toInt_shiftRight (count : ShiftCount b) (a : Int64) :
    (a >>> b).toInt = ⌊(a.toInt : ℚ) / 2 ^ b.toInt.toNat⌋ := by
  rw [← Int64.toInt_toBitVec, Int64.toBitVec_shiftRight, count.smod_width,
    BitVec.toInt_sshiftRight', count.toNat_toBitVec, Int.shiftRight_eq_div_pow,
    Int64.toInt_toBitVec, ← Rat.floor_intCast_div_natCast]
  push_cast
  rfl

namespace Builtin

inductive OnWords : Int32 → IntegerOp → Prop where
  | add : OnWords Nr.add (total (· + ·))
  | sub : OnWords Nr.sub (total (· - ·))
  | mul : OnWords Nr.mul (total (· * ·))
  | div : OnWords Nr.div divide
  | mod : OnWords Nr.mod remainder
  | shl : OnWords Nr.shl (shift (· <<< ·))
  | shr : OnWords Nr.shr (shift (· >>> ·))

theorem OnWords.resolve {nr : Int32} {op : IntegerOp} (h : OnWords nr op) :
    ∃ f, (∀ held, 2 ≤ held → registry.resolve nr held = .ok (binary f)) ∧
      ∀ a b, f (.integer a) (.integer b) = .integer <$> op a b := by
  cases h <;> exact ⟨_, fun _ h => resolve_entry rfl rfl rfl h, fun _ _ => rfl⟩

theorem shift_of_count (f : Int64 → Int64 → Int64) (count : ShiftCount b) :
    shift f a b = .ok (f a b) := by
  unfold shift
  rw [if_pos]
  exact ⟨Int64.le_iff_toInt_le.mpr count.1, Int64.le_iff_toInt_le.mpr count.2⟩

theorem shift_of_not_count (f : Int64 → Int64 → Int64) (other : ¬ ShiftCount b) :
    shift f a b = .error (.invalidOperand (.shiftCount b)) := by
  unfold shift
  rw [if_neg]
  intro inside
  exact other ⟨Int64.le_iff_toInt_le.mp inside.1, Int64.le_iff_toInt_le.mp inside.2⟩

end Builtin

namespace Engine

open Builtin (OnWords)

variable {e : Engine}

section Operation

variable {nr : Int32} {op : Builtin.IntegerOp} (hreg : e.registry = some Builtin.registry)
  (room : e.HasRoomFor [.integer a, .integer b]) (known : OnWords nr op)

include hreg room known

theorem yields_words (result : op a b = .ok n) :
    e.Yields (dispatchOn nr (.integer a) (.integer b)) [.integer n] := by
  obtain ⟨f, resolves, hf⟩ := known.resolve
  apply yields_dispatchOn hreg resolves room
  · simp [hf, result]
  · simp [Value.footprint]

theorem refuses_words_iff {fault : Fault} {bad : Prop} (fails : bad → op a b = .error fault)
    (works : ¬ bad → ∃ n, op a b = .ok n) :
    e.Refuses (dispatchOn nr (.integer a) (.integer b)) fault.kind ↔ bad := by
  obtain ⟨f, resolves, hf⟩ := known.resolve
  constructor
  · intro refuses
    by_contra good
    obtain ⟨n, result⟩ := works good
    exact (yields_words hreg room known result).not_refuses refuses
  · intro h
    apply refuses_dispatchOn hreg resolves room
    simp [hf, fails h]

end Operation

/-- Two words on a machine with room for them are added, subtracted, multiplied and negated
as integers are, wrapped around; they are divided unless the divisor is zero, and shifted
unless the count is past the word, and no other pair is refused. -/
theorem words_wrap_and_divide (hreg : e.registry = some Builtin.registry)
    (room : e.HasRoomFor [.integer a, .integer b]) :
    (∀ p ∈ Builtin.ringOperations, ∃ n, Wraps (p.2 a.toInt b.toInt) n ∧
      e.Yields (dispatchOn p.1 (.integer a) (.integer b)) [.integer n]) ∧
    (∃ n, Wraps (-a.toInt) n ∧
      e.Yields [.push (some (.integer a)), .dispatch Builtin.Nr.neg] [.integer n]) ∧
    -- division
    (∀ nr ∈ [Builtin.Nr.div, Builtin.Nr.mod],
      (e.Refuses (dispatchOn nr (.integer a) (.integer b)) .divisionByZero ↔ b = 0)) ∧
    (b ≠ 0 → ∃ q r, Divides a b q r ∧
      e.Yields (dispatchOn Builtin.Nr.div (.integer a) (.integer b)) [.integer q] ∧
      e.Yields (dispatchOn Builtin.Nr.mod (.integer a) (.integer b)) [.integer r]) ∧
    -- shifts
    (∀ nr ∈ [Builtin.Nr.shl, Builtin.Nr.shr],
      (e.Refuses (dispatchOn nr (.integer a) (.integer b)) .invalidOperand ↔ ¬ ShiftCount b)) ∧
    (ShiftCount b → ∃ l r, Wraps (a.toInt * 2 ^ b.toInt.toNat) l ∧
      r.toInt = ⌊(a.toInt : ℚ) / 2 ^ b.toInt.toNat⌋ ∧
      e.Yields (dispatchOn Builtin.Nr.shl (.integer a) (.integer b)) [.integer l] ∧
      e.Yields (dispatchOn Builtin.Nr.shr (.integer a) (.integer b)) [.integer r]) := by
  refine ⟨?_, ?_, ?_, ?_, ?_, ?_⟩
  · simp only [Builtin.ringOperations, List.mem_cons, List.not_mem_nil, or_false]
    rintro p (rfl | rfl | rfl)
    · exact ⟨a + b, wraps_of_bmod (Int64.toInt_add a b), yields_words hreg room .add rfl⟩
    · exact ⟨a - b, wraps_of_bmod (Int64.toInt_sub a b), yields_words hreg room .sub rfl⟩
    · exact ⟨a * b, wraps_of_bmod (Int64.toInt_mul a b), yields_words hreg room .mul rfl⟩
  · have one (n : Int64) : e.HasRoomFor ([] ++ [.integer n]) :=
      room.mono (by simp) (by simp [Value.footprint])
    have known (held : Nat) (h : 1 ≤ held) :
        Builtin.registry.resolve Builtin.Nr.neg held = .ok (Builtin.unary Builtin.negate) :=
      Builtin.resolve_entry rfl rfl rfl h
    refine ⟨-a, wraps_of_bmod (Int64.toInt_neg a), ?_⟩
    exact ((Yields.nil e).push_of_room (one a)).unary_of_room hreg known rfl (one (-a))
  · simp only [List.forall_mem_cons, List.not_mem_nil, false_implies, implies_true, and_true]
    constructor
    · exact refuses_words_iff hreg room .div (fun hb => if_pos hb) fun hb => ⟨_, if_neg hb⟩
    · exact refuses_words_iff hreg room .mod (fun hb => if_pos hb) fun hb => ⟨_, if_neg hb⟩
  · intro hb
    refine ⟨a / b, a % b, divides_div_mod hb, ?_, ?_⟩
    · exact yields_words hreg room .div (if_neg hb)
    · exact yields_words hreg room .mod (if_neg hb)
  · have works (f) (h : ¬ ¬ ShiftCount b) : ∃ n, Builtin.shift f a b = .ok n :=
      ⟨_, Builtin.shift_of_count f (not_not.mp h)⟩
    simp only [List.forall_mem_cons, List.not_mem_nil, false_implies, implies_true, and_true]
    constructor
    · exact refuses_words_iff hreg room .shl (Builtin.shift_of_not_count _) (works _)
    · exact refuses_words_iff hreg room .shr (Builtin.shift_of_not_count _) (works _)
  · intro count
    refine ⟨a <<< b, a >>> b, count.wraps_shiftLeft a, count.toInt_shiftRight a, ?_, ?_⟩
    · exact yields_words hreg room .shl (Builtin.shift_of_count _ count)
    · exact yields_words hreg room .shr (Builtin.shift_of_count _ count)

theorem leastWord_wraps_and_divides :
    (create { capacity := 2, limit := 16 }).HasRoomFor [.integer Int64.minValue, .integer (-1)] ∧
    (∃ n, Wraps (Int64.minValue.toInt + (-1)) n ∧ (create { capacity := 2, limit := 16 }).Yields
      (dispatchOn Builtin.Nr.add (.integer Int64.minValue) (.integer (-1))) [.integer n]) ∧
    (∃ q r, Divides Int64.minValue (-1) q r ∧
      (create { capacity := 2, limit := 16 }).Yields
        (dispatchOn Builtin.Nr.div (.integer Int64.minValue) (.integer (-1))) [.integer q] ∧
      (create { capacity := 2, limit := 16 }).Yields
        (dispatchOn Builtin.Nr.mod (.integer Int64.minValue) (.integer (-1))) [.integer r]) ∧
    (create { capacity := 2, limit := 16 }).Refuses
      (dispatchOn Builtin.Nr.shl (.integer Int64.minValue) (.integer (-1))) .invalidOperand := by
  have room : (create { capacity := 2, limit := 16 }).HasRoomFor
      [.integer Int64.minValue, .integer (-1)] := ⟨by decide, by decide⟩
  obtain ⟨ring, _, _, division, shifts, _⟩ := words_wrap_and_divide rfl room
  refine ⟨room, ring (Builtin.Nr.add, (· + ·)) (by simp [Builtin.ringOperations]),
    division (by decide), (shifts Builtin.Nr.shl (by simp)).mpr ?_⟩
  exact fun count => absurd count.1 (by decide)

end Engine
end StackMachine
