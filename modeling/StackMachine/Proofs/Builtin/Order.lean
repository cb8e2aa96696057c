import Mathlib.Order.WithBot
import StackMachine.Proofs.Builtin.Fractions
import StackMachine.Proofs.Builtin.Growth
/-! The six comparisons as one order for each kind of values. A value is compared by a
number, which may be infinite, and by the bytes of its text; equality and order are
decided by these two. -/
namespace StackMachine

namespace Rational

variable {p q : Rational} {x y : ℚ}

abbrev Extended := WithBot (WithTop ℚ)

def extended : Rational → Extended
  | .zero _ => ((0 : ℚ) : WithTop ℚ)
  | .finite neg a => ((if neg then -a.value else a.value : ℚ) : WithTop ℚ)
  | .infinite neg => if neg then ⊥ else (⊤ : WithTop ℚ)

theorem compare_coe (x y : ℚ) :
    Ord.compare ((x : WithTop ℚ) : Extended) ((y : WithTop ℚ) : Extended) = Ord.compare x y := by
  have mono : StrictMono fun x : ℚ => ((x : WithTop ℚ) : Extended) :=
    WithBot.coe_strictMono.comp WithTop.coe_strictMono
  rw [← cmp_eq_compare, ← cmp_eq_compare]
  exact mono.cmp_map_eq x y

theorem extended_of_value? (h : p.value? = some x) : p.extended = ((x : WithTop ℚ) : Extended) := by
  cases p with
  | zero neg =>
    cases h
    rfl
  | finite neg a =>
    cases h
    rfl
  | infinite neg => cases h

theorem exists_infinite (h : p.value? = none) : ∃ neg, p = .infinite neg := by
  cases p with
  | zero neg => cases h
  | finite neg a => cases h
  | infinite neg => exact ⟨neg, rfl⟩

theorem compare_infinite (h : p.value? = some x) (neg : Bool) :
    p.compare (.infinite neg) = (if neg then .gt else .lt) ∧
      (infinite neg).compare p = if neg then .lt else .gt := by
  cases p with
  | zero n => exact ⟨rfl, rfl⟩
  | finite n a => exact ⟨rfl, rfl⟩
  | infinite n => cases h

theorem compare_eq_compare_extended (p q : Rational) :
    p.compare q = Ord.compare p.extended q.extended := by
  have above (x : ℚ) : ((x : WithTop ℚ) : Extended) < ((⊤ : WithTop ℚ) : Extended) :=
    WithBot.coe_lt_coe.mpr (WithTop.coe_lt_top x)
  have below (x : ℚ) : (⊥ : Extended) < ((x : WithTop ℚ) : Extended) := WithBot.bot_lt_coe _
  cases hp : p.value? with
  | some x =>
    rw [extended_of_value? hp]
    cases hq : q.value? with
    | some y => rw [extended_of_value? hq, compare_of_value? hp hq, compare_coe]
    | none =>
      obtain ⟨neg, rfl⟩ := exists_infinite hq
      rw [(compare_infinite hp neg).1]
      cases neg with
      | false => exact (compare_lt_iff_lt.mpr (above x)).symm
      | true => exact (compare_gt_iff_gt.mpr (below x)).symm
  | none =>
    obtain ⟨n, rfl⟩ := exists_infinite hp
    cases hq : q.value? with
    | some y =>
      rw [extended_of_value? hq, (compare_infinite hq n).2]
      cases n with
      | false => exact (compare_gt_iff_gt.mpr (above y)).symm
      | true => exact (compare_lt_iff_lt.mpr (below y)).symm
    | none =>
      obtain ⟨k, rfl⟩ := exists_infinite hq
      have between : (⊥ : Extended) < ((⊤ : WithTop ℚ) : Extended) := WithBot.bot_lt_coe _
      cases n with
      | false =>
        cases k with
        | false => exact (compare_eq_iff_eq.mpr rfl).symm
        | true => exact (compare_gt_iff_gt.mpr between).symm
      | true =>
        cases k with
        | false => exact (compare_lt_iff_lt.mpr between).symm
        | true => exact (compare_eq_iff_eq.mpr rfl).symm

end Rational

namespace Value

variable {a b c : Value}

/-- The number a value is compared by; that of a text is zero. -/
def number : Value → Rational.Extended
  | .integer n => (((n.toInt : ℚ) : WithTop ℚ) : Rational.Extended)
  | .string _ => 0
  | .rational r => r.extended
  | .opcodeRef nr => (((nr.toInt : ℚ) : WithTop ℚ) : Rational.Extended)

/-- The bytes a value is compared by; a number has none. -/
def bytes : Value → List UInt8
  | .string s => Text.utf8 s
  | _ => []

def rank : Value → Value → Ordering := compareLex (compareOn number) (compareOn bytes)

instance : Std.TransCmp rank := inferInstanceAs (Std.TransCmp (compareLex _ _))

theorem rank_eq (a b : Value) :
    rank a b = (compare a.number b.number).then (compare a.bytes b.bytes) := rfl

theorem rank_of_numbers (ha : a.bytes = []) (hb : b.bytes = []) :
    rank a b = compare a.number b.number := by
  rw [rank_eq, ha, hb]
  exact Ordering.then_eq

theorem compare_cast (m n : ℤ) :
    compare (((m : ℚ) : WithTop ℚ) : Rational.Extended) (((n : ℚ) : WithTop ℚ) : Rational.Extended) =
      compare m n := by
  have mono : StrictMono (Int.cast : ℤ → ℚ) := Int.cast_strictMono
  rw [Rational.compare_coe, ← cmp_eq_compare, mono.cmp_map_eq, cmp_eq_compare]

theorem ofBool_inj {v w : Bool} : ofBool v = ofBool w ↔ v = w := by
  cases v <;> cases w <;> decide

/-- Of one kind, and of a kind that is ordered. -/
def Comparable (a b : Value) : Prop := a.kind = b.kind ∧ a.kind ≠ .opcodeRef

instance (a b : Value) : Decidable (a.Comparable b) := inferInstanceAs (Decidable (_ ∧ _))

theorem not_comparable_iff (a b : Value) :
    ¬ a.Comparable b ↔ a.kind ≠ b.kind ∨ a.kind = .opcodeRef ∧ b.kind = .opcodeRef := by
  unfold Comparable
  by_cases h : a.kind = b.kind
  · simp [h]
  · simp [h]

theorem Comparable.trans (hab : a.Comparable b) (hbc : b.Comparable c) : a.Comparable c :=
  ⟨hab.1.trans hbc.1, hab.2⟩

theorem Comparable.symm (h : a.Comparable b) : b.Comparable a := ⟨h.1.symm, h.1 ▸ h.2⟩

theorem rank_integer (m n : Int64) : rank (.integer m) (.integer n) = compare m.toInt n.toInt :=
  (rank_of_numbers rfl rfl).trans (compare_cast _ _)

theorem rank_opcodeRef (m n : Int32) :
    rank (.opcodeRef m) (.opcodeRef n) = compare m.toInt n.toInt :=
  (rank_of_numbers rfl rfl).trans (compare_cast _ _)

theorem rank_rational (p q : Rational) : rank (.rational p) (.rational q) = p.compare q :=
  (rank_of_numbers rfl rfl).trans (p.compare_eq_compare_extended q).symm

theorem rank_string (s t : String) : rank (.string s) (.string t) = Builtin.compareBytes s t := by
  have same : compare (string s).number (string t).number = .eq := compare_eq_iff_eq.mpr rfl
  rw [rank_eq, same]
  rfl

theorem order_of_comparable (h : a.Comparable b) : Builtin.order a b = .ok (rank a b) := by
  obtain ⟨kind, plain⟩ := h
  cases a with
  | integer m =>
    cases b with
    | integer n => rw [rank_integer, Builtin.order]
    | _ => cases kind
  | string s =>
    cases b with
    | string t => rw [rank_string, Builtin.order]
    | _ => cases kind
  | rational p =>
    cases b with
    | rational q => rw [rank_rational, Builtin.order]
    | _ => cases kind
  | opcodeRef nr => exact absurd rfl plain

theorem order_of_not_comparable (h : ¬ a.Comparable b) :
    ∃ f, Builtin.order a b = .error f ∧ f.kind = .typeMismatch := by
  cases a with
  | integer m =>
    cases b with
    | integer n => exact absurd ⟨rfl, nofun⟩ h
    | _ => exact ⟨_, rfl, rfl⟩
  | string s =>
    cases b with
    | string t => exact absurd ⟨rfl, nofun⟩ h
    | _ => exact ⟨_, rfl, rfl⟩
  | rational p =>
    cases b with
    | rational q => exact absurd ⟨rfl, nofun⟩ h
    | _ => exact ⟨_, rfl, rfl⟩
  | opcodeRef nr => cases b <;> exact ⟨_, rfl, rfl⟩

theorem same_iff (a b : Value) : a.same b = true ↔ a.kind = b.kind ∧ rank a b = .eq := by
  cases a with
  | integer m =>
    cases b with
    | integer n => simp [same, kind, rank_integer, Int64.toInt_inj]
    | _ => simp [same, kind]
  | string s =>
    cases b with
    | string t =>
      rw [rank_string, Builtin.compareBytes, Std.compare_eq_iff_eq, Text.utf8_inj]
      simp [same, kind]
    | _ => simp [same, kind]
  | rational p =>
    cases b with
    | rational q => simp [same, kind, rank_rational]
    | _ => simp [same, kind]
  | opcodeRef m =>
    cases b with
    | opcodeRef n => simp [same, kind, rank_opcodeRef, Int32.toInt_inj]
    | _ => simp [same, kind]

theorem same_self (a : Value) : a.same a = true :=
  (same_iff a a).mpr ⟨rfl, Std.ReflCmp.compare_self⟩

theorem same_comm (a b : Value) : b.same a = a.same b := by
  rw [Bool.eq_iff_iff, same_iff, same_iff]
  exact and_congr eq_comm Std.OrientedCmp.eq_comm

theorem same_trans (hab : a.same b = true) (hbc : b.same c = true) : a.same c = true := by
  rw [same_iff] at *
  exact ⟨hab.1.trans hbc.1, Std.TransCmp.eq_trans hab.2 hbc.2⟩

theorem same_eq_rank (h : a.kind = b.kind) : a.same b = (rank a b == .eq) := by
  rw [Bool.eq_iff_iff, same_iff, beq_iff_eq]
  simp [h]

end Value

namespace Builtin.Comparison

variable {a b : Value}

theorem count_test (o : Ordering) : [lt.test o, eq.test o, gt.test o].count true = 1 := by
  cases o <;> rfl

theorem test_le (o : Ordering) : le.test o = (lt.test o || eq.test o) := by
  cases o <;> rfl

theorem test_ge (o : Ordering) : ge.test o = (gt.test o || eq.test o) := by
  cases o <;> rfl

theorem test_swap (o : Ordering) : gt.test o.swap = lt.test o := by
  cases o <;> rfl

theorem onValues_eq (a b : Value) : Comparison.eq.onValues a b = .ok (.ofBool (a.same b)) := by
  simp [onValues, equality]

theorem onValues_ne (a b : Value) : Comparison.ne.onValues a b = .ok (.ofBool (!a.same b)) := by
  simp [onValues, equality]

theorem onValues_of_comparable (c : Comparison) (h : a.Comparable b) :
    c.onValues a b = .ok (.ofBool (c.test (a.rank b))) := by
  have same := Value.same_eq_rank h.1
  have ordered (holds : Ordering → Bool) :
      comparison holds a b = .ok (.ofBool (holds (a.rank b))) := by
    rw [comparison, Value.order_of_comparable h]
    rfl
  cases c with
  | eq => rw [onValues_eq, same, test]
  | ne => rw [onValues_ne, same, test, bne]
  | lt => exact ordered Ordering.isLT
  | le => exact ordered Ordering.isLE
  | gt => exact ordered Ordering.isGT
  | ge => exact ordered Ordering.isGE

theorem onValues_refused (c : Comparison) (eq : c ≠ .eq) (ne : c ≠ .ne) (h : ¬ a.Comparable b) :
    ∃ f, c.onValues a b = .error f ∧ f.kind = .typeMismatch := by
  obtain ⟨f, order, mismatch⟩ := Value.order_of_not_comparable h
  have refused (holds : Ordering → Bool) : comparison holds a b = .error f := by
    rw [comparison, order]
    rfl
  refine ⟨f, ?_, mismatch⟩
  cases c with
  | eq => exact absurd rfl eq
  | ne => exact absurd rfl ne
  | lt => exact refused Ordering.isLT
  | le => exact refused Ordering.isLE
  | gt => exact refused Ordering.isGT
  | ge => exact refused Ordering.isGE

theorem lightPair_onValues (c : Comparison) : LightPair c.onValues := by
  cases c with
  | eq => exact lightPair_equality true
  | ne => exact lightPair_equality false
  | lt => exact lightPair_comparison Ordering.isLT
  | le => exact lightPair_comparison Ordering.isLE
  | gt => exact lightPair_comparison Ordering.isGT
  | ge => exact lightPair_comparison Ordering.isGE

end Builtin.Comparison

namespace Engine

open Builtin (Comparison)

variable {e : Engine} {cs : List HostCall} {vs ws : List Value} {a b : Value} {v : Bool}

/-- The comparison of two values comes to this answer. -/
def Answers (e : Engine) (c : Comparison) (a b : Value) (v : Bool) : Prop :=
  e.Yields (dispatchOn c.nr a b) [.ofBool v]

section Room

variable (hreg : e.registry = some Builtin.registry) (room : e.HasRoomFor [a, b])

include hreg room

theorem answers_iff (c : Comparison) : e.Answers c a b v ↔ c.onValues a b = .ok (.ofBool v) := by
  have known (held : Nat) (h : 2 ≤ held) := c.resolve_nr h
  constructor
  · intro answers
    cases result : c.onValues a b with
    | error f => exact absurd (refuses_dispatchOn hreg known room result) answers.not_refuses
    | ok w =>
      have yields := yields_dispatchOn hreg known room result (c.lightPair_onValues a b w result)
      rw [List.singleton_inj.mp (yields.unique answers)]
  · intro result
    exact yields_dispatchOn hreg known room result (c.lightPair_onValues a b _ result)

theorem answers_of_comparable (c : Comparison) (h : a.Comparable b) :
    e.Answers c a b (c.test (a.rank b)) :=
  (answers_iff hreg room c).mpr (c.onValues_of_comparable h)

theorem answers_eq_iff : e.Answers .eq a b v ↔ a.same b = v := by
  rw [answers_iff hreg room, Comparison.onValues_eq, Except.ok.injEq, Value.ofBool_inj]

theorem answers_lt_iff : e.Answers .lt a b true ↔ a.Comparable b ∧ a.rank b = .lt := by
  rw [answers_iff hreg room]
  by_cases h : a.Comparable b
  · rw [Comparison.onValues_of_comparable _ h, Except.ok.injEq, Value.ofBool_inj, Comparison.test,
      Ordering.isLT_iff_eq_lt]
    simp [h]
  · obtain ⟨f, result, _⟩ := Comparison.lt.onValues_refused (by simp) (by simp) h
    simp [result, h]

theorem refuses_iff_not_comparable (c : Comparison) (eq : c ≠ .eq) (ne : c ≠ .ne) :
    e.Refuses (dispatchOn c.nr a b) .typeMismatch ↔ ¬ a.Comparable b := by
  constructor
  · intro refuses comparable
    exact (answers_of_comparable hreg room c comparable).not_refuses refuses
  · intro h
    obtain ⟨f, result, kind⟩ := c.onValues_refused eq ne h
    rw [← kind]
    exact refuses_dispatchOn hreg (fun _ => c.resolve_nr) room result

end Room

/-- The comparisons describe one equality of all values and one total order for each kind,
references apart. -/
theorem comparisons_describe_one_order {c : Value} (hreg : e.registry = some Builtin.registry)
    (room : ∀ x ∈ [a, b, c], ∀ y ∈ [a, b, c], e.HasRoomFor [x, y]) :
    -- equality
    (∃ equal, e.Answers .eq a b equal ∧ e.Answers .ne a b !equal) ∧
    e.Answers .eq a a true ∧
    (∀ equal, e.Answers .eq a b equal → e.Answers .eq b a equal) ∧
    (e.Answers .eq a b true → e.Answers .eq b c true → e.Answers .eq a c true) ∧
    (a.kind ≠ b.kind → e.Answers .eq a b false) ∧
    -- order
    (∀ o : Comparison, o ≠ .eq → o ≠ .ne →
      (e.Refuses (dispatchOn o.nr a b) .typeMismatch ↔
        a.kind ≠ b.kind ∨ a.kind = .opcodeRef ∧ b.kind = .opcodeRef)) ∧
    (a.kind = b.kind → a.kind ≠ .opcodeRef → ∃ less equal greater,
      e.Answers .lt a b less ∧ e.Answers .eq a b equal ∧ e.Answers .gt a b greater ∧
      [less, equal, greater].count true = 1 ∧
      e.Answers .le a b (less || equal) ∧ e.Answers .ge a b (greater || equal) ∧
      e.Answers .gt b a less) ∧
    (e.Answers .lt a b true → e.Answers .lt b c true → e.Answers .lt a c true) := by
  have aa := room a (by simp) a (by simp)
  have ab := room a (by simp) b (by simp)
  have ba := room b (by simp) a (by simp)
  have bc := room b (by simp) c (by simp)
  have ac := room a (by simp) c (by simp)
  refine ⟨?_, ?_, ?_, ?_, ?_, ?_, ?_, ?_⟩
  · refine ⟨a.same b, (answers_eq_iff hreg ab).mpr rfl, ?_⟩
    exact (answers_iff hreg ab .ne).mpr (Comparison.onValues_ne a b)
  · exact (answers_eq_iff hreg aa).mpr a.same_self
  · intro equal h
    rw [answers_eq_iff hreg ab] at h
    rw [answers_eq_iff hreg ba, Value.same_comm, h]
  · intro hab hbc
    rw [answers_eq_iff hreg ab] at hab
    rw [answers_eq_iff hreg bc] at hbc
    rw [answers_eq_iff hreg ac]
    exact Value.same_trans hab hbc
  · intro distinct
    rw [answers_eq_iff hreg ab, Bool.eq_false_iff]
    intro same
    exact distinct ((a.same_iff b).mp same).1
  · intro o eq ne
    rw [refuses_iff_not_comparable hreg ab o eq ne]
    exact a.not_comparable_iff b
  · intro kind plain
    have comparable : a.Comparable b := ⟨kind, plain⟩
    have answers (o : Comparison) := answers_of_comparable hreg ab o comparable
    refine ⟨_, _, _, answers .lt, answers .eq, answers .gt, Comparison.count_test _, ?_, ?_, ?_⟩
    · rw [← Comparison.test_le]
      exact answers .le
    · rw [← Comparison.test_ge]
      exact answers .ge
    · rw [← Comparison.test_swap, ← Std.OrientedCmp.eq_swap]
      exact answers_of_comparable hreg ba .gt comparable.symm
  · intro hab hbc
    rw [answers_lt_iff hreg ab] at hab
    rw [answers_lt_iff hreg bc] at hbc
    rw [answers_lt_iff hreg ac]
    exact ⟨hab.1.trans hbc.1, Std.TransCmp.lt_trans hab.2 hbc.2⟩

theorem zeros_lie_between_infinities :
    (∀ x y : Value, (create { capacity := 2 }).HasRoomFor [x, y]) ∧
    (create { capacity := 2 }).Answers .eq (.rational (.zero false)) (.rational (.zero true)) true ∧
    (create { capacity := 2 }).Answers .lt (.rational (.infinite true)) (.rational (.infinite false))
      true := by
  have room (x y : Value) : (create { capacity := 2 }).HasRoomFor [x, y] :=
    ⟨Nat.le_refl 2, fun limited => absurd limited (by decide)⟩
  obtain ⟨_, _, symmetric, _⟩ := comparisons_describe_one_order (e := create { capacity := 2 })
    (a := .rational (.zero true)) (b := .rational (.zero false)) (c := .rational (.zero true)) rfl
    fun x _ y _ => room x y
  obtain ⟨_, _, _, _, _, _, _, transitive⟩ := comparisons_describe_one_order
    (e := create { capacity := 2 }) (a := .rational (.infinite true))
    (b := .rational (.zero true)) (c := .rational (.infinite false)) rfl fun x _ y _ => room x y
  refine ⟨room, symmetric true ?_, transitive ?_ ?_⟩
  · exact (answers_iff rfl (room _ _) .eq).mpr rfl
  · exact (answers_iff rfl (room _ _) .lt).mpr rfl
  · exact (answers_iff rfl (room _ _) .lt).mpr rfl

end Engine
end StackMachine
