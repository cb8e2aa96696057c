import StackMachine.Proofs.Builtin.Calculation
import StackMachine.Proofs.Program.Literals
import StackMachine.Proofs.Rational.Separation
/-! Fractions of cells compared by a program. A literal is rounded when it is pushed, yet
the comparison that follows decides as the exact fractions do. -/
namespace StackMachine

theorem Value.ofBool_eq_one (b : Bool) : ofBool b = .integer 1 ↔ b = true := by
  cases b <;> decide

theorem Value.ofBool_cases (b : Bool) : ofBool b = .integer 1 ∨ ofBool b = .integer 0 := by
  cases b with
  | false => exact .inr rfl
  | true => exact .inl rfl

namespace Builtin

inductive Comparison where
  | eq
  | ne
  | lt
  | le
  | gt
  | ge

namespace Comparison

variable {α : Type} [LinearOrder α]

def nr : Comparison → Int32
  | .eq => Nr.eq
  | .ne => Nr.ne
  | .lt => Nr.lt
  | .le => Nr.le
  | .gt => Nr.gt
  | .ge => Nr.ge

def Relates : Comparison → α → α → Prop
  | .eq, x, y => x = y
  | .ne, x, y => x ≠ y
  | .lt, x, y => x < y
  | .le, x, y => x ≤ y
  | .gt, x, y => x > y
  | .ge, x, y => x ≥ y

def test : Comparison → Ordering → Bool
  | .eq, o => o == .eq
  | .ne, o => o != .eq
  | .lt, o => o.isLT
  | .le, o => o.isLE
  | .gt, o => o.isGT
  | .ge, o => o.isGE

def onValues : Comparison → Value → Value → Except Fault Value
  | .eq => equality true
  | .ne => equality false
  | .lt => comparison Ordering.isLT
  | .le => comparison Ordering.isLE
  | .gt => comparison Ordering.isGT
  | .ge => comparison Ordering.isGE

theorem test_compare (c : Comparison) (x y : α) : c.test (compare x y) = true ↔ c.Relates x y := by
  cases c with
  | eq => simp [test, Relates]
  | ne => simp [test, Relates]
  | lt => simp [test, Relates, Ordering.isLT_iff_eq_lt, compare_lt_iff_lt]
  | le => simp [test, Relates, Ordering.isLE_iff_ne_gt, ← compare_le_iff_le]
  | gt => simp [test, Relates, Ordering.isGT_iff_eq_gt, compare_gt_iff_gt]
  | ge => simp [test, Relates, Ordering.isGE_iff_ne_lt, ← compare_ge_iff_ge]

theorem resolve_nr (c : Comparison) {held : Nat} (h : 2 ≤ held) :
    registry.resolve c.nr held = .ok (binary c.onValues) := by
  cases c <;> exact resolve_entry rfl rfl rfl h

theorem nr_ne_halt (c : Comparison) : c.nr ≠ Nr.halt := by
  cases c <;> decide

theorem onValues_rational (c : Comparison) (p q : Rational) :
    c.onValues (.rational p) (.rational q) = .ok (.ofBool (c.test (p.compare q))) := by
  cases c with
  | eq => simp [onValues, equality, Value.same, test]
  | ne => simp [onValues, equality, Value.same, test, bne]
  | lt => rfl
  | le => rfl
  | gt => rfl
  | ge => rfl

end Comparison

theorem natAbs_cell_le (n : Int32) : n.toInt.natAbs ≤ 2 ^ 31 := by
  have := n.toInt_lt
  have := n.le_toInt
  omega

theorem toInt_ne_zero {n : Int32} (h : n ≠ 0) : n.toInt ≠ 0 := by
  intro hn
  exact h (Int32.toInt_inj.mp hn)

theorem ofBool_test_eq_one (c : Comparison) (n₁ n₂ : Int32) {d₁ d₂ : Int32}
    (hd₁ : d₁ ≠ 0) (hd₂ : d₂ ≠ 0) :
    Value.ofBool (c.test ((Rational.ofFraction n₁.toInt d₁.toInt).compare
      (.ofFraction n₂.toInt d₂.toInt))) = .integer 1 ↔
      c.Relates (n₁.toInt / d₁.toInt : ℚ) (n₂.toInt / d₂.toInt) := by
  rw [Value.ofBool_eq_one, Rational.compare_ofFraction (toInt_ne_zero hd₁) (toInt_ne_zero hd₂)
    (natAbs_cell_le n₁) (natAbs_cell_le d₁) (natAbs_cell_le n₂) (natAbs_cell_le d₂)]
  exact c.test_compare _ _

end Builtin

namespace Engine

variable {e t : Engine} {vs : List Value} {rest : List Int32} {nr : Int32} {w x y : Value}

/-- The engine `t` is `e` with `vs` on top of the stack, running in front of the cells
`rest`. -/
structure Underway (e : Engine) (vs : List Value) (rest : List Int32) (t : Engine) : Prop
    extends e.Holds vs t where
  running : t.status = .running
  left : t.code.toList.drop t.ip = rest

namespace Underway

theorem push {r : Routine Unit} {ws : List Value} {cells : List Int32} (place : Nat) (s : Stack)
    (builtin : e.registry = some Builtin.registry) (h : e.Underway vs (nr :: cells) t)
    (plain : nr ≠ Builtin.Nr.halt) (resolved : Builtin.registry.resolve nr t.stack.size = .ok r)
    (ran : ∀ log, r.run (Builtin.registry.dispatch (t.nesting + t.stack.size))
      { t with ip := t.ip + 1, current := some nr, halting := false, log } =
      (Routine.push w).run (Builtin.registry.dispatch (t.nesting + t.stack.size))
        { t with ip := place, stack := s, current := some nr, halting := false, log })
    (kept : e.Holds ws { t with stack := s }) (room : e.HasRoomFor (ws ++ [w]))
    (left : t.code.toList.drop place = rest) :
    ∃ u, t.step = .ok (.continue, u) ∧ e.Underway (ws ++ [w]) rest u := by
  obtain ⟨hpush, holds⟩ := kept.push_of_room room
  obtain ⟨log, hstep⟩ := step_of_run place (s.holding w) h.running (h.registry_eq.trans builtin)
    h.left plain resolved fun log => by
      rw [ran log, Routine.push, Routine.run_perform]
      exact congrArg Except.ok (answer_push hpush)
  exact ⟨_, hstep, { holds with running := h.running, left := left }⟩

theorem literal {r : Routine Unit} (cells : List Int32) (builtin : e.registry = some Builtin.registry)
    (h : e.Underway vs (nr :: (cells ++ rest)) t) (plain : nr ≠ Builtin.Nr.halt)
    (known : ∀ held, Builtin.registry.resolve nr held = .ok r) (spells : Builtin.Spells r cells w)
    (room : e.HasRoomFor (vs ++ [w])) :
    ∃ u, t.step = .ok (.continue, u) ∧ e.Underway (vs ++ [w]) rest u := by
  obtain ⟨_, _, hcells⟩ := cell_of_drop h.left
  refine h.push (t.ip + 1 + cells.length) t.stack builtin plain (known _) (fun log => ?_) h.toHolds
    room ?_
  · exact spells _ { t with ip := t.ip + 1, current := some nr, halting := false, log } rest hcells
  · rw [← List.drop_drop, hcells, List.drop_left]

theorem fraction {num den : Int32} (roomy : e.Roomy)
    (h : e.Underway vs (Builtin.Nr.pushRational :: num :: den :: rest) t) (nonzero : den ≠ 0)
    (short : vs.length < 2) (light : (vs.map Value.footprint).sum ≤ 40) :
    ∃ u, t.step = .ok (.continue, u) ∧
      e.Underway (vs ++ [.rational (.ofFraction num.toInt den.toInt)]) rest u := by
  refine h.literal [num, den] roomy.registry_eq (by decide) (fun held => ?_)
    (Builtin.spells_pushRational num nonzero) (roomy.hasRoomFor_append short ?_)
  · exact Builtin.resolve_entry rfl rfl rfl held.zero_le
  · exact Nat.add_le_add_right light 40

section Operations

variable (builtin : e.registry = some Builtin.registry) (plain : nr ≠ Builtin.Nr.halt)

include builtin plain

theorem unary_of_room {f : Value → Except Fault Value} (h : e.Underway (vs ++ [x]) (nr :: rest) t)
    (known : ∀ held, 1 ≤ held → Builtin.registry.resolve nr held = .ok (Builtin.unary f))
    (hf : f x = .ok w) (room : e.HasRoomFor (vs ++ [w])) :
    ∃ u, t.step = .ok (.continue, u) ∧ e.Underway (vs ++ [w]) rest u := by
  have hsize : 1 ≤ t.stack.size := by simp [h.size_eq]; omega
  have top : t.stack.values = (e.stack.values ++ vs) ++ [x] := by
    rw [h.values_eq, List.append_assoc]
  obtain ⟨_, _, hrest⟩ := cell_of_drop h.left
  refine h.push (t.ip + 1) (t.stack.dropping x) builtin plain (known _ hsize) (fun log => ?_)
    h.toHolds.drop room hrest
  rw [Builtin.run_unary (e := { t with ip := t.ip + 1, current := some nr, halting := false, log })
    top, hf]
  rfl

theorem binary_of_room {f : Value → Value → Except Fault Value}
    (h : e.Underway [x, y] (nr :: rest) t)
    (known : ∀ held, 2 ≤ held → Builtin.registry.resolve nr held = .ok (Builtin.binary f))
    (hf : f x y = .ok w) (room : e.HasRoomFor [w]) :
    ∃ u, t.step = .ok (.continue, u) ∧ e.Underway [w] rest u := by
  have hsize : 2 ≤ t.stack.size := by simp [h.size_eq]
  have first : e.Holds ([] ++ [x]) { t with stack := t.stack.dropping y } := Holds.drop h.toHolds
  obtain ⟨_, _, hrest⟩ := cell_of_drop h.left
  refine h.push (t.ip + 1) ((t.stack.dropping y).dropping x) builtin plain (known _ hsize)
    (fun log => ?_) first.drop room hrest
  rw [Builtin.run_binary (e := { t with ip := t.ip + 1, current := some nr, halting := false, log })
    h.values_eq, hf]
  rfl

end Operations

theorem binary {f : Value → Value → Except Fault Value} (roomy : e.Roomy)
    (h : e.Underway [x, y] (nr :: rest) t) (plain : nr ≠ Builtin.Nr.halt)
    (known : ∀ held, 2 ≤ held → Builtin.registry.resolve nr held = .ok (Builtin.binary f))
    (hf : f x y = .ok w) (light : w.footprint ≤ 80) :
    ∃ u, t.step = .ok (.continue, u) ∧ e.Underway [w] rest u :=
  h.binary_of_room roomy.registry_eq plain known hf (roomy.hasRoomFor (by simp) (by simpa))

end Underway

/-- A running program that pushes two fractions of cells and compares them comes to the
answer that the exact fractions give. -/
theorem fractions_compare_exactly (roomy : e.Roomy) (running : e.status = .running)
    (c : Builtin.Comparison) {n₁ d₁ n₂ d₂ : Int32} (hd₁ : d₁ ≠ 0) (hd₂ : d₂ ≠ 0)
    (cells : e.code.toList.drop e.ip = Builtin.Nr.pushRational :: n₁ :: d₁ ::
      Builtin.Nr.pushRational :: n₂ :: d₂ :: c.nr :: rest) :
    ∃ t v, e.calls [.step, .step, .step] = .ok (List.replicate 3 (.stepped .continue), t) ∧
      t.stack.values = e.stack.values ++ [v] ∧ (v = .integer 1 ∨ v = .integer 0) ∧
      (v = .integer 1 ↔ c.Relates (n₁.toInt / d₁.toInt : ℚ) (n₂.toInt / d₂.toInt)) ∧
      (c = .eq → (v = .integer 1 ↔ n₁.toInt * d₂.toInt = d₁.toInt * n₂.toInt)) := by
  have start : e.Underway [] _ e := { Holds.refl e with running, left := cells }
  obtain ⟨t₁, hstep₁, first⟩ := start.fraction roomy hd₁ (by simp) (by simp)
  obtain ⟨t₂, hstep₂, second⟩ := first.fraction roomy hd₂ (by simp) (by simp [Value.footprint])
  obtain ⟨t, hstep, last⟩ := second.binary roomy c.nr_ne_halt (fun _ => c.resolve_nr)
    (c.onValues_rational _ _) (by simp [Value.footprint, Value.ofBool])
  have hcalls : e.calls [.step, .step, .step] = .ok (List.replicate 3 (.stepped .continue), t) := by
    rw [calls_cons_of_ok (call_step hstep₁), calls_cons_of_ok (call_step hstep₂),
      calls_cons_of_ok (call_step hstep)]
    rfl
  have decides := Builtin.ofBool_test_eq_one c n₁ n₂ hd₁ hd₂
  refine ⟨t, _, hcalls, last.values_eq, ?_, decides, ?_⟩
  · unfold Value.ofBool
    split
    · exact .inl rfl
    · exact .inr rfl
  · rintro rfl
    rw [decides]
    exact Rational.div_eq_div_iff_mul_eq (Builtin.toInt_ne_zero hd₁) (Builtin.toInt_ne_zero hd₂)

/-- Two fractions just below `-1` that differ by less than `2 ^ -61`. -/
def closeFractions : Setup where
  code := #[Builtin.Nr.pushRational, -2147483648, 2147483647,
    Builtin.Nr.pushRational, 2147483647, -2147483646, Builtin.Nr.gt]
  capacity := 2

theorem closeFractions_compare_exactly :
    (create closeFractions).Roomy ∧
    ((-2147483648 : Int32).toInt / (2147483647 : Int32).toInt : ℚ) >
      (2147483647 : Int32).toInt / (-2147483646 : Int32).toInt ∧
    ∃ t, (create closeFractions).calls [.step, .step, .step] =
        .ok (List.replicate 3 (.stepped .continue), t) ∧ t.stack.values = [.integer 1] := by
  have roomy : (create closeFractions).Roomy := ⟨rfl, by decide, by decide⟩
  have greater : ((-2147483648 : Int32).toInt / (2147483647 : Int32).toInt : ℚ) >
      (2147483647 : Int32).toInt / (-2147483646 : Int32).toInt := by
    have h₁ : (-2147483648 : Int32).toInt = -2147483648 := by decide
    have h₂ : (2147483647 : Int32).toInt = 2147483647 := by decide
    have h₃ : (-2147483646 : Int32).toInt = -2147483646 := by decide
    rw [h₁, h₂, h₃]
    norm_num
  obtain ⟨t, v, hcalls, hvalues, _, decides, _⟩ := fractions_compare_exactly roomy rfl .gt
    (by decide) (by decide) rfl
  rw [decides.mpr greater] at hvalues
  exact ⟨roomy, greater, t, hcalls, hvalues⟩

end Engine
end StackMachine
