import StackMachine.Proofs.Builtin.Order
import StackMachine.Proofs.Text.Order
/-! Texts as sequences of code points. The cells behind an opcode are a text if each of them
is a character, and then the opcodes that measure, join and compare texts act on the cells. -/
namespace StackMachine

open Program (Builder)

namespace Builtin

variable {ε : Type} {dispatch : Int32 → Engine → Except ε (Except Fault Unit × Engine)}
  {e : Engine} {rest xs : List Int32} {cell : Int32}

/-- The code points of characters: all but the surrogates. -/
def IsScalar (cell : Int32) : Prop :=
  0 ≤ cell.toInt ∧ cell.toInt < 0xD800 ∨ 0xE000 ≤ cell.toInt ∧ cell.toInt < 0x110000

instance (cell : Int32) : Decidable (IsScalar cell) := inferInstanceAs (Decidable (_ ∨ _))

def cellsOf (s : String) : List Int32 := s.toList.map Builder.cellOf

def textCells (xs : List Int32) : List Int32 := Nr.pushString :: .ofNat xs.length :: xs

theorem isScalar_iff : IsScalar cell ↔ 0 ≤ cell ∧ cell.toInt.toNat.isValidChar := by
  have zero : (0 : Int32).toInt = 0 := rfl
  rw [Int32.le_iff_toInt_le, Nat.isValidChar, IsScalar]
  omega

theorem isScalar_cellOf (c : Char) : IsScalar (Builder.cellOf c) := by
  have valid : c.toNat.isValidChar := c.valid
  rw [IsScalar, toInt_cellOf]
  unfold Nat.isValidChar at valid
  omega

theorem exists_cellOf (h : IsScalar cell) : ∃ c, Builder.cellOf c = cell := by
  obtain ⟨nonneg, valid⟩ := isScalar_iff.mp h
  have code : (Char.ofNat cell.toInt.toNat).toNat = cell.toInt.toNat := by
    rw [Char.ofNat, dif_pos valid]
    rfl
  refine ⟨Char.ofNat cell.toInt.toNat, Int32.toInt_inj.mp ?_⟩
  rw [toInt_cellOf, code, Int.toNat_of_nonneg (Int32.le_iff_toInt_le.mp nonneg)]

theorem charOf?_eq_none (h : ¬ IsScalar cell) : charOf? cell = none := by
  rw [charOf?, if_neg fun valid => h (isScalar_iff.mpr valid)]

theorem exists_chars (xs : List Int32) :
    ∃ chars : List Char, chars.map Builder.cellOf = xs ∨
      ∃ cell more, ¬ IsScalar cell ∧ xs = chars.map Builder.cellOf ++ cell :: more := by
  induction xs with
  | nil => exact ⟨[], .inl rfl⟩
  | cons x xs ih =>
    by_cases scalar : IsScalar x
    · obtain ⟨c, rfl⟩ := exists_cellOf scalar
      obtain ⟨chars, rfl | ⟨cell, more, stray, rfl⟩⟩ := ih
      · exact ⟨c :: chars, .inl rfl⟩
      · exact ⟨c :: chars, .inr ⟨cell, more, stray, rfl⟩⟩
    · exact ⟨[], .inr ⟨x, xs, scalar, rfl⟩⟩

theorem exists_text (scalars : ∀ x ∈ xs, IsScalar x) : ∃ s, cellsOf s = xs := by
  obtain ⟨chars, whole | ⟨cell, more, stray, rfl⟩⟩ := exists_chars xs
  · exact ⟨String.ofList chars, by rw [cellsOf, String.toList_ofList, whole]⟩
  · exact absurd (scalars cell (by simp)) stray

theorem length_cellsOf (s : String) : (cellsOf s).length = s.length := by
  rw [cellsOf, List.length_map, String.length_toList]

theorem cellsOf_append (s t : String) : cellsOf (s ++ t) = cellsOf s ++ cellsOf t := by
  simp [cellsOf]

theorem cellsOf_inj {s t : String} : cellsOf s = cellsOf t ↔ s = t := by
  refine ⟨fun same => ?_, congrArg cellsOf⟩
  have injective : Function.Injective Builder.cellOf := by
    intro c d h
    rw [← Option.some.injEq, ← charOf?_cellOf c, h, charOf?_cellOf]
  exact String.toList_inj.mp (List.map_injective_iff.mpr injective same)

theorem lex_cellsOf_iff (s t : String) :
    List.Lex (· < ·) (cellsOf s) (cellsOf t) ↔ List.Lex (· < ·) s.toList t.toList := by
  refine Text.lex_iff_of_mono fun less => List.map_lt (fun c d h => ?_) less
  rw [Int32.lt_iff_toInt_lt, toInt_cellOf, toInt_cellOf]
  exact Int.ofNat_lt.mpr h

theorem readChars_add (m n offset : Nat) (text : String) :
    readChars (m + n) offset text = readChars m offset text >>= readChars n (offset + m) := by
  induction m generalizing offset text with
  | zero =>
    rw [Nat.zero_add]
    rfl
  | succ m ih =>
    rw [Nat.add_right_comm]
    change (Routine.fetch.bind _) = (Routine.fetch.bind _).bind _
    rw [Routine.bind_assoc]
    congr 1
    funext cell
    cases charOf? cell with
    | none => rfl
    | some c =>
      change readChars (m + n) (offset + 1) _ = (readChars m (offset + 1) _).bind _
      rw [ih, Nat.add_assoc, Nat.add_comm 1]
      rfl

theorem run_pushString_refused {chars : List Char} {more : List Int32}
    (hxs : xs = chars.map Builder.cellOf ++ cell :: more) (stray : ¬ IsScalar cell)
    (short : xs.length < 2 ^ 31) (h : e.code.toList.drop e.ip = .ofNat xs.length :: (xs ++ rest)) :
    ∃ ip, pushString.run dispatch e =
      .ok (.error (.invalidOperand (.rune cell chars.length)), { e with ip }) := by
  obtain ⟨hrun, hcells⟩ := run_pushString dispatch short h
  rw [hxs, List.append_assoc] at hcells
  have hstray : e.code.toList.drop (e.ip + 1 + chars.length) = cell :: (more ++ rest) := by
    rw [← List.drop_drop, hcells, ← List.length_map (f := Builder.cellOf), List.drop_left]
    rfl
  have hlength : xs.length = chars.length + (more.length + 1) := by
    rw [hxs, List.length_append, List.length_map, List.length_cons]
  refine ⟨e.ip + 1 + chars.length + 1, ?_⟩
  rw [hrun, hlength, readChars_add]
  change ((Routine.bind _ _).bind _).run _ _ = _
  rw [Routine.bind_assoc]
  refine (run_readChars (e := { e with ip := e.ip + 1 }) chars 0 "" hcells _).trans ?_
  change ((Routine.fetch.bind _).bind _).run _ _ = _
  rw [Routine.bind_assoc]
  refine (Engine.run_fetch (e := { e with ip := e.ip + 1 + chars.length }) dispatch hstray _).1.trans
    ?_
  simp only [charOf?_eq_none stray, Nat.zero_add]
  rfl

end Builtin

namespace Engine

open Builtin (Comparison IsScalar cellsOf textCells)

variable {e : Engine} {xs rest cells : List Int32} {vs ws : List Value} {v w : Value} {n : Nat}
  {a b : String}

/-- Running over the builtin opcodes, in front of these cells. -/
structure Faces (e : Engine) (cells : List Int32) : Prop where
  running : e.status = .running
  builtin : e.registry = some Builtin.registry
  written : cells <+: e.code.toList.drop e.ip

/-- So many steps go through, and together they push one value. -/
def StepsTo (e : Engine) (n : Nat) (v : Value) : Prop :=
  ∃ t, e.calls (List.replicate n .step) = .ok (List.replicate n (.stepped .continue), t) ∧
    t.stack.values = e.stack.values ++ [v]

def Advances (e : Engine) (n : Nat) (vs : List Value) (rest : List Int32) : Prop :=
  ∃ t, e.calls (List.replicate n .step) = .ok (List.replicate n (.stepped .continue), t) ∧
    e.Underway vs rest t

theorem Faces.advances (h : e.Faces cells) : ∃ rest, e.Advances 0 [] (cells ++ rest) := by
  obtain ⟨rest, written⟩ := h.written
  exact ⟨rest, e, rfl, { Holds.refl e with running := h.running, left := written.symm }⟩

theorem Advances.next (h : e.Advances n vs cells)
    (step : ∀ t, e.Underway vs cells t →
      ∃ u, t.step = .ok (.continue, u) ∧ e.Underway ws rest u) : e.Advances (n + 1) ws rest := by
  obtain ⟨t, hcalls, underway⟩ := h
  obtain ⟨u, hstep, underway⟩ := step t underway
  refine ⟨u, ?_, underway⟩
  rw [List.replicate_succ', calls_append hcalls (call_step hstep), List.replicate_succ']

theorem Advances.stepsTo (h : e.Advances n [v] rest) : e.StepsTo n v := by
  obtain ⟨t, hcalls, underway⟩ := h
  exact ⟨t, hcalls, underway.values_eq⟩

theorem Advances.text (h : e.Advances n vs (textCells (cellsOf a) ++ rest))
    (builtin : e.registry = some Builtin.registry) (short : (cellsOf a).length < 2 ^ 31)
    (room : e.HasRoomFor (vs ++ [.string a])) : e.Advances (n + 1) (vs ++ [.string a]) rest := by
  rw [textCells, Builtin.length_cellsOf] at h
  rw [Builtin.length_cellsOf] at short
  refine h.next fun t underway => underway.literal _ builtin (by decide) (fun held => ?_)
    (Builtin.spells_pushString short) room
  exact Builtin.resolve_entry rfl rfl rfl held.zero_le

theorem stepsTo_text (faces : e.Faces (textCells (cellsOf a))) (short : (cellsOf a).length < 2 ^ 31)
    (room : e.HasRoomFor [.string a]) : e.StepsTo 1 (.string a) := by
  obtain ⟨rest, start⟩ := faces.advances
  exact (start.text faces.builtin short room).stepsTo

theorem stepsTo_length (faces : e.Faces (textCells (cellsOf a) ++ [Builtin.Nr.strlen]))
    (short : (cellsOf a).length < 2 ^ 31) (room : e.HasRoomFor [.string a]) :
    e.StepsTo 2 (.integer (.ofNat a.length)) := by
  obtain ⟨rest, start⟩ := faces.advances
  rw [List.append_assoc] at start
  have known (held : Nat) (enough : 1 ≤ held) :
      Builtin.registry.resolve Builtin.Nr.strlen held = .ok (Builtin.unary Builtin.lengthOf) :=
    Builtin.resolve_entry rfl rfl rfl enough
  have light : e.HasRoomFor ([] ++ [.integer (.ofNat a.length)]) := by
    refine room.mono (by simp) ?_
    simp only [List.nil_append, List.map_cons, List.map_nil, List.sum_cons, Value.footprint]
    omega
  have pushed : e.Advances 1 ([] ++ [.string a]) ([Builtin.Nr.strlen] ++ rest) :=
    start.text faces.builtin short room
  exact (pushed.next fun t underway =>
    underway.unary_of_room faces.builtin (by decide) known rfl light).stepsTo

section Pairs

variable (short : (cellsOf a).length < 2 ^ 31) (short' : (cellsOf b).length < 2 ^ 31)
  (room : e.HasRoomFor [.string a, .string b])

include short short' room

theorem stepsTo_pair {nr : Int32} {f : Value → Value → Except Fault Value}
    (faces : e.Faces (textCells (cellsOf a) ++ textCells (cellsOf b) ++ [nr]))
    (plain : nr ≠ Builtin.Nr.halt)
    (known : ∀ held, 2 ≤ held → Builtin.registry.resolve nr held = .ok (Builtin.binary f))
    (hf : f (.string a) (.string b) = .ok w)
    (light : w.footprint ≤ (Value.string a).footprint + (Value.string b).footprint) :
    e.StepsTo 3 w := by
  obtain ⟨rest, start⟩ := faces.advances
  rw [List.append_assoc, List.append_assoc] at start
  have first := start.text faces.builtin short (room.mono (by simp) (by simp))
  have second := first.text faces.builtin short' room
  exact (second.next fun t underway => underway.binary_of_room faces.builtin plain known hf
    (room.mono (by simp) (by simpa using light))).stepsTo

theorem stepsTo_append
    (faces : e.Faces (textCells (cellsOf a) ++ textCells (cellsOf b) ++ [Builtin.Nr.concat])) :
    e.StepsTo 3 (.string (a ++ b)) := by
  have known (held : Nat) (enough : 2 ≤ held) :
      Builtin.registry.resolve Builtin.Nr.concat held = .ok (Builtin.binary Builtin.append) :=
    Builtin.resolve_entry rfl rfl rfl enough
  refine stepsTo_pair short short' room faces (by decide) known (Builtin.append_strings a b) ?_
  simp only [Value.footprint, String.utf8ByteSize_append]
  omega

theorem stepsTo_comparison (c : Comparison)
    (faces : e.Faces (textCells (cellsOf a) ++ textCells (cellsOf b) ++ [c.nr])) :
    e.StepsTo 3 (.ofBool (c.test (Builtin.compareBytes a b))) := by
  have answer := c.onValues_of_comparable (a := .string a) (b := .string b) ⟨rfl, nofun⟩
  rw [Value.rank_string] at answer
  exact stepsTo_pair short short' room faces c.nr_ne_halt (fun _ => c.resolve_nr) answer
    (c.lightPair_onValues _ _ _ answer)

end Pairs

theorem step_refused (faces : e.Faces (textCells xs)) (short : xs.length < 2 ^ 31)
    (stray : ¬ ∀ x ∈ xs, IsScalar x) :
    ∃ f t, e.step = .ok (.failed f, t) ∧ f.kind = .invalidOperand ∧ t.stack = e.stack := by
  obtain ⟨rest, written⟩ := faces.written
  obtain ⟨chars, whole | ⟨cell, more, lone, hxs⟩⟩ := Builtin.exists_chars xs
  · refine absurd (fun x member => ?_) stray
    rw [← whole] at member
    obtain ⟨c, _, rfl⟩ := List.mem_map.mp member
    exact Builtin.isScalar_cellOf c
  · obtain ⟨_, _, hcells⟩ := cell_of_drop written.symm
    obtain ⟨log, hstep⟩ := step_of_resolve faces.running faces.builtin written.symm
      (Builtin.resolve_entry rfl rfl rfl (Nat.zero_le _))
    obtain ⟨ip, hrun⟩ := Builtin.run_pushString_refused (e := { e with
      ip := e.ip + 1, current := some Builtin.Nr.pushString, halting := false, log }) hxs lone short
      hcells
    rw [hrun] at hstep
    exact ⟨_, _, hstep, rfl, rfl⟩

theorem StepsTo.not_failed {f : Fault} {t : Engine} (h : e.StepsTo 1 v) :
    e.step ≠ .ok (.failed f, t) := by
  intro hstep
  obtain ⟨u, hcalls, _⟩ := h
  cases (calls_cons_of_ok (call_step hstep) []).symm.trans hcalls

/-- Texts are told apart, measured, joined and ordered as the code points in their cells. -/
theorem texts_are_codePoint_sequences (xs ys : List Int32)
    (short : xs.length + ys.length < 2 ^ 31) :
    (∀ e : Engine, e.Faces (textCells xs) → (∀ a, cellsOf a = xs → e.HasRoomFor [.string a]) →
      ((∃ v, e.StepsTo 1 v) ↔ ∀ x ∈ xs, IsScalar x) ∧
      ((¬ ∀ x ∈ xs, IsScalar x) →
        ∃ f t, e.step = .ok (.failed f, t) ∧ f.kind = .invalidOperand ∧ t.stack = e.stack)) ∧
    ((∀ x ∈ xs, IsScalar x) → (∀ y ∈ ys, IsScalar y) → ∃ a b, cellsOf a = xs ∧ cellsOf b = ys ∧
      (∀ e : Engine, e.Faces (textCells xs) → e.HasRoomFor [.string a] → e.StepsTo 1 (.string a)) ∧
      (∀ e : Engine, e.Faces (textCells ys) → e.HasRoomFor [.string b] → e.StepsTo 1 (.string b)) ∧
      -- length
      (∀ e : Engine, e.Faces (textCells xs ++ [Builtin.Nr.strlen]) → e.HasRoomFor [.string a] →
        ∃ n, e.StepsTo 2 (.integer n) ∧ n.toInt = xs.length) ∧
      -- the texts joined, and the cells joined
      (∀ e d : Engine, e.Faces (textCells xs ++ textCells ys ++ [Builtin.Nr.concat]) →
        e.HasRoomFor [.string a, .string b] →
        d.Faces (textCells (xs ++ ys)) → d.HasRoomFor [.string (a ++ b)] →
        ∃ v w, e.StepsTo 3 v ∧ d.StepsTo 1 w ∧ Value.equal (some v) (some w) = true) ∧
      -- equality and order
      (∀ e : Engine, e.Faces (textCells xs ++ textCells ys ++ [Builtin.Nr.eq]) →
        e.HasRoomFor [.string a, .string b] →
        ∃ v, e.StepsTo 3 v ∧ (v = .integer 1 ∨ v = .integer 0) ∧ (v = .integer 1 ↔ xs = ys)) ∧
      (∀ e : Engine, e.Faces (textCells xs ++ textCells ys ++ [Builtin.Nr.lt]) →
        e.HasRoomFor [.string a, .string b] →
        ∃ v, e.StepsTo 3 v ∧ (v = .integer 1 ∨ v = .integer 0) ∧
          (v = .integer 1 ↔ List.Lex (· < ·) xs ys))) := by
  have hxs : xs.length < 2 ^ 31 := by omega
  have hys : ys.length < 2 ^ 31 := by omega
  constructor
  · intro e faces room
    refine ⟨⟨?_, fun scalars => ?_⟩, step_refused faces hxs⟩
    · rintro ⟨v, pushed⟩
      by_contra stray
      obtain ⟨f, t, failed, _⟩ := step_refused faces hxs stray
      exact pushed.not_failed failed
    · obtain ⟨a, rfl⟩ := Builtin.exists_text scalars
      exact ⟨_, stepsTo_text faces hxs (room a rfl)⟩
  · intro scalars scalars'
    obtain ⟨a, rfl⟩ := Builtin.exists_text scalars
    obtain ⟨b, rfl⟩ := Builtin.exists_text scalars'
    refine ⟨a, b, rfl, rfl, fun e faces => stepsTo_text faces hxs,
      fun e faces => stepsTo_text faces hys, ?_, ?_, ?_, ?_⟩
    · intro e faces room
      refine ⟨_, stepsTo_length faces hxs room, ?_⟩
      rw [Builtin.length_cellsOf] at hxs ⊢
      exact Int64.toInt_ofNat_of_lt (by omega)
    · intro e d faces room faces' room'
      rw [← Builtin.cellsOf_append] at faces'
      refine ⟨_, _, stepsTo_append hxs hys room faces, stepsTo_text faces' ?_ room', ?_⟩
      · rw [Builtin.cellsOf_append, List.length_append]
        exact short
      · simp [Value.equal, Value.same]
    · intro e faces room
      refine ⟨_, stepsTo_comparison hxs hys room .eq faces, Value.ofBool_cases _, ?_⟩
      rw [Value.ofBool_eq_one, Builtin.cellsOf_inj, Comparison.test, beq_iff_eq,
        Builtin.compareBytes, Std.compare_eq_iff_eq, Text.utf8_inj]
    · intro e faces room
      refine ⟨_, stepsTo_comparison hxs hys room .lt faces, Value.ofBool_cases _, ?_⟩
      rw [Value.ofBool_eq_one, Builtin.lex_cellsOf_iff, ← Text.compareBytes_eq_lt_iff,
        Comparison.test, Ordering.isLT_iff_eq_lt]

/-- Texts that differ behind the surrogates, in a character of three bytes and one of four. -/
def beyondSurrogates : Setup where
  code := (textCells [0x61, 0xE000] ++ textCells [0x61, 0x10000] ++ [Builtin.Nr.lt]).toArray
  capacity := 2

theorem beyondSurrogates_are_ordered :
    List.Lex (· < ·) [0x61, 0xE000] ([0x61, 0x10000] : List Int32) ∧
    (create beyondSurrogates).StepsTo 3 (.integer 1) ∧
    ∃ f t, (create { code := (textCells [0x61, 0xD800]).toArray, capacity := 1 }).step =
      .ok (.failed f, t) ∧ f.kind = .invalidOperand ∧ t.stack.values = [] := by
  have less : List.Lex (· < ·) [0x61, 0xE000] ([0x61, 0x10000] : List Int32) := by decide
  have scalars (x : Int32) (scalar : IsScalar x) : ∀ y ∈ [0x61, x], IsScalar y :=
    List.forall_mem_cons.mpr ⟨by decide, List.forall_mem_singleton.mpr scalar⟩
  have surrogate : ¬ ∀ y ∈ [0x61, 0xD800], IsScalar y :=
    fun scalars => absurd (scalars 0xD800 (by simp)) (by decide)
  obtain ⟨_, texts⟩ := texts_are_codePoint_sequences [0x61, 0xE000] [0x61, 0x10000] (by decide)
  obtain ⟨a, b, _, _, _, _, _, _, _, ordered⟩ :=
    texts (scalars 0xE000 (by decide)) (scalars 0x10000 (by decide))
  obtain ⟨v, steps, _, one⟩ := ordered (create beyondSurrogates) ⟨rfl, rfl, ⟨[], rfl⟩⟩
    ⟨Nat.le_refl 2, fun limited => absurd limited (by decide)⟩
  obtain ⟨refused, _⟩ := texts_are_codePoint_sequences [0x61, 0xD800] [] (by decide)
  obtain ⟨_, fails⟩ := refused
    (create { code := (textCells [0x61, 0xD800]).toArray, capacity := 1 }) ⟨rfl, rfl, ⟨[], rfl⟩⟩
    fun a _ => ⟨Nat.le_refl 1, fun limited => absurd limited (by decide)⟩
  obtain ⟨f, t, failed, kind, same⟩ := fails surrogate
  refine ⟨less, ?_, f, t, failed, kind, by rw [same]; rfl⟩
  rw [← one.mpr less]
  exact steps

end Engine
end StackMachine
