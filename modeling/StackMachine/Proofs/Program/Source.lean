import Mathlib.Algebra.Group.Int.Defs
import Mathlib.Data.List.Forall2
import StackMachine.Program.Source
import StackMachine.Proofs.Text.Integer
import StackMachine.Proofs.Text.Split
/-! Program text. It is laid out in lines, and a line in fields; parsing reads the fields
one by one, so it accepts a text if each field is an integer literal of a cell, reports the
first field that is none, and goes through joined texts one after the other. -/
namespace StackMachine.Program

open Text (ascii Signed Runs IntegerError)

variable {text line front field : Bytes} {n k : Nat} {ls ms : List Bytes}
  {placed : List (Nat × Bytes)} {cells : List Int32} {cell : Int32} {e : SourceError}

section Calls

variable {ε α β : Type} {f : α → Except ε β} {xs : List α} {ys : List β} {err : ε}

theorem bind_eq_ok_iff {x : Except ε α} {y : β} : x >>= f = .ok y ↔ ∃ a, x = .ok a ∧ f a = .ok y := by
  cases x <;> simp [bind, Except.bind]

theorem bind_eq_error_iff {x : Except ε α} :
    x >>= f = .error err ↔ x = .error err ∨ ∃ a, x = .ok a ∧ f a = .error err := by
  cases x <;> simp [bind, Except.bind]

theorem mapM_eq_ok_iff : xs.mapM f = .ok ys ↔ List.Forall₂ (fun x y => f x = .ok y) xs ys := by
  induction xs generalizing ys with
  | nil => simp [pure, Except.pure, eq_comm]
  | cons x xs ih =>
    simp only [List.mapM_cons, bind_eq_ok_iff, ih, List.forall₂_cons_left_iff]
    simp [pure, Except.pure, eq_comm]

theorem mapM_eq_error_iff : xs.mapM f = .error err ↔
    ∃ before x after, xs = before ++ x :: after ∧ (∀ y ∈ before, ∃ r, f y = .ok r) ∧
      f x = .error err := by
  induction xs with
  | nil => simp [pure, Except.pure]
  | cons x xs ih =>
    simp only [List.mapM_cons, bind_eq_error_iff, ih, pure, Except.pure, reduceCtorEq, and_false,
      exists_false, or_false]
    constructor
    · rintro (first | ⟨r, first, before, y, after, rfl, others, fails⟩)
      · exact ⟨[], x, xs, rfl, nofun, first⟩
      · exact ⟨x :: before, y, after, rfl, List.forall_mem_cons.mpr ⟨⟨r, first⟩, others⟩, fails⟩
    · rintro ⟨before, y, after, whole, succeed, fails⟩
      cases before with
      | nil =>
        cases whole
        exact .inl fails
      | cons z before =>
        cases whole
        obtain ⟨⟨r, first⟩, others⟩ := List.forall_mem_cons.mp succeed
        exact .inr ⟨r, first, before, y, after, rfl, others, fails⟩

theorem exists_mapM_ok_iff : (∃ ys, xs.mapM f = .ok ys) ↔ ∀ x ∈ xs, ∃ y, f x = .ok y := by
  constructor
  · rintro ⟨ys, h⟩
    rw [mapM_eq_ok_iff] at h
    induction h with
    | nil => simp
    | cons first _ ih => exact List.forall_mem_cons.mpr ⟨⟨_, first⟩, ih⟩
  · intro each
    cases h : xs.mapM f with
    | ok ys => exact ⟨ys, rfl⟩
    | error err =>
      obtain ⟨before, x, after, rfl, _, fails⟩ := mapM_eq_error_iff.mp h
      obtain ⟨y, succeeds⟩ := each x (by simp)
      cases succeeds.symm.trans fails

end Calls

section Fields

def numbered (line : Nat) : List Bytes → List (Nat × Bytes)
  | [] => []
  | text :: rest => (fields (withoutComment text)).map (line, ·) ++ numbered (line + 1) rest

theorem parseLines_eq_mapM (n : Nat) (ls : List Bytes) :
    parseLines n ls = (numbered n ls).mapM fun f => parseField f.1 f.2 := by
  induction ls generalizing n with
  | nil => rfl
  | cons text ls ih =>
    simp [parseLines, parseLine, numbered, ih, List.mapM_append, List.mapM_map, Function.comp_def]

theorem numbered_append (n : Nat) (ls ms : List Bytes) :
    numbered n (ls ++ ms) = numbered n ls ++ numbered (n + ls.length) ms := by
  induction ls generalizing n with
  | nil => simp [numbered]
  | cons text ls ih => simp [numbered, ih, Nat.add_assoc, Nat.add_comm 1]

theorem numbered_add (n k : Nat) (ls : List Bytes) :
    numbered (n + k) ls = (numbered n ls).map fun f => (f.1 + k, f.2) := by
  induction ls generalizing n with
  | nil => rfl
  | cons text ls ih =>
    have next : n + k + 1 = n + 1 + k := by omega
    simp [numbered, next, ih]

theorem lines_append (a b : Bytes) : lines (a ++ newline :: b) = lines a ++ lines b :=
  Text.pieces_append a b (by simp)

theorem length_lines (text : Bytes) : (lines text).length = text.count newline + 1 :=
  Text.length_pieces _ text

theorem lines_of_not_mem (h : newline ∉ line) : lines line = [line] := by
  apply Text.pieces_of_plain
  intro b hb
  simpa using fun same : b = newline => h (same ▸ hb)

end Fields

section Cells

theorem parseField_eq_ok_iff : parseField n field = .ok cell ↔ readCell field = .ok cell := by
  cases h : readCell field <;> simp [parseField, h, Except.mapError]

theorem parseField_eq_error_iff : parseField n field = .error e ↔
    ∃ why, readCell field = .error why ∧ e = .badCell n field why := by
  cases h : readCell field <;> simp [parseField, h, Except.mapError, eq_comm]

def IsCell (field : Bytes) : Prop := ∃ z, Signed field z ∧ -2 ^ 31 ≤ z ∧ z ≤ 2 ^ 31 - 1

theorem readCell_eq_ok_iff : readCell field = .ok cell ↔ Signed field cell.toInt := by
  have reads (z : Int) : Text.readSigned 32 field = .ok z ↔
      Signed field z ∧ -2 ^ 31 ≤ z ∧ z < 2 ^ 31 := Text.readSigned_eq_ok_iff (by decide)
  constructor
  · intro h
    rw [readCell] at h
    cases read : Text.readSigned 32 field with
    | error why =>
      rw [read] at h
      cases h
    | ok z =>
      rw [read] at h
      cases h
      obtain ⟨literal, least, greatest⟩ := (reads z).mp read
      rwa [Int32.toInt_ofInt_of_le least greatest]
  · intro literal
    have read := (reads cell.toInt).mpr ⟨literal, cell.le_toInt, cell.toInt_lt⟩
    simp [readCell, read, Except.map]

theorem isCell_iff : IsCell field ↔ ∃ cell, readCell field = .ok cell := by
  constructor
  · rintro ⟨z, literal, least, greatest⟩
    refine ⟨.ofInt z, readCell_eq_ok_iff.mpr ?_⟩
    rwa [Int32.toInt_ofInt_of_le least (by omega)]
  · rintro ⟨cell, read⟩
    have := cell.le_toInt
    have := cell.toInt_lt
    exact ⟨cell.toInt, readCell_eq_ok_iff.mp read, by omega, by omega⟩

theorem exists_message (line : Nat) (field : Bytes) (why : IntegerError) : ∃ reason,
    (SourceError.badCell line field why).message =
      "line " ++ toString line ++ ": invalid cell " ++ Text.quoteBytes field ++ reason := by
  refine ⟨?reason, ?named⟩
  case named =>
    simp only [SourceError.message, String.append_assoc]
    rfl

end Cells

section Joining

/-- Fields further down are read in the same way; only the line of an error differs. -/
theorem parseLines_add_ok (h : parseLines n ls = .ok cells) (k : Nat) :
    parseLines (n + k) ls = .ok cells := by
  rw [parseLines_eq_mapM, mapM_eq_ok_iff] at h ⊢
  rw [numbered_add, List.forall₂_map_left_iff]
  apply h.imp
  simp only [parseField_eq_ok_iff]
  exact fun _ _ => id

theorem parseLines_add_error (h : parseLines n ls = .error e) (k : Nat) :
    ∃ line field why, e = .badCell line field why ∧
      parseLines (n + k) ls = .error (.badCell (line + k) field why) := by
  rw [parseLines_eq_mapM, mapM_eq_error_iff] at h
  obtain ⟨before, ⟨line, field⟩, after, whole, succeed, fails⟩ := h
  obtain ⟨why, bad, rfl⟩ := parseField_eq_error_iff.mp fails
  refine ⟨line, field, why, rfl, ?_⟩
  rw [parseLines_eq_mapM, mapM_eq_error_iff, numbered_add, whole]
  refine ⟨before.map fun f => (f.1 + k, f.2), (line + k, field), after.map fun f => (f.1 + k, f.2),
    by simp, ?_, parseField_eq_error_iff.mpr ⟨why, bad, rfl⟩⟩
  rw [List.forall_mem_map]
  simpa only [parseField_eq_ok_iff] using succeed

theorem parse_append (a b : Bytes) : parse (a ++ newline :: b) = (do
    let first ← parse a
    let more ← parseLines (1 + (a.count newline + 1)) (lines b)
    return first ++ more) := by
  simp only [parse, lines_append, parseLines_eq_mapM, numbered_append, List.mapM_append, length_lines]

/-- Two texts joined by a line end are read one after the other. -/
theorem joined_texts_parse_in_turn (a b : Bytes) :
    (∀ first more, parse a = .ok first → parse b = .ok more →
      parse (a ++ newline :: b) = .ok (first ++ more)) ∧
    (∀ e, parse a = .error e → parse (a ++ newline :: b) = .error e) ∧
    ∀ first e, parse a = .ok first → parse b = .error e →
      ∃ line field why, e = .badCell line field why ∧
        parse (a ++ newline :: b) = .error (.badCell (line + 1 + a.count newline) field why) := by
  refine ⟨?_, ?_, ?_⟩
  · intro first more ha hb
    have below := parseLines_add_ok hb (a.count newline + 1)
    simp [parse_append, ha, below, bind, Except.bind, pure, Except.pure]
  · intro e ha
    simp [parse_append, ha, bind, Except.bind]
  · intro first e ha hb
    obtain ⟨line, field, why, rfl, below⟩ := parseLines_add_error hb (a.count newline + 1)
    refine ⟨line, field, why, rfl, ?_⟩
    have shifted : line + (a.count newline + 1) = line + 1 + a.count newline := by omega
    simp [parse_append, ha, below, bind, Except.bind, shifted]

/-- The comment at the end of the first text stays open, and its line counts. -/
theorem commentAndBadCell_parse_in_turn :
    parse (Text.utf8 "1\n2 # 0x" ++ newline :: Text.utf8 "0x10") = .ok ([1, 2] ++ [16]) ∧
    parse (Text.utf8 "1\n2 0x" ++ newline :: Text.utf8 "0x10") =
      .error (.badCell 2 (Text.utf8 "0x") .badSyntax) ∧
    parse (Text.utf8 "1\n2 # 0x" ++ newline :: Text.utf8 "3\n2147483648") =
      .error (.badCell 4 (Text.utf8 "2147483648") .outOfRange) := by
  have commented : parse (Text.utf8 "1\n2 # 0x") = .ok [1, 2] := by decide +kernel
  have single : parse (Text.utf8 "0x10") = .ok [16] := by decide +kernel
  have marked : parse (Text.utf8 "1\n2 0x") = .error (.badCell 2 (Text.utf8 "0x") .badSyntax) := by
    decide +kernel
  have large : parse (Text.utf8 "3\n2147483648") =
      .error (.badCell 2 (Text.utf8 "2147483648") .outOfRange) := by decide +kernel
  refine ⟨(joined_texts_parse_in_turn _ _).1 _ _ commented single,
    (joined_texts_parse_in_turn _ _).2.1 _ marked, ?_⟩
  obtain ⟨line, field, why, same, failed⟩ := (joined_texts_parse_in_turn _ _).2.2 _ _ commented large
  have oneEnd : (Text.utf8 "1\n2 # 0x").count newline = 1 := by decide +kernel
  cases same
  rwa [oneEnd] at failed

end Joining

section Layout

def separators : List Char := [',', ' ', '\t', '\r', '\n']

/-- A line up to its first number sign. -/
def Uncommented (line front : Bytes) : Prop :=
  ascii '#' ∉ front ∧ (line = front ∨ ∃ comment, line = front ++ ascii '#' :: comment)

/-- A line with its fields. -/
def HasFields (line : Bytes) (fields : List Bytes) : Prop :=
  ∃ front, Uncommented line front ∧ Runs (fun b => (separators.map ascii).contains b) front fields

/-- A text whose first line has the number `n`, with the fields of all its lines. -/
inductive Layout : Nat → Bytes → List (Nat × Bytes) → Prop where
  | last {n : Nat} {line : Bytes} {fields : List Bytes} :
      newline ∉ line → HasFields line fields → Layout n line (fields.map (n, ·))
  | next {n : Nat} {line rest : Bytes} {fields : List Bytes} {more : List (Nat × Bytes)} :
      newline ∉ line → HasFields line fields → Layout (n + 1) rest more →
      Layout n (line ++ newline :: rest) (fields.map (n, ·) ++ more)

theorem isSeparator_eq : isSeparator = fun b => (separators.map ascii).contains b := by
  funext b
  simp [isSeparator, separators, newline, Bool.or_assoc, Bool.beq_eq_decide_eq]

theorem Uncommented.eq_withoutComment (h : Uncommented line front) : front = withoutComment line := by
  obtain ⟨clean, cut⟩ := h
  have plain : ∀ b ∈ front, (b != ascii '#') = true := by
    intro b hb
    simpa using fun same : b = ascii '#' => clean (same ▸ hb)
  rcases cut with rfl | ⟨comment, rfl⟩
  · exact (List.takeWhile_eq_self_iff.mpr plain).symm
  · simp [withoutComment, List.takeWhile_append_of_pos plain]

theorem uncommented_iff : Uncommented line front ↔ front = withoutComment line := by
  constructor
  · exact Uncommented.eq_withoutComment
  · rintro rfl
    by_cases commented : ascii '#' ∈ line
    · obtain ⟨front, comment, rfl, clean⟩ := List.eq_append_cons_of_mem commented
      have cut : Uncommented (front ++ ascii '#' :: comment) front := ⟨clean, .inr ⟨comment, rfl⟩⟩
      rwa [← cut.eq_withoutComment]
    · have whole : Uncommented line line := ⟨commented, .inl rfl⟩
      rwa [← whole.eq_withoutComment]

theorem hasFields_iff {fs : List Bytes} : HasFields line fs ↔ fs = fields (withoutComment line) := by
  simp [HasFields, uncommented_iff, Text.runs_iff, fields, isSeparator_eq]

theorem Layout.eq_numbered (h : Layout n text placed) : placed = numbered n (lines text) := by
  induction h with
  | last single held =>
    rw [hasFields_iff] at held
    simp [lines_of_not_mem single, numbered, held]
  | next single held _ ih =>
    rw [hasFields_iff] at held
    simp [lines_append, lines_of_not_mem single, numbered, held, ih]

theorem layout_numbered (n : Nat) (text : Bytes) : Layout n text (numbered n (lines text)) := by
  induction length : text.length using Nat.strongRecOn generalizing n text with
  | ind k shorter =>
    by_cases ended : newline ∈ text
    · obtain ⟨line, rest, rfl, single⟩ := List.eq_append_cons_of_mem ended
      have below := shorter rest.length (by simp at length; omega) (n + 1) rest rfl
      simpa [lines_append, lines_of_not_mem single, numbered] using
        Layout.next single (hasFields_iff.mpr rfl) below
    · simpa [lines_of_not_mem ended, numbered] using
        Layout.last (n := n) ended (hasFields_iff.mpr rfl)

theorem layout_iff : Layout n text placed ↔ placed = numbered n (lines text) := by
  constructor
  · exact Layout.eq_numbered
  · rintro rfl
    exact layout_numbered n text

end Layout

/-- Parsing accepts the texts all of whose fields are literals of cells, and answers the
numbers of the fields in their order. Any other text has a first field that is no such
literal, and the error names this field and its line. -/
theorem parse_accepts_exactly_cells (text : Bytes) :
    ∃ fields, (∀ placed, Layout 1 text placed ↔ placed = fields) ∧
      (∀ cells, parse text = .ok cells ↔ List.Forall₂ (fun f c => Signed f.2 c.toInt) fields cells) ∧
      ((∃ cells, parse text = .ok cells) ↔ ∀ f ∈ fields, IsCell f.2) ∧
      ((∃ f ∈ fields, ¬ IsCell f.2) ↔ ∃ before line field after why reason,
        fields = before ++ (line, field) :: after ∧ (∀ f ∈ before, IsCell f.2) ∧ ¬ IsCell field ∧
        parse text = .error (.badCell line field why) ∧
        (SourceError.badCell line field why).message =
          "line " ++ toString line ++ ": invalid cell " ++ Text.quoteBytes field ++ reason) := by
  have accepted : (∃ cells, parse text = .ok cells) ↔ ∀ f ∈ numbered 1 (lines text), IsCell f.2 := by
    simp only [parse, parseLines_eq_mapM, exists_mapM_ok_iff, parseField_eq_ok_iff, isCell_iff]
  refine ⟨numbered 1 (lines text), fun placed => layout_iff, ?_, accepted, ?_, ?_⟩
  · intro cells
    simp only [parse, parseLines_eq_mapM, mapM_eq_ok_iff, parseField_eq_ok_iff, readCell_eq_ok_iff]
  · rintro ⟨f, inside, bad⟩
    cases read : parse text with
    | ok cells => exact absurd (accepted.mp ⟨cells, read⟩ f inside) bad
    | error e =>
      have failure := read
      rw [parse, parseLines_eq_mapM, mapM_eq_error_iff] at failure
      obtain ⟨before, ⟨line, field⟩, after, whole, earlier, fails⟩ := failure
      obtain ⟨why, unreadable, rfl⟩ := parseField_eq_error_iff.mp fails
      obtain ⟨reason, named⟩ := exists_message line field why
      refine ⟨before, line, field, after, why, reason, whole, ?_, ?_, rfl, named⟩
      · simpa only [isCell_iff, parseField_eq_ok_iff] using earlier
      · rw [isCell_iff]
        rintro ⟨cell, readable⟩
        cases readable.symm.trans unreadable
  · rintro ⟨before, line, field, after, _, _, whole, _, bad, _⟩
    exact ⟨(line, field), by simp [whole], bad⟩

theorem mixedBases_are_accepted_exactly :
    (∃ fields, Layout 1 (Text.utf8 "0x_1F,-2147483648 # 9x\n\t0_17,+0B1\r\n") fields ∧
      List.Forall₂ (fun f c => Signed f.2 c.toInt) fields ([31, -2147483648, 15, 1] : List Int32)) ∧
    ∃ fields before after, Layout 1 (Text.utf8 "1 # 2\n\n 0b1 08, 3x") fields ∧
      fields = before ++ (3, Text.utf8 "08") :: after ∧ (∀ f ∈ before, IsCell f.2) ∧
      ¬ IsCell (Text.utf8 "08") := by
  constructor
  · have read : parse (Text.utf8 "0x_1F,-2147483648 # 9x\n\t0_17,+0B1\r\n") =
        .ok [31, -2147483648, 15, 1] := by decide +kernel
    obtain ⟨fields, layout, values, _⟩ := parse_accepts_exactly_cells
      (Text.utf8 "0x_1F,-2147483648 # 9x\n\t0_17,+0B1\r\n")
    exact ⟨fields, (layout fields).mpr rfl, (values _).mp read⟩
  · have failed : parse (Text.utf8 "1 # 2\n\n 0b1 08, 3x") =
        .error (.badCell 3 (Text.utf8 "08") .badSyntax) := by decide +kernel
    obtain ⟨fields, layout, _, accepted, refused⟩ := parse_accepts_exactly_cells
      (Text.utf8 "1 # 2\n\n 0b1 08, 3x")
    have offends : ∃ f ∈ fields, ¬ IsCell f.2 := by
      by_contra none
      obtain ⟨cells, read⟩ := accepted.mpr (by simpa using none)
      cases failed.symm.trans read
    obtain ⟨before, line, field, after, why, _, whole, earlier, bad, named, _⟩ := refused.mp offends
    cases failed.symm.trans named
    exact ⟨fields, before, after, (layout fields).mpr rfl, whole, earlier, bad⟩

end StackMachine.Program
