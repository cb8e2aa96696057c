import StackMachine.Proofs.Program.Row
import StackMachine.Proofs.Text.Quoted
/-! The lines of a listing. Behind its head a listing has a line for each row: the address
in decimal, and the text of the instruction, which begins with the name of the opcode. If no
name runs over its line, the addresses can be read off the lines. -/
namespace StackMachine.Program

open Text (OneLine oneLine_of_digits)

variable {reg : Registry} {cells rest : List Int32} {opcode : Int32} {offset : Nat} {row : Row}
  {rows : List Row} {cs : List Char}

section Words

def wordOf (cell : Int32) : List Char := (toString cell.toInt).toList

theorem not_mem_toString (z : Int) {c : Char} (noSign : c ≠ '-') (noDigit : c.isDigit = false) :
    c ∉ (toString z).toList := by
  have digits (n : Nat) : c ∉ n.repr.toList := by
    intro h
    rw [Nat.toList_repr] at h
    rw [Nat.isDigit_of_mem_toDigits (by decide) (by decide) h] at noDigit
    cases noDigit
  cases z with
  | ofNat n => exact digits n
  | negSucc n =>
    change c ∉ ("-" ++ (n + 1).repr).toList
    rw [String.toList_append, List.mem_append, not_or]
    exact ⟨by simpa using noSign, digits (n + 1)⟩

theorem oneLine_toString (z : Int) : OneLine (toString z).toList :=
  not_mem_toString z (by decide) (by decide)

theorem oneLine_blank (h : OneLine cs) : OneLine (' ' :: cs) :=
  OneLine.append (by decide : OneLine [' ']) h

theorem toList_joinCells (cells : List Int32) :
    (joinCells cells).toList = [' '].intercalate (cells.map wordOf) := by
  rw [joinCells, String.toList_intercalate, List.map_map]
  rfl

theorem joinCells_singleton (cell : Int32) : (joinCells [cell]).toList = wordOf cell := by
  rw [joinCells, List.map_singleton, String.intercalate_singleton, wordOf]

theorem joinCells_cons (cell : Int32) (more : cells ≠ []) :
    (joinCells (cell :: cells)).toList = wordOf cell ++ ' ' :: (joinCells cells).toList := by
  rw [joinCells, List.map_cons, String.intercalate_cons_of_ne_nil (by simpa using more)]
  simp [wordOf, joinCells]

theorem oneLine_joinCells (cells : List Int32) : OneLine (joinCells cells).toList := by
  induction cells with
  | nil => decide
  | cons cell cells ih =>
    by_cases more : cells = []
    · rw [more, joinCells_singleton]
      exact oneLine_toString _
    · rw [joinCells_cons cell more]
      exact (oneLine_toString _).append (oneLine_blank ih)

end Words

section Instructions

/-- No name in the registry runs over a line. -/
def NamesFit (reg : Registry) : Prop :=
  ∀ nr d, reg.find? nr = some d → OneLine d.label.toList

theorem oneLine_label_of_mem : ∀ d ∈ Builtin.table, OneLine d.label.toList := by decide +kernel

theorem NamesFit.nameOf (names : NamesFit reg) (nr : Int32) : OneLine (reg.nameOf nr).toList := by
  cases found : reg.find? nr with
  | none =>
    simp only [Registry.nameOf, found, Option.elim_none, String.toList_append]
    exact OneLine.append (by decide) (oneLine_toString _)
  | some d => simpa [Registry.nameOf, found] using names nr d found

theorem NamesFit.remark (names : NamesFit reg) {remark : String}
    (h : remarkOn reg opcode cells = .ok remark) : OneLine remark.toList := by
  unfold remarkOn at h
  split at h
  · split at h
    · cases h
      simp only [String.toList_append]
      exact (((OneLine.append (by decide) (oneLine_toString _)).append (by decide)).append
        (oneLine_toString _))
    · cases h
  · split at h
    · split at h
      · cases h
        simp only [String.toList_append]
        exact OneLine.append (by decide) (oneLine_toString _)
      · cases h
    · split at h
      · split at h
        · cases h
          rename_i nr _
          cases found : reg.find? nr with
          | none => decide
          | some d =>
            simp only [Option.elim_some, String.toList_append]
            exact OneLine.append (by decide) (names _ d found)
        · cases h
      · cases h
        decide

theorem rowAt_label (h : rowAt reg offset opcode rest = .ok row) :
    row.opcode = opcode ∧ row.label = reg.nameOf opcode ∧
      (row.remark = "" ∨ ∃ cells, remarkOn reg opcode cells = .ok row.remark) := by
  unfold rowAt at h
  split at h
  next found =>
    cases h
    exact ⟨rfl, rfl, .inl rfl⟩
  next d found =>
    have label : d.label = reg.nameOf opcode := by simp [Registry.nameOf, found]
    split at h
    · cases h
      exact ⟨rfl, label, .inl rfl⟩
    · split at h
      · cases h
        exact ⟨rfl, label, .inl rfl⟩
      · split at h
        · cases h
        · dsimp only at h
          split at h
          · cases h
            exact ⟨rfl, label, .inl rfl⟩
          · obtain ⟨remark, hremark, rfl⟩ := exists_of_map_ok h
            exact ⟨rfl, label, .inr ⟨_, hremark⟩⟩

theorem label_prefix_instruction (row : Row) : row.label.toList <+: row.instruction.toList := by
  unfold Row.instruction
  split <;> simp [List.append_assoc]

theorem oneLine_quoteCells (cells : List Int32) : OneLine (quoteCells cells).toList := by
  simp only [quoteCells]
  split
  · exact Text.oneLine_quote _
  · exact Text.oneLine_quote _

theorem oneLine_instruction (names : NamesFit reg) (h : rowAt reg offset opcode rest = .ok row) :
    OneLine row.instruction.toList := by
  obtain ⟨_, hlabel, hremark⟩ := rowAt_label h
  have label : OneLine row.label.toList := hlabel ▸ names.nameOf opcode
  have remark : OneLine row.remark.toList := by
    rcases hremark with none | ⟨cells, some⟩
    · rw [none]
      decide
    · exact names.remark some
  have blank : OneLine " ".toList := by decide
  have mark : OneLine truncatedMark.toList := by decide
  cases operands : row.operands with
  | unknown => simpa only [Row.instruction, operands] using label
  | plain => simpa only [Row.instruction, operands] using label
  | noCount =>
    simp only [Row.instruction, operands, String.toList_append]
    exact (label.append blank).append mark
  | badCount count =>
    simp only [Row.instruction, operands, String.toList_append]
    exact (((label.append blank).append (oneLine_toString count.toInt)).append blank).append mark
  | text cells =>
    simp only [Row.instruction, operands, String.toList_append]
    exact (label.append blank).append (oneLine_quoteCells cells)
  | counted cells =>
    simp only [Row.instruction, operands, String.toList_append]
    exact (((label.append blank).append (oneLine_toString (cells.length : Nat))).append blank).append
      (oneLine_joinCells cells)
  | cutShort cells =>
    simp only [Row.instruction, operands, String.toList_append]
    exact (((label.append blank).append (oneLine_joinCells cells)).append blank).append mark
  | fixed cells =>
    simp only [Row.instruction, operands, String.toList_append]
    exact ((label.append blank).append (oneLine_joinCells cells)).append remark

end Instructions

section Addresses

theorem isDigit_zeroPadded (width n : Nat) :
    ∀ c ∈ (Text.zeroPadded width n).toList, c.isDigit = true := by
  intro c hc
  rw [Text.zeroPadded, String.toList_append, String.toList_ofList, List.mem_append] at hc
  rcases hc with zero | digit
  · rw [(List.mem_replicate.mp zero).2]
    rfl
  · exact Nat.isDigit_of_mem_toDigits (by decide) (by decide) (Nat.toList_repr ▸ digit)

def Row.shown (row : Row) : List Char :=
  (Text.zeroPadded 4 row.offset).toList ++ ' ' :: ' ' :: row.instruction.toList

theorem toList_line (row : Row) : row.line.toList = row.shown ++ ['\n'] := by
  simp [Row.line, Row.shown]

theorem oneLine_shown (h : OneLine row.instruction.toList) : OneLine row.shown :=
  (oneLine_of_digits (isDigit_zeroPadded 4 row.offset)).append
    (oneLine_blank (oneLine_blank h))

/-- A number in decimal, filled up with zeros to four digits. -/
structure Address (digits : List Char) (n : Nat) : Prop where
  isDigit : ∀ c ∈ digits, c.isDigit = true
  width : 4 ≤ digits.length
  value : Nat.ofDigitChars 10 digits 0 = n

theorem address_zeroPadded (n : Nat) : Address (Text.zeroPadded 4 n).toList n where
  isDigit := isDigit_zeroPadded 4 n
  width := by
    simp only [Text.zeroPadded, String.toList_append, String.toList_ofList, List.length_append,
      List.length_replicate, ← String.length_toList]
    omega
  value := by
    change Nat.ofDigitChars 10 (String.ofList _ ++ n.repr).toList 0 = n
    rw [String.toList_append, String.toList_ofList, Nat.toList_repr, Nat.ofDigitChars_append,
      Nat.ofDigitChars_replicate_zero, Nat.mul_zero,
      Nat.ofDigitChars_toDigits (by decide) (by decide)]

/-- The lines of rows: the address of each, and behind two blanks its instruction. -/
inductive Lists : List Row → List Char → Prop where
  | nil : Lists [] []
  | cons {row : Row} {rows : List Row} {digits more : List Char} : Address digits row.offset →
      Lists rows more →
      Lists (row :: rows) (digits ++ ' ' :: ' ' :: (row.instruction.toList ++ '\n' :: more))

theorem lists_lines (rows : List Row) : Lists rows (String.join (rows.map Row.line)).toList := by
  induction rows with
  | nil => exact .nil
  | cons row rows ih =>
    have line : (String.join ((row :: rows).map Row.line)).toList =
        (Text.zeroPadded 4 row.offset).toList ++ ' ' :: ' ' :: (row.instruction.toList ++
          '\n' :: (String.join (rows.map Row.line)).toList) := by
      simp [toList_line, Row.shown]
    rw [line]
    exact .cons (address_zeroPadded row.offset) ih

def address? (line : List Char) : Option Nat :=
  let digits := line.takeWhile Char.isDigit
  if digits = [] then none else some (Nat.ofDigitChars 10 digits 0)

def addresses (cs : List Char) : List Nat := (cs.splitOn '\n').filterMap address?

theorem addresses_append (h : OneLine cs) (more : List Char) :
    addresses (cs ++ '\n' :: more) = (address? cs).toList ++ addresses more := by
  rw [addresses, List.splitOn_append_cons_self_of_not_mem h, List.filterMap_cons, addresses]
  cases address? cs <;> rfl

theorem Address.read {digits : List Char} {n : Nat} (h : Address digits n) (more : List Char) :
    address? (digits ++ ' ' :: more) = some n := by
  have taken : (digits ++ ' ' :: more).takeWhile Char.isDigit = digits := by
    rw [List.takeWhile_append_of_pos h.isDigit]
    simp
  have some : digits ≠ [] := by
    rintro rfl
    exact absurd h.width (by decide)
  rw [address?, taken, if_neg some, h.value]

theorem Lists.addresses_eq {lines : List Char} (h : Lists rows lines)
    (short : ∀ row ∈ rows, OneLine row.instruction.toList) :
    addresses lines = rows.map Row.offset := by
  induction h with
  | nil => decide +kernel
  | @cons row rows digits more address _ ih =>
    obtain ⟨first, others⟩ := List.forall_mem_cons.mp short
    have line : OneLine (digits ++ ' ' :: ' ' :: row.instruction.toList) :=
      (oneLine_of_digits address.isDigit).append (oneLine_blank (oneLine_blank first))
    have apart : digits ++ ' ' :: ' ' :: (row.instruction.toList ++ '\n' :: more) =
        (digits ++ ' ' :: ' ' :: row.instruction.toList) ++ '\n' :: more := by simp
    rw [apart, addresses_append line, address.read, ih others]
    rfl

end Addresses

section Head

/-- What a title puts in front of the listing. -/
def heading (title : String) : List Char :=
  (if title.isEmpty then "" else "; === " ++ title ++ " ===\n").toList

def countLine (n : Nat) : List Char := ("; Xtella bytecode, " ++ toString n ++ " cells").toList

theorem toList_render (title : String) (n : Nat) (rows : List Row) :
    (render title n rows).toList =
      heading title ++ (countLine n ++ '\n' :: (String.join (rows.map Row.line)).toList) := by
  simp [render, heading, countLine]

theorem oneLine_countLine (n : Nat) : OneLine (countLine n) := by
  rw [countLine, String.toList_append, String.toList_append]
  refine OneLine.append (OneLine.append (by decide) ?_) (by decide)
  exact oneLine_toString n

theorem addresses_countLine (n : Nat) (more : List Char) :
    addresses (countLine n ++ '\n' :: more) = addresses more := by
  have none : address? (countLine n) = none := by
    rw [countLine, String.toList_append, String.toList_append]
    rfl
  rw [addresses_append (oneLine_countLine n), none]
  rfl

theorem addresses_heading {title : String} (short : OneLine title.toList) (more : List Char) :
    addresses (heading title ++ more) = addresses more := by
  unfold heading
  split
  · rfl
  · have line : OneLine ("; === ".toList ++ (title.toList ++ " ===".toList)) :=
      OneLine.append (by decide) (short.append (by decide))
    have apart : ("; === " ++ title ++ " ===\n").toList ++ more =
        ("; === ".toList ++ (title.toList ++ " ===".toList)) ++ '\n' :: more := by simp
    rw [apart, addresses_append line]
    rfl

end Head

end StackMachine.Program
