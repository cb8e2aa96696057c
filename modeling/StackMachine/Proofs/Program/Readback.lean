import StackMachine.Proofs.Builtin.Strings
import StackMachine.Proofs.Program.Walk
import StackMachine.Proofs.Rendering
/-! Reading a listing back. The mnemonic of a row tells the opcode, the words behind it are
cells up to the first word that is no number, and a quoted text is its cells; so the rows
give the code back, and listings of different code differ. -/
namespace StackMachine.Program

open Text (OneLine)

variable {cells rest code : List Int32} {opcode : Int32} {offset place : Nat} {row : Row}
  {rows : List Row} {d : Descriptor} {cs : List Char} {ws : List (List Char)}

section Words

def cellOfWord? (word : List Char) : Option Int32 :=
  (Numeral.read? (String.ofList word)).map fun y => .ofInt y.num

theorem cellOfWord?_wordOf (cell : Int32) : cellOfWord? (wordOf cell) = some cell := by
  rw [cellOfWord?, wordOf, String.ofList_toList, Numeral.read?_toString]
  simp

/-- The cells up to the first word that is none. -/
def cellsOfWords : List (List Char) → List Int32
  | [] => []
  | word :: words =>
    match cellOfWord? word with
    | some cell => cell :: cellsOfWords words
    | none => []

theorem cellsOfWords_map (cells : List Int32) (ws : List (List Char)) :
    cellsOfWords (cells.map wordOf ++ ws) = cells ++ cellsOfWords ws := by
  induction cells with
  | nil => rfl
  | cons cell cells ih => simp [cellsOfWords, cellOfWord?_wordOf, ih]

theorem cellsOfWords_blank (ws : List (List Char)) : cellsOfWords ([] :: ws) = [] := rfl

theorem words_joinCells (some : cells ≠ []) :
    (joinCells cells).toList.splitOn ' ' = cells.map wordOf := by
  rw [toList_joinCells, List.splitOn_intercalate]
  · intro word hword
    obtain ⟨cell, _, rfl⟩ := List.mem_map.mp hword
    exact not_mem_toString _ (by decide) (by decide)
  · simpa using some

theorem cellsOfWords_joinCells (cells : List Int32) (stop : cellsOfWords ws = []) :
    cellsOfWords ((joinCells cells).toList.splitOn ' ' ++ ws) = cells := by
  cases cells with
  | nil => simp [joinCells, cellsOfWords_blank]
  | cons cell cells =>
    rw [words_joinCells (List.cons_ne_nil _ _), cellsOfWords_map, stop, List.append_nil]

end Words

section Instructions

def unknownMark : List Char := ['?', '?', '?']

def opcodeNamed? (name : List Char) : Option Int32 :=
  (Builtin.table.find? fun d => d.label.toList == name).map Descriptor.number

def cellsOfParts (name operands : List Char) : List Int32 :=
  if name = unknownMark then cellsOfWords (operands.splitOn ' ')
  else match opcodeNamed? name with
    | none => []
    | some nr =>
      if nr = Builtin.Nr.pushString then
        Builtin.textCells ((Text.unescaped operands.tail).map Builder.cellOf)
      else nr :: cellsOfWords (operands.splitOn ' ')

def readInstruction (cs : List Char) : List Int32 :=
  cellsOfParts (cs.takeWhile (· != ' ')) (cs.dropWhile (· != ' ')).tail

theorem mnemonic_of_mem : ∀ d ∈ Builtin.table, ' ' ∉ d.label.toList ∧
    d.label.toList ≠ unknownMark ∧ opcodeNamed? d.label.toList = some d.number := by
  decide +kernel

section Name

variable {name : List Char} (word : ' ' ∉ name)

include word

theorem plain_of_word : ∀ c ∈ name, (c != ' ') = true := by
  intro c hc
  simpa using fun same : c = ' ' => word (same ▸ hc)

theorem readInstruction_word : readInstruction name = cellsOfParts name [] := by
  have whole : name.takeWhile (· != ' ') = name := List.takeWhile_eq_self_iff.mpr (plain_of_word word)
  have nothing : name.dropWhile (· != ' ') = [] := List.dropWhile_eq_nil_iff.mpr (plain_of_word word)
  simp [readInstruction, whole, nothing]

theorem readInstruction_append (operands : List Char) :
    readInstruction (name ++ ' ' :: operands) = cellsOfParts name operands := by
  have plain := plain_of_word word
  simp [readInstruction, List.takeWhile_append_of_pos plain, List.dropWhile_append_of_pos plain]

end Name

theorem cellsOfParts_named (hd : d ∈ Builtin.table) (other : d.number ≠ Builtin.Nr.pushString)
    (operands : List Char) :
    cellsOfParts d.label.toList operands = d.number :: cellsOfWords (operands.splitOn ' ') := by
  obtain ⟨_, known, named⟩ := mnemonic_of_mem d hd
  simp [cellsOfParts, known, named, other]

/-- What may stand behind the cells of an instruction without being read as one. -/
def Aside (cs : List Char) : Prop :=
  cs = [] ∨ ∃ more, cs = ' ' :: more ∧ OneLine more ∧ cellsOfWords (more.splitOn ' ') = []

theorem Aside.oneLine (h : Aside cs) : OneLine cs := by
  rcases h with rfl | ⟨more, rfl, short, _⟩
  · decide
  · exact oneLine_blank short

inductive Spells : List Int32 → List Char → Prop where
  | unknown (nr : Int32) : Spells [nr] (unknownMark ++ ' ' :: wordOf nr)
  | plain {d : Descriptor} : d ∈ Builtin.table → d.number ≠ Builtin.Nr.pushString →
      Spells [d.number] d.label.toList
  | text {d : Descriptor} (s : String) : d ∈ Builtin.table → d.number = Builtin.Nr.pushString →
      Spells (Builtin.textCells (Builtin.cellsOf s)) (d.label.toList ++ ' ' :: (Text.quote s).toList)
  | operands {d : Descriptor} {tail : List Char} (cells : List Int32) : d ∈ Builtin.table →
      d.number ≠ Builtin.Nr.pushString → Aside tail →
      Spells (d.number :: cells) (d.label.toList ++ ' ' :: ((joinCells cells).toList ++ tail))

theorem cellsOfWords_joinCells_aside (cells : List Int32) (aside : Aside cs) :
    cellsOfWords (((joinCells cells).toList ++ cs).splitOn ' ') = cells := by
  rcases aside with rfl | ⟨more, rfl, _, stop⟩
  · simpa using cellsOfWords_joinCells cells (rfl : cellsOfWords [] = [])
  · rw [List.splitOn_append_cons_self, cellsOfWords_joinCells cells stop]

theorem Spells.read (h : Spells cells cs) : readInstruction cs = cells := by
  cases h with
  | unknown nr =>
    have alone := cellsOfWords_joinCells_aside [nr] (.inl rfl)
    rw [joinCells_singleton, List.append_nil] at alone
    rw [readInstruction_append (by decide), cellsOfParts, if_pos rfl, alone]
  | plain hd other =>
    rw [readInstruction_word (mnemonic_of_mem _ hd).1, cellsOfParts_named hd other]
    rfl
  | text s hd pushes =>
    obtain ⟨word, known, named⟩ := mnemonic_of_mem _ hd
    rw [readInstruction_append word]
    simp [cellsOfParts, known, named, pushes, Text.toList_quote, Text.unescaped_escaped,
      Builtin.cellsOf]
  | operands cells hd other aside =>
    rw [readInstruction_append (mnemonic_of_mem _ hd).1, cellsOfParts_named hd other,
      cellsOfWords_joinCells_aside cells aside]

theorem Spells.oneLine (h : Spells cells cs) : OneLine cs := by
  cases h with
  | unknown nr => exact OneLine.append (by decide) (oneLine_blank (oneLine_toString _))
  | plain hd _ => exact (oneLine_label_of_mem _ hd)
  | text s hd _ => exact (oneLine_label_of_mem _ hd).append (oneLine_blank (Text.oneLine_quote s))
  | operands cells hd _ aside =>
    refine (oneLine_label_of_mem _ hd).append (oneLine_blank ?_)
    exact (oneLine_joinCells cells).append aside.oneLine

end Instructions

section Rows

theorem aside_truncatedMark : Aside (' ' :: truncatedMark.toList) :=
  .inr ⟨_, rfl, by decide, by decide +kernel⟩

theorem aside_of_blanks (h : OneLine cs) : Aside (' ' :: ' ' :: cs) := by
  refine .inr ⟨_, rfl, oneLine_blank h, ?_⟩
  rw [← List.nil_append (' ' :: cs), List.splitOn_append_cons_self]
  rfl

/-- Remarks are set off by blanks, so that a number in them is not taken for a cell. -/
theorem aside_remark {nr : Int32} {remark : String}
    (h : remarkOn Builtin.registry nr cells = .ok remark) : Aside remark.toList := by
  have set_off (note : String) (short : OneLine note.toList) : Aside ("    ; " ++ note).toList := by
    rw [String.toList_append]
    exact aside_of_blanks (OneLine.append (by decide : OneLine [' ', ' ', ';', ' ']) short)
  unfold remarkOn at h
  split at h
  · split at h
    · cases h
      rw [String.append_assoc, String.append_assoc]
      refine set_off _ ?_
      rw [String.toList_append, String.toList_append]
      exact (oneLine_toString _).append (OneLine.append (by decide) (oneLine_toString _))
    · cases h
  · split at h
    · split at h
      · cases h
        exact set_off _ (oneLine_toString _)
      · cases h
    · split at h
      · split at h
        next nr' _ =>
          cases found : Builtin.registry.find? nr' with
          | none =>
            rw [found] at h
            cases h
            exact .inl rfl
          | some d =>
            rw [found] at h
            cases h
            have label := oneLine_label_of_mem d (Builtin.find?_mem found)
            change Aside ("    ; " ++ "&" ++ d.label).toList
            rw [String.append_assoc]
            refine set_off _ ?_
            rw [String.toList_append]
            exact OneLine.append (by decide) label
        next => cases h
      · cases h
        exact .inl rfl

/-- Cells that begin with a text short enough to be shown whole, of characters only. -/
def BeginsWithText (cells : List Int32) : Prop :=
  ∃ text more, cells = Builtin.textCells text ++ more ∧ text.length ≤ shownText ∧
    ∀ cell ∈ text, Builtin.IsScalar cell

theorem quoteCells_cellsOf {s : String} (short : s.length ≤ shownText) :
    quoteCells (Builtin.cellsOf s) = Text.quote s := by
  have chars : (Builtin.cellsOf s).map (fun c => (Builtin.charOf? c).getD Text.replacement) =
      s.toList := by
    simp [Builtin.cellsOf, Function.comp_def, Builtin.charOf?_cellOf]
  rw [quoteCells, chars, String.length_toList, if_neg (Nat.not_lt.mpr short), String.ofList_toList]

theorem other_of_fixed : ∀ d ∈ Builtin.table, 0 ≤ d.immediates → d.number ≠ Builtin.Nr.pushString := by
  decide

theorem countedOperands_text {text more : List Int32} (short : text.length ≤ shownText) :
    countedOperands Builtin.Nr.pushString (.ofNat text.length :: (text ++ more)) =
      (.text text, text.length + 2) := by
  have count : (Int32.ofNat text.length).toInt = text.length := by
    unfold shownText at short
    exact Int32.toInt_ofNat_of_lt (by omega)
  have fits : 0 ≤ Int32.ofNat text.length ∧
      (Int32.ofNat text.length).toInt ≤ (text ++ more).length := by
    rw [Int32.le_iff_toInt_le, count]
    simp
  rw [Builtin.countedOperands_of_fits fits, count, Int.toNat_natCast, List.take_left]

theorem spells_text (found : Builtin.registry.find? opcode = some d)
    (counted : d.immediates = Builtin.countedImmediates) (pushes : d.number = Builtin.Nr.pushString)
    (whole : BeginsWithText (opcode :: rest))
    (h : rowAt Builtin.registry offset opcode rest = .ok row) :
    Spells ((opcode :: rest).take row.length) row.instruction.toList := by
  obtain ⟨text, more, hcells, short, scalars⟩ := whole
  obtain ⟨s, rfl⟩ := Builtin.exists_text scalars
  obtain ⟨pushed, behind⟩ : opcode = Builtin.Nr.pushString ∧
      rest = .ofNat (Builtin.cellsOf s).length :: (Builtin.cellsOf s ++ more) := List.cons.inj hcells
  rw [rowAt_of_counted found counted, pushed, behind, countedOperands_text short] at h
  cases h
  have shown : (d.label ++ " " ++ quoteCells (Builtin.cellsOf s)).toList =
      d.label.toList ++ ' ' :: (Text.quote s).toList := by
    simp [quoteCells_cellsOf (Builtin.length_cellsOf s ▸ short)]
  have taken : (Builtin.textCells (Builtin.cellsOf s) ++ more).take ((Builtin.cellsOf s).length + 2) =
      Builtin.textCells (Builtin.cellsOf s) := List.take_left' rfl
  rw [Row.instruction, shown, hcells, taken]
  exact .text s (Builtin.find?_mem found) pushes

theorem spells_fixed (found : Builtin.registry.find? d.number = some d) (fixed : 0 ≤ d.immediates)
    (h : rowAt Builtin.registry offset d.number rest = .ok row) :
    Spells ((d.number :: rest).take row.length) row.instruction.toList := by
  have hd := Builtin.find?_mem found
  have other := other_of_fixed d hd fixed
  rcases Int.lt_or_eq_of_le fixed with positive | zero
  · by_cases short : rest.length < d.immediates.toNat
    · rw [rowAt_of_short found positive short] at h
      cases h
      have text : (d.label ++ " " ++ joinCells rest ++ " " ++ truncatedMark).toList =
          d.label.toList ++ ' ' :: ((joinCells rest).toList ++ ' ' :: truncatedMark.toList) := by
        simp
      rw [Row.instruction, text, List.take_succ_cons, List.take_length]
      exact .operands rest hd other aside_truncatedMark
    · rw [rowAt_of_fixed found positive (Nat.le_of_not_lt short)] at h
      obtain ⟨remark, hremark, hrow⟩ := exists_of_map_ok h
      cases hrow
      have text (cells : List Int32) : (d.label ++ " " ++ joinCells cells ++ remark).toList =
          d.label.toList ++ ' ' :: ((joinCells cells).toList ++ remark.toList) := by
        simp
      rw [Row.instruction, text, List.take_succ_cons]
      exact .operands _ hd other (aside_remark hremark)
  · rw [rowAt_of_plain found zero.symm] at h
    cases h
    exact .plain hd other

theorem spells_row (h : rowAt Builtin.registry offset opcode rest = .ok row)
    (whole : opcode = Builtin.Nr.pushString → BeginsWithText (opcode :: rest)) :
    Spells ((opcode :: rest).take row.length) row.instruction.toList := by
  cases found : Builtin.registry.find? opcode with
  | none =>
    rw [rowAt_of_unknown found] at h
    cases h
    have label : (Builtin.registry.nameOf opcode).toList = unknownMark ++ ' ' :: wordOf opcode := by
      simp [Registry.nameOf, found, unknownMark, wordOf]
    change Spells [opcode] (Builtin.registry.nameOf opcode).toList
    rw [label]
    exact .unknown opcode
  | some d =>
    obtain rfl := Registry.number_of_find? found
    rcases (Builtin.immediates_of_mem d (Builtin.find?_mem found)).1 with fixed | ⟨counted, pushes⟩
    · exact spells_fixed found fixed h
    · exact spells_text found counted pushes (whole pushes) h

end Rows

section Lines

def readLine (cs : List Char) : List Int32 := readInstruction ((cs.dropWhile Char.isDigit).drop 2)

def readLines (cs : List Char) : List Int32 := (cs.splitOn '\n').flatMap readLine

theorem readLine_shown (row : Row) : readLine row.shown = readInstruction row.instruction.toList := by
  rw [readLine, Row.shown, List.dropWhile_append_of_pos (isDigit_zeroPadded 4 row.offset)]
  rfl

theorem readLines_append (h : OneLine cs) (more : List Char) :
    readLines (cs ++ '\n' :: more) = readLine cs ++ readLines more := by
  rw [readLines, List.splitOn_append_cons_self_of_not_mem h, List.flatMap_cons, readLines]

theorem readLines_nil : readLines [] = [] := by decide +kernel

/-- Every text that the walk comes to stands whole in the code, is short enough to be shown
whole and has characters only. -/
def ShownInFull (code : List Int32) : Prop :=
  ∀ rows place rest, Walks Builtin.registry code rows place →
    code.drop place = Builtin.Nr.pushString :: rest → BeginsWithText (code.drop place)

theorem Walks.read (h : Walks Builtin.registry code rows place) (whole : ShownInFull code)
    (more : List Char) :
    readLines ((String.join (rows.map Row.line)).toList ++ more) =
      code.take place ++ readLines more := by
  induction h generalizing more with
  | start => simp
  | @next rows place opcode rest row walks here hrow ih =>
    have spells := spells_row hrow fun pushes =>
      here ▸ whole rows place rest walks (pushes ▸ here)
    have line : (String.join ((rows ++ [row]).map Row.line)).toList ++ more =
        (String.join (rows.map Row.line)).toList ++ (row.shown ++ '\n' :: more) := by
      simp [toList_line]
    rw [line, ih, readLines_append (oneLine_shown spells.oneLine), readLine_shown, spells.read, ← here,
      List.take_add, List.append_assoc]

end Lines

section Listing

def readListing (title text : String) : List Int32 :=
  readLines (text.toList.drop (heading title).length)

theorem readLine_countLine (n : Nat) : readLine (countLine n) = [] := by
  have name : opcodeNamed? "Xtella".toList = none := by decide +kernel
  have line : countLine n = ';' :: ' ' :: ("Xtella".toList ++
      ' ' :: ("bytecode, " ++ toString n ++ " cells").toList) := by
    simp [countLine]
  rw [line]
  change readInstruction ("Xtella".toList ++ _) = []
  rw [readInstruction_append (by decide), cellsOfParts, if_neg (by decide), name]

theorem exists_walk (code : List Int32) :
    ∃ rows, Walks Builtin.registry code rows code.length ∧
      Program.rows Builtin.registry code = .ok rows := by
  rcases walks_cases Builtin.registry code with walk | ⟨⟨_, place, _, stuck⟩, _⟩
  · exact walk
  · obtain ⟨opcode, rest, d, _, found, unlistable⟩ := stuck
    obtain ⟨m, misfit⟩ : ∃ m, rowAt Builtin.registry place opcode rest = .error m :=
      rowAt_error_iff.mpr ⟨d, found, unlistable⟩
    obtain ⟨row, hrow⟩ := Builtin.exists_row place opcode rest
    cases hrow.symm.trans misfit

theorem readListing_disassemble (title : String) (whole : ShownInFull code) :
    ∃ text, disassemble Builtin.registry title code = .ok text ∧ readListing title text = code := by
  obtain ⟨rows, walk, listed⟩ := exists_walk code
  refine ⟨render title code.length rows, by rw [disassemble, listed]; rfl, ?_⟩
  have body := walk.read whole []
  rw [List.append_nil, readLines_nil, List.append_nil, List.take_length] at body
  rw [readListing, toList_render, List.drop_left, readLines_append (oneLine_countLine _),
    readLine_countLine, body, List.nil_append]

/-- Code whose texts are all shown in full is told by its listing: no two such codes have the
same one. -/
theorem listings_are_unambiguous (title : String) (code other : List Int32)
    (whole : ShownInFull code) (otherWhole : ShownInFull other)
    (same : disassemble Builtin.registry title code = disassemble Builtin.registry title other) :
    code = other := by
  obtain ⟨text, listed, back⟩ := readListing_disassemble title whole
  obtain ⟨text', listed', back'⟩ := readListing_disassemble title otherWhole
  rw [listed, listed', Except.ok.injEq] at same
  rw [← back, ← back', same]

/-- The number 8 as an operand, which is also the opcode of texts, a text that is a quote, and
a fraction without its denominator. -/
def quoteAndHalfFraction : List Int32 := [1, 8, 8, 1, 34, 9, 1]

theorem place_of_walk (h : Walks Builtin.registry quoteAndHalfFraction rows place) :
    place ∈ [0, 2, 5, 7] := by
  induction h with
  | start => decide
  | next _ here hrow ih =>
    simp only [List.mem_cons, List.not_mem_nil, or_false] at ih
    rcases ih with rfl | rfl | rfl | rfl
    · cases here
      cases hrow
      decide
    · cases here
      cases hrow
      decide
    · cases here
      cases hrow
      decide
    · cases here

theorem shownInFull_quoteAndHalfFraction : ShownInFull quoteAndHalfFraction := by
  intro rows place rest walks here
  have reached := place_of_walk walks
  simp only [List.mem_cons, List.not_mem_nil, or_false] at reached
  rcases reached with rfl | rfl | rfl | rfl
  · cases here
  · refine ⟨[34], [9, 1], rfl, by decide, ?_⟩
    intro cell hcell
    rw [List.mem_singleton.mp hcell]
    exact Builtin.isScalar_cellOf '"'
  · cases here
  · cases here

theorem quoteAndHalfFraction_is_told :
    ShownInFull quoteAndHalfFraction ∧
    disassemble Builtin.registry "" quoteAndHalfFraction =
      disassemble Builtin.registry "" (Builtin.Nr.pushInt :: 8 ::
        (Builtin.textCells (Builtin.cellsOf "\"") ++ [Builtin.Nr.pushRational, 1])) ∧
    quoteAndHalfFraction = Builtin.Nr.pushInt :: 8 ::
        (Builtin.textCells (Builtin.cellsOf "\"") ++ [Builtin.Nr.pushRational, 1]) :=
  ⟨shownInFull_quoteAndHalfFraction, rfl, listings_are_unambiguous "" _ _
    shownInFull_quoteAndHalfFraction shownInFull_quoteAndHalfFraction rfl⟩

-- A text that is cut short is listed by its count alone.
example : disassemble Builtin.registry "" [8, 5, 1] = disassemble Builtin.registry "" [8, 5, 2] := by
  cbv

end Listing

end StackMachine.Program
