import Mathlib.Algebra.GroupWithZero.Nat
import Mathlib.Algebra.Order.BigOperators.Group.List
import Mathlib.Algebra.Order.Group.Nat
import Mathlib.Data.List.Chain
import StackMachine.Proofs.Program.Lines
/-! The walk of a listing through the code. It goes from instruction to instruction by the
length of each row; it is stopped only by a descriptor that no row can show, and otherwise
its rows cover the code without gap or overlap, and so do the addresses that it prints. -/
namespace StackMachine.Program

open Text (OneLine)

variable {reg : Registry} {code : List Int32} {offset place : Nat} {opcode : Int32}
  {rest : List Int32} {row : Row} {rows : List Row} {d : Descriptor} {m : Misfit}

theorem exists_map_error_iff {ε α β : Type} {x : Except ε α} {f : α → β} :
    (∃ e, x.map f = .error e) ↔ ∃ e, x = .error e := by
  cases x <;> simp [Except.map]

section Row

theorem rowAt_of_negative (h : reg.find? opcode = some d) (negative : d.immediates < -1) :
    rowAt reg offset opcode rest = .error (.negativeImmediates d.immediates) := by
  have hcounted : d.immediates ≠ Builtin.countedImmediates := by
    unfold Builtin.countedImmediates
    omega
  simp only [rowAt, h]
  rw [if_neg (by omega), if_neg hcounted, if_pos (by omega)]

theorem length_countedOperands (opcode : Int32) (rest : List Int32) :
    1 ≤ (countedOperands opcode rest).2 ∧ (countedOperands opcode rest).2 ≤ rest.length + 1 := by
  cases rest with
  | nil => simp [countedOperands]
  | cons count more =>
    rw [countedOperands]
    split
    next fits =>
      simp only [List.length_cons]
      omega
    next => simp

theorem remarkOn_error_iff {cells : List Int32} (some : cells ≠ []) :
    (∃ m, remarkOn reg opcode cells = .error m) ↔
      (opcode = Builtin.Nr.pushRational ∨ opcode = Builtin.Nr.pushWide) ∧ cells.length = 1 := by
  obtain ⟨c, more, rfl⟩ := List.exists_cons_of_ne_nil some
  unfold remarkOn
  split
  next h => cases more <;> simp [h]
  next hr =>
    split
    next h => cases more <;> simp [h]
    next hw =>
      split
      next => simp [hr, hw]
      next => simp [hr, hw]

/-- No row can show a descriptor that counts its immediates by a number below `-1`, or one
that takes a single cell where the remark is about two. -/
def Unlistable (d : Descriptor) (rest : List Int32) : Prop :=
  d.immediates < -1 ∨
    (d.number = Builtin.Nr.pushRational ∨ d.number = Builtin.Nr.pushWide) ∧
      d.immediates = 1 ∧ rest ≠ []

theorem immediates_cases (d : Descriptor) : d.immediates < -1 ∨
    d.immediates = Builtin.countedImmediates ∨ d.immediates = 0 ∨ 0 < d.immediates := by
  unfold Builtin.countedImmediates
  omega

theorem rowAt_extent (h : rowAt reg offset opcode rest = .ok row) :
    row.offset = offset ∧ 1 ≤ row.length ∧ row.length ≤ rest.length + 1 := by
  cases found : reg.find? opcode with
  | none =>
    rw [rowAt_of_unknown found] at h
    cases h
    simp
  | some d =>
    rcases immediates_cases d with negative | counted | zero | positive
    · rw [rowAt_of_negative found negative] at h
      cases h
    · rw [rowAt_of_counted found counted] at h
      cases h
      exact ⟨rfl, length_countedOperands opcode rest⟩
    · rw [rowAt_of_plain found zero] at h
      cases h
      simp
    · by_cases short : rest.length < d.immediates.toNat
      · rw [rowAt_of_short found positive short] at h
        cases h
        simp
      · rw [rowAt_of_fixed found positive (Nat.le_of_not_lt short)] at h
        obtain ⟨remark, _, hrow⟩ := exists_of_map_ok h
        cases hrow
        simp only [true_and]
        omega

theorem rowAt_error_iff : (∃ m, rowAt reg offset opcode rest = .error m) ↔
    ∃ d, reg.find? opcode = some d ∧ Unlistable d rest := by
  cases found : reg.find? opcode with
  | none => simp [rowAt_of_unknown found]
  | some d =>
    simp only [Option.some.injEq, exists_eq_left', Unlistable, Registry.number_of_find? found]
    rcases immediates_cases d with negative | counted | zero | positive
    · simp [rowAt_of_negative found negative, negative]
    · simp [rowAt_of_counted found counted, counted, Builtin.countedImmediates]
    · simp [rowAt_of_plain found zero, zero]
    · have least : ¬ d.immediates < -1 := by omega
      by_cases short : rest.length < d.immediates.toNat
      · have alone : d.immediates = 1 → rest = [] := by
          intro one
          rw [← List.length_eq_zero_iff]
          omega
        simp only [rowAt_of_short found positive short, reduceCtorEq, exists_false, false_iff, not_or]
        exact ⟨least, fun ⟨_, one, more⟩ => more (alone one)⟩
      · have taken : (rest.take d.immediates.toNat).length = d.immediates.toNat := by
          rw [List.length_take]
          omega
        have some : rest.take d.immediates.toNat ≠ [] := by
          rw [← List.length_pos_iff]
          omega
        have more : rest ≠ [] := fun h => some (by rw [h, List.take_nil])
        have one : d.immediates.toNat = 1 ↔ d.immediates = 1 := by omega
        rw [rowAt_of_fixed found positive (Nat.le_of_not_lt short), exists_map_error_iff,
          remarkOn_error_iff some, taken, one]
        simp [least, more]

end Row

section Loop

/-- The loop of a listing: with these rows behind it, it stands at this place. -/
inductive Walks (reg : Registry) (code : List Int32) : List Row → Nat → Prop where
  | start : Walks reg code [] 0
  | next {rows : List Row} {place : Nat} {opcode : Int32} {rest : List Int32} {row : Row} :
      Walks reg code rows place → code.drop place = opcode :: rest →
      rowAt reg place opcode rest = .ok row → Walks reg code (rows ++ [row]) (place + row.length)

/-- The loop stands at an instruction that no row can show. -/
def StuckAt (reg : Registry) (code : List Int32) (place : Nat) : Prop :=
  ∃ opcode rest d, code.drop place = opcode :: rest ∧ reg.find? opcode = some d ∧ Unlistable d rest

theorem length_of_drop (h : code.drop place = opcode :: rest) :
    place + (rest.length + 1) = code.length := by
  have := congrArg List.length h
  rw [List.length_drop, List.length_cons] at this
  omega

theorem rowsFrom_of_row (here : code.drop place = opcode :: rest)
    (hrow : rowAt reg place opcode rest = .ok row) :
    rowsFrom reg place (code.drop place) =
      (rowsFrom reg (place + row.length) (code.drop (place + row.length))).map (row :: ·) := by
  obtain ⟨_, least, _⟩ := rowAt_extent hrow
  obtain ⟨n, hn⟩ := Nat.exists_eq_add_of_le' least
  have there : code.drop (place + row.length) = rest.drop (row.length - 1) := by
    rw [← List.drop_drop, here, hn, List.drop_succ_cons, Nat.add_sub_cancel]
  rw [there, here, rowsFrom, hrow]
  change (rowsFrom reg (place + row.length) (rest.drop (row.length - 1)) >>=
    fun more => pure (row :: more)) = _
  cases rowsFrom reg (place + row.length) (rest.drop (row.length - 1)) <;> rfl

theorem rowsFrom_of_misfit (here : code.drop place = opcode :: rest)
    (misfit : rowAt reg place opcode rest = .error m) :
    rowsFrom reg place (code.drop place) = .error m := by
  rw [here, rowsFrom, misfit]
  rfl

/-- Wherever the loop stands, the listing is what it has and what it will find from there. -/
theorem Walks.rows_eq (h : Walks reg code rows place) :
    Program.rows reg code = (rowsFrom reg place (code.drop place)).map (rows ++ ·) := by
  induction h with
  | start =>
    rw [Program.rows, List.drop_zero]
    cases rowsFrom reg 0 code <;> rfl
  | @next before place opcode rest row _ here hrow ih =>
    rw [ih, rowsFrom_of_row here hrow]
    cases rowsFrom reg (place + row.length) (code.drop (place + row.length)) with
    | error m => rfl
    | ok after => simp [Except.map]

theorem Walks.ends (h : Walks reg code rows place) (inside : place ≤ code.length) :
    (∃ all, Walks reg code all code.length) ∨
      ∃ before stop, Walks reg code before stop ∧ StuckAt reg code stop := by
  induction left : code.length - place using Nat.strongRecOn generalizing rows place with
  | ind n shorter =>
    cases here : code.drop place with
    | nil =>
      have last : place = code.length := Nat.le_antisymm inside (List.drop_eq_nil_iff.mp here)
      rw [last] at h
      exact .inl ⟨rows, h⟩
    | cons opcode rest =>
      have hlength := length_of_drop here
      cases hrow : rowAt reg place opcode rest with
      | error m =>
        obtain ⟨d, found, unlistable⟩ := rowAt_error_iff.mp ⟨m, hrow⟩
        exact .inr ⟨rows, place, h, opcode, rest, d, here, found, unlistable⟩
      | ok row =>
        obtain ⟨_, least, most⟩ := rowAt_extent hrow
        exact shorter _ (by omega) (h.next here hrow) (by omega) rfl

theorem Walks.rows_ok (h : Walks reg code rows code.length) : Program.rows reg code = .ok rows := by
  rw [h.rows_eq, List.drop_length, rowsFrom]
  simp [Except.map]

theorem Walks.rows_error (h : Walks reg code rows place) (stuck : StuckAt reg code place) :
    ∃ m, Program.rows reg code = .error m := by
  obtain ⟨opcode, rest, d, here, found, unlistable⟩ := stuck
  obtain ⟨m, misfit⟩ := rowAt_error_iff.mpr ⟨d, found, unlistable⟩
  refine ⟨m, ?_⟩
  rw [h.rows_eq, rowsFrom_of_misfit here misfit]
  rfl

theorem walks_cases (reg : Registry) (code : List Int32) :
    (∃ rows, Walks reg code rows code.length ∧ Program.rows reg code = .ok rows) ∨
    (∃ rows place, Walks reg code rows place ∧ StuckAt reg code place) ∧
      ∃ m, Program.rows reg code = .error m := by
  rcases Walks.start.ends (Nat.zero_le code.length) with ⟨rows, walks⟩ | ⟨rows, place, walks, stuck⟩
  · exact .inl ⟨rows, walks, walks.rows_ok⟩
  · exact .inr ⟨⟨rows, place, walks, stuck⟩, walks.rows_error stuck⟩

/-- The rows take the cells in front of a place one after another. -/
structure Covers (rows : List Row) (place : Nat) : Prop where
  first : ∀ row ∈ rows.head?, row.offset = 0
  adjacent : rows.IsChain fun row next => next.offset = row.offset + row.length
  last : ∀ row ∈ rows.getLast?, row.offset + row.length = place
  extent : ∀ row ∈ rows, 1 ≤ row.length ∧ row.offset + row.length ≤ place
  total : (rows.map Row.length).sum = place

theorem Covers.append (h : Covers rows place) (hoffset : row.offset = place)
    (least : 1 ≤ row.length) : Covers (rows ++ [row]) (place + row.length) where
  first := by
    cases rows with
    | nil =>
      have atStart : place = 0 := h.total.symm
      simp [hoffset, atStart]
    | cons r more => simpa using h.first
  adjacent := by
    rw [List.isChain_append]
    refine ⟨h.adjacent, .singleton row, ?_⟩
    intro r hr s hs
    cases hs
    rw [hoffset, h.last r hr]
  last := by simp [hoffset]
  extent := by
    intro r hr
    rcases List.mem_append.mp hr with before | here
    · have := h.extent r before
      omega
    · cases List.mem_singleton.mp here
      omega
  total := by simp [h.total]

theorem Covers.increasing (h : Covers rows place) :
    rows.Pairwise fun row next => row.offset < next.offset := by
  have : IsTrans Row fun row next => row.offset < next.offset := ⟨fun _ _ _ => Nat.lt_trans⟩
  rw [← List.isChain_iff_pairwise]
  refine h.adjacent.imp_of_mem_imp fun row next hrow _ hnext => ?_
  have := (h.extent row hrow).1
  omega

theorem Covers.length_le (h : Covers rows place) : rows.length ≤ place := by
  have least : ∀ n ∈ rows.map Row.length, 1 ≤ n := by
    intro n hn
    obtain ⟨row, hrow, rfl⟩ := List.mem_map.mp hn
    exact (h.extent row hrow).1
  have := List.card_nsmul_le_sum (rows.map Row.length) 1 least
  simpa [h.total] using this

theorem Walks.covers (h : Walks reg code rows place) :
    Covers rows place ∧ place ≤ code.length := by
  induction h with
  | start => exact ⟨⟨nofun, .nil, nofun, nofun, rfl⟩, Nat.zero_le _⟩
  | next _ here hrow ih =>
    obtain ⟨hoffset, least, most⟩ := rowAt_extent hrow
    have := length_of_drop here
    exact ⟨ih.1.append hoffset least, by omega⟩

theorem Walks.row_of_mem (h : Walks reg code rows place) (hrow : row ∈ rows) :
    ∃ rest, code.drop row.offset = row.opcode :: rest ∧
      rowAt reg row.offset row.opcode rest = .ok row := by
  induction h with
  | start => cases hrow
  | @next before place opcode rest last _ here hlast ih =>
    rcases List.mem_append.mp hrow with earlier | latest
    · exact ih earlier
    · cases List.mem_singleton.mp latest
      obtain ⟨hoffset, _⟩ := rowAt_extent hlast
      obtain ⟨hopcode, _⟩ := rowAt_label hlast
      rw [hoffset, hopcode]
      exact ⟨rest, here, hlast⟩

end Loop

/-- The text has its head, and a line for each row. -/
def Prints (title : String) (cells : Nat) (rows : List Row) (text : String) : Prop :=
  ∃ lines, text.toList = heading title ++ (countLine cells ++ '\n' :: lines) ∧ Lists rows lines

theorem prints_render (title : String) (cells : Nat) (rows : List Row) :
    Prints title cells rows (render title cells rows) :=
  ⟨_, toList_render title cells rows, lists_lines rows⟩

theorem Walks.addresses_eq (h : Walks reg code rows place) (names : NamesFit reg) {title : String}
    (short : OneLine title.toList) (cells : Nat) :
    addresses (render title cells rows).toList = rows.map Row.offset := by
  rw [toList_render, addresses_heading short, addresses_countLine]
  refine (lists_lines rows).addresses_eq fun row hrow => ?_
  obtain ⟨rest, _, hrest⟩ := h.row_of_mem hrow
  exact oneLine_instruction names hrest

theorem not_unlistable (builtins : Builtin.Installed reg) (found : reg.find? opcode = some d)
    (least : -1 ≤ d.immediates) : ¬ Unlistable d rest := by
  rintro (below | ⟨pair, one, _⟩)
  · omega
  · obtain ⟨entry, hentry, hnr⟩ : ∃ entry ∈ Builtin.table, entry.number = d.number := by
      rcases pair with h | h <;> rw [h] <;> decide
    have two := (Builtin.immediates_of_mem entry hentry).2.1 (hnr ▸ pair)
    have same := builtins entry hentry
    rw [hnr, Registry.number_of_find? found, found] at same
    cases same
    omega

/-- A listing walks through the code in no more rows than there are cells. It fails exactly
if it comes to an instruction that no row can show; otherwise it prints a line for each row,
with the address and the name of the instruction there, and its rows start at the first cell,
follow each other without a gap and end with the last cell. With the builtin opcodes
installed it shows all code, whatever else is registered, if immediates are counted from
`-1` on. -/
theorem listings_cover_the_code (reg : Registry) (title : String) (code : List Int32) :
    (∀ rows place, Walks reg code rows place → rows.length ≤ code.length) ∧
    ((∃ m, disassemble reg title code = .error m) ↔
      ∃ rows place, Walks reg code rows place ∧ StuckAt reg code place) ∧
    (∀ text, disassemble reg title code = .ok text →
      ∃ rows, Walks reg code rows code.length ∧ text = render title code.length rows ∧
        Prints title code.length rows text ∧
        (∀ row ∈ rows, code[row.offset]? = some row.opcode ∧
          (reg.nameOf row.opcode).toList <+: row.instruction.toList) ∧
        (NamesFit reg → OneLine title.toList → addresses text.toList = rows.map Row.offset) ∧
        (code ≠ [] → ∃ row more, rows = row :: more ∧ row.offset = 0) ∧
        rows.Pairwise (fun row next => row.offset < next.offset) ∧
        rows.IsChain (fun row next => next.offset = row.offset + row.length) ∧
        (∀ row ∈ rows, 1 ≤ row.length ∧ row.offset + row.length ≤ code.length) ∧
        (rows.map Row.length).sum = code.length) ∧
    (Builtin.Installed reg → (∀ nr d, reg.find? nr = some d → -1 ≤ d.immediates) →
      ∃ text, disassemble reg title code = .ok text) := by
  have fails : (∃ m, disassemble reg title code = .error m) ↔
      ∃ rows place, Walks reg code rows place ∧ StuckAt reg code place := by
    rw [disassemble, exists_map_error_iff]
    constructor
    · rintro ⟨m, failed⟩
      rcases walks_cases reg code with ⟨rows, _, listed⟩ | ⟨stuck, _⟩
      · cases listed.symm.trans failed
      · exact stuck
    · rintro ⟨rows, place, walks, stuck⟩
      exact walks.rows_error stuck
  refine ⟨?_, fails, ?_, ?_⟩
  · intro rows place walks
    obtain ⟨covers, inside⟩ := walks.covers
    exact covers.length_le.trans inside
  · intro text listed
    obtain ⟨rows, hrows, rfl⟩ := exists_of_map_ok listed
    rcases walks_cases reg code with ⟨rows', walks, listed'⟩ | ⟨_, m, failed⟩
    · cases hrows.symm.trans listed'
      obtain ⟨covers, _⟩ := walks.covers
      refine ⟨rows, walks, rfl, prints_render title code.length rows, ?_,
        fun names short => walks.addresses_eq names short code.length, ?_, covers.increasing,
        covers.adjacent, covers.extent, covers.total⟩
      · intro row hrow
        obtain ⟨rest, here, hrest⟩ := walks.row_of_mem hrow
        obtain ⟨_, label, _⟩ := rowAt_label hrest
        refine ⟨?_, label ▸ label_prefix_instruction row⟩
        rw [← List.head?_drop, here, List.head?_cons]
      intro some
      cases rows with
      | nil => exact absurd (List.length_eq_zero_iff.mp covers.total.symm) some
      | cons row more => exact ⟨row, more, rfl, covers.first row rfl⟩
    · cases hrows.symm.trans failed
  · intro builtins least
    cases listed : disassemble reg title code with
    | ok text => exact ⟨text, rfl⟩
    | error m =>
      obtain ⟨_, _, _, opcode, rest, d, _, found, unlistable⟩ := fails.mp ⟨m, listed⟩
      exact absurd unlistable (not_unlistable builtins found (least opcode d found))

theorem registerAll_forall {P : Descriptor → Prop} {customs : List Descriptor}
    (builtin : ∀ d ∈ Builtin.table, P d) (custom : ∀ d ∈ customs, P d) (nr : Int32) (d : Descriptor)
    (found : (Builtin.registry.registerAll customs).2.find? nr = some d) : P d := by
  rcases (Registry.find?_registerAll customs Builtin.registry nr).2 d found with inTable | added
  · exact builtin d (Builtin.find?_mem inTable)
  · exact custom d added

theorem least_immediates_of_mem : ∀ d ∈ Builtin.table, -1 ≤ d.immediates := by decide

def countedAndFixed : List Descriptor := [{ number := 100, immediates := -1 }, { number := 101, immediates := 3 }]

def overlongCount : List Int32 := [101, 1, 2, 3, 100, 7, 5]

def overlongListing : String :=
  "; Xtella bytecode, 7 cells\n0000  op101 1 2 3\n0004  op100 7 <truncated>\n"

/-- The count behind opcode 100 asks for more cells than there are, and its row takes the
rest. Opcode 102 has no row, and the walk comes to it behind a literal. -/
theorem overlongCount_is_covered :
    (∃ rows, Walks (Builtin.registry.registerAll countedAndFixed).2 overlongCount rows 7 ∧
      disassemble (Builtin.registry.registerAll countedAndFixed).2 "" overlongCount =
        .ok overlongListing ∧
      addresses overlongListing.toList = [0, 4] ∧ rows.map Row.offset = [0, 4] ∧
      (rows.map Row.length).sum = 7) ∧
    ∃ m, disassemble (Builtin.registry.registerAll [{ number := 102, immediates := -2 }]).2 ""
      [Builtin.Nr.pushInt, 102, 102] = .error m := by
  obtain ⟨_, _, listed, total⟩ := listings_cover_the_code
    (Builtin.registry.registerAll countedAndFixed).2 "" overlongCount
  obtain ⟨_, fails, _, _⟩ := listings_cover_the_code
    (Builtin.registry.registerAll [{ number := 102, immediates := -2 }]).2 ""
    [Builtin.Nr.pushInt, 102, 102]
  constructor
  · obtain ⟨text, htext⟩ := total (Builtin.installed_registerAll _)
      (registerAll_forall least_immediates_of_mem (by decide))
    obtain ⟨rows, walks, rfl, _, _, printed, _, _, _, _, hsum⟩ := listed text htext
    have read := printed (registerAll_forall oneLine_label_of_mem (by decide +kernel)) (by decide)
    have shown : (disassemble (Builtin.registry.registerAll countedAndFixed).2 ""
        overlongCount).toOption = some overlongListing := by decide +kernel
    rw [htext] at shown
    rw [Option.some.inj shown] at read htext
    have offsets : addresses overlongListing.toList = [0, 4] := by decide +kernel
    exact ⟨rows, walks, htext, offsets, read.symm.trans offsets, hsum⟩
  · obtain ⟨row, hrow, hlength⟩ : ∃ row, rowAt
        (Builtin.registry.registerAll [{ number := 102, immediates := -2 }]).2 0 Builtin.Nr.pushInt
        [102, 102] = .ok row ∧ row.length = 2 := ⟨_, rfl, rfl⟩
    have first := Walks.next (.start : Walks _ [Builtin.Nr.pushInt, 102, 102] [] 0) rfl hrow
    rw [hlength] at first
    exact fails.mpr ⟨_, _, first, 102, [], { number := 102, immediates := -2 }, rfl, rfl,
      .inl (by decide)⟩

end StackMachine.Program
