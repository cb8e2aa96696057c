import StackMachine.Program.Listing
import StackMachine.Proofs.Builtin.Form
import StackMachine.Proofs.Trail
/-! The row that a listing gives an instruction of the builtin opcodes: how long it
is, when its operands are cut short, and that only then its text carries the mark. -/
namespace StackMachine

namespace Program

variable {reg : Registry} {offset : Nat} {opcode : Int32} {rest : List Int32} {d : Descriptor}

def instructionAt (reg : Registry) (code : Array Int32) (place : Nat) (h : place < code.size) :
    Except Misfit Row :=
  rowAt reg place code[place] (code.toList.drop (place + 1))

theorem rowAt_of_unknown (h : reg.find? opcode = none) :
    rowAt reg offset opcode rest =
      .ok { offset, opcode, label := reg.nameOf opcode, operands := .unknown, length := 1 } := by
  simp only [rowAt, h]

theorem rowAt_of_plain (h : reg.find? opcode = some d) (none : d.immediates = 0) :
    rowAt reg offset opcode rest =
      .ok { offset, opcode, label := d.label, operands := .plain, length := 1 } := by
  simp only [rowAt, h, none, if_pos]

theorem rowAt_of_counted (h : reg.find? opcode = some d)
    (counted : d.immediates = Builtin.countedImmediates) :
    rowAt reg offset opcode rest =
      .ok { offset, opcode, label := d.label, operands := (countedOperands opcode rest).1,
            length := (countedOperands opcode rest).2 } := by
  have hne : Builtin.countedImmediates ≠ 0 := by decide
  simp only [rowAt, h, counted, if_neg hne, if_pos]

theorem rowAt_of_short (h : reg.find? opcode = some d) (fixed : 0 < d.immediates)
    (short : rest.length < d.immediates.toNat) :
    rowAt reg offset opcode rest =
      .ok { offset, opcode, label := d.label, operands := .cutShort rest,
            length := rest.length + 1 } := by
  have hcounted : d.immediates ≠ Builtin.countedImmediates := by
    unfold Builtin.countedImmediates
    omega
  have htake : rest.take d.immediates.toNat = rest := List.take_of_length_le (by omega)
  simp only [rowAt, h, htake]
  rw [if_neg (by omega), if_neg hcounted, if_neg (by omega), if_pos short]

theorem rowAt_of_fixed (h : reg.find? opcode = some d) (fixed : 0 < d.immediates)
    (complete : d.immediates.toNat ≤ rest.length) :
    rowAt reg offset opcode rest =
      (remarkOn reg opcode (rest.take d.immediates.toNat)).map fun remark =>
        { offset, opcode, label := d.label, operands := .fixed (rest.take d.immediates.toNat),
          length := d.immediates.toNat + 1, remark } := by
  have hcounted : d.immediates ≠ Builtin.countedImmediates := by
    unfold Builtin.countedImmediates
    omega
  have hlength : (rest.take d.immediates.toNat).length = d.immediates.toNat := by
    rw [List.length_take]
    omega
  simp only [rowAt, h]
  rw [if_neg (by omega), if_neg hcounted, if_neg (by omega), if_neg (by omega)]

theorem exists_remarkOn {cells : List Int32}
    (pairs : opcode = Builtin.Nr.pushRational ∨ opcode = Builtin.Nr.pushWide → cells.length = 2)
    (single : opcode = Builtin.Nr.pushOpcode → cells.length = 1) :
    ∃ remark, remarkOn reg opcode cells = .ok remark := by
  unfold remarkOn
  split
  next h =>
    match cells, pairs (.inl h) with
    | [num, den], _ => exact ⟨_, rfl⟩
  next =>
    split
    next h =>
      match cells, pairs (.inr h) with
      | [hi, lo], _ => exact ⟨_, rfl⟩
    next =>
      split
      next h =>
        match cells, single h with
        | [nr], _ => exact ⟨_, rfl⟩
      next => exact ⟨_, rfl⟩

end Program

namespace Builtin

open Program

variable {offset : Nat} {nr : Int32} {rest : List Int32} {d : Descriptor} {r : Routine Unit}

theorem immediates_of_mem : ∀ d ∈ table,
    (0 ≤ d.immediates ∨ (d.immediates = countedImmediates ∧ d.number = Nr.pushString)) ∧
      (d.number = Nr.pushRational ∨ d.number = Nr.pushWide → d.immediates = 2) ∧
      (d.number = Nr.pushOpcode → d.immediates = 1) := by
  decide

theorem exists_row_of_fixed (found : registry.find? nr = some d) (fixed : 0 ≤ d.immediates)
    (offset : Nat) (rest : List Int32) :
    ∃ row, rowAt registry offset nr rest = .ok row ∧
      (row.operands.isTruncated = true ↔ rest.length < d.immediates.toNat) ∧
      (d.immediates.toNat ≤ rest.length → row.length = d.immediates.toNat + 1) := by
  rcases Int.lt_or_eq_of_le fixed with positive | zero
  · by_cases short : rest.length < d.immediates.toNat
    · refine ⟨_, rowAt_of_short found positive short, ?_, ?_⟩
      · exact iff_of_true rfl short
      · intro complete
        omega
    · have complete : d.immediates.toNat ≤ rest.length := Nat.le_of_not_lt short
      have hlength : (rest.take d.immediates.toNat).length = d.immediates.toNat := by
        rw [List.length_take]
        omega
      obtain ⟨_, pairs, single⟩ := immediates_of_mem d (find?_mem found)
      rw [Registry.number_of_find? found] at pairs single
      obtain ⟨remark, hremark⟩ :
          ∃ remark, remarkOn registry nr (rest.take d.immediates.toNat) = .ok remark :=
        exists_remarkOn (fun h => by rw [hlength, pairs h]; rfl)
          (fun h => by rw [hlength, single h]; rfl)
      refine ⟨_, by rw [rowAt_of_fixed found positive complete, hremark]; rfl, ?_, fun _ => rfl⟩
      exact iff_of_false nofun short
  · rw [rowAt_of_plain found zero.symm, ← zero]
    exact ⟨_, rfl, iff_of_false nofun (Nat.not_lt_zero _), fun _ => rfl⟩

theorem countedOperands_of_fits {count : Int32} {more : List Int32}
    (fits : 0 ≤ count ∧ count.toInt ≤ more.length) :
    countedOperands Nr.pushString (count :: more) =
      (.text (more.take count.toInt.toNat), count.toInt.toNat + 2) := by
  simp only [countedOperands, if_pos fits, if_pos]

theorem rowAt_pushString {count : Int32} {more : List Int32}
    (fits : 0 ≤ count ∧ count.toInt ≤ more.length) (offset : Nat) :
    ∃ row, rowAt registry offset Nr.pushString (count :: more) = .ok row ∧
      row.operands.isTruncated = false ∧ row.length = count.toInt.toNat + 2 := by
  refine ⟨_, rowAt_of_counted (find?_entry rfl rfl) rfl, ?_, ?_⟩
  · rw [countedOperands_of_fits fits]
    rfl
  · rw [countedOperands_of_fits fits]

theorem exists_row (offset : Nat) (nr : Int32) (rest : List Int32) :
    ∃ row, rowAt registry offset nr rest = .ok row := by
  cases found : registry.find? nr with
  | none => exact ⟨_, rowAt_of_unknown found⟩
  | some d =>
    rcases (immediates_of_mem d (find?_mem found)).1 with fixed | ⟨counted, _⟩
    · obtain ⟨row, hrow, _⟩ := exists_row_of_fixed found fixed offset rest
      exact ⟨row, hrow⟩
    · exact ⟨_, rowAt_of_counted found counted⟩

abbrev EndsPlain (s : String) : Prop := s.toList.getLast?.any (· != '>') = true

theorem not_endsPlain_mark (front : String) : ¬ EndsPlain (front ++ truncatedMark) := by
  have hmark : truncatedMark.toList.getLast? = some '>' := by decide
  simp [EndsPlain, hmark]

theorem EndsPlain.append {s : String} (h : EndsPlain s) (front : String) :
    EndsPlain (front ++ s) := by
  cases hc : s.toList.getLast? with
  | none =>
    rw [EndsPlain, hc] at h
    cases h
  | some c =>
    rw [EndsPlain, hc] at h
    simpa [EndsPlain, hc] using h

theorem endsPlain_nat (n : Nat) : EndsPlain (toString n) := by
  have hne : Nat.toDigits 10 n ≠ [] := Nat.toDigits_ne_nil
  have hdigit := Nat.isDigit_of_mem_toDigits (by decide) (by decide) (List.getLast_mem hne)
  change n.repr.toList.getLast?.any _ = true
  rw [Nat.toList_repr, List.getLast?_eq_some_getLast hne]
  simp only [Option.any_some, bne_iff_ne, ne_eq]
  intro heq
  rw [heq] at hdigit
  exact absurd hdigit (by decide)

theorem endsPlain_int (n : Int) : EndsPlain (toString n) := by
  cases n with
  | ofNat n => exact endsPlain_nat n
  | negSucc n => exact (endsPlain_nat (n + 1)).append "-"

theorem endsPlain_joinCells {cells : List Int32} (h : cells ≠ []) : EndsPlain (joinCells cells) := by
  induction cells with
  | nil => exact absurd rfl h
  | cons c more ih =>
    cases more with
    | nil => simpa [joinCells] using endsPlain_int c.toInt
    | cons c' more =>
      unfold joinCells at *
      rw [List.map_cons, String.intercalate_cons_of_ne_nil (by simp)]
      exact (ih (by simp)).append _

theorem endsPlain_label : ∀ d ∈ table, EndsPlain d.label := by decide +kernel

theorem endsPlain_quote (s : String) : EndsPlain (Text.quote s) := by
  unfold Text.quote Text.quotePieces
  exact EndsPlain.append (by decide) _

theorem endsPlain_quoteCells (cells : List Int32) : EndsPlain (quoteCells cells) := by
  simp only [quoteCells]
  split
  · exact endsPlain_quote _
  · exact endsPlain_quote _

theorem endsPlain_remark {cells : List Int32} {remark : String}
    (h : remarkOn registry nr cells = .ok remark) : remark = "" ∨ EndsPlain remark := by
  unfold remarkOn at h
  split at h
  · split at h
    · cases h
      exact .inr ((endsPlain_int _).append _)
    · cases h
  · split at h
    · split at h
      · cases h
        exact .inr ((endsPlain_int _).append _)
      · cases h
    · split at h
      · split at h
        next nr' _ =>
          cases found : registry.find? nr' with
          | none =>
            rw [found] at h
            cases h
            exact .inl rfl
          | some d =>
            rw [found] at h
            cases h
            exact .inr ((endsPlain_label d (find?_mem found)).append _)
        next => cases h
      · cases h
        exact .inl rfl

theorem endsPlain_of_complete {row : Row} (h : rowAt registry offset nr rest = .ok row)
    (complete : row.operands.isTruncated = false) : EndsPlain row.instruction := by
  cases found : registry.find? nr with
  | none =>
    rw [rowAt_of_unknown found] at h
    cases h
    change EndsPlain (registry.nameOf nr)
    unfold Registry.nameOf
    rw [found]
    exact (endsPlain_int _).append _
  | some d =>
    have label := endsPlain_label d (find?_mem found)
    rcases (immediates_of_mem d (find?_mem found)).1 with fixed | ⟨counted, hnr⟩
    · rcases Int.lt_or_eq_of_le fixed with positive | zero
      · by_cases short : rest.length < d.immediates.toNat
        · rw [rowAt_of_short found positive short] at h
          cases h
          cases complete
        · rw [rowAt_of_fixed found positive (Nat.le_of_not_lt short)] at h
          obtain ⟨remark, hremark, hrow⟩ := exists_of_map_ok h
          cases hrow
          have hcells : rest.take d.immediates.toNat ≠ [] := by
            intro hnil
            have := congrArg List.length hnil
            rw [List.length_take, List.length_nil] at this
            omega
          change EndsPlain (d.label ++ " " ++ joinCells _ ++ remark)
          rcases endsPlain_remark hremark with rfl | plain
          · rw [String.append_empty]
            exact (endsPlain_joinCells hcells).append _
          · exact plain.append _
      · rw [rowAt_of_plain found zero.symm] at h
        cases h
        exact label
    · rw [rowAt_of_counted found counted, ← Registry.number_of_find? found, hnr] at h
      cases h
      cases rest with
      | nil => cases complete
      | cons count more =>
        by_cases fits : 0 ≤ count ∧ count.toInt ≤ more.length
        · rw [countedOperands_of_fits fits]
          change EndsPlain (d.label ++ " " ++ quoteCells _)
          exact (endsPlain_quoteCells _).append _
        · simp only [countedOperands, if_neg fits] at complete
          cases complete

end Builtin
end StackMachine
