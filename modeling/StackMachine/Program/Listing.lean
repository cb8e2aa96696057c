import StackMachine.Builtin.Table
import StackMachine.Text.Layout
/-! Disassembly: code is cut into rows, one per instruction, and the rows are
then written. Lengths come from the registry alone. -/
namespace StackMachine.Program

inductive Operands where
  | unknown
  | plain
  | noCount
  | badCount (count : Int32)
  | text (cells : List Int32)
  | counted (cells : List Int32)
  | cutShort (cells : List Int32)
  | fixed (cells : List Int32)
  deriving DecidableEq, Repr

/-- A descriptor that a listing cannot show: a negative number of immediates, or
a remark that needs more cells than the opcode takes. -/
inductive Misfit where
  | negativeImmediates (immediates : Int)
  | missingCell (index length : Nat)
  deriving DecidableEq, Repr

structure Row where
  offset : Nat
  opcode : Int32
  label : String
  operands : Operands
  length : Nat
  remark : String := ""
  deriving DecidableEq, Repr

def joinCells (cells : List Int32) : String :=
  " ".intercalate (cells.map fun c => toString c.toInt)

def shownText : Nat := 40
def shownFront : Nat := 37

def quoteCells (cells : List Int32) : String :=
  let chars := cells.map fun c => (Builtin.charOf? c).getD Text.replacement
  if shownText < chars.length then
    Text.quote (String.ofList (chars.take shownFront) ++ "...")
  else Text.quote (String.ofList chars)

def remarkOn (reg : Registry) (opcode : Int32) (cells : List Int32) : Except Misfit String :=
  if opcode = Builtin.Nr.pushRational then
    match cells with
    | num :: den :: _ => .ok ("    ; " ++ toString num.toInt ++ "/" ++ toString den.toInt)
    | _ => .error (.missingCell cells.length cells.length)
  else if opcode = Builtin.Nr.pushWide then
    match cells with
    | hi :: lo :: _ => .ok ("    ; " ++ toString (Builtin.joinHalves hi lo).toInt)
    | _ => .error (.missingCell cells.length cells.length)
  else if opcode = Builtin.Nr.pushOpcode then
    match cells with
    | nr :: _ => .ok ((reg.find? nr).elim "" fun d => "    ; &" ++ d.label)
    | [] => .error (.missingCell 0 0)
  else .ok ""

def countedOperands (opcode : Int32) : List Int32 → Operands × Nat
  | [] => (.noCount, 1)
  | count :: rest =>
    if 0 ≤ count ∧ count.toInt ≤ rest.length then
      let cells := rest.take count.toInt.toNat
      (if opcode = Builtin.Nr.pushString then .text cells else .counted cells,
        count.toInt.toNat + 2)
    else (.badCount count, rest.length + 2)

def rowAt (reg : Registry) (offset : Nat) (opcode : Int32) (rest : List Int32) :
    Except Misfit Row :=
  match reg.find? opcode with
  | none => .ok { offset, opcode, label := reg.nameOf opcode, operands := .unknown, length := 1 }
  | some d =>
    if d.immediates = 0 then
      .ok { offset, opcode, label := d.label, operands := .plain, length := 1 }
    else if d.immediates = Builtin.countedImmediates then
      let (operands, length) := countedOperands opcode rest
      .ok { offset, opcode, label := d.label, operands, length }
    else if d.immediates < 0 then .error (.negativeImmediates d.immediates)
    else
      let cells := rest.take d.immediates.toNat
      if cells.length < d.immediates.toNat then
        .ok { offset, opcode, label := d.label, operands := .cutShort cells,
              length := cells.length + 1 }
      else (remarkOn reg opcode cells).map fun remark =>
        { offset, opcode, label := d.label, operands := .fixed cells,
          length := d.immediates.toNat + 1, remark }

def rowsFrom (reg : Registry) (offset : Nat) (code : List Int32) : Except Misfit (List Row) :=
  match code with
  | [] => .ok []
  | opcode :: rest => do
    let row ← rowAt reg offset opcode rest
    let more ← rowsFrom reg (offset + row.length) (rest.drop (row.length - 1))
    return row :: more
termination_by code.length
decreasing_by simp only [List.length_drop, List.length_cons]; omega

def rows (reg : Registry) (code : List Int32) : Except Misfit (List Row) := rowsFrom reg 0 code

def truncatedMark : String := "<truncated>"

def Operands.isTruncated : Operands → Bool
  | .noCount | .badCount _ | .cutShort _ => true
  | _ => false

def Row.instruction (r : Row) : String :=
  match r.operands with
  | .unknown | .plain => r.label
  | .noCount => r.label ++ " " ++ truncatedMark
  | .badCount count => r.label ++ " " ++ toString count.toInt ++ " " ++ truncatedMark
  | .text cells => r.label ++ " " ++ quoteCells cells
  | .counted cells => r.label ++ " " ++ toString cells.length ++ " " ++ joinCells cells
  | .cutShort cells => r.label ++ " " ++ joinCells cells ++ " " ++ truncatedMark
  | .fixed cells => r.label ++ " " ++ joinCells cells ++ r.remark

def Row.line (r : Row) : String := Text.zeroPadded 4 r.offset ++ "  " ++ r.instruction ++ "\n"

def render (title : String) (cells : Nat) (rows : List Row) : String :=
  (if title.isEmpty then "" else "; === " ++ title ++ " ===\n") ++
    "; Xtella bytecode, " ++ toString cells ++ " cells\n" ++ String.join (rows.map Row.line)

def disassemble (reg : Registry) (title : String) (code : List Int32) : Except Misfit String :=
  (rows reg code).map (render title code.length)

end StackMachine.Program
