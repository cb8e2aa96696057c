/-! Bytes read as UTF-8, piece by piece: a character, or a byte that belongs to
none. Two repairs of damaged text differ in what one replacement stands for. -/
namespace StackMachine.Text

inductive Piece where
  | char (c : Char)
  | stray (b : UInt8)
  deriving DecidableEq, Repr

def firstChar? (bytes : List UInt8) : Option Char :=
  (bytes.take 4).toByteArray.utf8DecodeChar? 0

/-- A byte that starts no character is stray, and reading goes on behind it. -/
def scan : List UInt8 → List Piece
  | [] => []
  | b :: rest =>
    match firstChar? (b :: rest) with
    | some c => .char c :: scan (rest.drop (c.utf8Size - 1))
    | none => .stray b :: scan rest
termination_by bytes => bytes.length
decreasing_by all_goals simp_wf; try omega

def replacement : Char := '�'

def isValid (bytes : List UInt8) : Bool :=
  (scan bytes).all fun
    | .char _ => true
    | .stray _ => false

def repairEach (bytes : List UInt8) : List Char :=
  (scan bytes).map fun
    | .char c => c
    | .stray _ => replacement

/-- A run of stray bytes becomes one replacement character; `inRun` says that
the run has been replaced already. -/
def mergeRuns (inRun : Bool) : List Piece → List Char
  | [] => []
  | .char c :: rest => c :: mergeRuns false rest
  | .stray _ :: rest => if inRun then mergeRuns true rest else replacement :: mergeRuns true rest

def repairRuns (bytes : List UInt8) : String :=
  String.ofList (mergeRuns false (scan bytes))

def decode? (bytes : List UInt8) : Option String :=
  if isValid bytes then some (String.ofList (repairEach bytes)) else none

def utf8 (s : String) : List UInt8 := s.toUTF8.toList

end StackMachine.Text
