import StackMachine.Cbor.Head
import StackMachine.Text.Utf8
/-! CBOR items as a tree, and their reader. It accepts every well-formed item up
to fixed limits on nesting and size, in any length form. -/
namespace StackMachine.Cbor

/-- Strings keep their chunks; a float keeps nothing but that it is one. -/
inductive Item where
  | unsigned (n : Nat)
  | negative (n : Nat)
  | bytes (chunks : List Bytes)
  | text (chunks : List Bytes)
  | array (items : List Item)
  | map (pairs : List (Item × Item))
  | tag (number : Nat) (content : Item)
  | simple (code : Nat)
  | float

abbrev Reader (α : Type) := Bytes → Option (α × Bytes)

def maxCount : Nat := 131072

/-- Arrays and maps nest at most this deep; a tag on a tag counts as well. -/
def maxLevels : Nat := 32

def stop : UInt8 := 0xFF

def readExactly {α : Type} (one : Reader α) : Nat → Reader (List α)
  | 0, bytes => some ([], bytes)
  | count + 1, bytes => do
    let (a, rest) ← one bytes
    let (more, rest) ← readExactly one count rest
    some (a :: more, rest)

def readToStop {α : Type} (one : Reader α) : (room : Nat) → Reader (List α)
  | room, first :: rest =>
    if first = stop then some ([], rest)
    else
      match room with
      | 0 => none
      | room + 1 => do
        let (a, rest) ← one (first :: rest)
        let (more, rest) ← readToStop one room rest
        some (a :: more, rest)
  | _, [] => none

def readSequence {α : Type} (one : Reader α) : Option Nat → Reader (List α)
  | some count, bytes => if count ≤ maxCount then readExactly one count bytes else none
  | none, bytes => readToStop one maxCount bytes

/-- The chunks of a string of indefinite length: definite strings of the same
major type, up to the stop byte. -/
def readChunks (major : Nat) (bytes : Bytes) : Option (List Bytes × Bytes) :=
  match bytes with
  | [] => none
  | first :: rest =>
    if first = stop then some ([], rest)
    else
      match _h : readHead (first :: rest) with
      | some (⟨m, _, some length⟩, rest) =>
        if m = major ∧ reaches length rest then
          (readChunks major (rest.drop length)).map fun (more, left) =>
            (rest.take length :: more, left)
        else none
      | _ => none
termination_by bytes.length
decreasing_by
  have := length_readHead _h
  simp only [List.length_drop]
  omega

def readString (major : Nat) : Option Nat → Reader (List Bytes)
  | some length, bytes => (take? length bytes).map fun (front, rest) => ([front], rest)
  | none, bytes => readChunks major bytes

def pairOf {α : Type} (one : Reader α) : Reader (α × α) := fun bytes => do
  let (key, rest) ← one bytes
  let (value, rest) ← one rest
  some ((key, value), rest)

def build {α : Type} (f : α → Item) (r : Option (α × Bytes)) : Option (Item × Bytes) :=
  r.map fun (a, rest) => (f a, rest)

/-- Reads one item with `levels` of nesting left; `tagged` says that it stands
behind a tag. -/
def readItem (levels : Nat) (tagged : Bool) (bytes : Bytes) : Option (Item × Bytes) := do
  let (head, rest) ← readHead bytes
  match head.major, head.argument with
  | 0, some n => some (.unsigned n, rest)
  | 1, some n => some (.negative n, rest)
  | 2, length => build .bytes (readString Major.bytes length rest)
  | 3, length => build .text (readString Major.text length rest)
  | 4, count =>
    match levels with
    | 0 => none
    | levels + 1 => build .array (readSequence (readItem levels false) count rest)
  | 5, count =>
    match levels with
    | 0 => none
    | levels + 1 => build .map (readSequence (pairOf (readItem levels false)) count rest)
  | 6, some number =>
    match tagged, levels with
    | false, levels => build (.tag number) (readItem levels true rest)
    | true, 0 => none
    | true, levels + 1 => build (.tag number) (readItem levels true rest)
  | _, some n => some (if head.info < 25 then .simple n else .float, rest)
  | _, none => none
termination_by (levels, if tagged then 0 else 1)

def Item.ofBytes? (bytes : Bytes) : Option Item :=
  match readItem maxLevels false bytes with
  | some (item, []) => some item
  | _ => none

end StackMachine.Cbor
