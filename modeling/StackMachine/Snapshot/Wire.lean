import StackMachine.Cbor.Item
import StackMachine.Snapshot.Basic
/-! Snapshots as CBOR maps with the keys 1 to 9. Writing is canonical and leaves
out an empty stack, fault or code; reading takes the first of equal keys, passes
over unknown ones, and leaves a field with a null at its zero. -/
namespace StackMachine
open Cbor

-- A power of naturals is the core one, whichever other instances are in scope.
attribute [local instance (high)] instPowNat

namespace Snapshot

/-! Writing. -/

def writeInt (n : Int) : Bytes :=
  if n < 0 then writeHead Major.negative (-1 - n).toNat else writeHead Major.unsigned n.toNat

def writeText (s : String) : Bytes :=
  writeHead Major.text s.utf8ByteSize ++ Text.utf8 s

def writeArray (items : List Bytes) : Bytes :=
  writeHead Major.array items.length ++ items.flatten

def writeFields (fields : List (Nat × Bytes)) : Bytes :=
  writeHead Major.map fields.length ++
    fields.flatMap fun (key, value) => writeHead Major.unsigned key ++ value

def writeSlot (s : SlotSnapshot) : Bytes :=
  writeFields [(1, writeText s.kind), (2, writeText s.repr)]

def fields (s : Snapshot) : List (Nat × Bytes) :=
  [(1, writeText s.runId), (2, writeText s.state), (3, writeInt s.ip.toInt),
   (4, writeInt s.faultIp.toInt), (5, writeInt s.opcode.toInt),
   (6, writeInt s.steps.toNat)] ++
  (if s.stack.isEmpty then [] else [(7, writeArray (s.stack.map writeSlot))]) ++
  (if s.fault.isEmpty then [] else [(8, writeText s.fault)]) ++
  (if s.code.isEmpty then [] else [(9, writeArray (s.code.map fun c => writeInt c.toInt))])

def encode (s : Snapshot) : Bytes := writeFields s.fields

/-! Reading. -/

def isNull : Item → Bool
  | .simple code => code == 22 || code == 23
  | _ => false

def isFloatOrInteger : Item → Bool
  | .unsigned _ | .negative _ | .float => true
  | _ => false

namespace TagNr

def dateText : Nat := 0
def dateNumber : Nat := 1
def positiveBig : Nat := 2
def negativeBig : Nat := 3

end TagNr

/-- The item behind its tags. A date's and a big number's content must be of the
tag's own type, a big number is its integer, and other tags mean nothing. -/
def bare? : Item → Option Item
  | .tag number content =>
    if number = TagNr.dateText then
      match content with
      | .text _ => bare? content
      | _ => none
    else if number = TagNr.dateNumber then
      if isFloatOrInteger content then bare? content else none
    else if number = TagNr.positiveBig then
      match content with
      | .bytes chunks => some (.unsigned (ofBigEndian chunks.flatten))
      | _ => none
    else if number = TagNr.negativeBig then
      match content with
      | .bytes chunks => some (.negative (ofBigEndian chunks.flatten))
      | _ => none
    else bare? content
  | item => some item

/-- An integer between `lo` and `hi`. Unassigned simple values count as their
code. -/
def integer? (lo hi : Int) (item : Item) : Option Int := do
  let n : Int ← match (← bare? item) with
    | .unsigned n => some (n : Int)
    | .negative n => some (-1 - (n : Int))
    | .simple code => if code < 20 ∨ 32 ≤ code then some (code : Int) else none
    | _ => none
  if lo ≤ n ∧ n ≤ hi then some n else none

def joinText? (chunks : List Bytes) : Option String :=
  (chunks.mapM Text.decode?).map String.join

def text? (item : Item) : Option String := do
  match (← bare? item) with
  | .text chunks => joinText? chunks
  | _ => none

def array? (item : Item) : Option (List Item) := do
  match (← bare? item) with
  | .array items => some items
  | _ => none

/-- Which field a key names: an integer by its 64-bit value, a text by the
decimal of the field. Other keys are refused, and so is a negative one that does
not fit 64 bits. -/
def keyNumber? : Item → Option (Option Int)
  | .unsigned n => some (some (Int64.ofNat n).toInt)
  | .negative n => if n < 2 ^ (63 : Nat) then some (some (-1 - (n : Int))) else none
  | .text chunks => (joinText? chunks).map fun s =>
    ((List.range 10).find? fun k => toString k == s).map Int.ofNat
  | _ => none

/-- The pairs of a map with their keys resolved; null is an empty map. -/
def pairs? (item : Item) : Option (List (Option Int × Item)) := do
  let item ← bare? item
  if isNull item then some []
  else match item with
    | .map pairs => pairs.mapM fun (key, value) => do some (← keyNumber? key, value)
    | _ => none

/-- The first value under `key` as `read` takes it, `zero` if there is none or if
it is null. -/
def field {α : Type} (pairs : List (Option Int × Item)) (key : Int) (zero : α)
    (read : Item → Option α) : Option α :=
  match pairs.find? (·.1 == some key) with
  | none => some zero
  | some (_, item) =>
    if ((bare? item).any isNull) then some zero else read item

def slot? (item : Item) : Option SlotSnapshot := do
  let pairs ← pairs? item
  return {
    kind := ← field pairs 1 "" text?
    repr := ← field pairs 2 "" text? }

def int64? (item : Item) : Option Int64 :=
  (integer? Int64.minValue.toInt Int64.maxValue.toInt item).map .ofInt

def int32? (item : Item) : Option Int32 :=
  (integer? Int32.minValue.toInt Int32.maxValue.toInt item).map .ofInt

def uint64? (item : Item) : Option UInt64 :=
  (integer? 0 (UInt64.size - 1 : Nat) item).map fun n => .ofNat n.toNat

def cell? (item : Item) : Option Int32 :=
  if (bare? item).any isNull then some 0 else int32? item

def ofItem? (item : Item) : Option Snapshot := do
  let pairs ← pairs? item
  return {
    runId := ← field pairs 1 "" text?
    state := ← field pairs 2 "" text?
    ip := ← field pairs 3 0 int64?
    faultIp := ← field pairs 4 0 int64?
    opcode := ← field pairs 5 0 int32?
    steps := ← field pairs 6 0 uint64?
    stack := ← field pairs 7 [] fun item => do (← array? item).mapM slot?
    fault := ← field pairs 8 "" text?
    code := ← field pairs 9 [] fun item => do (← array? item).mapM cell? }

def decode? (bytes : Bytes) : Option Snapshot := (Item.ofBytes? bytes).bind ofItem?

end Snapshot
end StackMachine
