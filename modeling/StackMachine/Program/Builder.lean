import StackMachine.Builtin.Table
/-! Assembling code: instructions are appended, and jump targets are filled in
when they are known. -/
namespace StackMachine.Program

structure Builder where
  code : Array Int32 := #[]
  deriving DecidableEq, Repr

structure BadPlaceholder where
  index : Int
  length : Nat
  deriving DecidableEq, Repr

namespace Builder

def offset (b : Builder) : Nat := b.code.size

def emit (b : Builder) (op : Int32) (immediates : List Int32) : Nat × Builder :=
  (b.offset, { code := b.code ++ (op :: immediates).toArray })

/-- One cell if the number fits it, else its two halves. -/
def emitInt (b : Builder) (n : Int64) : Nat × Builder :=
  if n.toInt32.toInt64 = n then b.emit Builtin.Nr.pushInt [n.toInt32]
  else b.emit Builtin.Nr.pushWide [(n >>> 32).toInt32, n.toInt32]

def cellOf (c : Char) : Int32 := .ofNat c.toNat

/-- One cell for every character; a stray byte is one replacement character. -/
def emitString (b : Builder) (bytes : List UInt8) : Nat × Builder :=
  let chars := Text.repairEach bytes
  b.emit Builtin.Nr.pushString (.ofNat chars.length :: chars.map cellOf)

def emitRational (b : Builder) (num den : Int32) : Nat × Builder :=
  b.emit Builtin.Nr.pushRational [num, den]

/-- A jump whose target is open; answers where the target is to be put. -/
def emitJump (b : Builder) (op : Int32) : Nat × Builder :=
  let (offset, b) := b.emit op [-1]
  (offset + 1, b)

def patchTo (b : Builder) (placeholder target : Int) : Except BadPlaceholder Builder :=
  if 0 ≤ placeholder ∧ placeholder < b.code.size then
    .ok { code := b.code.setIfInBounds placeholder.toNat (.ofInt target) }
  else .error ⟨placeholder, b.code.size⟩

def patch (b : Builder) (placeholder : Int) : Except BadPlaceholder Builder :=
  b.patchTo placeholder b.offset

end Builder

inductive Emission where
  | emit (op : Int32) (immediates : List Int32)
  | int (n : Int64)
  | string (bytes : List UInt8)
  | rational (num den : Int32)
  | jump (op : Int32)
  | patch (placeholder : Int)
  | patchTo (placeholder target : Int)
  deriving DecidableEq, Repr

/-- The offset an emission answers; a patch answers none. A patch that fails
changes nothing. -/
def Builder.apply (b : Builder) : Emission → Except BadPlaceholder (Option Nat) × Builder
  | .emit op immediates => let (n, b) := b.emit op immediates; (.ok (some n), b)
  | .int n => let (n, b) := b.emitInt n; (.ok (some n), b)
  | .string bytes => let (n, b) := b.emitString bytes; (.ok (some n), b)
  | .rational num den => let (n, b) := b.emitRational num den; (.ok (some n), b)
  | .jump op => let (n, b) := b.emitJump op; (.ok (some n), b)
  | .patch placeholder =>
    match b.patch placeholder with
    | .ok b => (.ok none, b)
    | .error e => (.error e, b)
  | .patchTo placeholder target =>
    match b.patchTo placeholder target with
    | .ok b => (.ok none, b)
    | .error e => (.error e, b)

end StackMachine.Program
