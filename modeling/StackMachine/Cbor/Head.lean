/-! The head of a CBOR item: a major type and an argument, big-endian in the
fewest of 0, 1, 2, 4 or 8 bytes when written, in any of them when read. -/
namespace StackMachine.Cbor

-- A power of naturals is the core one, whichever other instances are in scope.
attribute [local instance (high)] instPowNat

abbrev Bytes := List UInt8

def bigEndian : (count n : Nat) → Bytes
  | 0, _ => []
  | count + 1, n => (n / 256 ^ count % 256).toUInt8 :: bigEndian count n

def ofBigEndian (bytes : Bytes) : Nat := bytes.foldl (fun n b => 256 * n + b.toNat) 0

/-- Whether there are at least `count` bytes; no others are looked at. -/
def reaches : (count : Nat) → Bytes → Bool
  | 0, _ => true
  | _ + 1, [] => false
  | count + 1, _ :: rest => reaches count rest

theorem reaches_iff {count : Nat} {bytes : Bytes} : reaches count bytes ↔ count ≤ bytes.length := by
  induction count generalizing bytes with
  | zero => simp [reaches]
  | succ count ih => cases bytes <;> simp [reaches, ih]

def take? (count : Nat) (bytes : Bytes) : Option (Bytes × Bytes) :=
  if reaches count bytes then some (bytes.splitAt count) else none

/-- An item's major type, the low five bits of its first byte, and its argument;
`none` is an indefinite length. -/
structure Head where
  major : Nat
  info : Nat
  argument : Option Nat
  deriving DecidableEq, Repr

namespace Major

def unsigned : Nat := 0
def negative : Nat := 1
def bytes : Nat := 2
def text : Nat := 3
def array : Nat := 4
def map : Nat := 5
def tag : Nat := 6
def primitive : Nat := 7

end Major

def writeHead (major n : Nat) : Bytes :=
  let first (info : Nat) : UInt8 := (32 * major + info).toUInt8
  if n < 24 then [first n]
  else if n < 2 ^ (8 : Nat) then first 24 :: bigEndian 1 n
  else if n < 2 ^ (16 : Nat) then first 25 :: bigEndian 2 n
  else if n < 2 ^ (32 : Nat) then first 26 :: bigEndian 4 n
  else first 27 :: bigEndian 8 n

/-- Only strings, arrays and maps have an indefinite length, and a primitive in
two bytes starts at 32. -/
def Head.wellFormed (h : Head) : Bool :=
  if h.info == 31 then 2 ≤ h.major && h.major ≤ 5
  else if h.info == 24 && h.major == Major.primitive then h.argument.any (32 ≤ ·)
  else h.info < 28

def argumentWidth (info : Nat) : Nat :=
  if info < 24 then 0 else if info = 24 then 1 else if info = 25 then 2
  else if info = 26 then 4 else if info = 27 then 8 else 0

def argumentOf (info : Nat) (behind : Bytes) : Option Nat :=
  if info < 24 then some info else if info = 31 then none else some (ofBigEndian behind)

def Head.ofFirst (first : UInt8) (behind : Bytes) : Head :=
  { major := first.toNat / 32, info := first.toNat % 32,
    argument := argumentOf (first.toNat % 32) behind }

def readHead : Bytes → Option (Head × Bytes)
  | [] => none
  | first :: rest => do
    let (behind, rest) ← take? (argumentWidth (first.toNat % 32)) rest
    let head := Head.ofFirst first behind
    if head.wellFormed then some (head, rest) else none

theorem length_take? {count : Nat} {bytes front rest : Bytes}
    (h : take? count bytes = some (front, rest)) : rest.length + count = bytes.length := by
  simp only [take?] at h
  split at h
  · rename_i enough
    have := reaches_iff.mp enough
    simp only [List.splitAt_eq, Option.some.injEq, Prod.mk.injEq] at h
    rw [← h.2, List.length_drop]
    omega
  · cases h

theorem length_readHead {bytes rest : Bytes} {head : Head}
    (h : readHead bytes = some (head, rest)) : rest.length < bytes.length := by
  cases bytes with
  | nil => cases h
  | cons first tail =>
    obtain ⟨⟨front, back⟩, ht, h⟩ := Option.bind_eq_some_iff.mp h
    have := length_take? ht
    simp only at h
    split at h
    · cases h
      simp only [List.length_cons]
      omega
    · cases h

end StackMachine.Cbor
