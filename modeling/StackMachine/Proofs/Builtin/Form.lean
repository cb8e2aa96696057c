import StackMachine.Builtin.Table
import StackMachine.Proofs.Registry
import StackMachine.Proofs.Text.Repair
/-! The table of builtin opcodes, read by what its operations are made of. Most of
them apply a function to one or two operands, and all such functions fail on their
operands only; the others are listed one by one with their columns. -/
namespace StackMachine

variable {α β : Type}

def Fault.OnOperands (f : Fault) : Prop :=
  f.kind = .typeMismatch ∨ f.kind = .invalidOperand ∨ f.kind = .divisionByZero

def FailsOnOperands (x : Except Fault α) : Prop := ∀ f, x = .error f → f.OnOperands

theorem failsOnOperands_ok (a : α) : FailsOnOperands (.ok a) := nofun

theorem failsOnOperands_error {f : Fault} (h : f.OnOperands) :
    FailsOnOperands (.error f : Except Fault α) := by
  intro g hg
  cases hg
  exact h

theorem FailsOnOperands.map {x : Except Fault α} (h : FailsOnOperands x) (g : α → β) :
    FailsOnOperands (x.map g) := by
  cases x with
  | ok a => exact failsOnOperands_ok _
  | error f => exact failsOnOperands_error (h f rfl)

theorem FailsOnOperands.bind {x : Except Fault α} {g : α → Except Fault β} (h : FailsOnOperands x)
    (hg : ∀ a, FailsOnOperands (g a)) : FailsOnOperands (x >>= g) := by
  cases x with
  | ok a => exact hg a
  | error f => exact failsOnOperands_error (h f rfl)

namespace Value

theorem failsOnOperands_asInteger (v : Option Value) : FailsOnOperands (asInteger v) := by
  unfold asInteger
  split
  · exact failsOnOperands_ok _
  · exact failsOnOperands_error (.inl rfl)

theorem failsOnOperands_asString (v : Option Value) : FailsOnOperands (asString v) := by
  unfold asString
  split
  · exact failsOnOperands_ok _
  · exact failsOnOperands_error (.inl rfl)

end Value

namespace Builtin

theorem failsOnOperands_mismatch (expected found : Kind) :
    FailsOnOperands (mismatch expected found : Except Fault α) :=
  failsOnOperands_error (.inl rfl)

theorem failsOnOperands_arithmetic {onIntegers : IntegerOp} {onRationals : Option RationalOp}
    (integers : ∀ a b, FailsOnOperands (onIntegers a b))
    (rationals : ∀ op ∈ onRationals, ∀ a b, FailsOnOperands (op a b)) (a b : Value) :
    FailsOnOperands (arithmetic onIntegers onRationals a b) := by
  unfold arithmetic
  split
  · exact (integers _ _).map _
  · exact failsOnOperands_mismatch _ _
  · split
    · exact failsOnOperands_mismatch _ _
    · exact (rationals _ rfl _ _).map _
    · exact failsOnOperands_mismatch _ _
  · exact failsOnOperands_mismatch _ _

theorem failsOnOperands_total (f : Int64 → Int64 → Int64) (a b : Int64) :
    FailsOnOperands (total f a b) := failsOnOperands_ok _

theorem failsOnOperands_divide (a b : Int64) : FailsOnOperands (divide a b) := by
  unfold divide
  split
  · exact failsOnOperands_error (.inr (.inr rfl))
  · exact failsOnOperands_ok _

theorem failsOnOperands_remainder (a b : Int64) : FailsOnOperands (remainder a b) := by
  unfold remainder
  split
  · exact failsOnOperands_error (.inr (.inr rfl))
  · exact failsOnOperands_ok _

theorem failsOnOperands_shift (f : Int64 → Int64 → Int64) (a b : Int64) :
    FailsOnOperands (shift f a b) := by
  unfold shift
  split
  · exact failsOnOperands_ok _
  · exact failsOnOperands_error (.inr (.inl rfl))

theorem failsOnOperands_rounded (f : Rational → Rational → Except Rational.Undefined Rational)
    (a b : Rational) : FailsOnOperands (rounded f a b) := by
  unfold rounded
  cases f a b with
  | ok r => exact failsOnOperands_ok _
  | error cause => exact failsOnOperands_error (.inr (.inl rfl))

theorem failsOnOperands_divideRational (a b : Rational) :
    FailsOnOperands (divideRational a b) := by
  unfold divideRational
  split
  · exact failsOnOperands_error (.inr (.inr rfl))
  · exact failsOnOperands_rounded _ _ _

theorem failsOnOperands_integers {onIntegers : IntegerOp}
    (h : ∀ a b, FailsOnOperands (onIntegers a b)) (a b : Value) :
    FailsOnOperands (arithmetic onIntegers none a b) :=
  failsOnOperands_arithmetic h (fun _ hop => by cases hop) a b

theorem failsOnOperands_numbers {onIntegers : IntegerOp} {onRationals : RationalOp}
    (integers : ∀ a b, FailsOnOperands (onIntegers a b))
    (rationals : ∀ a b, FailsOnOperands (onRationals a b)) (a b : Value) :
    FailsOnOperands (arithmetic onIntegers (some onRationals) a b) := by
  refine failsOnOperands_arithmetic integers ?_ a b
  intro op hop
  cases hop
  exact rationals

theorem failsOnOperands_negate (a : Value) : FailsOnOperands (negate a) := by
  unfold negate
  split
  · exact failsOnOperands_ok _
  · exact failsOnOperands_ok _
  · exact failsOnOperands_mismatch _ _

theorem failsOnOperands_order (a b : Value) : FailsOnOperands (order a b) := by
  unfold order
  split
  · exact failsOnOperands_ok _
  · exact failsOnOperands_ok _
  · exact failsOnOperands_ok _
  · exact failsOnOperands_mismatch _ _
  · exact failsOnOperands_mismatch _ _

theorem failsOnOperands_equality (wanted : Bool) (a b : Value) :
    FailsOnOperands (equality wanted a b) := failsOnOperands_ok _

theorem failsOnOperands_comparison (holds : Ordering → Bool) (a b : Value) :
    FailsOnOperands (comparison holds a b) := (failsOnOperands_order a b).map _

theorem append_strings (x y : String) : append (.string x) (.string y) = .ok (.string (x ++ y)) :=
  congrArg Except.ok (Value.ofBytes_utf8 (x ++ y))

theorem failsOnOperands_append (a b : Value) : FailsOnOperands (append a b) :=
  (Value.failsOnOperands_asString _).bind fun _ =>
    (Value.failsOnOperands_asString _).bind fun _ => failsOnOperands_ok _

theorem failsOnOperands_lengthOf (a : Value) : FailsOnOperands (lengthOf a) :=
  (Value.failsOnOperands_asString _).bind fun _ => failsOnOperands_ok _

theorem failsOnOperands_asRationalValue (a : Value) : FailsOnOperands (asRationalValue a) := by
  unfold asRationalValue
  split
  · exact failsOnOperands_ok _
  · exact failsOnOperands_ok _
  · exact failsOnOperands_mismatch _ _

theorem failsOnOperands_asIntegerValue (a : Value) : FailsOnOperands (asIntegerValue a) := by
  unfold asIntegerValue
  split
  · exact failsOnOperands_ok _
  · exact failsOnOperands_error (.inr (.inl rfl))
  · split
    · exact failsOnOperands_ok _
    · exact failsOnOperands_error (.inr (.inl rfl))
  · exact failsOnOperands_mismatch _ _

/-- The numbers whose opcodes are more than a function of their operands, as far as
something depends on the number itself. -/
def Nr.effectful : List Int32 :=
  [halt, pushInt, pushString, pushRational, pushOpcode, jump, jumpIfTrue, jumpIfFalse, invoke,
    pushWide]

/-- The number, the columns and the operation of a table entry. -/
inductive Form : Int32 → (params results : UInt32) → (immediates : Int) → Routine Unit → Prop where
  | halt : Form Nr.halt 0 0 0 halt
  | pushInt : Form Nr.pushInt 0 1 1 pushInt
  | unary {nr : Int32} {f : Value → Except Fault Value} : nr ∉ Nr.effectful →
      (∀ a, FailsOnOperands (f a)) → Form nr 1 1 0 (unary f)
  | binary {nr : Int32} {f : Value → Value → Except Fault Value} : nr ∉ Nr.effectful →
      (∀ a b, FailsOnOperands (f a b)) → Form nr 2 1 0 (binary f)
  | pushString : Form Nr.pushString 0 1 countedImmediates pushString
  | pushRational : Form Nr.pushRational 0 1 2 pushRational
  | pushOpcode : Form Nr.pushOpcode 0 1 1 pushOpcode
  | discard : Form 11 1 0 0 discard
  | dup : Form 12 1 2 0 dup
  | swap : Form 13 2 2 0 swap
  | jump : Form Nr.jump 0 0 1 jump
  | jumpIfTrue : Form Nr.jumpIfTrue 1 0 1 (jumpIf true)
  | jumpIfFalse : Form Nr.jumpIfFalse 1 0 1 (jumpIf false)
  | invoke : Form Nr.invoke 1 0 0 invoke
  | nop : Form 33 0 0 0 nop
  | pushWide : Form Nr.pushWide 0 1 2 pushWide

theorem Form.entry {nr : Int32} {params results : UInt32} {immediates : Int} {r : Routine Unit}
    (h : Form nr params results immediates r) (name docs : String) :
    ∃ q, (define nr name params results immediates r docs).operation = some q ∧
      Form nr params results immediates q :=
  ⟨r, rfl, h⟩

theorem form_of_mem : ∀ d ∈ table,
    ∃ r, d.operation = some r ∧ Form d.number d.params d.results d.immediates r := by
  have numbers (f g) := failsOnOperands_numbers (failsOnOperands_total f) (failsOnOperands_rounded g)
  have bits (f) := failsOnOperands_integers (failsOnOperands_total f)
  have shifts (f) := failsOnOperands_integers (failsOnOperands_shift f)
  simp only [table, definitions, List.forall_mem_map, List.forall_mem_cons, List.not_mem_nil,
    false_implies, implies_true, and_true]
  refine ⟨Form.entry .halt .., Form.entry .pushInt .., ?_⟩
  iterate 3 refine ⟨Form.entry (.binary (by decide) (numbers _ _)) .., ?_⟩
  refine ⟨Form.entry (.binary (by decide)
    (failsOnOperands_numbers failsOnOperands_divide failsOnOperands_divideRational)) .., ?_⟩
  refine ⟨Form.entry (.binary (by decide)
    (failsOnOperands_integers failsOnOperands_remainder)) .., ?_⟩
  refine ⟨Form.entry (.unary (by decide) failsOnOperands_negate) .., ?_⟩
  refine ⟨Form.entry .pushString .., Form.entry .pushRational .., ?_⟩
  refine ⟨Form.entry .pushOpcode .., Form.entry .discard .., Form.entry .dup .., ?_⟩
  refine ⟨Form.entry .swap .., ?_⟩
  iterate 3 refine ⟨Form.entry (.binary (by decide) (bits _)) .., ?_⟩
  iterate 2 refine ⟨Form.entry (.binary (by decide) (shifts _)) .., ?_⟩
  iterate 2 refine ⟨Form.entry (.binary (by decide) (failsOnOperands_equality _)) .., ?_⟩
  iterate 4 refine ⟨Form.entry (.binary (by decide) (failsOnOperands_comparison _)) .., ?_⟩
  refine ⟨Form.entry .jump .., Form.entry .jumpIfTrue .., Form.entry .jumpIfFalse .., ?_⟩
  refine ⟨Form.entry (.binary (by decide) failsOnOperands_append) .., ?_⟩
  refine ⟨Form.entry (.unary (by decide) failsOnOperands_lengthOf) .., ?_⟩
  refine ⟨Form.entry (.unary (by decide) failsOnOperands_asRationalValue) .., ?_⟩
  refine ⟨Form.entry (.unary (by decide) failsOnOperands_asIntegerValue) .., ?_⟩
  exact ⟨Form.entry .invoke .., Form.entry .nop .., Form.entry .pushWide ..⟩

theorem registry_entries : registry.entries = table := rfl

theorem find?_mem {nr : Int32} {d : Descriptor} (h : registry.find? nr = some d) : d ∈ table := by
  rw [← registry_entries]
  exact List.mem_of_find?_eq_some h

theorem find?_of_mem {d : Descriptor} (h : d ∈ table) : registry.find? d.number = some d :=
  Registry.find?_of_mem (by decide) h

/-- Holds the builtin opcodes, and maybe others beside them. -/
def Installed (reg : Registry) : Prop := ∀ d ∈ table, reg.find? d.number = some d

theorem installed_registry : Installed registry := fun _ => find?_of_mem

theorem installed_registerAll (customs : List Descriptor) :
    Installed (registry.registerAll customs).2 :=
  fun d hd => (Registry.find?_registerAll customs registry d.number).1 d (find?_of_mem hd)

section Listed

variable {nr : Int32} {held : Nat} {d : Descriptor} {r q : Routine Unit}

-- the table lists the opcodes by number, so that none has to be searched for
theorem Installed.find?_entry {reg : Registry} (builtins : Installed reg)
    (listed : table[nr.toInt.toNat]? = some d) (hnr : d.number = nr) : reg.find? nr = some d := by
  rw [← hnr]
  exact builtins d (List.mem_of_getElem? listed)

theorem Installed.resolve_entry {reg : Registry} (builtins : Installed reg)
    (listed : table[nr.toInt.toNat]? = some d) (hnr : d.number = nr) (hop : d.operation = some r)
    (hle : d.params.toNat ≤ held) : reg.resolve nr held = .ok r :=
  Registry.resolve_eq_ok_iff.mpr ⟨d, builtins.find?_entry listed hnr, hop, hle⟩

theorem find?_entry (listed : table[nr.toInt.toNat]? = some d) (hnr : d.number = nr) :
    registry.find? nr = some d :=
  installed_registry.find?_entry listed hnr

theorem resolve_entry (listed : table[nr.toInt.toNat]? = some d) (hnr : d.number = nr)
    (hop : d.operation = some r) (hle : d.params.toNat ≤ held) :
    registry.resolve nr held = .ok r :=
  installed_registry.resolve_entry listed hnr hop hle

theorem eq_of_resolve (h : registry.resolve nr held = .ok r)
    (listed : table[nr.toInt.toNat]? = some d) (hnr : d.number = nr)
    (hop : d.operation = some q) : r = q := by
  obtain ⟨d', hd', hop', _⟩ := Registry.resolve_eq_ok_iff.mp h
  cases hd'.symm.trans (find?_entry listed hnr)
  exact Option.some.inj (hop'.symm.trans hop)

end Listed

theorem resolve_form {nr : Int32} {held : Nat} {r : Routine Unit}
    (h : registry.resolve nr held = .ok r) :
    ∃ d ∈ table, d.number = nr ∧ d.params.toNat ≤ held ∧ d.operation = some r ∧
      Form nr d.params d.results d.immediates r := by
  obtain ⟨d, hd, hop, hle⟩ := Registry.resolve_eq_ok_iff.mp h
  have hnr : d.number = nr := Registry.number_of_find? hd
  obtain ⟨q, hq, form⟩ := form_of_mem d (find?_mem hd)
  rw [hop] at hq
  cases hq
  rw [hnr] at form
  exact ⟨d, find?_mem hd, hnr, hle, hop, form⟩

end Builtin
end StackMachine
