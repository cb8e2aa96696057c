import StackMachine.Proofs.Builtin.Form
import StackMachine.Proofs.Strict
/-! How the builtin operations are built. Each is strict, and all but two make
their only push last and dispatch nothing: SWAP pushes twice, INVOKE hands over
to another opcode. -/
namespace StackMachine.Builtin

open Routine

section Strict

variable {A : Call → Prop} {D : Prop}

theorem strict_unary (hpop : A .pop) (hpush : ∀ v, A (.push v)) (f : Value → Except Fault Value) :
    (unary f).Strict A D :=
  (strict_perform hpop).bind fun _ =>
    (strict_ofExcept _).bind fun _ => strict_perform (hpush _)

theorem strict_popPair (hpop : A .pop) : popPair.Strict A D :=
  (strict_perform hpop).bind fun _ => (strict_perform hpop).bind fun _ => trivial

theorem strict_binary (hpop : A .pop) (hpush : ∀ v, A (.push v))
    (f : Value → Value → Except Fault Value) : (binary f).Strict A D :=
  (strict_popPair hpop).bind fun _ =>
    (strict_ofExcept _).bind fun _ => strict_perform (hpush _)

theorem strict_swap (hpop : A .pop) (hpush : ∀ v, A (.push v)) : swap.Strict A D :=
  (strict_popPair hpop).bind fun _ =>
    (strict_perform (hpush _)).bind fun _ => strict_perform (hpush _)

theorem strict_readChars (hfetch : A .fetch) (count offset : Nat) (text : String) :
    (readChars count offset text).Strict A D := by
  induction count generalizing offset text with
  | zero => trivial
  | succ count ih =>
    unfold readChars
    refine (strict_perform hfetch).bind fun cell => ?_
    cases charOf? cell with
    | none => trivial
    | some c => exact ih _ _

end Strict

theorem pushesLast_unary (f : Value → Except Fault Value) : (unary f).PushesLast :=
  pushesLast_bind quiet_pop fun _ => pushesLast_bind (strict_ofExcept _) pushesLast_push

theorem pushesLast_binary (f : Value → Value → Except Fault Value) : (binary f).PushesLast :=
  pushesLast_bind (strict_popPair quiet_pop.1) fun _ => pushesLast_bind (strict_ofExcept _) pushesLast_push

theorem quiet_readChars (count offset : Nat) (text : String) :
    (readChars count offset text).Quiet :=
  strict_readChars (by rintro ⟨v, hv⟩; cases hv) count offset text

theorem pushesLast_pushInt : pushInt.PushesLast :=
  pushesLast_bind quiet_fetch fun _ => pushesLast_push _

theorem pushesLast_pushWide : pushWide.PushesLast :=
  pushesLast_bind quiet_fetch fun _ => pushesLast_bind quiet_fetch fun _ => pushesLast_push _

theorem pushesLast_pushString : pushString.PushesLast := by
  refine pushesLast_bind quiet_fetch fun count => ?_
  split
  · trivial
  · exact pushesLast_bind (quiet_readChars _ _ _) fun _ => pushesLast_push _

theorem pushesLast_pushRational : pushRational.PushesLast := by
  refine pushesLast_bind quiet_fetch fun num => pushesLast_bind quiet_fetch fun den => ?_
  split
  · trivial
  · exact pushesLast_push _

theorem pushesLast_pushOpcode : pushOpcode.PushesLast :=
  pushesLast_bind quiet_fetch fun _ => pushesLast_push _

theorem pushesLast_dup : dup.PushesLast :=
  pushesLast_bind (quiet_peek 0) pushesLast_push

theorem pushesLast_discard : discard.PushesLast :=
  pushesLast_bind quiet_pop fun _ => trivial

theorem pushesLast_jump : jump.PushesLast :=
  pushesLast_bind quiet_fetch fun _ => (quiet_jump _).pushesLast

theorem pushesLast_jumpIf (wanted : Bool) : (jumpIf wanted).PushesLast := by
  refine pushesLast_bind quiet_fetch fun target => pushesLast_bind quiet_pop fun v => ?_
  refine pushesLast_bind (strict_ofExcept _) fun condition => ?_
  split
  · exact (quiet_jump _).pushesLast
  · trivial

theorem pushesLast_nop : nop.PushesLast := trivial

inductive Shape : Routine Unit → Prop where
  | plain {r : Routine Unit} (h : r.PushesLast) : Shape r
  | swap : Shape swap
  | invoke : Shape invoke

theorem Shape.strict {r : Routine Unit} (h : Shape r) : r.Strict (fun _ => True) True := by
  cases h with
  | plain h => exact h.strict.mono (fun _ h => h) False.elim
  | swap => exact strict_swap trivial fun _ => trivial
  | invoke =>
    refine (strict_perform trivial).bind fun _ => ?_
    exact (strict_ofExcept _).bind fun _ => strict_invoke trivial

theorem Form.shape {nr : Int32} {params results : UInt32} {immediates : Int} {r : Routine Unit}
    (h : Form nr params results immediates r) : Shape r := by
  cases h with
  | halt => exact .plain quiet_halt.pushesLast
  | pushInt => exact .plain pushesLast_pushInt
  | unary => exact .plain (pushesLast_unary _)
  | binary => exact .plain (pushesLast_binary _)
  | pushString => exact .plain pushesLast_pushString
  | pushRational => exact .plain pushesLast_pushRational
  | pushOpcode => exact .plain pushesLast_pushOpcode
  | discard => exact .plain pushesLast_discard
  | dup => exact .plain pushesLast_dup
  | swap => exact .swap
  | jump => exact .plain pushesLast_jump
  | jumpIfTrue => exact .plain (pushesLast_jumpIf true)
  | jumpIfFalse => exact .plain (pushesLast_jumpIf false)
  | invoke => exact .invoke
  | nop => exact .plain pushesLast_nop
  | pushWide => exact .plain pushesLast_pushWide

theorem resolve_shape {nr : Int32} {held : Nat} {r : Routine Unit}
    (h : registry.resolve nr held = .ok r) : Shape r := by
  obtain ⟨_, _, _, _, _, form⟩ := resolve_form h
  exact form.shape

end StackMachine.Builtin
