import StackMachine.Proofs.Builtin.Failure
import StackMachine.Proofs.Protocol
/-! Every builtin opcode keeps to the arity its entry declares: it replaces as many
values as it has parameters by as many as it has results, and what lies below stays
as it is. INVOKE takes its reference and then has the effect of the opcode named
there. -/
namespace StackMachine

variable {α ε : Type} {below : List Value} {e t : Engine}

/-- Values above a bottom part that a call may touch: how many it finds there, and
how many it leaves when it succeeds. -/
inductive Call.Turns : Call → Nat → Nat → Prop where
  | push (v : Value) (n : Nat) : Turns (.push (some v)) n (n + 1)
  | pop (n : Nat) : Turns .pop (n + 1) n
  | peek {depth : Int} {n : Nat} : 0 ≤ depth → depth < n → Turns (.peek depth) n n
  | len (n : Nat) : Turns .len n n
  | fetch (n : Nat) : Turns .fetch n n
  | jump (target : Int) (n : Nat) : Turns (.jump target) n n
  | halt (n : Nat) : Turns .halt n n

/-- Turns `held` values on top of the stack into `left` values, or fails for another
reason than that too few were there. -/
abbrev Routine.Turns (held left : Nat) (r : Routine α) : Prop :=
  r.Follows Call.Turns (fun f => f.kind ≠ .stackUnderflow) held left

theorem Fault.OnOperands.not_underflow {f : Fault} (h : f.OnOperands) :
    f.kind ≠ .stackUnderflow := by
  rcases h with h | h | h <;> simp [h]

theorem Stack.push_fault {s : Stack} {v : Value} {f : Fault}
    (h : (s.push (some v)).1 = .error f) : f.kind = .stackOverflow ∨ f.kind = .outOfMemory := by
  by_cases full : s.capacity ≤ s.size
  · rw [push_of_full full] at h
    cases h
    exact .inl rfl
  · have room : s.size < s.capacity := Nat.lt_of_not_le full
    cases hr : s.budget.refuses v.footprint with
    | true =>
      rw [push_of_refuses room hr] at h
      cases h
      exact .inr rfl
    | false =>
      rw [push_of_grants room hr] at h
      cases h

namespace Engine

/-- The stack is `below` with `n` values on top. -/
def Carries (below : List Value) (n : Nat) (e : Engine) : Prop :=
  ∃ own, e.stack.values = below ++ own ∧ own.length = n

theorem push_carries {n : Nat} (v : Value) (h : e.Carries below n) :
    (∀ f, (e.push (some v)).1 = .error f → f.kind ≠ .stackUnderflow) ∧
    ∀ a, (e.push (some v)).1 = .ok a → (e.push (some v)).2.Carries below (n + 1) := by
  constructor
  · intro f hf
    rcases Stack.push_fault (s := e.stack) hf with hkind | hkind <;> simp [hkind]
  · intro a ha
    obtain ⟨own, hvalues, hlength⟩ := h
    have hpush := Stack.values_push (s := e.stack) ha
    refine ⟨own ++ [v], ?_, by simp [hlength]⟩
    change (e.stack.push (some v)).2.values = _
    rw [hpush, hvalues, List.append_assoc]

theorem pop_carries {n : Nat} (h : e.Carries below (n + 1)) :
    ∃ v, e.pop = (.ok v, { e with stack := e.stack.dropping v }) ∧
      Carries below n { e with stack := e.stack.dropping v } := by
  obtain ⟨own, hvalues, hlength⟩ := h
  have hne : own ≠ [] := List.ne_nil_of_length_eq_add_one hlength
  rcases e.answer_pop_cases with ⟨hempty, _⟩ | ⟨v, top, hpop⟩
  · rw [hempty] at hvalues
    have := (List.append_eq_nil_iff.mp hvalues.symm).2
    contradiction
  · refine ⟨v, hpop, own.dropLast, ?_, by simp [hlength]⟩
    simp only [Stack.values_dropping]
    rw [hvalues, List.dropLast_append_of_ne_nil hne]

theorem answer_carries (c : Call) (i j : Nat) (e : Engine) (turns : c.Turns i j)
    (h : e.Carries below i) :
    (∀ f, (Machine.answer c e).1 = .error f → f.kind ≠ .stackUnderflow) ∧
    ∀ a, (Machine.answer c e).1 = .ok a → (Machine.answer c e).2.Carries below j := by
  cases turns with
  | push v n => exact push_carries v h
  | pop n =>
    obtain ⟨v, hpop, hcarries⟩ := pop_carries h
    change (∀ f, e.pop.1 = _ → _) ∧ ∀ a, e.pop.1 = _ → Carries below j e.pop.2
    rw [hpop]
    exact ⟨nofun, fun _ _ => hcarries⟩
  | @peek depth n nonneg inside =>
    have hsize : 0 ≤ depth ∧ depth < e.stack.size := by
      obtain ⟨own, hvalues, hlength⟩ := h
      rw [Stack.size_eq_length, hvalues, List.length_append, hlength]
      omega
    obtain ⟨v, hv, _⟩ := Stack.peek_of_lt hsize
    refine ⟨?_, fun _ _ => h⟩
    intro f hf
    change e.stack.peek depth = _ at hf
    rw [hv] at hf
    cases hf
  | len n => exact ⟨nofun, fun _ _ => h⟩
  | fetch n =>
    change (∀ f, e.fetch.1 = _ → _) ∧ ∀ a, e.fetch.1 = _ → Carries below i e.fetch.2
    unfold fetch
    split
    · exact ⟨nofun, fun _ _ => h⟩
    · refine ⟨?_, nofun⟩
      intro f hf
      cases hf
      nofun
  | jump target n =>
    change (∀ f, (e.jump target).1 = _ → _) ∧
      ∀ a, (e.jump target).1 = _ → Carries below i (e.jump target).2
    unfold jump
    split
    · exact ⟨nofun, fun _ _ => h⟩
    · refine ⟨?_, nofun⟩
      intro f hf
      cases hf
      nofun
  | halt n => exact ⟨nofun, fun _ _ => h⟩

end Engine

namespace Builtin

open Routine

theorem turns_push (v : Value) (n : Nat) : (push v).Turns n (n + 1) := follows_perform (.push v n)
theorem turns_pop (n : Nat) : pop.Turns (n + 1) n := follows_perform (.pop n)
theorem turns_fetch (n : Nat) : fetch.Turns n n := follows_perform (.fetch n)

theorem turns_ofExcept {x : Except Fault α} (h : FailsOnOperands x) (n : Nat) :
    (ofExcept x).Turns n n :=
  follows_ofExcept fun f hf => (h f hf).not_underflow

theorem turns_unary {f : Value → Except Fault Value} (h : ∀ a, FailsOnOperands (f a)) :
    (unary f).Turns 1 1 :=
  (turns_pop 0).bind fun a => (turns_ofExcept (h a) 0).bind fun v => turns_push v 0

theorem turns_popPair : popPair.Turns 2 0 :=
  (turns_pop 1).bind fun _ => (turns_pop 0).bind fun _ => rfl

theorem turns_binary {f : Value → Value → Except Fault Value}
    (h : ∀ a b, FailsOnOperands (f a b)) : (binary f).Turns 2 1 :=
  turns_popPair.bind fun p => (turns_ofExcept (h p.1 p.2) 0).bind fun v => turns_push v 0

theorem turns_readChars (count offset : Nat) (text : String) :
    (readChars count offset text).Turns 0 0 := by
  induction count generalizing offset text with
  | zero => exact rfl
  | succ count ih =>
    unfold readChars
    refine (turns_fetch 0).bind fun cell => ?_
    cases charOf? cell with
    | none =>
      intro underflow
      cases underflow
    | some c => exact ih _ _

theorem turns_pushWide : pushWide.Turns 0 1 :=
  (turns_fetch 0).bind fun _ => (turns_fetch 0).bind fun _ => turns_push _ 0

theorem turns_pushString : pushString.Turns 0 1 := by
  refine (turns_fetch 0).bind fun count => ?_
  split
  · nofun
  · exact (turns_readChars _ _ _).bind fun _ => turns_push _ 0

theorem turns_pushRational : pushRational.Turns 0 1 := by
  refine (turns_fetch 0).bind fun num => (turns_fetch 0).bind fun den => ?_
  split
  · nofun
  · exact turns_push _ 0

theorem turns_dup : dup.Turns 1 2 :=
  Follows.bind (j := 1) (follows_perform (.peek (by decide) (by decide))) fun v => turns_push v 1

theorem turns_swap : swap.Turns 2 2 :=
  turns_popPair.bind fun _ => (turns_push _ 0).bind fun _ => turns_push _ 1

theorem turns_jump : jump.Turns 0 0 :=
  (turns_fetch 0).bind fun _ => follows_perform (.jump _ 0)

theorem turns_jumpIf (wanted : Bool) : (jumpIf wanted).Turns 1 0 := by
  refine (turns_fetch 1).bind fun target => (turns_pop 0).bind fun v => ?_
  refine (turns_ofExcept (Value.failsOnOperands_asInteger _) 0).bind fun condition => ?_
  split
  · exact follows_perform (.jump _ 0)
  · exact rfl

theorem Form.turns {nr : Int32} {params results : UInt32} {immediates : Int} {r : Routine Unit}
    (h : Form nr params results immediates r) (plain : nr ≠ Nr.invoke) :
    r.Turns params.toNat results.toNat := by
  cases h with
  | halt => exact follows_perform (.halt 0)
  | pushInt => exact (turns_fetch 0).bind fun _ => turns_push _ 0
  | unary _ fails => exact turns_unary fails
  | binary _ fails => exact turns_binary fails
  | pushString => exact turns_pushString
  | pushRational => exact turns_pushRational
  | pushOpcode => exact (turns_fetch 0).bind fun _ => turns_push _ 0
  | discard => exact (turns_pop 0).bind fun _ => rfl
  | dup => exact turns_dup
  | swap => exact turns_swap
  | jump => exact turns_jump
  | jumpIfTrue => exact turns_jumpIf true
  | jumpIfFalse => exact turns_jumpIf false
  | invoke => exact absurd rfl plain
  | nop => exact rfl
  | pushWide => exact turns_pushWide

/-- What a successful dispatch of an opcode does to the stack. -/
inductive Effect : Int32 → List Value → List Value → Prop where
  | entry {d : Descriptor} {below args results : List Value} : d ∈ table → d.number ≠ Nr.invoke →
      args.length = d.params.toNat → results.length = d.results.toNat →
      Effect d.number (below ++ args) (below ++ results)
  | invoke {nr : Int32} {below after : List Value} : Effect nr below after →
      Effect Nr.invoke (below ++ [.opcodeRef nr]) after

end Builtin

namespace Engine

theorem carries_split {n : Nat} (h : n ≤ e.stack.size) :
    e.Carries (e.stack.values.take (e.stack.size - n)) n := by
  refine ⟨e.stack.values.drop (e.stack.size - n), (List.take_append_drop _ _).symm, ?_⟩
  rw [List.length_drop, ← Stack.size_eq_length]
  omega

theorem run_exchanges (dispatch : Int32 → Engine → Except ε (Except Fault Unit × Engine))
    {nr : Int32} {params results : UInt32} {immediates : Int} {r : Routine Unit}
    (form : Builtin.Form nr params results immediates r) (plain : nr ≠ Builtin.Nr.invoke)
    (enough : params.toNat ≤ e.stack.size) :
    ∃ reply t, r.run dispatch e = .ok (reply, t) ∧
      (∀ f, reply = .error f → f.kind ≠ .stackUnderflow) ∧
      (reply = .ok () → ∃ below args after, e.stack.values = below ++ args ∧
        args.length = params.toNat ∧ t.stack.values = below ++ after ∧
        after.length = results.toNat) := by
  have start := carries_split enough
  obtain ⟨reply, t, hrun, fails, held⟩ :=
    (form.turns plain).run answer_carries dispatch start
  refine ⟨reply, t, hrun, fails, ?_⟩
  intro hok
  obtain ⟨args, hargs, hlength⟩ := start
  obtain ⟨after, hafter, hresults⟩ := held () hok
  exact ⟨_, args, after, hargs, hlength, hafter, hresults⟩

section Invoke

-- The registry may hold more than the builtin opcodes, as long as INVOKE is among them.
variable {reg : Registry}
  (known : ∀ held, 0 < held → reg.resolve Builtin.Nr.invoke held = .ok Builtin.invoke)

include known

theorem dispatch_invoke {nr : Int32} (hreg : e.registry = some reg)
    (top : e.stack.values = below ++ [.opcodeRef nr]) :
    e.dispatch Builtin.Nr.invoke =
      dispatch nr { e with stack := e.stack.dropping (.opcodeRef nr) } := by
  have hsize : e.stack.size = below.length + 1 := by
    rw [Stack.size_eq_length, top]
    simp
  have resolved := known e.stack.size (by omega)
  rw [dispatch_of_resolve_ok hreg resolved, Builtin.run_invoke_of_top top,
    dispatch_eq (e := { e with stack := e.stack.dropping (.opcodeRef nr) }) hreg, depth]
  simp only [Stack.size_dropping, hsize]
  rfl

theorem dispatch_invoke_chain {nr : Int32} (hreg : e.registry = some reg) (k : Nat)
    (top : e.stack.values =
      below ++ .opcodeRef nr :: List.replicate k (.opcodeRef Builtin.Nr.invoke)) :
    ∃ stack, stack.values = below ∧ e.dispatch Builtin.Nr.invoke = dispatch nr { e with stack } := by
  induction k generalizing e with
  | zero => exact ⟨_, Stack.values_dropping_of_top top, dispatch_invoke known hreg top⟩
  | succ k ih =>
    rw [List.replicate_succ', ← List.cons_append, ← List.append_assoc] at top
    rw [dispatch_invoke known hreg top]
    exact ih (e := { e with stack := e.stack.dropping (.opcodeRef Builtin.Nr.invoke) }) hreg
      (Stack.values_dropping_of_top top)

end Invoke

end Engine

namespace Builtin

theorem resolve_invoke (held : Nat) (h : 0 < held) :
    registry.resolve Nr.invoke held = .ok invoke :=
  resolve_entry rfl rfl rfl h

theorem dispatch_effect {depth : Nat} {nr : Int32}
    (h : registry.dispatch depth nr e = .ok (.ok (), t)) :
    Effect nr e.stack.values t.stack.values := by
  induction depth generalizing nr e with
  | zero => cases h
  | succ depth ih =>
    rw [Registry.dispatch] at h
    cases hr : registry.resolve nr (Machine.len e) with
    | error f =>
      rw [hr] at h
      cases h
    | ok r =>
      rw [hr] at h
      obtain ⟨d, hd, hnr, enough, _, form⟩ := resolve_form hr
      by_cases plain : nr = Nr.invoke
      · cases plain
        cases eq_of_resolve hr rfl rfl rfl
        rcases run_invoke_cases (registry.dispatch depth) e with ⟨f, u, hu, _⟩ | ⟨nr', top⟩
        · simp only [hu] at h
          cases h
        · simp only [run_invoke_of_top top] at h
          rw [top]
          exact .invoke (ih h)
      · obtain ⟨reply, u, hrun, _, exchanged⟩ :=
          Engine.run_exchanges (registry.dispatch depth) form plain enough
        simp only [hrun] at h
        cases h
        obtain ⟨below, args, after, hargs, hlength, hafter, hresults⟩ := exchanged rfl
        rw [hargs, hafter, ← hnr]
        exact .entry hd (hnr ▸ plain) hlength hresults

end Builtin

namespace Engine

theorem effect_of_dispatch {nr : Int32} (hreg : e.registry = some Builtin.registry)
    (h : e.dispatch nr = .ok (.ok (), t)) : Builtin.Effect nr e.stack.values t.stack.values := by
  rw [dispatch_eq hreg] at h
  exact Builtin.dispatch_effect h

/-- A dispatch of an entry other than INVOKE comes to an end. If it succeeds, it has
exchanged the values its entry declares; if values are missing, it reports that with
the opcode's number, and otherwise it never reports that. INVOKE on a reference is the
dispatch of the opcode it names on what lies below, and so has that opcode's effect. -/
theorem builtins_honour_arity (s : Setup) (builtin : s.registry = some Builtin.registry)
    {e : Engine} (reachable : Reachable s e) :
    (∀ d ∈ Builtin.table, d.number ≠ Builtin.Nr.invoke →
      ∃ reply t, e.dispatch d.number = .ok (reply, t) ∧
        (reply = .ok () → ∃ below args results, e.stack.values = below ++ args ∧
          args.length = d.params.toNat ∧ t.stack.values = below ++ results ∧
          results.length = d.results.toNat) ∧
        (e.stack.size < d.params.toNat →
          ∃ f, reply = .error f ∧ f.kind = .stackUnderflow ∧ f.opcode = d.number) ∧
        (d.params.toNat ≤ e.stack.size → ∀ f, reply = .error f → f.kind ≠ .stackUnderflow)) ∧
    ∀ below nr, e.stack.values = below ++ [.opcodeRef nr] →
      ∃ popped, e.pop = (.ok (.opcodeRef nr), popped) ∧ popped.stack.values = below ∧
        Reachable s popped ∧ e.dispatch Builtin.Nr.invoke = popped.dispatch nr ∧
        ∀ t, e.dispatch Builtin.Nr.invoke = .ok (.ok (), t) →
          Builtin.Effect nr below t.stack.values := by
  have hreg : e.registry = some Builtin.registry :=
    (reachable_wellFormed reachable).registry_eq.trans builtin
  constructor
  · intro d hd plain
    obtain ⟨r, hop, form⟩ := Builtin.form_of_mem d hd
    have resolved : Builtin.registry.resolve d.number e.stack.size = _ :=
      Registry.resolve_of_implemented (Builtin.find?_of_mem hd) hop
    by_cases missing : e.stack.size < d.params.toNat
    · rw [if_pos missing] at resolved
      refine ⟨_, e, dispatch_of_resolve_error hreg resolved, nofun, ?_, ?_⟩
      · exact fun _ => ⟨_, rfl, rfl, rfl⟩
      · intro enough
        omega
    · rw [if_neg missing] at resolved
      rw [dispatch_of_resolve_ok hreg resolved]
      obtain ⟨reply, t, hrun, fails, exchanged⟩ :=
        run_exchanges (Builtin.registry.dispatch (e.nesting + e.stack.size)) form plain
          (Nat.le_of_not_lt missing)
      exact ⟨reply, t, hrun, exchanged, fun h => absurd h missing, fun _ => fails⟩
  · intro below nr top
    have hinvoke := dispatch_invoke Builtin.resolve_invoke hreg top
    have hpop : e.pop =
        (.ok (.opcodeRef nr), { e with stack := e.stack.dropping (.opcodeRef nr) }) :=
      answer_pop_of_values top
    have hcall : e.call .pop = .ok (.value (.ok (.opcodeRef nr)),
        { e with stack := e.stack.dropping (.opcodeRef nr) }) := by
      rw [call, hpop]
    have rest := Stack.values_dropping_of_top top
    refine ⟨_, hpop, rest, reachable.call hcall, hinvoke, ?_⟩
    intro t h
    rw [hinvoke] at h
    have effect :=
      effect_of_dispatch (e := { e with stack := e.stack.dropping (.opcodeRef nr) }) hreg h
    rw [rest] at effect
    exact effect

def sumByReference : List HostCall :=
  [.push (some (.integer 3)), .push (some (.integer 4)), .push (some (.opcodeRef 2))]

theorem sumByReference_honours_arity :
    ∃ e t u, Reachable { capacity := 4, limit := 24 } e ∧
      e.dispatch Builtin.Nr.invoke = .ok (.ok (), t) ∧ t.stack.values = [.integer 7] ∧
      Builtin.Effect 2 [.integer 3, .integer 4] t.stack.values ∧
      e.dispatch 12 = .ok (.ok (), u) ∧
      ∃ below args results, e.stack.values = below ++ args ∧ args.length = 1 ∧
        u.stack.values = below ++ results ∧ results.length = 2 := by
  have hrun : ((create { capacity := 4, limit := 24 }).calls sumByReference).map (fun p =>
      (p.2.stack.values, (p.2.dispatch Builtin.Nr.invoke).map fun q => (q.1.isOk, q.2.stack.values),
        (p.2.dispatch 12).map fun q => q.1.isOk)) =
      .ok ([.integer 3, .integer 4, .opcodeRef 2], .ok (true, [.integer 7]), .ok true) := by
    decide +kernel
  obtain ⟨⟨replies, e⟩, hcalls, hend⟩ := exists_of_map_ok hrun
  obtain ⟨hvalues, hend⟩ := Prod.mk.inj hend
  obtain ⟨⟨reply, t⟩, hinvoke, hsum⟩ := exists_of_map_ok (Prod.mk.inj hend).1
  obtain ⟨⟨reply', u⟩, hdup, hcopied⟩ := exists_of_map_ok (Prod.mk.inj hend).2
  have reachable : Reachable { capacity := 4, limit := 24 } e := ⟨sumByReference, replies, hcalls⟩
  obtain ⟨entries, references⟩ := builtins_honour_arity _ rfl reachable
  obtain ⟨_, _, hentry, exchanged, _⟩ :=
    entries Builtin.table[12] (List.getElem_mem (by decide)) (by decide)
  obtain ⟨_, _, _, _, _, effect⟩ := references [.integer 3, .integer 4] 2 hvalues
  cases hdup.symm.trans hentry
  cases reply with
  | error f => cases congrArg Prod.fst hsum
  | ok _ =>
    cases reply' with
    | error f => cases hcopied
    | ok _ =>
      exact ⟨e, t, u, reachable, hinvoke, congrArg Prod.snd hsum, effect t hinvoke, hdup,
        exchanged rfl⟩

end Engine
end StackMachine
