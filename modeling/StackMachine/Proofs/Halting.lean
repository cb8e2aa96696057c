import StackMachine.Proofs.Alike
import StackMachine.Proofs.Program.Boundary
/-! When a run halts. A step halts if its opcode is HALT or comes to HALT through
references, and a host that asks for a halt between two steps has asked for nothing:
the flag it sets is cleared before the next opcode runs. -/
namespace StackMachine

variable {e t : Engine} {nr : Int32}

theorem Engine.answer_halting (c : Call) (e : Engine) (h : c ≠ .halt) (unset : e.halting = false) :
    (Machine.answer c e).2.halting = false := by
  obtain ⟨reply, stack, ip, sees⟩ := e.answer_sees c
  rw [sees e rfl rfl rfl]
  simp [h, unset]

namespace Builtin

open Routine

abbrev Awake {α : Type} (r : Routine α) : Prop := r.Strict (· ≠ .halt) False

theorem awake_pushString : Awake pushString := by
  refine (strict_perform nofun).bind fun count => ?_
  split
  · trivial
  · exact (strict_readChars nofun _ _ _).bind fun _ => strict_perform nofun

theorem awake_pushRational : Awake pushRational := by
  refine (strict_perform nofun).bind fun num => (strict_perform nofun).bind fun den => ?_
  split
  · trivial
  · exact strict_perform nofun

theorem awake_jumpIf (wanted : Bool) : Awake (jumpIf wanted) := by
  refine (strict_perform nofun).bind fun target => (strict_perform nofun).bind fun v => ?_
  refine (strict_ofExcept _).bind fun condition => ?_
  split
  · exact strict_perform nofun
  · trivial

theorem Form.awake {params results : UInt32} {immediates : Int} {r : Routine Unit}
    (h : Form nr params results immediates r) (plain : nr ≠ Nr.halt) (own : nr ≠ Nr.invoke) :
    Awake r := by
  cases h with
  | halt => exact absurd rfl plain
  | invoke => exact absurd rfl own
  | unary => exact strict_unary nofun (fun _ => nofun) _
  | binary => exact strict_binary nofun (fun _ => nofun) _
  | pushString => exact awake_pushString
  | pushRational => exact awake_pushRational
  | jumpIfTrue => exact awake_jumpIf true
  | jumpIfFalse => exact awake_jumpIf false
  | pushInt => exact (strict_perform nofun).bind fun _ => strict_perform nofun
  | pushOpcode => exact (strict_perform nofun).bind fun _ => strict_perform nofun
  | pushWide =>
    exact (strict_perform nofun).bind fun _ =>
      (strict_perform nofun).bind fun _ => strict_perform nofun
  | discard => exact (strict_perform nofun).bind fun _ => trivial
  | dup => exact (strict_perform nofun).bind fun _ => strict_perform nofun
  | swap => exact strict_swap nofun fun _ => nofun
  | jump => exact (strict_perform nofun).bind fun _ => strict_perform nofun
  | nop => trivial

/-- HALT, or INVOKE on a stack where HALT is named below references to INVOKE alone. -/
def AsksForHalt (nr : Int32) (values : List Value) : Prop :=
  nr = Nr.halt ∨ nr = Nr.invoke ∧ ∃ below k,
    values = below ++ .opcodeRef Nr.halt :: List.replicate k (.opcodeRef Nr.invoke)

theorem AsksForHalt.invoke {values below : List Value} (h : AsksForHalt nr below)
    (top : values = below ++ [.opcodeRef nr]) : AsksForHalt Nr.invoke values := by
  right
  refine ⟨rfl, ?_⟩
  rcases h with rfl | ⟨rfl, rest, k, rfl⟩
  · exact ⟨below, 0, top⟩
  · refine ⟨rest, k + 1, ?_⟩
    rw [top, List.append_assoc, List.cons_append, ← List.replicate_succ']

theorem dispatch_asks {depth : Nat} (h : registry.dispatch depth nr e = .ok (.ok (), t))
    (unset : e.halting = false) (asked : t.halting = true) : AsksForHalt nr e.stack.values := by
  induction depth generalizing nr e with
  | zero => cases h
  | succ depth ih =>
    by_cases plain : nr = Nr.halt
    · exact .inl plain
    · rw [Registry.dispatch] at h
      cases hr : registry.resolve nr (Machine.len e) with
      | error g =>
        rw [hr] at h
        cases h
      | ok r =>
        simp only [hr] at h
        by_cases own : nr = Nr.invoke
        · subst own
          cases eq_of_resolve hr rfl rfl rfl
          -- The level below runs on the stack without the reference that named its opcode.
          rcases run_invoke_cases (registry.dispatch depth) e with ⟨g, u, hu, _⟩ | ⟨nr', top⟩
          · cases hu.symm.trans h
          · rw [run_invoke_of_top top] at h
            exact (ih h unset).invoke top
        · obtain ⟨_, _, _, _, _, form⟩ := resolve_form hr
          have awake := (form.awake plain own).run_invariant Engine.answer_halting h unset
          rw [awake] at asked
          cases asked

end Builtin

namespace Engine

theorem dispatch_of_asks (hreg : e.registry = some Builtin.registry)
    (h : Builtin.AsksForHalt nr e.stack.values) :
    ∃ t, e.dispatch nr = .ok (.ok (), t) ∧ t.halting = true := by
  have halts (e : Engine) (hreg : e.registry = some Builtin.registry) :
      e.dispatch Builtin.Nr.halt = .ok (.ok (), e.halt) := by
    have resolved : Builtin.registry.resolve Builtin.Nr.halt e.stack.size = .ok Builtin.halt :=
      Builtin.resolve_entry rfl rfl rfl (Nat.zero_le _)
    rw [dispatch_of_resolve_ok hreg resolved]
    rfl
  rcases h with rfl | ⟨rfl, below, k, top⟩
  · exact ⟨e.halt, halts e hreg, rfl⟩
  · obtain ⟨stack, _, hinvoke⟩ := dispatch_invoke_chain Builtin.resolve_invoke hreg k top
    rw [hinvoke]
    exact ⟨_, halts { e with stack } hreg, rfl⟩

theorem asks_iff_dispatch {reply : Except Fault Unit} (hd : e.dispatch nr = .ok (reply, t))
    (hreg : e.registry = some Builtin.registry) (unset : e.halting = false) :
    Builtin.AsksForHalt nr e.stack.values ↔
      reply = .ok () ∧ (nr = Builtin.Nr.halt ∨ t.halting = true) := by
  constructor
  · intro asks
    obtain ⟨u, hu, asked⟩ := dispatch_of_asks hreg asks
    cases hd.symm.trans hu
    exact ⟨rfl, .inr asked⟩
  · rintro ⟨rfl, plain | asked⟩
    · exact .inl plain
    · rw [dispatch_eq hreg] at hd
      exact Builtin.dispatch_asks hd unset asked

theorem settle_halted_iff {ip : Nat} {reply : Except Fault Unit} (running : e.status = .running) :
    (settle ip nr (reply, e)).2.status = .halted ↔
      reply = .ok () ∧ (nr = Builtin.Nr.halt ∨ e.halting = true) := by
  cases reply with
  | error f => simp [settle, failAt, note]
  | ok _ =>
    simp only [settle, complete, true_and]
    split
    · simp_all [note]
    · simp_all

theorem step_halted_iff (running : e.status = .running)
    (hreg : e.registry = some Builtin.registry) :
    ∃ reply t, e.step = .ok (reply, t) ∧ (t.status = .halted ↔
      ∃ nr, e.code[e.ip]? = some nr ∧ Builtin.AsksForHalt nr e.stack.values) := by
  by_cases inside : e.ip < e.code.size
  · obtain ⟨log, reply, t, hd, hstep⟩ := step_settles hreg running inside
    have kept := dispatch_kept hd
    have running' : t.status = .running := by
      rw [kept]
      exact running
    have asks := asks_iff_dispatch hd hreg rfl
    refine ⟨_, (settle e.ip e.code[e.ip] (reply, t)).2, hstep, ?_⟩
    rw [settle_halted_iff running', ← asks, Array.getElem?_eq_getElem inside]
    simp
  · have hle : e.code.size ≤ e.ip := Nat.le_of_not_lt inside
    refine ⟨_, _, step_of_le running hle, ?_⟩
    rw [Array.getElem?_eq_none hle]
    simp [note]

/-- The engines differ at most in the flag. -/
def SameButHalting (a b : Engine) : Prop := ∃ halting, b = { a with halting }

namespace SameButHalting

variable {a b : Engine}

theorem refl (e : Engine) : SameButHalting e e := ⟨e.halting, rfl⟩

theorem symm (a b : Engine) (h : SameButHalting a b) : SameButHalting b a := by
  obtain ⟨halting, rfl⟩ := h
  exact ⟨a.halting, rfl⟩

theorem trans (a b c : Engine) (h : SameButHalting a b) (k : SameButHalting b c) :
    SameButHalting a c := by
  obtain ⟨halting, rfl⟩ := h
  obtain ⟨halting', rfl⟩ := k
  exact ⟨halting', rfl⟩

theorem blind : Blind SameButHalting where
  answer := by
    rintro c a _ ⟨halting, rfl⟩
    obtain ⟨reply, stack, ip, sees⟩ := a.answer_sees c
    rw [sees a rfl rfl rfl, sees { a with halting } rfl rfl rfl]
    exact ⟨rfl, decide (c = .halt) || halting, rfl⟩
  registry_eq := by
    rintro a _ ⟨halting, rfl⟩
    rfl
  nesting_eq := by
    rintro a _ ⟨halting, rfl⟩
    rfl

theorem unseen : Unseen SameButHalting where
  toBlind := blind
  status_eq := by
    rintro a _ ⟨halting, rfl⟩
    rfl
  ip_eq := by
    rintro a _ ⟨halting, rfl⟩
    rfl
  announce := by
    rintro a _ ⟨halting, rfl⟩
    unfold announce
    split
    · exact ⟨halting, rfl⟩
    · exact ⟨halting, rfl⟩
  starve := by
    rintro a _ ip f ⟨halting, rfl⟩
    exact ⟨halting, rfl⟩
  execute := by
    rintro a _ ip nr ⟨halting, rfl⟩
    -- Entering the opcode clears the flag, and with it the difference.
    have entered : enter { a with halting } ip nr = a.enter ip nr := rfl
    rw [execute, execute, entered]
    exact .refl refl _

end SameButHalting
end Engine

def HostCall.isHalt : HostCall → Bool
  | .halt => true
  | _ => false

def HostCall.others (cs : List HostCall) : List HostCall := cs.filter fun c => !c.isHalt

def HostCall.othersReplies (cs : List HostCall) (replies : List HostReply) : List HostReply :=
  ((cs.zip replies).filter fun p => !p.1.isHalt).map Prod.snd

namespace Engine

open HostCall (others othersReplies)

variable {a b : Engine}

theorem othersReplies_cons {c : HostCall} (h : c ≠ .halt) (rest : List HostCall)
    (reply : HostReply) (replies : List HostReply) :
    othersReplies (c :: rest) (reply :: replies) = reply :: othersReplies rest replies := by
  cases c <;> first | rfl | exact absurd rfl h

theorem calls_others (cs : List HostCall) (h : SameButHalting a b) :
    Alike SameButHalting ((a.calls cs).map fun p => (othersReplies cs p.1, p.2))
      (b.calls (others cs)) := by
  induction cs generalizing a b with
  | nil => exact .ok [] h
  | cons c rest ih =>
    by_cases hc : c = .halt
    · subst hc
      have halted : SameButHalting a.halt b := .trans _ _ _ ⟨a.halting, rfl⟩ h
      have hcall : a.call .halt = .ok (.done (.ok ()), a.halt) := rfl
      have same := ih halted
      rw [calls_cons_of_ok hcall]
      cases hrest : a.halt.calls rest with
      | error x =>
        rw [hrest] at same
        exact same
      | ok p =>
        rw [hrest] at same
        exact same
    · have hothers : others (c :: rest) = c :: others rest := by
        cases c <;> first | rfl | exact absurd rfl hc
      have answered := SameButHalting.unseen.call_alike c h
      rw [hothers]
      generalize hleft : a.call c = left at answered
      generalize hright : b.call c = right at answered
      cases answered with
      | error x =>
        rw [calls_cons_of_error hleft, calls_cons_of_error hright]
        exact .error x
      | @ok reply u v h' =>
        have same := (ih h').map (reply :: ·)
        rw [calls_cons_of_ok hleft, calls_cons_of_ok hright]
        cases hrest : u.calls rest with
        | error x =>
          rw [hrest] at same
          exact same
        | ok p =>
          rw [hrest] at same
          simp only [Except.map, othersReplies_cons hc] at same ⊢
          exact same

/-- With the builtin opcodes a step of a running engine halts exactly if the opcode it
fetches asks for it. Whatever the opcodes are, two histories that differ only in calls
for a halt get the same replies to all other calls and leave the same engine but for the
flag. -/
theorem halts_only_within_steps :
    (∀ (s : Setup) (e : Engine), s.registry = some Builtin.registry → Reachable s e →
      e.status = .running → ∃ reply t, e.step = .ok (reply, t) ∧ (t.status = .halted ↔
        ∃ nr, e.code[e.ip]? = some nr ∧ Builtin.AsksForHalt nr e.stack.values)) ∧
    ∀ (e : Engine) (cs cs' : List HostCall), others cs = others cs' →
      Alike SameButHalting ((e.calls cs).map fun p => (othersReplies cs p.1, p.2))
        ((e.calls cs').map fun p => (othersReplies cs' p.1, p.2)) := by
  constructor
  · intro s e builtin reachable running
    exact step_halted_iff running ((reachable_wellFormed reachable).registry_eq.trans builtin)
  · intro e cs cs' same
    have left := calls_others cs (.refl e)
    have right := calls_others cs' (.refl e)
    rw [same] at left
    exact left.trans SameButHalting.trans (right.symm SameButHalting.symm)

def haltByReference : List HostCall :=
  [.push (some (.integer 7)), .push (some (.opcodeRef Builtin.Nr.halt)),
    .push (some (.opcodeRef Builtin.Nr.invoke)), .push (some (.opcodeRef Builtin.Nr.invoke))]

theorem haltByReference_halts_within_step :
    ∃ e reply t, Reachable { code := #[Builtin.Nr.invoke], capacity := 4 } e ∧
      e.status = .running ∧ Builtin.AsksForHalt Builtin.Nr.invoke e.stack.values ∧
      e.step = .ok (reply, t) ∧ t.status = .halted ∧
      Alike SameButHalting
        ((e.calls [.halt, .pop, .halt, .step]).map fun p =>
          (othersReplies [.halt, .pop, .halt, .step] p.1, p.2))
        ((e.calls [.pop, .step, .halt]).map fun p =>
          (othersReplies [.pop, .step, .halt] p.1, p.2)) := by
  obtain ⟨replies, e, hcalls, running, hcell, hvalues⟩ : ∃ replies e,
      (create { code := #[Builtin.Nr.invoke], capacity := 4 }).calls haltByReference =
        .ok (replies, e) ∧ e.status = .running ∧ e.code[e.ip]? = some Builtin.Nr.invoke ∧
      e.stack.values = [.integer 7] ++ .opcodeRef Builtin.Nr.halt ::
        List.replicate 2 (.opcodeRef Builtin.Nr.invoke) :=
    ⟨_, _, rfl, rfl, rfl, rfl⟩
  have reachable : Reachable { code := #[Builtin.Nr.invoke], capacity := 4 } e :=
    ⟨haltByReference, replies, hcalls⟩
  have asks : Builtin.AsksForHalt Builtin.Nr.invoke e.stack.values := .inr ⟨rfl, _, 2, hvalues⟩
  obtain ⟨reply, t, hstep, halts⟩ := halts_only_within_steps.1 _ e rfl reachable running
  have same := halts_only_within_steps.2 e [.halt, .pop, .halt, .step] [.pop, .step, .halt] rfl
  exact ⟨e, reply, t, reachable, running, asks, hstep, halts.mpr ⟨_, hcell, asks⟩, same⟩

end Engine
end StackMachine
