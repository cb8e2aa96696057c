import StackMachine.Proofs.Builtin.Shape
import StackMachine.Proofs.Course
import StackMachine.Proofs.Log
/-! The builtin opcodes come to an end. INVOKE alone dispatches, and it takes a value off
the stack before it does, so dispatches nest no deeper than the stack is high. Fetches come
before all other calls and end with the first that is refused, so that no opcode fetches
more than what is left of the code, whatever length a text announces. -/
namespace StackMachine

open Routine

theorem Builtin.drop_of_getElem? {code : Array Int32} {place : Nat} {cell : Int32}
    (h : code[place]? = some cell) :
    code.toList.drop place = cell :: code.toList.drop (place + 1) := by
  obtain ⟨hlt, hcell⟩ := Array.getElem?_eq_some_iff.mp h
  rw [List.drop_eq_getElem_cons (by simpa using hlt), Array.getElem_toList, hcell]

/-- The next cells of the code from `ip` on, each once, and at most one refusal behind
them. -/
inductive Onward (code : Array Int32) : Nat → List (Except Fault Int32) → Prop where
  | stop (ip : Nat) : Onward code ip []
  | refused (ip : Nat) (f : Fault) : Onward code ip [.error f]
  | cell {ip : Nat} {rest : List (Except Fault Int32)} (inside : ip < code.size) :
      Onward code (ip + 1) rest → Onward code ip (.ok code[ip] :: rest)

namespace Onward

variable {code : Array Int32} {ip : Nat} {w : Effort}

theorem next_cells (h : Onward code ip w.fetches) : w.cells <+: code.toList.drop ip := by
  unfold Effort.cells
  generalize w.fetches = fetches at h
  induction h with
  | stop ip => exact List.nil_prefix
  | refused ip f => exact List.nil_prefix
  | cell inside _ ih =>
    rw [Builtin.drop_of_getElem? (Array.getElem?_eq_getElem inside)]
    exact (List.prefix_cons_inj _).mpr ih

theorem length_cells_le (h : Onward code ip w.fetches) : w.cells.length ≤ code.size - ip := by
  have hle := h.next_cells.length_le
  rwa [List.length_drop, Array.length_toList] at hle

theorem length_fetches_le (h : Onward code ip w.fetches) :
    w.fetches.length ≤ w.cells.length + 1 := by
  unfold Effort.cells
  generalize w.fetches = fetches at h
  induction h with
  | stop ip => exact Nat.zero_le _
  | refused ip f => exact Nat.le_refl _
  | cell inside _ ih => exact Nat.succ_le_succ ih

end Onward

/-- Fetches come before all other calls; the routine stops at the first refusal. -/
inductive Routine.FetchesFirst : Routine Unit → Prop where
  | rest {r : Routine Unit} : r.Strict (· ≠ .fetch) False → FetchesFirst r
  | fetch {next : Except Fault Int32 → Routine Unit} : (∀ f, next (.error f) = .fail f) →
      (∀ cell, FetchesFirst (next (.ok cell))) → FetchesFirst (.call .fetch next)

namespace Routine.FetchesFirst

theorem bind {next : Int32 → Routine Unit} (h : ∀ cell, (next cell).FetchesFirst) :
    (Routine.fetch >>= next).FetchesFirst :=
  .fetch (fun _ => rfl) h

theorem strict {r : Routine Unit} (h : r.FetchesFirst) : r.Strict (fun _ => True) False := by
  induction h with
  | rest h => exact h.mono (fun _ _ => trivial) id
  | fetch stop _ ih => exact ⟨trivial, stop, ih⟩

end Routine.FetchesFirst

section Course

variable {σ : Type} [Machine σ] {reg : Registry} {r : Routine Unit}
  {outcome : Except Fault Unit × Engine} {w : Effort} {e : Engine}

theorem Routine.Strict.exists_course {A : Call → Prop} (h : r.Strict A False) (reg : Registry)
    (s : σ) : ∃ outcome w, Course reg r s outcome w ∧ w.nesting = 0 := by
  obtain ⟨reply, t, hrun⟩ := h.run_ok (reg.dispatch 0) s
  obtain ⟨w, course, room⟩ := Course.exists_of_run (by intro _ _ _ h; cases h) hrun
  exact ⟨_, w, course, Nat.le_zero.mp room⟩

theorem Course.fetches_of_strict {s : σ} {outcome : Except Fault Unit × σ}
    (course : Course reg r s outcome w) (h : r.Strict (· ≠ .fetch) False) : w.fetches = [] := by
  induction course with
  | done a s => rfl
  | fail f s => rfl
  | @call c next s _ _ course ih =>
    obtain ⟨other, stop, go⟩ := h
    rw [Effort.ofCall_of_ne other, Effort.none_followedBy]
    refine ih ?_
    cases (Machine.answer c s).1 with
    | error f =>
      rw [stop f]
      trivial
    | ok a => exact go a
  | refused _ _ _ => exact h.1.elim
  | entered _ _ _ _ _ => exact h.1.elim

theorem Routine.FetchesFirst.onward (h : r.FetchesFirst) (course : Course reg r e outcome w) :
    Onward e.code e.ip w.fetches := by
  induction h generalizing e w with
  | rest h =>
    rw [course.fetches_of_strict h]
    exact .stop e.ip
  | @fetch next stop _ ih =>
    cases course with
    | call course =>
      change Course reg (next e.fetch.1) e.fetch.2 outcome _ at course
      change Onward e.code e.ip (e.fetch.1 :: _)
      by_cases inside : e.ip < e.code.size
      · rw [Engine.fetch_of_lt inside] at course ⊢
        exact .cell inside (ih _ course)
      · rw [Engine.fetch_of_le (Nat.le_of_not_lt inside)] at course ⊢
        simp only [stop] at course
        cases course
        exact .refused e.ip _

end Course

namespace Builtin

theorem fetchesFirst_readChars {next : String → Routine Unit}
    (h : ∀ text, (next text).Strict (· ≠ .fetch) False) (count offset : Nat) (text : String) :
    (readChars count offset text >>= next).FetchesFirst := by
  induction count generalizing offset text with
  | zero => exact .rest (h text)
  | succ count ih =>
    change ((Routine.fetch.bind _).bind next).FetchesFirst
    rw [Routine.bind_assoc]
    refine .bind fun cell => ?_
    cases charOf? cell with
    | none => exact .rest trivial
    | some c => exact ih _ _

theorem fetchesFirst_pushString : pushString.FetchesFirst := by
  refine .bind fun count => ?_
  split
  · exact .rest trivial
  · exact fetchesFirst_readChars (fun _ => strict_perform nofun) _ _ _

theorem fetchesFirst_pushRational : pushRational.FetchesFirst := by
  refine .bind fun num => .bind fun den => ?_
  split
  · exact .rest trivial
  · exact .rest (strict_perform nofun)

theorem fetchesFirst_jumpIf (wanted : Bool) : (jumpIf wanted).FetchesFirst := by
  refine .bind fun target => .rest ((strict_perform nofun).bind fun v => ?_)
  refine (strict_ofExcept _).bind fun condition => ?_
  split
  · exact strict_perform nofun
  · trivial

variable {nr : Int32} {e : Engine}

theorem Form.fetchesFirst {params results : UInt32} {immediates : Int} {r : Routine Unit}
    (h : Form nr params results immediates r) (own : nr ≠ Nr.invoke) : r.FetchesFirst := by
  cases h with
  | halt => exact .rest (strict_perform nofun)
  | pushInt => exact .bind fun _ => .rest (strict_perform nofun)
  | unary => exact .rest (strict_unary nofun (fun _ => nofun) _)
  | binary => exact .rest (strict_binary nofun (fun _ => nofun) _)
  | pushString => exact fetchesFirst_pushString
  | pushRational => exact fetchesFirst_pushRational
  | pushOpcode => exact .bind fun _ => .rest (strict_perform nofun)
  | discard => exact .rest ((strict_perform nofun).bind fun _ => trivial)
  | dup => exact .rest ((strict_perform nofun).bind fun _ => strict_perform nofun)
  | swap => exact .rest (strict_swap nofun fun _ => nofun)
  | jump => exact .bind fun _ => .rest (strict_perform nofun)
  | jumpIfTrue => exact fetchesFirst_jumpIf true
  | jumpIfFalse => exact fetchesFirst_jumpIf false
  | invoke => exact absurd rfl own
  | nop => exact .rest trivial
  | pushWide => exact .bind fun _ => .bind fun _ => .rest (strict_perform nofun)

def EndsWithin (depth : Nat) (r : Routine Unit) (e : Engine) : Prop :=
  ∃ outcome w, Course registry r e outcome w ∧ w.nesting ≤ depth ∧ Onward e.code e.ip w.fetches

namespace EndsWithin

variable {depth : Nat} {r : Routine Unit}

theorem fail (f : Fault) (e : Engine) : EndsWithin depth (.fail f) e :=
  ⟨_, _, .fail f e, Nat.zero_le _, .stop e.ip⟩

theorem pop {next : Except Fault Value → Routine Unit} {reply : Except Fault Value} {stack : Stack}
    (hpop : Machine.answer .pop e = (reply, { e with stack }))
    (h : EndsWithin depth (next reply) { e with stack }) : EndsWithin depth (.call .pop next) e := by
  obtain ⟨outcome, w, course, room, onward⟩ := h
  refine ⟨outcome, w, ?_, room, onward⟩
  rw [← Effort.none_followedBy w]
  refine Course.call (c := .pop) ?_
  rw [hpop]
  exact course

theorem of_fetchesFirst (h : r.FetchesFirst) (e : Engine) : EndsWithin depth r e := by
  obtain ⟨outcome, w, course, flat⟩ := h.strict.exists_course registry e
  exact ⟨outcome, w, course, by omega, h.onward course⟩

theorem dispatched (resolved : registry.resolve nr e.stack.size = .ok r) (h : EndsWithin depth r e) :
    EndsWithin (depth + 1) (.invoke nr) e := by
  obtain ⟨outcome, w, course, room, onward⟩ := h
  exact ⟨outcome, w.dispatched, Registry.course_of_entered resolved course,
    Nat.succ_le_succ room, onward⟩

theorem invoke
    (named : ∀ nr, e.stack.values = (e.stack.dropping (.opcodeRef nr)).values ++ [.opcodeRef nr] →
      EndsWithin depth (.invoke nr) { e with stack := e.stack.dropping (.opcodeRef nr) }) :
    EndsWithin depth invoke e := by
  rcases e.answer_pop_cases with ⟨_, hpop⟩ | ⟨v, top, hpop⟩
  · exact .pop hpop (.fail _ e)
  · refine .pop hpop ?_
    cases v with
    | integer n => exact .fail _ _
    | string s => exact .fail _ _
    | rational r => exact .fail _ _
    | opcodeRef nr => exact named nr top

end EndsWithin

/-- Every opcode ends. INVOKE lowers the stack before it dispatches. -/
theorem endsWithin_dispatch (nr : Int32) (e : Engine) :
    EndsWithin (e.stack.size + 1) (.invoke nr) e := by
  cases resolved : registry.resolve nr e.stack.size with
  | error f =>
    exact ⟨_, _, Registry.course_of_refused resolved, Nat.le_add_left 1 _, .stop e.ip⟩
  | ok r =>
    refine .dispatched resolved ?_
    by_cases own : nr = Nr.invoke
    · subst own
      cases eq_of_resolve resolved rfl rfl rfl
      refine .invoke fun nr' top => ?_
      have lower : e.stack.size = (e.stack.dropping (.opcodeRef nr')).size + 1 := by
        rw [Stack.size_eq_length, top, List.length_append]
        rfl
      rw [lower]
      exact endsWithin_dispatch nr' { e with stack := e.stack.dropping (.opcodeRef nr') }
    · obtain ⟨_, _, _, _, _, form⟩ := resolve_form resolved
      exact .of_fetchesFirst (form.fetchesFirst own) e
termination_by e.stack.size

end Builtin

namespace Engine

variable {e : Engine}

theorem dispatch_within (hreg : e.registry = some Builtin.registry) (nr : Int32) :
    ∃ outcome w, Course Builtin.registry (.invoke nr) e outcome w ∧
      e.dispatch nr = .ok outcome ∧ w.nesting ≤ e.stack.size + 1 ∧
      Onward e.code e.ip w.fetches := by
  obtain ⟨outcome, w, course, nesting, onward⟩ := Builtin.endsWithin_dispatch nr e
  have room : w.nesting ≤ e.depth := by
    unfold depth
    omega
  refine ⟨outcome, w, course, ?_, nesting, onward⟩
  rw [dispatch_eq hreg]
  exact Registry.dispatch_eq_ok_iff.mpr ⟨w, course, room⟩

theorem step_ok (hreg : e.registry = some Builtin.registry) :
    ∃ reply t, e.step = .ok (reply, t) := by
  by_cases running : e.status = .running
  · by_cases inside : e.ip < e.code.size
    · obtain ⟨log, hlog⟩ := enter_eq { e with ip := e.ip + 1 } e.ip e.code[e.ip]
      obtain ⟨outcome, _, _, hd, _⟩ := dispatch_within (e := { e with
        ip := e.ip + 1, current := some e.code[e.ip], halting := false, log }) hreg e.code[e.ip]
      rw [step_of_lt running inside, execute, hlog, hd]
      exact ⟨_, _, rfl⟩
    · exact ⟨_, _, step_of_le running (Nat.le_of_not_lt inside)⟩
  · exact ⟨_, _, step_eq_of_idle running⟩

theorem stepUpTo_ok (hreg : e.registry = some Builtin.registry) (checks : Nat) :
    ∃ reply t, e.stepUpTo checks = .ok (reply, t) := by
  induction checks generalizing e with
  | zero => exact ⟨_, _, rfl⟩
  | succ checks ih =>
    obtain ⟨reply, t, hstep⟩ := step_ok hreg
    rw [stepUpTo, hstep]
    cases reply with
    | «continue» => exact ih ((step_progress hstep).registry_eq.trans hreg)
    | halt => exact ⟨_, _, rfl⟩
    | failed f => exact ⟨_, _, rfl⟩

/-- Over the builtin opcodes an engine in any state answers. Each opcode has exactly one
course on it, which the dispatch takes; dispatches nest at most once more than there are
values on the stack, and the cells fetched are the next of the code, no more than are left
behind the engine's place, with at most one fetch refused. So a step gives an answer, and
so does a run that may make `checks` steps. -/
theorem builtin_steps_terminate (e : Engine) (builtin : e.registry = some Builtin.registry) :
    (∀ nr, ∃ outcome w,
      (∀ outcome' w', Course Builtin.registry (.invoke nr) e outcome' w' ↔
        outcome' = outcome ∧ w' = w) ∧
      e.dispatch nr = .ok outcome ∧ w.nesting ≤ e.stack.size + 1 ∧
      w.cells <+: e.code.toList.drop e.ip ∧ w.cells.length ≤ e.code.size - e.ip ∧
      w.fetches.length ≤ w.cells.length + 1) ∧
    (∃ reply t, e.step = .ok (reply, t)) ∧
    ∀ checks, ∃ reply t, e.runWithin checks = .ok (reply, t) := by
  refine ⟨?_, step_ok builtin, ?_⟩
  · intro nr
    obtain ⟨outcome, w, course, answered, nesting, onward⟩ := dispatch_within builtin nr
    refine ⟨outcome, w, ?_, answered, nesting, onward.next_cells, onward.length_cells_le,
      onward.length_fetches_le⟩
    intro outcome' w'
    constructor
    · exact fun other => other.unique course
    · rintro ⟨rfl, rfl⟩
      exact course
  · intro checks
    obtain ⟨log, hlog⟩ := e.announce_eq
    rw [runWithin, hlog]
    exact stepUpTo_ok (e := { e with log }) builtin checks

/-- INVOKE was fetched; two references lead to PUSH_STRING, whose text is to have more
characters than there are cells. -/
def endlessText : Engine :=
  { create { code := #[32, 2147483647, 104, 105], capacity := 3 } with
    ip := 1
    stack := { capacity := 3, slots := #[.opcodeRef 8, .opcodeRef 32, .opcodeRef 32] } }

theorem endlessText_terminates :
    endlessText.registry = some Builtin.registry ∧
    (∃ outcome w, Course Builtin.registry (.invoke Builtin.Nr.invoke) endlessText outcome w ∧
      endlessText.dispatch Builtin.Nr.invoke = .ok outcome ∧ w.nesting ≤ 4 ∧
      w.cells <+: [2147483647, 104, 105] ∧ w.fetches.length ≤ 4) ∧
    (∃ reply t, endlessText.step = .ok (reply, t)) ∧
    ∃ reply t, endlessText.runWithin 5 = .ok (reply, t) := by
  obtain ⟨dispatches, steps, runs⟩ := builtin_steps_terminate endlessText rfl
  obtain ⟨outcome, w, course, answered, nesting, cells, fewer, fetches⟩ :=
    dispatches Builtin.Nr.invoke
  have bound : w.cells.length ≤ 3 := fewer
  exact ⟨rfl, ⟨outcome, w, (course outcome w).mpr ⟨rfl, rfl⟩, answered, nesting, cells, by omega⟩,
    steps, runs 5⟩

end Engine
end StackMachine
