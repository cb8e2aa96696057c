import Mathlib.Data.List.Forall2
import StackMachine.Proofs.WellFormed
/-! Engines that do not run: halted, faulted, or made without a registry. Every move that
touches the record of a run is made by a step of a running engine, so whatever a host
asks of another engine, that record stays. -/
namespace StackMachine

def Status.idleReply : Status → StepReply
  | .ready => .failed .noRegistry
  | .running => .continue
  | .halted => .halt
  | .faulted fault _ => .failed fault

namespace Engine

variable {s : Setup} {e t u : Engine} {cs : List HostCall} {replies : List HostReply}

/-- The same record of a run: how it stands, with the fault and its place, the steps that
were counted and the last opcode. -/
structure SameRecord (e t : Engine) : Prop where
  status_eq : t.status = e.status
  steps_eq : t.steps = e.steps
  current_eq : t.current = e.current

theorem SameRecord.refl (e : Engine) : SameRecord e e := ⟨rfl, rfl, rfl⟩

theorem SameRecord.move (idle : e.status ≠ .running) (h : SameRecord e t) (m : Move t u) :
    SameRecord e u := by
  have idle' : t.status ≠ .running := by
    rw [h.status_eq]
    exact idle
  cases m with
  | stay => exact h
  | push v _ _ => exact { h with }
  | pop v _ => exact { h with }
  | goto ip _ => exact { h with }
  | halt => exact { h with }
  | announce =>
    obtain ⟨log, hlog⟩ := t.announce_eq
    rw [hlog]
    exact { h with }
  | enter ip nr running => exact absurd running idle'
  | starve f running => exact absurd running idle'
  | fail ip opcode f running _ => exact absurd running idle'
  | complete nr running => exact absurd running idle'

theorem sameRecord_of_mem (idle : e.status ≠ .running) (cs : List HostCall) :
    ∀ t ∈ e.history cs, SameRecord e t := by
  intro t ht
  obtain ⟨_, path, _⟩ := calls_leads cs e
  exact path.invariant (fun _ _ m h => h.move idle m) (.refl e) t (List.mem_cons_of_mem _ ht)

theorem sameRecord_of_calls (idle : e.status ≠ .running) (h : e.calls cs = .ok (replies, t)) :
    SameRecord e t :=
  (calls_leads cs e).invariant (fun _ _ m h => h.move idle m) h (.refl e)

theorem sameRecord_of_call {c : HostCall} {reply : HostReply} (idle : e.status ≠ .running)
    (h : e.call c = .ok (reply, t)) : SameRecord e t :=
  (call_leads c e).invariant (fun _ _ m h => h.move idle m) h (.refl e)

theorem step_eq_of_idle (idle : e.status ≠ .running) : e.step = .ok (e.status.idleReply, e) := by
  unfold step
  cases hs : e.status with
  | running => exact absurd hs idle
  | ready => rfl
  | halted => rfl
  | faulted f ip => rfl

theorem runWithin_of_idle (idle : e.status ≠ .running) (checks : Nat) :
    ∃ reply, e.runWithin checks = .ok (reply, e) := by
  have silent : e.announce = e := by simp [announce, idle]
  rw [runWithin, silent]
  cases checks with
  | zero => exact ⟨_, rfl⟩
  | succ checks =>
    rw [stepUpTo, step_eq_of_idle idle]
    cases hs : e.status with
    | running => exact absurd hs idle
    | ready => exact ⟨_, rfl⟩
    | halted => exact ⟨_, rfl⟩
    | faulted f ip => exact ⟨_, rfl⟩

theorem replies_of_idle (idle : e.status ≠ .running) (h : e.calls cs = .ok (replies, t)) :
    List.Forall₂ (fun c reply => c = .step → reply = .stepped e.status.idleReply) cs replies := by
  induction cs generalizing e replies with
  | nil =>
    cases h
    exact .nil
  | cons c rest ih =>
    cases hc : e.call c with
    | error a =>
      rw [calls_cons_of_error hc] at h
      cases h
    | ok p =>
      obtain ⟨reply, u⟩ := p
      rw [calls_cons_of_ok hc] at h
      obtain ⟨q, hq, hqt⟩ := exists_of_map_ok h
      cases hqt
      have kept := (sameRecord_of_call idle hc).status_eq
      apply List.Forall₂.cons
      · rintro rfl
        cases (call_step (step_eq_of_idle idle)).symm.trans hc
        rfl
      · rw [← kept] at idle ⊢
        exact ih idle hq

theorem calls_of_idle (idle : e.status ≠ .running) (plain : ∀ nr, .dispatch nr ∉ cs) :
    ∃ replies t, e.calls cs = .ok (replies, t) := by
  induction cs generalizing e with
  | nil => exact ⟨_, _, rfl⟩
  | cons c rest ih =>
    have answered : ∃ reply t, e.call c = .ok (reply, t) := by
      cases c with
      | step => exact ⟨_, _, call_step (step_eq_of_idle idle)⟩
      | run =>
        obtain ⟨reply, h⟩ := runWithin_of_idle idle horizon
        exact ⟨.ran reply, e, by rw [call, run, h]; rfl⟩
      | runWithin checks =>
        obtain ⟨reply, h⟩ := runWithin_of_idle idle checks
        exact ⟨.ran reply, e, by rw [call, h]; rfl⟩
      | dispatch nr => exact absurd List.mem_cons_self (plain nr)
      | look => exact ⟨_, _, rfl⟩
      | push v => exact ⟨_, _, rfl⟩
      | pop => exact ⟨_, _, rfl⟩
      | peek depth => exact ⟨_, _, rfl⟩
      | len => exact ⟨_, _, rfl⟩
      | fetch => exact ⟨_, _, rfl⟩
      | jump target => exact ⟨_, _, rfl⟩
      | halt => exact ⟨_, _, rfl⟩
    obtain ⟨reply, u, hc⟩ := answered
    have idle' : u.status ≠ .running := by
      rw [(sameRecord_of_call idle hc).status_eq]
      exact idle
    obtain ⟨replies, t, hrest⟩ := ih idle' fun nr h => plain nr (List.mem_cons_of_mem _ h)
    refine ⟨reply :: replies, t, ?_⟩
    rw [calls_cons_of_ok hc, hrest]
    rfl

theorem idle_of_isTerminal (h : e.status.isTerminal = true) : e.status ≠ .running := by
  intro running
  rw [running] at h
  cases h

theorem create_status_of_none (bare : s.registry = none) : (create s).status = .ready := by
  simp [create, bare]

theorem Reachable.equipped (h : Reachable s e) (terminal : e.status.isTerminal = true) :
    s.registry ≠ none := by
  intro bare
  have ready := create_status_of_none bare
  have kept : SameRecord (create s) e :=
    h.invariant (fun _ _ m h => h.move (by rw [ready]; nofun) m) (.refl _)
  rw [kept.status_eq, ready] at terminal
  cases terminal

/-- An engine that has halted or faulted keeps its record of the run whatever a host asks of
it, and steps and runs change nothing at all. An engine without a registry is never
anything but ready. -/
theorem ended_engines_stay_ended (s : Setup) :
    (∀ e, Reachable s e → e.status.isTerminal = true → ∀ cs,
      (∀ u ∈ e.history cs, SameRecord e u) ∧
      (e.calls cs ≠ .error .tooDeep →
        ∃ replies t, e.calls cs = .ok (replies, t) ∧ SameRecord e t ∧
          List.Forall₂ (fun c reply => c = .step → reply = .stepped e.status.idleReply) cs replies ∧
          (∃ reply, t.step = .ok (reply, t)) ∧ (∃ reply, t.run = .ok (reply, t)) ∧
          ∀ checks, ∃ reply, t.runWithin checks = .ok (reply, t))) ∧
    (s.registry = none → ∀ cs, (∀ nr, .dispatch nr ∉ cs) →
      ∃ replies t, (create s).calls cs = .ok (replies, t) ∧
        (∀ u ∈ t :: (create s).history cs, u.status = .ready ∧ u.steps = 0 ∧ u.faultIp = -1) ∧
        List.Forall₂ (fun c reply => c = .step → reply = .stepped (.failed .noRegistry)) cs
          replies) := by
  constructor
  · intro e reachable terminal cs
    have idle := idle_of_isTerminal terminal
    refine ⟨sameRecord_of_mem idle cs, ?_⟩
    intro terminates
    cases hcalls : e.calls cs with
    | error a =>
      rcases calls_error (reachable_wellFormed reachable) hcalls with rfl | ⟨bare, _⟩
      · exact absurd hcalls terminates
      · exact absurd bare (reachable.equipped terminal)
    | ok p =>
      obtain ⟨replies, t⟩ := p
      have kept := sameRecord_of_calls idle hcalls
      have idle' : t.status ≠ .running := by
        rw [kept.status_eq]
        exact idle
      exact ⟨replies, t, rfl, kept, replies_of_idle idle hcalls, ⟨_, step_eq_of_idle idle'⟩,
        runWithin_of_idle idle' horizon, runWithin_of_idle idle'⟩
  · intro bare cs plain
    have ready := create_status_of_none bare
    have idle : (create s).status ≠ .running := by
      rw [ready]
      nofun
    obtain ⟨replies, t, hcalls⟩ := calls_of_idle idle plain
    refine ⟨replies, t, hcalls, ?_, ?_⟩
    · intro u hu
      have kept : SameRecord (create s) u := by
        rcases List.mem_cons.mp hu with rfl | hu
        · exact sameRecord_of_calls idle hcalls
        · exact sameRecord_of_mem idle cs u hu
      have hstatus := kept.status_eq.trans ready
      refine ⟨hstatus, kept.steps_eq, ?_⟩
      rw [faultIp, hstatus]
      rfl
    · have same := replies_of_idle idle hcalls
      rw [ready] at same
      exact same

def afterwards : List HostCall :=
  [.dispatch Builtin.Nr.halt, .step, .halt, .jump 1, .push (some (.integer 5)), .run, .fetch, .step]

theorem nestedFailure_stays_ended :
    ∃ e, Reachable nestedFailure e ∧ e.status.isTerminal = true ∧
      (∃ replies t, e.calls afterwards = .ok (replies, t) ∧ t.status = e.status ∧
        t.steps = e.steps) ∧
      ∃ replies t, (create { nestedFailure with registry := none }).calls afterwards.tail =
        .ok (replies, t) ∧ t.status = .ready := by
  have ends : ((create nestedFailure).calls [.push (some (.integer 1)), .run]).toOption.map
      (fun p => (p.2.status.isTerminal, (p.2.calls afterwards).isOk)) = some (true, true) := by
    decide +kernel
  cases hcalls : (create nestedFailure).calls [.push (some (.integer 1)), .run] with
  | error a =>
    rw [hcalls] at ends
    cases ends
  | ok p =>
    obtain ⟨replies, e⟩ := p
    rw [hcalls] at ends
    obtain ⟨terminal, hok⟩ : e.status.isTerminal = true ∧ (e.calls afterwards).isOk = true := by
      simpa [Except.toOption] using ends
    have reachable : Reachable nestedFailure e := ⟨_, replies, hcalls⟩
    obtain ⟨_, final⟩ := (ended_engines_stay_ended nestedFailure).1 e reachable terminal afterwards
    obtain ⟨replies', t, ht, kept, _⟩ := final (by
      intro deep
      rw [deep] at hok
      cases hok)
    obtain ⟨replies'', u, hu, ready, _⟩ :=
      (ended_engines_stay_ended { nestedFailure with registry := none }).2 rfl afterwards.tail
        (by simp [afterwards])
    exact ⟨e, reachable, terminal, ⟨replies', t, ht, kept.status_eq, kept.steps_eq⟩,
      replies'', u, hu, (ready u List.mem_cons_self).1⟩

end Engine
end StackMachine
