import StackMachine.Proofs.Moves
import StackMachine.Script
/-! What holds of an engine at every moment of every history: its place lies in
the code or right behind it, its stack keeps within the capacity, its code is
the one it was made with, and it has a fault exactly when it is faulted. The
registry may hold any opcodes. -/
namespace StackMachine

variable {α σ ε : Type} [Machine σ]

theorem Routine.run_error {dispatch : Int32 → σ → Except ε (Except Fault Unit × σ)} {P : ε → Prop}
    (nested : ∀ nr s e, dispatch nr s = .error e → P e) (r : Routine α) {s : σ} {e : ε}
    (h : r.run dispatch s = .error e) : P e := by
  induction r generalizing s with
  | done a => cases h
  | fail f => cases h
  | call c next ih => exact ih _ h
  | dispatch nr next ih =>
    rw [run] at h
    cases hd : dispatch nr s with
    | error e' =>
      rw [hd] at h
      cases h
      exact nested nr s e hd
    | ok p =>
      rw [hd] at h
      exact ih _ h

theorem Registry.dispatch_error {reg : Registry} {depth : Nat} {nr : Int32} {s : σ} {a : Abort}
    (h : reg.dispatch depth nr s = .error a) : a = .tooDeep := by
  induction depth generalizing nr s a with
  | zero =>
    cases h
    rfl
  | succ depth ih =>
    rw [dispatch] at h
    cases hr : reg.resolve nr (Machine.len s) with
    | error f =>
      rw [hr] at h
      cases h
    | ok operation =>
      rw [hr] at h
      exact Routine.run_error (fun _ _ _ hd => ih hd) operation h

namespace Engine

structure WellFormed (s : Setup) (e : Engine) : Prop where
  code_eq : e.code = s.code
  registry_eq : e.registry = s.registry
  capacity_eq : e.stack.capacity = s.capacity.toNat
  limit_eq : e.stack.budget.limit = s.limit
  ip_le : e.ip ≤ e.code.size
  size_le : e.stack.size ≤ e.stack.capacity
  faultIp_le : ∀ f ip, e.status = .faulted f ip → ip ≤ e.code.size
  equipped : e.status = .running → e.registry ≠ none

theorem create_wellFormed (s : Setup) : WellFormed s (create s) where
  code_eq := rfl
  registry_eq := rfl
  capacity_eq := rfl
  limit_eq := rfl
  ip_le := Nat.zero_le _
  size_le := Nat.zero_le _
  faultIp_le := by
    intro f ip h
    simp only [create] at h
    split at h <;> cases h
  equipped := by
    intro h hnone
    change s.registry = none at hnone
    simp [create, hnone] at h

theorem WellFormed.move {s : Setup} {e t : Engine} (h : WellFormed s e) (m : Move e t) :
    WellFormed s t := by
  cases m with
  | stay => exact h
  | push v room _ =>
    have hsize : (e.stack.holding v).size ≤ e.stack.capacity := by
      rw [Stack.size_holding]
      omega
    exact { h with size_le := hsize }
  | pop v _ =>
    have hsize : (e.stack.dropping v).size ≤ e.stack.capacity := by
      have := h.size_le
      rw [Stack.size_dropping]
      omega
    exact { h with size_le := hsize }
  | goto ip hip => exact { h with ip_le := hip }
  | halt => exact { h with }
  | announce =>
    obtain ⟨log, hlog⟩ := e.announce_eq
    rw [hlog]
    exact { h with }
  | enter ip nr _ =>
    obtain ⟨log, hlog⟩ := e.enter_eq ip nr
    rw [hlog]
    exact { h with }
  | starve f _ =>
    refine { h with faultIp_le := ?_, equipped := nofun }
    intro _ _ hs
    cases hs
    exact h.ip_le
  | fail ip opcode f _ hip =>
    refine { h with faultIp_le := ?_, equipped := nofun }
    intro _ _ hs
    cases hs
    exact Nat.le_of_lt hip
  | complete nr _ =>
    rcases e.complete_eq nr with hc | ⟨log, hc⟩
    · rw [hc]
      exact { h with }
    · rw [hc]
      exact { h with faultIp_le := nofun, equipped := nofun }

theorem reachable_wellFormed {s : Setup} {e : Engine} (h : Reachable s e) : WellFormed s e :=
  h.invariant (fun _ _ m h => h.move m) (create_wellFormed s)

theorem step_wellFormed {s : Setup} {e t : Engine} {reply : StepReply} (h : WellFormed s e)
    (hs : e.step = .ok (reply, t)) : WellFormed s t :=
  e.step_leads.invariant (fun _ _ m h => h.move m) hs h

theorem call_wellFormed {s : Setup} {e t : Engine} {c : HostCall} {reply : HostReply}
    (h : WellFormed s e) (hc : e.call c = .ok (reply, t)) : WellFormed s t :=
  (call_leads c e).invariant (fun _ _ m h => h.move m) hc h

theorem dispatch_error {e : Engine} {nr : Int32} {a : Abort} (h : e.dispatch nr = .error a) :
    a = .tooDeep ∨ e.registry = none := by
  cases hreg : e.registry with
  | none => exact .inr rfl
  | some reg =>
    rw [dispatch_eq hreg] at h
    exact .inl (Registry.dispatch_error h)

theorem step_error {s : Setup} {e : Engine} {a : Abort} (hw : WellFormed s e)
    (h : e.step = .error a) : a = .tooDeep := by
  by_cases running : e.status = .running
  · by_cases hip : e.ip < e.code.size
    · rw [step_of_lt running hip] at h
      obtain ⟨log, hlog⟩ := enter_eq { e with ip := e.ip + 1 } e.ip e.code[e.ip]
      rcases dispatch_error (error_of_map_error h) with deep | bare
      · exact deep
      · rw [hlog] at bare
        exact absurd bare (hw.equipped running)
    · rw [step_of_le running (Nat.le_of_not_lt hip)] at h
      cases h
  · obtain ⟨reply, hs⟩ := step_of_idle running
    rw [hs] at h
    cases h

theorem stepUpTo_error {s : Setup} {e : Engine} {checks : Nat} {a : Abort} (hw : WellFormed s e)
    (h : e.stepUpTo checks = .error a) : a = .tooDeep := by
  induction checks generalizing e with
  | zero => cases h
  | succ checks ih =>
    rw [stepUpTo] at h
    split at h
    next hs =>
      cases h
      exact step_error hw hs
    next hs => exact ih (step_wellFormed hw hs) h
    next => cases h
    next => cases h

theorem runWithin_error {s : Setup} {e : Engine} {checks : Nat} {a : Abort} (hw : WellFormed s e)
    (h : e.runWithin checks = .error a) : a = .tooDeep :=
  stepUpTo_error (hw.move (.announce e)) h

/-- A host call is answered unless routines nest too deep, or a dispatch is asked
of an engine without registry. -/
theorem call_error {s : Setup} {e : Engine} {c : HostCall} {a : Abort} (hw : WellFormed s e)
    (h : e.call c = .error a) : a = .tooDeep ∨ (s.registry = none ∧ ∃ nr, c = .dispatch nr) := by
  cases c with
  | look => cases h
  | step => exact .inl (step_error hw (error_of_map_error h))
  | run => exact .inl (runWithin_error hw (error_of_map_error h))
  | runWithin checks => exact .inl (runWithin_error hw (error_of_map_error h))
  | push v => cases h
  | pop => cases h
  | peek depth => cases h
  | len => cases h
  | fetch => cases h
  | jump target => cases h
  | dispatch nr =>
    rcases dispatch_error (error_of_map_error h) with deep | bare
    · exact .inl deep
    · exact .inr ⟨hw.registry_eq ▸ bare, nr, rfl⟩
  | halt => cases h

theorem calls_error {s : Setup} {e : Engine} {cs : List HostCall} {a : Abort} (hw : WellFormed s e)
    (h : e.calls cs = .error a) : a = .tooDeep ∨ (s.registry = none ∧ ∃ nr, .dispatch nr ∈ cs) := by
  induction cs generalizing e with
  | nil => cases h
  | cons c rest ih =>
    cases hc : e.call c with
    | error b =>
      rw [calls_cons_of_error hc] at h
      cases h
      rcases call_error hw hc with deep | ⟨bare, nr, rfl⟩
      · exact .inl deep
      · exact .inr ⟨bare, nr, List.mem_cons_self⟩
    | ok p =>
      obtain ⟨reply, t⟩ := p
      rw [calls_cons_of_ok hc] at h
      rcases ih (call_wellFormed hw hc) (error_of_map_error h) with deep | ⟨bare, nr, hnr⟩
      · exact .inl deep
      · exact .inr ⟨bare, nr, List.mem_cons_of_mem _ hnr⟩

theorem faulted_iff_fault (e : Engine) :
    (∃ f ip, e.status = .faulted f ip) ↔ e.status.fault? ≠ none := by
  cases e.status <;> simp [Status.fault?]

theorem fault_iff_faultIp (e : Engine) : e.status.fault? ≠ none ↔ e.faultIp ≠ -1 := by
  unfold faultIp
  cases e.status <;> simp [Status.fault?, Status.faultIp?]

theorem WellFormed.faultIp_mem {s : Setup} {e : Engine} (h : WellFormed s e)
    (hf : e.faultIp ≠ -1) : 0 ≤ e.faultIp ∧ e.faultIp ≤ e.code.size := by
  have hle := h.faultIp_le
  unfold faultIp at *
  cases hs : e.status with
  | ready => simp [hs, Status.faultIp?] at hf
  | running => simp [hs, Status.faultIp?] at hf
  | halted => simp [hs, Status.faultIp?] at hf
  | faulted f ip =>
    have := hle f ip hs
    change 0 ≤ (ip : Int) ∧ (ip : Int) ≤ e.code.size
    omega

/-- Every history of host calls comes to an end with an engine within its bounds,
if a dispatch is only asked of an engine with a registry and no opcode dispatches
forever. -/
theorem calls_stay_wellFormed (s : Setup) (cs : List HostCall)
    (equipped : s.registry = none → ∀ nr, .dispatch nr ∉ cs)
    (terminates : (create s).calls cs ≠ .error .tooDeep) :
    ∃ replies e, (create s).calls cs = .ok (replies, e) ∧
      e.ip ≤ e.code.size ∧ (e.stack.size : Int) ≤ max s.capacity 0 ∧ e.code = s.code ∧
      ((∃ f ip, e.status = .faulted f ip) ↔ e.status.fault? ≠ none) ∧
      (e.status.fault? ≠ none ↔ e.faultIp ≠ -1) ∧
      (e.faultIp ≠ -1 → 0 ≤ e.faultIp ∧ e.faultIp ≤ e.code.size) := by
  cases hcalls : (create s).calls cs with
  | error a =>
    rcases calls_error (create_wellFormed s) hcalls with rfl | ⟨bare, nr, hnr⟩
    · exact absurd hcalls terminates
    · exact absurd hnr (equipped bare nr)
  | ok p =>
    obtain ⟨replies, e⟩ := p
    have hw := reachable_wellFormed ⟨cs, replies, hcalls⟩
    have hsize : (e.stack.size : Int) ≤ max s.capacity 0 := by
      have hle := hw.size_le
      rw [hw.capacity_eq] at hle
      omega
    exact ⟨replies, e, rfl, hw.ip_le, hsize, hw.code_eq, faulted_iff_fault e, fault_iff_faultIp e,
      hw.faultIp_mem⟩

/-- Opcode 100 pushes a value and then fails within a nested dispatch. -/
def nestedFailure : Setup where
  code := #[100, 0]
  capacity := 2
  registry := some (Builtin.registry.registerAll
    [{ number := 100, operation := some (.ofScript [.push (some (.integer 7)), .dispatch 12]) }]).2

def afterNestedFailure : List HostCall :=
  [.push (some (.integer 1)), .run, .pop, .jump 2, .step]

theorem nestedFailure_stays_wellFormed :
    ∃ replies e, (create nestedFailure).calls afterNestedFailure = .ok (replies, e) ∧
      e.ip ≤ e.code.size ∧ (e.stack.size : Int) ≤ max nestedFailure.capacity 0 := by
  have terminates : (create nestedFailure).calls afterNestedFailure ≠ .error .tooDeep := by
    intro h
    have hok : ((create nestedFailure).calls afterNestedFailure).isOk = true := by decide +kernel
    rw [h] at hok
    cases hok
  obtain ⟨replies, e, h, hip, hsize, _⟩ :=
    calls_stay_wellFormed nestedFailure afterNestedFailure nofun terminates
  exact ⟨replies, e, h, hip, hsize⟩

end Engine
end StackMachine
