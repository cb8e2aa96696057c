import StackMachine.Routine
/-! Routines that give up at the first failure: whatever a call or a dispatch
reports ends them with that very fault. Nothing they do can hide that a call was
refused. -/
namespace StackMachine.Routine

variable {α β : Type} {A B : Call → Prop} {D E : Prop}

/-- The routine makes calls of `A` only, dispatches only if `D`, and ends with
the fault of the first that fails. -/
def Strict (A : Call → Prop) (D : Prop) : Routine α → Prop
  | .done _ => True
  | .fail _ => True
  | .call c next => A c ∧ (∀ f, next (.error f) = .fail f) ∧ ∀ a, (next (.ok a)).Strict A D
  | .dispatch _ next => D ∧ (∀ f, next (.error f) = .fail f) ∧ ∀ a, (next (.ok a)).Strict A D

theorem Strict.mono {r : Routine α} (hAB : ∀ c, A c → B c) (hDE : D → E) (h : r.Strict A D) :
    r.Strict B E := by
  induction r with
  | done a => trivial
  | fail f => trivial
  | call c next ih => exact ⟨hAB c h.1, h.2.1, fun a => ih _ (h.2.2 a)⟩
  | dispatch nr next ih => exact ⟨hDE h.1, h.2.1, fun a => ih _ (h.2.2 a)⟩

theorem strict_ofExcept (x : Except Fault α) : (ofExcept x).Strict A D := by
  cases x <;> trivial

theorem strict_perform {c : Call} (h : A c) : (perform c).Strict A D :=
  ⟨h, fun _ => rfl, fun _ => trivial⟩

theorem strict_invoke {nr : Int32} (h : D) : (invoke nr).Strict A D :=
  ⟨h, fun _ => rfl, fun _ => trivial⟩

theorem bind_of_fail {r : Routine α} {f : Fault} (h : r = .fail f) (k : α → Routine β) :
    r.bind k = .fail f := by
  rw [h]
  rfl

theorem Strict.bind {r : Routine α} {k : α → Routine β} (hr : r.Strict A D)
    (hk : ∀ a, (k a).Strict A D) : (r >>= k).Strict A D := by
  change (r.bind k).Strict A D
  induction r with
  | done a => exact hk a
  | fail f => trivial
  | call c next ih =>
    exact ⟨hr.1, fun f => bind_of_fail (hr.2.1 f) k, fun a => ih _ (hr.2.2 a)⟩
  | dispatch nr next ih =>
    exact ⟨hr.1, fun f => bind_of_fail (hr.2.1 f) k, fun a => ih _ (hr.2.2 a)⟩

def IsPush (c : Call) : Prop := ∃ v, c = .push v

abbrev Quiet (r : Routine α) : Prop := r.Strict (fun c => ¬ IsPush c) False

/-- Strict, without dispatches, and over as soon as a push has succeeded. -/
def PushesLast : Routine Unit → Prop
  | .done _ => True
  | .fail _ => True
  | .call c next => (∀ f, next (.error f) = .fail f) ∧
      (IsPush c → ∀ a, next (.ok a) = .done ()) ∧ ∀ a, (next (.ok a)).PushesLast
  | .dispatch _ _ => False

theorem PushesLast.strict {r : Routine Unit} (h : r.PushesLast) :
    r.Strict (fun _ => True) False := by
  induction r with
  | done a => trivial
  | fail f => trivial
  | call c next ih => exact ⟨trivial, h.1, fun a => ih _ (h.2.2 a)⟩
  | dispatch nr next ih => exact h.elim

theorem Quiet.pushesLast {r : Routine Unit} (h : r.Quiet) : r.PushesLast := by
  induction r with
  | done a => trivial
  | fail f => trivial
  | call c next ih => exact ⟨h.2.1, fun hc => absurd hc h.1, fun a => ih _ (h.2.2 a)⟩
  | dispatch nr next ih => exact h.1

theorem pushesLast_push (v : Value) : (push v).PushesLast :=
  ⟨fun _ => rfl, fun _ _ => rfl, fun _ => trivial⟩

theorem pushesLast_bind {r : Routine α} {k : α → Routine Unit} (hr : r.Quiet)
    (hk : ∀ a, (k a).PushesLast) : (r >>= k).PushesLast := by
  change (r.bind k).PushesLast
  induction r with
  | done a => exact hk a
  | fail f => trivial
  | call c next ih =>
    exact ⟨fun f => bind_of_fail (hr.2.1 f) k, fun hc => absurd hc hr.1, fun a => ih _ (hr.2.2 a)⟩
  | dispatch nr next ih => exact hr.1.elim

theorem quiet_perform {c : Call} (h : ∀ v, c ≠ .push v) : (perform c).Quiet :=
  strict_perform fun ⟨v, hv⟩ => h v hv

theorem quiet_pop : pop.Quiet := quiet_perform nofun
theorem quiet_fetch : fetch.Quiet := quiet_perform nofun
theorem quiet_peek (depth : Int) : (peek depth).Quiet := quiet_perform nofun
theorem quiet_jump (target : Int) : (jump target).Quiet := quiet_perform nofun
theorem quiet_halt : halt.Quiet := quiet_perform nofun

theorem Strict.run_ok {σ ε : Type} [Machine σ] {r : Routine α} (h : r.Strict A False)
    (dispatch : Int32 → σ → Except ε (Except Fault Unit × σ)) (s : σ) :
    ∃ reply t, r.run dispatch s = .ok (reply, t) := by
  induction r generalizing s with
  | done a => exact ⟨_, _, rfl⟩
  | fail f => exact ⟨_, _, rfl⟩
  | call c next ih =>
    rw [run]
    cases hc : Machine.answer c s with
    | mk reply t =>
      cases reply with
      | error f =>
        simp only [h.2.1 f]
        exact ⟨_, _, rfl⟩
      | ok a => exact ih _ (h.2.2 a) t
  | dispatch nr next ih => exact h.1.elim

theorem Strict.run_invariant {σ ε : Type} [Machine σ] {r : Routine α} {I : σ → Prop}
    (keep : ∀ c s, A c → I s → I (Machine.answer c s).2) (h : r.Strict A False)
    {dispatch : Int32 → σ → Except ε (Except Fault Unit × σ)} {s t : σ} {reply : Except Fault α}
    (hrun : r.run dispatch s = .ok (reply, t)) (start : I s) : I t := by
  induction r generalizing s with
  | done a =>
    cases hrun
    exact start
  | fail f =>
    cases hrun
    exact start
  | call c next ih =>
    have kept := keep c s h.1 start
    rw [run] at hrun
    cases hc : Machine.answer c s with
    | mk answer u =>
      rw [hc] at hrun kept
      cases answer with
      | error f =>
        simp only [h.2.1 f] at hrun
        cases hrun
        exact kept
      | ok a => exact ih _ (h.2.2 a) hrun kept
  | dispatch nr next ih => exact h.1.elim

end StackMachine.Routine
