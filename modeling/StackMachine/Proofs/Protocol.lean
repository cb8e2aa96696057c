import StackMachine.Proofs.Strict
/-! Routines that keep to a protocol. A protocol says of each call from which
stage to which it leads when it succeeds. A routine that follows it makes no other
calls, gives up at the first failure, and ends at the stage it has promised. -/
namespace StackMachine.Routine

variable {α β σ ι ε : Type} {T : Call → ι → ι → Prop} {F : Fault → Prop} {i j k : ι}

/-- From stage `i` the routine comes to stage `j`, or fails with a fault of `F`. -/
def Follows (T : Call → ι → ι → Prop) (F : Fault → Prop) (i j : ι) : Routine α → Prop
  | .done _ => i = j
  | .fail f => F f
  | .call c next => (∀ f, next (.error f) = .fail f) ∧
      ∃ m, T c i m ∧ ∀ a, (next (.ok a)).Follows T F m j
  | .dispatch _ _ => False

theorem follows_perform {c : Call} (h : T c i j) : (perform c).Follows T F i j :=
  ⟨fun _ => rfl, j, h, fun _ => rfl⟩

theorem follows_ofExcept {x : Except Fault α} (h : ∀ f, x = .error f → F f) :
    (ofExcept x).Follows T F i i := by
  cases x with
  | ok a => exact rfl
  | error f => exact h f rfl

theorem Follows.bind {r : Routine α} {next : α → Routine β} (hr : r.Follows T F i j)
    (hnext : ∀ a, (next a).Follows T F j k) : (r >>= next).Follows T F i k := by
  change (r.bind next).Follows T F i k
  induction r generalizing i with
  | done a =>
    cases hr
    exact hnext a
  | fail f => exact hr
  | call c rest ih =>
    obtain ⟨stop, m, hc, go⟩ := hr
    exact ⟨fun f => bind_of_fail (stop f) next, m, hc, fun a => ih _ (go a)⟩
  | dispatch nr rest ih => exact hr.elim

/-- If every call of the protocol leads a machine from stage to stage, or fails
with a fault of `F`, then so does every routine that follows it. -/
theorem Follows.run [Machine σ] {I : ι → σ → Prop}
    (answer : ∀ c i j s, T c i j → I i s →
      (∀ f, (Machine.answer c s).1 = .error f → F f) ∧
      ∀ a, (Machine.answer c s).1 = .ok a → I j (Machine.answer c s).2)
    (dispatch : Int32 → σ → Except ε (Except Fault Unit × σ)) {r : Routine α}
    (h : r.Follows T F i j) {s : σ} (start : I i s) :
    ∃ reply t, r.run dispatch s = .ok (reply, t) ∧ (∀ f, reply = .error f → F f) ∧
      ∀ a, reply = .ok a → I j t := by
  induction r generalizing i s with
  | done a =>
    cases h
    exact ⟨.ok a, s, rfl, nofun, fun _ _ => start⟩
  | fail f =>
    refine ⟨.error f, s, rfl, ?_, nofun⟩
    intro g hg
    cases hg
    exact h
  | call c next ih =>
    obtain ⟨stop, m, hc, go⟩ := h
    obtain ⟨failed, held⟩ := answer c i m s hc start
    rw [Routine.run]
    cases hreply : (Machine.answer c s).1 with
    | error f =>
      refine ⟨.error f, (Machine.answer c s).2, ?_, ?_, nofun⟩
      · simp only [hreply, stop f]
        rfl
      · intro g hg
        cases hg
        exact failed f hreply
    | ok a => simpa only [hreply] using ih _ (go a) (held a hreply)
  | dispatch nr next ih => exact h.elim

theorem exists_answer_of_run [Machine σ] {dispatch : Int32 → σ → Except ε (Except Fault Unit × σ)}
    {c : Call} {next : c.Reply → Routine β} {s t : σ} {b : β}
    (h : (perform c >>= next).run dispatch s = .ok (.ok b, t)) :
    ∃ a u, Machine.answer c s = (.ok a, u) ∧ (next a).run dispatch u = .ok (.ok b, t) := by
  cases hc : Machine.answer c s with
  | mk reply u =>
    cases reply with
    | error f =>
      rw [run_perform_of_error hc] at h
      cases h
    | ok a =>
      rw [run_perform_of_ok hc] at h
      exact ⟨a, u, rfl, h⟩

end StackMachine.Routine
