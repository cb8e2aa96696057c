import StackMachine.Proofs.Moves
/-! Engines that cannot be told apart. If related engines answer every machine call
alike and stay related, then so they do through every routine and every dispatch,
whatever opcodes are registered; and if a step keeps them alike, so does every host
call. -/
namespace StackMachine

variable {α β γ σ ε : Type} {R : σ → σ → Prop}

/-- Outcomes that differ at most in the states they leave, and there as `R` allows. -/
inductive Alike (R : σ → σ → Prop) : Except ε (β × σ) → Except ε (β × σ) → Prop where
  | ok (reply : β) {s t : σ} : R s t → Alike R (.ok (reply, s)) (.ok (reply, t))
  | error (e : ε) : Alike R (.error e) (.error e)

namespace Alike

variable {x y z : Except ε (β × σ)}

theorem of_eq {p q : β × σ} (reply : p.1 = q.1) (h : R p.2 q.2) :
    Alike R (.ok p : Except ε (β × σ)) (.ok q) := by
  cases p
  cases reply
  exact .ok _ h

theorem refl (hR : ∀ s, R s s) (x : Except ε (β × σ)) : Alike R x x := by
  cases x with
  | error e => exact .error e
  | ok p => exact .of_eq rfl (hR p.2)

theorem symm (hR : ∀ s t, R s t → R t s) (h : Alike R x y) : Alike R y x := by
  cases h with
  | error e => exact .error e
  | ok reply h => exact .ok reply (hR _ _ h)

theorem trans (hR : ∀ s t u, R s t → R t u → R s u) (h : Alike R x y) (k : Alike R y z) :
    Alike R x z := by
  cases h with
  | error e => exact k
  | ok reply h =>
    cases k with
    | ok _ k => exact .ok reply (hR _ _ _ h k)

theorem map (f : β → γ) (h : Alike R x y) :
    Alike R (x.map fun p => (f p.1, p.2)) (y.map fun p => (f p.1, p.2)) := by
  cases h with
  | error e => exact .error e
  | ok reply h => exact .ok (f reply) h

theorem bind {f g : β × σ → Except ε (γ × σ)} (h : Alike R x y)
    (next : ∀ reply s t, R s t → Alike R (f (reply, s)) (g (reply, t))) :
    Alike R (x.bind f) (y.bind g) := by
  cases h with
  | error e => exact .error e
  | ok reply h => exact next reply _ _ h

end Alike

variable [Machine σ]

def Machine.Blind (R : σ → σ → Prop) : Prop :=
  ∀ (c : Call) (s t : σ), R s t →
    (Machine.answer c s).1 = (Machine.answer c t).1 ∧
      R (Machine.answer c s).2 (Machine.answer c t).2

theorem Machine.Blind.len_eq (blind : Machine.Blind R) {s t : σ} (h : R s t) :
    Machine.len s = Machine.len t :=
  Except.ok.inj (blind .len s t h).1

theorem Routine.run_alike (blind : Machine.Blind R)
    {dispatch : Int32 → σ → Except ε (Except Fault Unit × σ)}
    (nested : ∀ nr s t, R s t → Alike R (dispatch nr s) (dispatch nr t))
    (r : Routine α) {s t : σ} (h : R s t) : Alike R (r.run dispatch s) (r.run dispatch t) := by
  induction r generalizing s t with
  | done a => exact .ok _ h
  | fail f => exact .ok _ h
  | call c next ih =>
    have answered := blind c s t h
    change Alike R ((next (Machine.answer c s).1).run dispatch (Machine.answer c s).2)
      ((next (Machine.answer c t).1).run dispatch (Machine.answer c t).2)
    rw [answered.1]
    exact ih _ answered.2
  | dispatch nr next ih =>
    rw [run_dispatch, run_dispatch]
    exact (nested nr s t h).bind fun reply _ _ => ih reply

theorem Registry.dispatch_alike (blind : Machine.Blind R) (reg : Registry) (depth : Nat)
    (nr : Int32) {s t : σ} (h : R s t) :
    Alike R (reg.dispatch depth nr s) (reg.dispatch depth nr t) := by
  induction depth generalizing nr s t with
  | zero => exact .error _
  | succ depth ih =>
    rw [dispatch, dispatch, blind.len_eq h]
    cases reg.resolve nr (Machine.len t) with
    | error f => exact .ok _ h
    | ok r => exact r.run_alike blind (fun nr _ _ => ih nr) h

namespace Engine

variable {R : Engine → Engine → Prop} {a b : Engine}

/-- No machine call tells related engines apart, and they dispatch to the same opcodes. -/
structure Blind (R : Engine → Engine → Prop) : Prop where
  answer : Machine.Blind R
  registry_eq : ∀ {a b}, R a b → a.registry = b.registry
  nesting_eq : ∀ {a b}, R a b → a.nesting = b.nesting

theorem Blind.dispatch_alike (blind : Blind R) (nr : Int32) (h : R a b) :
    Alike R (a.dispatch nr) (b.dispatch nr) := by
  have hdepth : a.depth = b.depth := by
    have hsize : a.stack.size = b.stack.size := blind.answer.len_eq h
    rw [depth, depth, blind.nesting_eq h, hsize]
  have hreg := blind.registry_eq h
  cases hb : b.registry with
  | none =>
    rw [dispatch, dispatch, hreg, hb]
    exact .error _
  | some reg =>
    rw [dispatch_eq (hreg.trans hb), dispatch_eq hb, hdepth]
    exact reg.dispatch_alike blind.answer b.depth nr h

/-- Nor does anything that steps and runs do by themselves, so no host call does. -/
structure Unseen (R : Engine → Engine → Prop) : Prop extends Blind R where
  status_eq : ∀ {a b}, R a b → a.status = b.status
  ip_eq : ∀ {a b}, R a b → a.ip = b.ip
  announce : ∀ {a b}, R a b → R a.announce b.announce
  starve : ∀ {a b} (ip : Nat) (f : Fault), R a b →
    R ({ a with current := none }.failAt ip "-" f).2 ({ b with current := none }.failAt ip "-" f).2
  execute : ∀ {a b} (ip : Nat) (nr : Int32), R a b → Alike R (a.execute ip nr) (b.execute ip nr)

namespace Unseen

theorem step_alike (unseen : Unseen R) (h : R a b) : Alike R a.step b.step := by
  have hstatus := unseen.status_eq h
  cases hb : b.status with
  | ready =>
    simp only [step, hstatus, hb]
    exact .ok _ h
  | halted =>
    simp only [step, hstatus, hb]
    exact .ok _ h
  | faulted f ip =>
    simp only [step, hstatus, hb]
    exact .ok _ h
  | running =>
    have fetched : a.fetch.1 = b.fetch.1 ∧ R a.fetch.2 b.fetch.2 := unseen.answer .fetch a b h
    rw [step_of_running (hstatus.trans hb), step_of_running hb, unseen.ip_eq h]
    generalize a.fetch = left at fetched
    generalize b.fetch = right at fetched
    obtain ⟨cell, t⟩ := left
    obtain ⟨_, u⟩ := right
    cases fetched.1
    cases cell with
    | error f => exact .of_eq rfl (unseen.starve b.ip f fetched.2)
    | ok nr => exact unseen.execute b.ip nr fetched.2

theorem stepUpTo_alike (unseen : Unseen R) (checks : Nat) (h : R a b) :
    Alike R (a.stepUpTo checks) (b.stepUpTo checks) := by
  induction checks generalizing a b with
  | zero => exact .ok _ h
  | succ checks ih =>
    have stepped := unseen.step_alike h
    rw [stepUpTo, stepUpTo]
    generalize a.step = left at stepped
    generalize b.step = right at stepped
    cases stepped with
    | error e => exact .error e
    | ok reply h' =>
      cases reply with
      | «continue» => exact ih h'
      | halt => exact .ok _ h'
      | failed f => exact .ok _ h'

theorem runWithin_alike (unseen : Unseen R) (checks : Nat) (h : R a b) :
    Alike R (a.runWithin checks) (b.runWithin checks) :=
  unseen.stepUpTo_alike checks (unseen.announce h)

theorem call_alike (unseen : Unseen R) (c : HostCall) (h : R a b) :
    Alike R (a.call c) (b.call c) := by
  have answered (c : Call) :
      Alike R (.ok (Machine.answer c a) : Except Abort _) (.ok (Machine.answer c b)) :=
    .of_eq (unseen.answer c a b h).1 (unseen.answer c a b h).2
  cases c with
  | look => exact .ok _ h
  | step => exact (unseen.step_alike h).map _
  | run => exact (unseen.runWithin_alike horizon h).map _
  | runWithin checks => exact (unseen.runWithin_alike checks h).map _
  | push v => exact (answered (.push v)).map HostReply.done
  | pop => exact (answered .pop).map HostReply.value
  | peek depth => exact (answered (.peek depth)).map HostReply.value
  | len =>
    have hsize : a.stack.size = b.stack.size := unseen.answer.len_eq h
    simp only [call, hsize]
    exact .ok _ h
  | fetch => exact (answered .fetch).map HostReply.cell
  | jump target => exact (answered (.jump target)).map HostReply.done
  | dispatch nr => exact (unseen.dispatch_alike nr h).map _
  | halt => exact (answered .halt).map HostReply.done

theorem calls_alike (unseen : Unseen R) (cs : List HostCall) (h : R a b) :
    Alike R (a.calls cs) (b.calls cs) := by
  induction cs generalizing a b with
  | nil => exact .ok _ h
  | cons c rest ih =>
    rw [calls, calls]
    apply (unseen.call_alike c h).bind
    intro reply s t related
    apply (ih related).bind
    intro replies s t related
    exact .ok _ related

end Unseen
end Engine
end StackMachine
