import StackMachine.Proofs.Moves
import StackMachine.Proofs.Strict
/-! Two machines that run the same opcodes side by side. The first may be refused
what the second is granted. As long as it is not, both give the same replies; and
strict opcodes report the first refusal as the fault of the whole run. -/
namespace StackMachine

variable {α β σ τ ε : Type} {R : σ → τ → Prop} {P : Fault → Prop} {Past : τ → Prop}

/-- How a first outcome stands to a second: the same reply in related states, the
same abort, or a refusal, which the second has gone past. -/
inductive Lockstep (R : σ → τ → Prop) (Refused : β → σ → Prop) (Past : τ → Prop) :
    Except ε (β × σ) → Except ε (β × τ) → Prop where
  | agree {reply : β} {s : σ} {t : τ} : R s t → Lockstep R Refused Past (.ok (reply, s)) (.ok (reply, t))
  | abort (e : ε) : Lockstep R Refused Past (.error e) (.error e)
  | refuse {reply : β} {s : σ} {outcome : Except ε (β × τ)} : Refused reply s →
      (∀ reply t, outcome = .ok (reply, t) → Past t) →
      Lockstep R Refused Past (.ok (reply, s)) outcome

theorem Lockstep.of_eq {Refused : β → σ → Prop} {p : β × σ} {q : β × τ} (reply : p.1 = q.1)
    (h : R p.2 q.2) : Lockstep (ε := ε) R Refused Past (.ok p) (.ok q) := by
  obtain ⟨r, s⟩ := p
  obtain ⟨r', t⟩ := q
  cases reply
  exact .agree h

def Fails (P : Fault → Prop) (reply : Except Fault β) (_ : σ) : Prop := ∃ f, reply = .error f ∧ P f

structure Machine.Restricts [Machine σ] [Machine τ] (R : σ → τ → Prop) (P : Fault → Prop)
    (Past : τ → Prop) : Prop where
  len_eq : ∀ s t, R s t → Machine.len s = Machine.len t
  answer : ∀ c s t, R s t → Lockstep R (Fails P) Past
    (.ok (Machine.answer c s) : Except Abort (Except Fault c.Reply × σ)) (.ok (Machine.answer c t))
  past : ∀ c t, Past t → Past (Machine.answer c t).2

variable [Machine σ] [Machine τ]

/-- A strict routine ends with the refusal of its first call or dispatch, and goes
on together otherwise. -/
theorem Routine.next_lockstep (m : Machine.Restricts R P Past) {reg : Registry} {depth : Nat}
    {x : Except Abort (Except Fault β × σ)} {y : Except Abort (Except Fault β × τ)}
    (first : Lockstep R (Fails P) Past x y) {next : Except Fault β → Routine α}
    (stop : ∀ f, next (.error f) = .fail f)
    (go : ∀ a s t, R s t → Lockstep R (Fails P) Past ((next (.ok a)).run (reg.dispatch depth) s)
      ((next (.ok a)).run (reg.dispatch depth) t)) :
    Lockstep R (Fails P) Past
      (x.bind fun p => (next p.1).run (reg.dispatch depth) p.2)
      (y.bind fun p => (next p.1).run (reg.dispatch depth) p.2) := by
  cases first with
  | abort e => exact .abort e
  | @agree reply s t h =>
    cases reply with
    | error f =>
      simp only [Except.bind, stop f]
      exact .agree h
    | ok a => exact go a s t h
  | refuse refused past =>
    obtain ⟨f, rfl, hf⟩ := refused
    simp only [Except.bind, stop f]
    refine .refuse ⟨f, rfl, hf⟩ ?_
    intro reply u hu
    cases y with
    | error e => cases hu
    | ok p => exact Registry.run_invariant m.past hu (past p.1 p.2 rfl)

theorem Routine.run_lockstep (m : Machine.Restricts R P Past) {reg : Registry} {depth : Nat}
    (nested : ∀ nr s t, R s t →
      Lockstep R (Fails P) Past (reg.dispatch depth nr s) (reg.dispatch depth nr t))
    {r : Routine α} (strict : r.Strict (fun _ => True) True) {s : σ} {t : τ} (h : R s t) :
    Lockstep R (Fails P) Past (r.run (reg.dispatch depth) s) (r.run (reg.dispatch depth) t) := by
  induction r generalizing s t with
  | done a => exact .agree h
  | fail f => exact .agree h
  | call c next ih =>
    exact next_lockstep m (m.answer c s t h) strict.2.1 fun a _ _ h' => ih _ (strict.2.2 a) h'
  | dispatch nr next ih =>
    rw [run_dispatch, run_dispatch]
    exact next_lockstep m (nested nr s t h) strict.2.1 fun a _ _ h' => ih _ (strict.2.2 a) h'

theorem Registry.dispatch_lockstep (m : Machine.Restricts R P Past) {reg : Registry}
    (strict : ∀ nr held r, reg.resolve nr held = .ok r → r.Strict (fun _ => True) True)
    (depth : Nat) (nr : Int32) {s : σ} {t : τ} (h : R s t) :
    Lockstep R (Fails P) Past (reg.dispatch depth nr s) (reg.dispatch depth nr t) := by
  induction depth generalizing nr s t with
  | zero => exact .abort _
  | succ depth ih =>
    rw [dispatch, dispatch, ← m.len_eq s t h]
    cases hr : reg.resolve nr (Machine.len s) with
    | error f => exact .agree h
    | ok r => exact Routine.run_lockstep m (fun nr _ _ => ih nr) (strict _ _ _ hr) h

namespace Engine

variable {reg : Registry} {R : Engine → Engine → Prop} {P : Fault → Prop} {Past : Engine → Prop}
  {a b : Engine}

/-- Related engines over the strict opcodes of `reg` answer alike and keep the same
books, unless the first fails with a fault of `P`; no move of the second leads back
from where it is past that. -/
structure Restricts (reg : Registry) (R : Engine → Engine → Prop) (P : Fault → Prop)
    (Past : Engine → Prop) : Prop where
  strict : ∀ nr held r, reg.resolve nr held = .ok r → r.Strict (fun _ => True) True
  registry : ∀ {a b}, R a b → a.registry = some reg ∧ b.registry = some reg
  nesting_eq : ∀ {a b}, R a b → a.nesting = b.nesting
  status_eq : ∀ {a b}, R a b → a.status = b.status
  ip_eq : ∀ {a b}, R a b → a.ip = b.ip
  size_eq : ∀ {a b}, R a b → a.stack.size = b.stack.size
  answer : ∀ {a b} c, R a b → Lockstep R (Fails P) Past
    (.ok (Machine.answer c a) : Except Abort (Except Fault c.Reply × Engine))
    (.ok (Machine.answer c b))
  announce : ∀ {a b}, R a b → R a.announce b.announce
  enter : ∀ {a b} ip nr, R a b → R (a.enter ip nr) (b.enter ip nr)
  starve : ∀ {a b}, R a b → R { a with current := none } { b with current := none }
  fail : ∀ {a b} ip opcode f, R a b → R (a.failAt ip opcode f).2 (b.failAt ip opcode f).2
  complete : ∀ {a b} nr, R a b →
    (a.complete nr).1 = (b.complete nr).1 ∧ R (a.complete nr).2 (b.complete nr).2
  past : ∀ a b, Move a b → Past a → Past b

def StopsAt (P : Fault → Prop) (e : Engine) (f : Fault) : Prop :=
  P f ∧ ∃ ip, e.status = .faulted f ip

namespace Restricts

theorem machine (m : Restricts reg R P Past) : Machine.Restricts R P Past where
  len_eq _ _ h := m.size_eq h
  answer c _ _ h := m.answer c h
  past c t := m.past _ _ (answer_move c t)

theorem dispatch_lockstep (m : Restricts reg R P Past) (nr : Int32) (h : R a b) :
    Lockstep R (Fails P) Past (a.dispatch nr) (b.dispatch nr) := by
  obtain ⟨left, right⟩ := m.registry h
  have hdepth : a.depth = b.depth := by
    unfold depth
    rw [m.nesting_eq h, m.size_eq h]
  rw [dispatch_eq left, dispatch_eq right, hdepth]
  exact Registry.dispatch_lockstep m.machine m.strict b.depth nr h

theorem settle_lockstep (m : Restricts reg R P Past) {Refused : StepReply → Engine → Prop}
    (ip : Nat) (nr : Int32) (reply : Except Fault Unit) (h : R a b) :
    Lockstep (ε := Abort) R Refused Past (.ok (settle ip nr (reply, a)))
      (.ok (settle ip nr (reply, b))) := by
  cases reply with
  | error f =>
    have hname : a.nameOf nr = b.nameOf nr := by
      unfold nameOf
      rw [(m.registry h).1, (m.registry h).2]
    have hfail := m.fail ip (a.nameOf nr) f h
    rw [settle, settle, ← hname]
    exact .agree hfail
  | ok _ =>
    obtain ⟨hreply, hstate⟩ := m.complete nr h
    exact .of_eq hreply hstate

theorem execute_lockstep (m : Restricts reg R P Past) {ip : Nat} (nr : Int32)
    (running : b.status = .running) (hip : ip < b.code.size) (h : R a b) :
    Lockstep R (fun reply e => ∃ f, reply = .failed f ∧ StopsAt P e f) Past
      (a.execute ip nr) (b.execute ip nr) := by
  have hpast : (∀ r t, (b.enter ip nr).dispatch nr = .ok (r, t) → Past t) →
      ∀ reply u, b.execute ip nr = .ok (reply, u) → Past u := by
    intro past reply u hu
    obtain ⟨r, t, ht, move⟩ := execute_move running hip hu
    exact m.past _ _ move (past r t ht)
  unfold execute at *
  have hd := m.dispatch_lockstep nr (m.enter ip nr h)
  generalize (a.enter ip nr).dispatch nr = left at *
  generalize (b.enter ip nr).dispatch nr = right at *
  cases hd with
  | abort e => exact .abort e
  | @agree reply s t h' => exact m.settle_lockstep ip nr reply h'
  | @refuse reply s outcome refused past =>
    obtain ⟨f, rfl, hf⟩ := refused
    exact .refuse ⟨f, rfl, hf, ip, rfl⟩ (hpast past)

theorem step_lockstep (m : Restricts reg R P Past) (h : R a b) :
    Lockstep R (fun reply e => ∃ f, reply = .failed f ∧ StopsAt P e f) Past a.step b.step := by
  have hstatus := m.status_eq h
  cases hs : b.status with
  | ready =>
    rw [step, step, hstatus, hs]
    exact .agree h
  | halted =>
    rw [step, step, hstatus, hs]
    exact .agree h
  | faulted f ip =>
    rw [step, step, hstatus, hs]
    exact .agree h
  | running =>
    have fetched := m.answer .fetch h
    change Lockstep R _ Past (.ok a.fetch) (.ok b.fetch) at fetched
    rw [step_of_running (hstatus.trans hs), m.ip_eq h]
    generalize a.fetch = left at fetched
    by_cases hip : b.ip < b.code.size
    · rw [fetch_of_lt hip] at fetched
      rw [step_of_lt hs hip]
      cases fetched with
      | agree h' => exact m.execute_lockstep _ hs hip h'
      | refuse refused past =>
        obtain ⟨f, rfl, hf⟩ := refused
        refine .refuse ⟨f, rfl, hf, b.ip, rfl⟩ ?_
        -- The second engine is past the refusal already, and the rest of its step is moves.
        intro reply u hu
        have leads := execute_leads (e := { b with ip := b.ip + 1 }) b.code[b.ip] hs hip
        exact leads.invariant m.past hu (past _ _ rfl)
    · have hle : b.code.size ≤ b.ip := Nat.le_of_not_lt hip
      rw [fetch_of_le hle] at fetched
      rw [step_of_le hs hle]
      cases fetched with
      | agree h' => exact .agree (m.fail b.ip "-" _ (m.starve h'))
      | refuse refused past =>
        obtain ⟨f, rfl, hf⟩ := refused
        refine .refuse ⟨f, rfl, hf, b.ip, rfl⟩ ?_
        intro reply u hu
        cases hu
        exact m.past _ _ (.starve _ hs) (past _ _ rfl)

theorem stepUpTo_lockstep (m : Restricts reg R P Past) (checks : Nat) (h : R a b) :
    Lockstep R (fun reply e => ∃ f, reply = .failed f ∧ StopsAt P e f) Past
      (a.stepUpTo checks) (b.stepUpTo checks) := by
  induction checks generalizing a b with
  | zero => exact .agree h
  | succ checks ih =>
    have stepped := m.step_lockstep h
    rw [stepUpTo, stepUpTo]
    generalize a.step = left at stepped
    generalize b.step = right at stepped
    cases stepped with
    | abort e => exact .abort e
    | @agree reply s t h' =>
      cases reply with
      | «continue» => exact ih h'
      | halt => exact .agree h'
      | failed f => exact .agree h'
    | refuse refused past =>
      obtain ⟨f, rfl, hf⟩ := refused
      refine .refuse ⟨f, rfl, hf⟩ ?_
      intro reply u hu
      cases right with
      | error e => cases hu
      | ok r =>
        obtain ⟨answer, t⟩ := r
        cases answer with
        | «continue» => exact (stepUpTo_leads checks t).invariant m.past hu (past _ t rfl)
        | halt =>
          cases hu
          exact past _ _ rfl
        | failed f =>
          cases hu
          exact past _ _ rfl

theorem runWithin_lockstep (m : Restricts reg R P Past) (checks : Nat) (h : R a b) :
    Lockstep R (fun reply e => ∃ f, reply = .failed f ∧ StopsAt P e f) Past
      (a.runWithin checks) (b.runWithin checks) :=
  m.stepUpTo_lockstep checks (m.announce h)

end Restricts
end Engine
end StackMachine
