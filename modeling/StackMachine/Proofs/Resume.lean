import Mathlib.Algebra.GroupWithZero.Nat
import StackMachine.Proofs.Alike
import StackMachine.Proofs.WellFormed
/-! Runs that are cancelled and taken up again. A run is a loop over steps, so a run of
`m + n` checks is one of `m` checks and, if that is cancelled, one of `n` from where it
stopped. Between the two only the log may have changed, and nothing reads the log. -/
namespace StackMachine

variable {σ ε : Type}

/-- Steps until one does not continue, or until `checks` steps are done, whatever a step
is. -/
def driveUpTo (step : σ → Except ε (StepReply × σ)) : (checks : Nat) → σ → Except ε (RunReply × σ)
  | 0, s => .ok (.cancelled, s)
  | checks + 1, s =>
    match step s with
    | .error e => .error e
    | .ok (.continue, t) => driveUpTo step checks t
    | .ok (.halt, t) => .ok (.finished, t)
    | .ok (.failed f, t) => .ok (.failed f, t)

def counted (step : σ → Except ε (StepReply × σ)) (p : σ × Nat) :
    Except ε (StepReply × (σ × Nat)) :=
  (step p.1).map fun q => (q.1, (q.2, p.2 + 1))

namespace Engine

variable {a b e t : Engine} {checks : Nat} {reply : RunReply}

theorem stepUpTo_eq_drive (checks : Nat) (e : Engine) :
    e.stepUpTo checks = driveUpTo step checks e := by
  induction checks generalizing e with
  | zero => rfl
  | succ checks ih =>
    rw [stepUpTo, driveUpTo]
    cases e.step with
    | error a => rfl
    | ok r =>
      obtain ⟨reply, t⟩ := r
      cases reply with
      | «continue» => exact ih t
      | halt => rfl
      | failed f => rfl

/-- The engines differ at most in what they note down. -/
def SameButNotes (a b : Engine) : Prop := ∃ log trace, b = { a with log, trace }

namespace SameButNotes

theorem refl (e : Engine) : SameButNotes e e := ⟨e.log, e.trace, rfl⟩

theorem symm (a b : Engine) (h : SameButNotes a b) : SameButNotes b a := by
  obtain ⟨log, trace, rfl⟩ := h
  exact ⟨a.log, a.trace, rfl⟩

theorem trans (a b c : Engine) (h : SameButNotes a b) (k : SameButNotes b c) :
    SameButNotes a c := by
  obtain ⟨log, trace, rfl⟩ := h
  obtain ⟨log', trace', rfl⟩ := k
  exact ⟨log', trace', rfl⟩

theorem announce (e : Engine) : SameButNotes e e.announce := by
  obtain ⟨log, hlog⟩ := e.announce_eq
  exact ⟨log, e.trace, hlog⟩

theorem enter (ip : Nat) (nr : Int32) (h : SameButNotes a b) :
    SameButNotes (a.enter ip nr) (b.enter ip nr) := by
  obtain ⟨log, trace, rfl⟩ := h
  obtain ⟨logA, hA⟩ := a.enter_eq ip nr
  obtain ⟨logB, hB⟩ := Engine.enter_eq { a with log, trace } ip nr
  rw [hA, hB]
  exact ⟨logB, trace, rfl⟩

theorem blind : Blind SameButNotes where
  answer := by
    rintro c a _ ⟨log, trace, rfl⟩
    obtain ⟨reply, stack, ip, sees⟩ := a.answer_sees c
    rw [sees a rfl rfl rfl, sees { a with log, trace } rfl rfl rfl]
    exact ⟨rfl, log, trace, rfl⟩
  registry_eq := by
    rintro a _ ⟨log, trace, rfl⟩
    rfl
  nesting_eq := by
    rintro a _ ⟨log, trace, rfl⟩
    rfl

theorem settle_alike (ip : Nat) (nr : Int32) (reply : Except Fault Unit) (h : SameButNotes a b) :
    Alike (ε := Abort) SameButNotes (.ok (settle ip nr (reply, a)))
      (.ok (settle ip nr (reply, b))) := by
  obtain ⟨log, trace, rfl⟩ := h
  cases reply with
  | error f => exact .ok _ ⟨_, trace, rfl⟩
  | ok _ =>
    simp only [settle, complete]
    split
    · exact .ok _ ⟨_, trace, rfl⟩
    · exact .ok _ ⟨log, trace, rfl⟩

theorem execute_alike (ip : Nat) (nr : Int32) (h : SameButNotes a b) :
    Alike SameButNotes (a.execute ip nr) (b.execute ip nr) := by
  have dispatched := blind.dispatch_alike nr (h.enter ip nr)
  unfold execute
  generalize (a.enter ip nr).dispatch nr = left at dispatched
  generalize (b.enter ip nr).dispatch nr = right at dispatched
  cases dispatched with
  | error e => exact .error e
  | ok reply h' => exact settle_alike ip nr reply h'

theorem unseen : Unseen SameButNotes where
  toBlind := blind
  status_eq := by
    rintro a _ ⟨log, trace, rfl⟩
    rfl
  ip_eq := by
    rintro a _ ⟨log, trace, rfl⟩
    rfl
  announce := by
    intro a b h
    exact trans _ _ _ (trans _ _ _ (symm _ _ (announce a)) h) (announce b)
  starve := by
    rintro a _ ip f ⟨log, trace, rfl⟩
    exact ⟨_, trace, rfl⟩
  execute := execute_alike

end SameButNotes

theorem stepUpTo_add (m n : Nat) (e : Engine) :
    e.stepUpTo (m + n) =
      match e.stepUpTo m with
      | .ok (.cancelled, t) => t.stepUpTo n
      | outcome => outcome := by
  induction m generalizing e with
  | zero => simp [stepUpTo]
  | succ m ih =>
    rw [Nat.add_right_comm, stepUpTo, stepUpTo]
    cases e.step with
    | error a => rfl
    | ok r =>
      obtain ⟨reply, t⟩ := r
      cases reply with
      | «continue» => exact ih t
      | halt => rfl
      | failed f => rfl

/-- Runs of so many checks one after another, up to the first that is not cancelled. -/
def runInTurns : List Nat → Engine → Except Abort (RunReply × Engine)
  | [], e => .ok (.cancelled, e)
  | checks :: rest, e =>
    match e.runWithin checks with
    | .ok (.cancelled, t) => t.runInTurns rest
    | outcome => outcome

theorem runInTurns_alike (turns : List Nat) (e : Engine) :
    Alike SameButNotes (e.runInTurns turns) (e.stepUpTo turns.sum) := by
  induction turns generalizing e with
  | nil => exact .ok _ (.refl e)
  | cons checks rest ih =>
    have first : Alike SameButNotes (e.runWithin checks) (e.stepUpTo checks) :=
      SameButNotes.unseen.stepUpTo_alike checks (.symm _ _ (.announce e))
    rw [runInTurns, List.sum_cons, stepUpTo_add]
    generalize e.runWithin checks = left at first
    generalize e.stepUpTo checks = right at first
    cases first with
    | error a => exact .error a
    | @ok reply s t h =>
      cases reply with
      | finished => exact .ok _ h
      | failed f => exact .ok _ h
      | cancelled =>
        exact (ih s).trans SameButNotes.trans (SameButNotes.unseen.stepUpTo_alike rest.sum h)

theorem runInTurns_alike_runWithin (turns : List Nat) (e : Engine) :
    Alike SameButNotes (e.runInTurns turns) (e.runWithin turns.sum) :=
  (runInTurns_alike turns e).trans SameButNotes.trans
    (SameButNotes.unseen.stepUpTo_alike turns.sum (.announce e))

/-- Of the steps from here, this is the number of the first that halts or fails. -/
inductive EndsAt : Engine → Nat → Prop where
  | now {e t : Engine} {reply : StepReply} : e.step = .ok (reply, t) → reply ≠ .continue → EndsAt e 1
  | later {e t : Engine} {n : Nat} : e.step = .ok (.continue, t) → EndsAt t n → EndsAt e (n + 1)

theorem EndsAt.of_continue {n : Nat} (h : e.EndsAt n) (hstep : e.step = .ok (.continue, t)) :
    ∃ m, n = m + 1 ∧ t.EndsAt m := by
  cases h with
  | now hnow stops =>
    cases hstep.symm.trans hnow
    exact absurd rfl stops
  | later hlater rest =>
    cases hstep.symm.trans hlater
    exact ⟨_, rfl, rest⟩

theorem EndsAt.of_stop {n : Nat} {r : StepReply} (h : e.EndsAt n) (hstep : e.step = .ok (r, t))
    (stops : r ≠ .continue) : n = 1 := by
  cases h with
  | now => rfl
  | later hlater _ =>
    cases hstep.symm.trans hlater
    exact absurd rfl stops

theorem EndsAt.unique {m n : Nat} (h : e.EndsAt m) (k : e.EndsAt n) : m = n := by
  induction h generalizing n with
  | now hnow stops => exact (k.of_stop hnow stops).symm
  | later hlater _ ih =>
    obtain ⟨k', rfl, rest⟩ := k.of_continue hlater
    rw [ih rest]

theorem EndsAt.of_same {n : Nat} (h : a.EndsAt n) (same : SameButNotes a b) : b.EndsAt n := by
  induction h generalizing b with
  | @now e t reply hnow stops =>
    have stepped := SameButNotes.unseen.step_alike same
    rw [hnow] at stepped
    generalize hb : b.step = right at stepped
    cases stepped with
    | ok _ _ => exact .now hb stops
  | later hlater _ ih =>
    have stepped := SameButNotes.unseen.step_alike same
    rw [hlater] at stepped
    generalize hb : b.step = right at stepped
    cases stepped with
    | ok _ h' => exact .later hb (ih h')

theorem EndsAt.pos {n : Nat} (h : e.EndsAt n) : 0 < n := by
  cases h <;> omega

/-- A run is cancelled when it has made the steps it was granted and all of them
continued; otherwise it has made those up to the first that did not. -/
theorem drive_counted (h : e.stepUpTo checks = .ok (reply, t)) (before : Nat) :
    ∃ made, driveUpTo (counted step) checks (e, before) = .ok (reply, (t, before + made)) ∧
      (reply = .cancelled ∧ made = checks ∧ (∀ n, e.EndsAt n → checks < n) ∨
        reply ≠ .cancelled ∧ made ≤ checks ∧ e.EndsAt made) := by
  induction checks generalizing e before with
  | zero =>
    cases h
    exact ⟨0, rfl, .inl ⟨rfl, rfl, fun _ ends => ends.pos⟩⟩
  | succ checks ih =>
    rw [stepUpTo] at h
    simp only [driveUpTo, counted]
    cases hstep : e.step with
    | error a =>
      rw [hstep] at h
      cases h
    | ok r =>
      obtain ⟨answer, u⟩ := r
      rw [hstep] at h
      cases answer with
      | «continue» =>
        obtain ⟨made, hmade, outcome⟩ := ih h (before + 1)
        refine ⟨made + 1, ?_, ?_⟩
        · rw [Nat.add_comm made, ← Nat.add_assoc]
          exact hmade
        · rcases outcome with ⟨hreply, rfl, late⟩ | ⟨hreply, hle, ends⟩
          · refine .inl ⟨hreply, rfl, ?_⟩
            intro n ends
            obtain ⟨m, rfl, rest⟩ := ends.of_continue hstep
            exact Nat.succ_lt_succ (late m rest)
          · exact .inr ⟨hreply, Nat.succ_le_succ hle, .later hstep ends⟩
      | halt =>
        cases h
        exact ⟨1, rfl, .inr ⟨by simp, Nat.le_add_left 1 checks, .now hstep (by simp)⟩⟩
      | failed f =>
        cases h
        exact ⟨1, rfl, .inr ⟨by simp, Nat.le_add_left 1 checks, .now hstep (by simp)⟩⟩

theorem running_of_continue (h : e.step = .ok (.continue, t)) : t.status = .running := by
  cases hs : e.status with
  | ready => simp [step, hs] at h
  | halted => simp [step, hs] at h
  | faulted f ip => simp [step, hs] at h
  | running =>
    by_cases inside : e.ip < e.code.size
    · rw [step_of_lt hs inside] at h
      obtain ⟨⟨r, u⟩, hd, hsettle⟩ := exists_of_map_ok h
      obtain ⟨log, hlog⟩ := enter_eq { e with ip := e.ip + 1 } e.ip e.code[e.ip]
      have kept := dispatch_kept hd
      rw [hlog] at kept
      cases r with
      | error f => cases hsettle
      | ok _ =>
        rcases u.complete_eq e.code[e.ip] with hc | ⟨_, hc⟩
        · cases hc.symm.trans hsettle
          rw [kept]
          exact hs
        · cases hc.symm.trans hsettle
    · rw [step_of_le hs (Nat.le_of_not_lt inside)] at h
      cases h

theorem stepUpTo_running (running : e.status = .running)
    (h : e.stepUpTo checks = .ok (.cancelled, t)) : t.status = .running := by
  induction checks generalizing e with
  | zero =>
    cases h
    exact running
  | succ checks ih =>
    rw [stepUpTo] at h
    split at h
    next => cases h
    next hs => exact ih (running_of_continue hs) h
    next => cases h
    next => cases h

/-- Runs cut off by cancellation and taken up again do what one run with all their
checks does, and a run makes as many steps as it has checks, or as there are up to
the first that halts or fails. -/
theorem cancelled_runs_resume {s : Setup} (reachable : Reachable s e) :
    (∀ turns : List Nat, Alike SameButNotes (e.runInTurns turns) (e.runWithin turns.sum)) ∧
    ∀ checks : Nat, e.runWithin checks = driveUpTo step checks e.announce ∧
      (e.runWithin checks ≠ .error .tooDeep →
        ∃ reply t made, e.runWithin checks = .ok (reply, t) ∧
          driveUpTo (counted step) checks (e.announce, 0) = .ok (reply, (t, made)) ∧
          (∀ n, e.EndsAt n → made = min checks n) ∧ ((∀ n, ¬ e.EndsAt n) → made = checks) ∧
          (reply ≠ .cancelled → e.EndsAt made) ∧
          (e.status = .running → reply = .cancelled → t.status = .running)) := by
  constructor
  · intro turns
    exact runInTurns_alike_runWithin turns e
  · intro checks
    constructor
    · exact stepUpTo_eq_drive checks e.announce
    · intro terminates
      cases hrun : e.runWithin checks with
      | error a =>
        rw [runWithin_error (reachable_wellFormed reachable) hrun] at hrun
        exact absurd hrun terminates
      | ok p =>
        obtain ⟨reply, t⟩ := p
        obtain ⟨made, hmade, outcome⟩ := drive_counted hrun 0
        rw [Nat.zero_add] at hmade
        refine ⟨reply, t, made, rfl, hmade, ?_⟩
        -- The announcement is only a note, so the steps of `e` end where the run's do.
        have same := SameButNotes.announce e
        rcases outcome with ⟨rfl, rfl, late⟩ | ⟨hreply, hle, ended⟩
        · refine ⟨?_, fun _ => rfl, fun h => absurd rfl h, ?_⟩
          · intro n ends
            have := late n (ends.of_same same)
            omega
          · intro running _
            apply stepUpTo_running _ hrun
            obtain ⟨log, hlog⟩ := e.announce_eq
            rw [hlog]
            exact running
        · have ended' : e.EndsAt made := ended.of_same (.symm _ _ same)
          refine ⟨?_, ?_, fun _ => ended', fun _ h => absurd h hreply⟩
          · intro n ends
            have := ended'.unique ends
            omega
          · intro endless
            exact absurd ended' (endless made)

def threeSteps : Setup where
  code := #[Builtin.Nr.pushInt, 7, 12, Builtin.Nr.halt]
  capacity := 2

theorem threeSteps_resume :
    Reachable threeSteps (create threeSteps) ∧ (create threeSteps).EndsAt 3 ∧
    Alike SameButNotes ((create threeSteps).runInTurns [0, 1, 1, 0, 4])
      ((create threeSteps).runWithin 6) ∧
    (∃ t, driveUpTo (counted step) 2 ((create threeSteps).announce, 0) = .ok (.cancelled, (t, 2)) ∧
      t.status = .running) ∧
    ∃ t, driveUpTo (counted step) 6 ((create threeSteps).announce, 0) = .ok (.finished, (t, 3)) := by
  have two : ((create threeSteps).runWithin 2).toOption.map (·.1) = some .cancelled := by
    decide +kernel
  have six : ((create threeSteps).runWithin 6).isOk = true ∧
      (driveUpTo (counted step) 6 ((create threeSteps).announce, 0)).toOption.map
        (fun p => (p.1, p.2.2)) = some (.finished, 3) := by
    decide +kernel
  have reachable : Reachable threeSteps (create threeSteps) := ⟨[], [], rfl⟩
  obtain ⟨resumes, counts⟩ := cancelled_runs_resume reachable
  obtain ⟨reply, t, made, hrun, hmade, least, _, _, running⟩ := (counts 2).2 (by
    intro deep
    simp [deep, Except.toOption] at two)
  obtain ⟨reply', t', made', hrun', hmade', _, _, ended, _⟩ := (counts 6).2 (by
    intro deep
    simp [deep, Except.isOk, Except.toBool] at six)
  rw [hrun] at two
  cases two
  rw [hmade'] at six
  cases six.2
  have ends : (create threeSteps).EndsAt 3 := ended nofun
  rw [least 3 ends] at hmade
  exact ⟨reachable, ends, resumes _, ⟨t, hmade, running rfl rfl⟩, t', hmade'⟩

end Engine
end StackMachine
