import StackMachine.Execution
/-! Runs that nothing bounds. The course of a routine is given by rules alone: a call
is answered, and a dispatched opcode takes its own course before the routine goes on; a
routine that dispatches forever has none. A course is charged with the replies to its
fetches and with the most dispatches that are under way at once, and a dispatch that may
nest so deep and no deeper gives an answer exactly if that number allows it. -/
namespace StackMachine

structure Effort where
  fetches : List (Except Fault Int32) := []
  /-- The most dispatches that are under way at once. -/
  nesting : Nat := 0

namespace Effort

def cells (w : Effort) : List Int32 := w.fetches.filterMap Except.toOption

def followedBy (w v : Effort) : Effort where
  fetches := w.fetches ++ v.fetches
  nesting := max w.nesting v.nesting

def dispatched (w : Effort) : Effort := { w with nesting := w.nesting + 1 }

def ofCall : (c : Call) → Except Fault c.Reply → Effort
  | .fetch, reply => { fetches := [reply] }
  | _, _ => {}

@[simp] theorem followedBy_none (w : Effort) : w.followedBy {} = w := by
  simp [followedBy]

@[simp] theorem none_followedBy (w : Effort) : Effort.followedBy {} w = w := by
  simp [followedBy]

theorem ofCall_of_ne {c : Call} (h : c ≠ .fetch) (reply : Except Fault c.Reply) :
    ofCall c reply = {} := by
  cases c <;> first | rfl | exact absurd rfl h

@[simp] theorem nesting_ofCall_followedBy (c : Call) (reply : Except Fault c.Reply) (w : Effort) :
    ((ofCall c reply).followedBy w).nesting = w.nesting := by
  cases c <;> exact Nat.zero_max _

end Effort

variable {σ : Type} [Machine σ]

/-- Run on a machine, the routine comes to an end with that outcome and that effort. -/
inductive Course (reg : Registry) :
    Routine Unit → σ → Except Fault Unit × σ → Effort → Prop where
  | done (a : Unit) (s : σ) : Course reg (.done a) s (.ok a, s) {}
  | fail (f : Fault) (s : σ) : Course reg (.fail f) s (.error f, s) {}
  | call {c : Call} {next : Except Fault c.Reply → Routine Unit} {s : σ}
      {outcome : Except Fault Unit × σ} {w : Effort} :
      Course reg (next (Machine.answer c s).1) (Machine.answer c s).2 outcome w →
      Course reg (.call c next) s outcome ((Effort.ofCall c (Machine.answer c s).1).followedBy w)
  | refused {nr : Int32} {next : Except Fault Unit → Routine Unit} {s : σ} {f : Fault}
      {outcome : Except Fault Unit × σ} {w : Effort} :
      reg.resolve nr (Machine.len s) = .error f → Course reg (next (.error f)) s outcome w →
      Course reg (.dispatch nr next) s outcome (Effort.followedBy (Effort.dispatched {}) w)
  | entered {nr : Int32} {next : Except Fault Unit → Routine Unit} {s t : σ}
      {operation : Routine Unit} {reply : Except Fault Unit}
      {outcome : Except Fault Unit × σ} {v w : Effort} :
      reg.resolve nr (Machine.len s) = .ok operation → Course reg operation s (reply, t) v →
      Course reg (next reply) t outcome w →
      Course reg (.dispatch nr next) s outcome (v.dispatched.followedBy w)

namespace Course

variable {reg : Registry} {r : Routine Unit} {s : σ} {outcome : Except Fault Unit × σ}
  {w : Effort} {depth : Nat}

theorem unique {outcome' : Except Fault Unit × σ} {w' : Effort} (h : Course reg r s outcome w)
    (k : Course reg r s outcome' w') : outcome = outcome' ∧ w = w' := by
  induction h generalizing outcome' w' with
  | done a s =>
    cases k
    exact ⟨rfl, rfl⟩
  | fail f s =>
    cases k
    exact ⟨rfl, rfl⟩
  | call _ ih =>
    cases k with
    | call k =>
      obtain ⟨rfl, rfl⟩ := ih k
      exact ⟨rfl, rfl⟩
  | refused hr _ ih =>
    cases k with
    | refused hr' k =>
      cases hr.symm.trans hr'
      obtain ⟨rfl, rfl⟩ := ih k
      exact ⟨rfl, rfl⟩
    | entered hr' _ _ => cases hr.symm.trans hr'
  | entered hr _ _ inner rest =>
    cases k with
    | refused hr' _ => cases hr.symm.trans hr'
    | entered hr' k l =>
      cases hr.symm.trans hr'
      obtain ⟨same, rfl⟩ := inner k
      cases same
      obtain ⟨rfl, rfl⟩ := rest l
      exact ⟨rfl, rfl⟩

theorem run_eq (h : Course reg r s outcome w) (room : w.nesting ≤ depth) :
    r.run (reg.dispatch depth) s = .ok outcome := by
  induction h generalizing depth with
  | done a s => rfl
  | fail f s => rfl
  | call _ ih =>
    rw [Effort.nesting_ofCall_followedBy] at room
    rw [Routine.run]
    exact ih room
  | refused hr _ ih =>
    obtain ⟨first, rest⟩ : 1 ≤ depth ∧ _ := Nat.max_le.mp room
    obtain ⟨depth, rfl⟩ := Nat.exists_eq_add_of_le' first
    rw [Routine.run, Registry.dispatch, hr]
    exact ih rest
  | entered hr _ _ inner ih =>
    obtain ⟨first, rest⟩ := Nat.max_le.mp room
    obtain ⟨depth, rfl⟩ := Nat.exists_eq_add_of_le' (Nat.le_trans (Nat.le_add_left 1 _) first)
    rw [Routine.run, Registry.dispatch, hr]
    simp only [inner (Nat.le_of_succ_le_succ first)]
    exact ih rest

theorem ofExcept (reply : Except Fault Unit) (s : σ) :
    Course reg (.ofExcept reply) s (reply, s) {} := by
  cases reply with
  | error f => exact .fail f s
  | ok a => exact .done a s

theorem dispatch {nr : Int32} {next : Except Fault Unit → Routine Unit} {reply : Except Fault Unit}
    {t : σ} {v : Effort} (first : Course reg (.invoke nr) s (reply, t) v)
    (rest : Course reg (next reply) t outcome w) :
    Course reg (.dispatch nr next) s outcome (v.followedBy w) := by
  cases first with
  | refused hr last =>
    obtain ⟨same, rfl⟩ := (ofExcept _ _).unique last
    cases same
    rw [Effort.followedBy_none]
    exact .refused hr rest
  | entered hr operated last =>
    obtain ⟨same, rfl⟩ := (ofExcept _ _).unique last
    cases same
    rw [Effort.followedBy_none]
    exact .entered hr operated rest

theorem exists_of_run
    (nested : ∀ nr (s : σ) outcome, reg.dispatch depth nr s = .ok outcome →
      ∃ w, Course reg (.invoke nr) s outcome w ∧ w.nesting ≤ depth)
    (h : r.run (reg.dispatch depth) s = .ok outcome) :
    ∃ w, Course reg r s outcome w ∧ w.nesting ≤ depth := by
  induction r generalizing s with
  | done a =>
    cases h
    exact ⟨_, .done a s, Nat.zero_le _⟩
  | fail f =>
    cases h
    exact ⟨_, .fail f s, Nat.zero_le _⟩
  | call c next ih =>
    obtain ⟨w, course, room⟩ := ih _ h
    exact ⟨_, .call course, by simpa using room⟩
  | dispatch nr next ih =>
    rw [Routine.run] at h
    cases hd : reg.dispatch depth nr s with
    | error a =>
      rw [hd] at h
      cases h
    | ok p =>
      rw [hd] at h
      obtain ⟨v, first, below⟩ := nested nr s p hd
      obtain ⟨w, rest, room⟩ := ih _ h
      exact ⟨_, first.dispatch rest, Nat.max_le.mpr ⟨below, room⟩⟩

end Course

namespace Registry

variable {reg : Registry} {nr : Int32} {s : σ} {outcome : Except Fault Unit × σ} {depth : Nat}

theorem course_of_refused {f : Fault} (h : reg.resolve nr (Machine.len s) = .error f) :
    Course reg (.invoke nr) s (.error f, s) (Effort.dispatched {}) := by
  rw [← Effort.followedBy_none (Effort.dispatched {})]
  exact .refused h (.ofExcept (.error f) s)

theorem course_of_entered {operation : Routine Unit} {w : Effort}
    (h : reg.resolve nr (Machine.len s) = .ok operation) (course : Course reg operation s outcome w) :
    Course reg (.invoke nr) s outcome w.dispatched := by
  rw [← Effort.followedBy_none w.dispatched]
  exact .entered h course (.ofExcept outcome.1 outcome.2)

theorem exists_course_of_dispatch (h : reg.dispatch depth nr s = .ok outcome) :
    ∃ w, Course reg (.invoke nr) s outcome w ∧ w.nesting ≤ depth := by
  induction depth generalizing nr s outcome with
  | zero => cases h
  | succ depth ih =>
    rw [dispatch] at h
    cases hr : reg.resolve nr (Machine.len s) with
    | error f =>
      rw [hr] at h
      cases h
      exact ⟨_, course_of_refused hr, Nat.le_add_left 1 depth⟩
    | ok operation =>
      rw [hr] at h
      obtain ⟨w, course, room⟩ := Course.exists_of_run (fun _ _ _ => ih) h
      exact ⟨_, course_of_entered hr course, Nat.succ_le_succ room⟩

/-- A bounded dispatch answers exactly if the course of its opcode keeps to the bound. -/
theorem dispatch_eq_ok_iff : reg.dispatch depth nr s = .ok outcome ↔
    ∃ w, Course reg (.invoke nr) s outcome w ∧ w.nesting ≤ depth := by
  constructor
  · exact exists_course_of_dispatch
  · rintro ⟨w, course, room⟩
    rw [← Routine.run_invoke (reg.dispatch depth)]
    exact course.run_eq room

end Registry
end StackMachine
