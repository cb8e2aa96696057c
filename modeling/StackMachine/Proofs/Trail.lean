import StackMachine.Execution
/-! The states a machine passes through while a routine runs on it, one after
each call, those of nested dispatches included. Whatever every call preserves
holds at each of them, and the last is the state the run ends in. -/
namespace StackMachine

variable {α β σ ε : Type}

theorem error_of_map_error {γ : Type} {x : Except ε β} {f : β → γ} {e : ε}
    (h : x.map f = .error e) : x = .error e := by
  cases x with
  | error e' =>
    cases h
    rfl
  | ok b => cases h

theorem exists_of_map_ok {γ : Type} {x : Except ε β} {f : β → γ} {c : γ} (h : x.map f = .ok c) :
    ∃ b, x = .ok b ∧ f b = c := by
  cases x with
  | error e => cases h
  | ok b => exact ⟨b, rfl, Except.ok.inj h⟩

/-- From `a` to `b` by steps of `R`, `l` being the places the steps lead to. -/
inductive Path (R : σ → σ → Prop) : σ → List σ → σ → Prop where
  | nil (a : σ) : Path R a [] a
  | cons {a b c : σ} {l : List σ} : R a b → Path R b l c → Path R a (b :: l) c

namespace Path

variable {R S : σ → σ → Prop} {a b c : σ} {l m : List σ}

theorem append (h : Path R a l b) (k : Path R b m c) : Path R a (l ++ m) c := by
  induction h with
  | nil => exact k
  | cons hab _ ih => exact .cons hab (ih k)

theorem single (h : R a b) : Path R a [b] b := .cons h (.nil b)

theorem imp (hRS : ∀ a b, R a b → S a b) (h : Path R a l b) : Path S a l b := by
  induction h with
  | nil => exact .nil _
  | cons hab _ ih => exact .cons (hRS _ _ hab) ih

theorem along {P : σ → Prop} (h : Path R a l b) (places : ∀ s ∈ l, P s) :
    Path (fun a b => R a b ∧ P b) a l b := by
  induction h with
  | nil => exact .nil _
  | cons hab _ ih =>
    obtain ⟨first, rest⟩ := List.forall_mem_cons.mp places
    exact .cons ⟨hab, first⟩ (ih rest)

theorem invariant {I : σ → Prop} (keep : ∀ a b, R a b → I a → I b) (h : Path R a l b)
    (start : I a) : ∀ s ∈ a :: l, I s := by
  induction h with
  | nil => simpa using start
  | cons hab _ ih =>
    intro s hs
    rcases List.mem_cons.mp hs with rfl | hs
    · exact start
    · exact ih (keep _ _ hab start) s hs

theorem last_mem (h : Path R a l b) : b ∈ a :: l := by
  induction h with
  | nil => simp
  | cons _ _ ih => exact List.mem_cons_of_mem _ ih

end Path

/-- `l` is the way from `s` to the state of the outcome, if it has one. -/
def Leads (R : σ → σ → Prop) (s : σ) (l : List σ) (outcome : Except ε (β × σ)) : Prop :=
  ∃ t, Path R s l t ∧ ∀ reply u, outcome = .ok (reply, u) → u = t

namespace Leads

variable {R S : σ → σ → Prop} {s t : σ} {l m : List σ} {outcome : Except ε (β × σ)}

theorem of_path {reply : β} (path : Path R s l t) :
    Leads R s l (.ok (reply, t) : Except ε (β × σ)) := by
  refine ⟨t, path, ?_⟩
  intro _ u h
  cases h
  rfl

theorem of_error {e : ε} (path : Path R s l t) : Leads R s l (.error e : Except ε (β × σ)) := by
  refine ⟨t, path, ?_⟩
  intro _ _ h
  cases h

theorem path {reply : β} (h : Leads R s l (.ok (reply, t) : Except ε (β × σ))) :
    Path R s l t := by
  obtain ⟨u, path, last⟩ := h
  cases last reply t rfl
  exact path

theorem prepend (way : Path R s l t) (h : Leads R t m outcome) :
    Leads R s (l ++ m) outcome := by
  obtain ⟨u, path, last⟩ := h
  exact ⟨u, way.append path, last⟩

theorem imp (hRS : ∀ a b, R a b → S a b) (h : Leads R s l outcome) : Leads S s l outcome := by
  obtain ⟨u, path, last⟩ := h
  exact ⟨u, path.imp hRS, last⟩

theorem map {γ : Type} (f : β → γ) (h : Leads R s l outcome) :
    Leads R s l (outcome.map fun p => (f p.1, p.2)) := by
  obtain ⟨u, path, last⟩ := h
  refine ⟨u, path, ?_⟩
  intro reply v hv
  obtain ⟨p, hp, hpv⟩ := exists_of_map_ok hv
  cases hpv
  exact last p.1 p.2 hp

theorem invariant {reply : β} {I : σ → Prop} (keep : ∀ a b, R a b → I a → I b)
    (h : Leads R s l outcome) (hok : outcome = .ok (reply, t)) (start : I s) : I t := by
  rw [hok] at h
  exact h.path.invariant keep start t h.path.last_mem

end Leads

def endOf : Except ε (β × σ) → List σ
  | .ok (_, t) => [t]
  | .error _ => []

theorem Leads.append_end {R : σ → σ → Prop} {s t : σ} {l : List σ} {outcome : Except ε (β × σ)}
    (way : Path R s l t) (last : ∀ reply u, outcome = .ok (reply, u) → R t u) :
    Leads R s (l ++ endOf outcome) outcome := by
  refine .prepend way ?_
  cases outcome with
  | error e => exact .of_error (.nil t)
  | ok p => exact .of_path (.single (last p.1 p.2 rfl))

variable [Machine σ]

def Machine.Answers (s t : σ) : Prop := ∃ c, t = (Machine.answer c s).2

def Routine.trail (dispatch : Int32 → σ → Except ε (Except Fault Unit × σ))
    (inner : Int32 → σ → List σ) : Routine α → σ → List σ
  | .done _, _ => []
  | .fail _, _ => []
  | .call c next, s =>
    let (reply, t) := Machine.answer c s
    t :: trail dispatch inner (next reply) t
  | .dispatch nr next, s =>
    match dispatch nr s with
    | .error _ => inner nr s
    | .ok (reply, t) => inner nr s ++ trail dispatch inner (next reply) t

theorem Routine.trail_leads {dispatch : Int32 → σ → Except ε (Except Fault Unit × σ)}
    {inner : Int32 → σ → List σ}
    (nested : ∀ nr s, Leads Machine.Answers s (inner nr s) (dispatch nr s))
    (r : Routine α) (s : σ) :
    Leads Machine.Answers s (r.trail dispatch inner s) (r.run dispatch s) := by
  induction r generalizing s with
  | done a => exact .of_path (.nil s)
  | fail f => exact .of_path (.nil s)
  | call c next ih =>
    have answered : Path Machine.Answers s [(Machine.answer c s).2] (Machine.answer c s).2 :=
      .single ⟨c, rfl⟩
    exact .prepend answered (ih _ _)
  | dispatch nr next ih =>
    have hn := nested nr s
    simp only [trail, run]
    cases hd : dispatch nr s with
    | error e =>
      obtain ⟨t, path, _⟩ := hn
      exact .of_error path
    | ok p =>
      rw [hd] at hn
      exact .prepend hn.path (ih _ _)

namespace Registry

def trail (reg : Registry) : (depth : Nat) → Int32 → σ → List σ
  | 0, _, _ => []
  | depth + 1, nr, s =>
    match reg.resolve nr (Machine.len s) with
    | .error _ => []
    | .ok operation => operation.trail (reg.dispatch depth) (reg.trail depth) s

theorem trail_leads (reg : Registry) (depth : Nat) (nr : Int32) (s : σ) :
    Leads Machine.Answers s (reg.trail depth nr s) (reg.dispatch depth nr s) := by
  induction depth generalizing nr s with
  | zero => exact .of_error (.nil s)
  | succ depth ih =>
    simp only [trail, dispatch]
    cases reg.resolve nr (Machine.len s) with
    | error f => exact .of_path (.nil s)
    | ok operation => exact Routine.trail_leads ih operation s

theorem run_invariant {I : σ → Prop} (keep : ∀ c s, I s → I (Machine.answer c s).2)
    {reg : Registry} {depth : Nat} {r : Routine α} {s t : σ} {reply : Except Fault α}
    (h : r.run (reg.dispatch depth) s = .ok (reply, t)) (start : I s) : I t := by
  have kept : ∀ a b, Machine.Answers a b → I a → I b := by
    rintro a _ ⟨c, rfl⟩ ha
    exact keep c a ha
  exact (Routine.trail_leads (reg.trail_leads depth) r s).invariant kept h start

theorem dispatch_invariant {I : σ → Prop} (keep : ∀ c s, I s → I (Machine.answer c s).2)
    {reg : Registry} {depth : Nat} {nr : Int32} {s t : σ} {reply : Except Fault Unit}
    (h : reg.dispatch depth nr s = .ok (reply, t)) (start : I s) : I t := by
  cases depth with
  | zero => cases h
  | succ depth =>
    rw [dispatch] at h
    split at h
    · cases h
      exact start
    · exact run_invariant keep h start

end Registry
end StackMachine
