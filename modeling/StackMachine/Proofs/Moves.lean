import StackMachine.Engine.Host
import StackMachine.Proofs.Stack
import StackMachine.Proofs.Trail
/-! Everything an engine does, cut into moves. A history of host calls is listed
moment by moment, the moments within a step included, and from each moment to
the next leads one move; so an invariant of the engine is checked move by move. -/
namespace StackMachine.Engine

/-- One change of an engine, with the condition under which it is made. The last
four belong to a step: a step ends in one of the last three. -/
inductive Move : Engine → Engine → Prop where
  | stay (e : Engine) : Move e e
  | push {e : Engine} (v : Value) : e.stack.size < e.stack.capacity →
      e.stack.budget.refuses v.footprint = false → Move e { e with stack := e.stack.holding v }
  | pop {e : Engine} (v : Value) : e.stack.values = (e.stack.dropping v).values ++ [v] →
      Move e { e with stack := e.stack.dropping v }
  | goto {e : Engine} (ip : Nat) : ip ≤ e.code.size → Move e { e with ip }
  | halt (e : Engine) : Move e e.halt
  | announce (e : Engine) : Move e e.announce
  | enter {e : Engine} (ip : Nat) (nr : Int32) : e.status = .running → Move e (e.enter ip nr)
  | starve {e : Engine} (f : Fault) : e.status = .running →
      Move e ({ e with current := none }.failAt e.ip "-" f).2
  | fail {e : Engine} (ip : Nat) (opcode : String) (f : Fault) : e.status = .running →
      ip < e.code.size → Move e (e.failAt ip opcode f).2
  | complete {e : Engine} (nr : Int32) : e.status = .running → Move e (e.complete nr).2

theorem eq_create {s : Setup} {e : Engine} (h : create? s = some e) : e = create s :=
  (Option.ite_some_none_eq_some.mp h).2.symm

theorem announce_eq (e : Engine) : ∃ log, e.announce = { e with log } := by
  unfold announce
  split
  · exact ⟨_, rfl⟩
  · exact ⟨e.log, rfl⟩

theorem enter_eq (e : Engine) (ip : Nat) (nr : Int32) :
    ∃ log, e.enter ip nr = { e with current := some nr, halting := false, log } := by
  simp only [enter]
  split
  · exact ⟨_, rfl⟩
  · exact ⟨e.log, rfl⟩

theorem complete_eq (e : Engine) (nr : Int32) :
    e.complete nr = (.continue, { e with steps := e.steps + 1 }) ∨
    ∃ log, e.complete nr =
      (.halt, { e with steps := e.steps + 1, halting := false, status := .halted, log }) := by
  simp only [complete]
  split
  · exact .inr ⟨_, rfl⟩
  · exact .inl rfl

theorem fetch_of_lt {e : Engine} (h : e.ip < e.code.size) :
    e.fetch = (.ok e.code[e.ip], { e with ip := e.ip + 1 }) := by
  unfold fetch
  rw [Array.getElem?_eq_getElem h]

theorem fetch_of_le {e : Engine} (h : e.code.size ≤ e.ip) :
    e.fetch = (.error (.endOfBytecode (some e.ip)), e) := by
  unfold fetch
  rw [Array.getElem?_eq_none h]

theorem fetch_move (e : Engine) : Move e e.fetch.2 := by
  by_cases h : e.ip < e.code.size
  · rw [fetch_of_lt h]
    exact .goto _ h
  · rw [fetch_of_le (Nat.le_of_not_lt h)]
    exact .stay e

theorem push_move (v : Option Value) (e : Engine) : Move e (e.push v).2 := by
  unfold Engine.push
  rcases e.stack.push_cases v with ⟨f, h⟩ | ⟨w, _, room, granted, h⟩
  · rw [h]
    exact .stay e
  · rw [h]
    exact .push w room granted

theorem pop_move (e : Engine) : Move e e.pop.2 := by
  unfold Engine.pop
  rcases e.stack.pop_cases with ⟨_, h⟩ | ⟨v, top, h⟩
  · rw [h]
    exact .stay e
  · rw [h]
    exact .pop v top

theorem answer_push {e : Engine} {v : Option Value} {reply : Except Fault Unit} {stack : Stack}
    (h : e.stack.push v = (reply, stack)) :
    Machine.answer (.push v) e = (reply, { e with stack }) := by
  change e.push v = _
  rw [Engine.push, h]

theorem answer_pop_cases (e : Engine) :
    (e.stack.values = [] ∧ Machine.answer .pop e = (.error .stackUnderflow, e)) ∨
    ∃ v, e.stack.values = (e.stack.dropping v).values ++ [v] ∧
      Machine.answer .pop e = (.ok v, { e with stack := e.stack.dropping v }) := by
  change (_ ∧ e.pop = _) ∨ ∃ v, _ ∧ e.pop = _
  unfold Engine.pop
  rcases e.stack.pop_cases with ⟨hempty, h⟩ | ⟨v, top, h⟩
  · exact .inl ⟨hempty, by rw [h]⟩
  · exact .inr ⟨v, top, by rw [h]⟩

theorem answer_pop_of_top {e : Engine} {v : Value}
    (top : e.stack.values = (e.stack.dropping v).values ++ [v]) :
    Machine.answer .pop e = (.ok v, { e with stack := e.stack.dropping v }) := by
  rcases e.answer_pop_cases with ⟨hempty, _⟩ | ⟨w, top', h⟩
  · rw [hempty] at top
    simp at top
  · have hvw : v = w := by
      rw [top] at top'
      simpa using top'
    rw [hvw]
    exact h

theorem answer_pop_of_values {e : Engine} {below : List Value} {v : Value}
    (top : e.stack.values = below ++ [v]) :
    Machine.answer .pop e = (.ok v, { e with stack := e.stack.dropping v }) := by
  refine answer_pop_of_top ?_
  rw [Stack.values_dropping_of_top top]
  exact top

theorem jump_move (target : Int) (e : Engine) : Move e (e.jump target).2 := by
  unfold Engine.jump
  split
  · exact .goto _ (by omega)
  · exact .stay e

theorem answer_move (c : Call) (e : Engine) : Move e (Machine.answer c e).2 := by
  cases c with
  | push v => exact push_move v e
  | pop => exact pop_move e
  | peek depth => exact .stay e
  | len => exact .stay e
  | fetch => exact fetch_move e
  | jump target => exact jump_move target e
  | halt => exact .halt e

theorem move_of_answers (a b : Engine) (h : Machine.Answers a b) : Move a b := by
  obtain ⟨c, rfl⟩ := h
  exact answer_move c a

/-- A call touches the stack, the place in the code and the halt flag only. -/
def Kept (e t : Engine) : Prop := t = { e with stack := t.stack, ip := t.ip, halting := t.halting }

theorem Kept.trans {e t u : Engine} (h : Kept e t) (k : Kept t u) : Kept e u := by
  unfold Kept at *
  rw [k, h]

/-- And sees the stack, the code and the place in it only: engines that agree in these get
the same answer. -/
theorem answer_sees (c : Call) (e : Engine) :
    ∃ (reply : Except Fault c.Reply) (stack : Stack) (ip : Nat), ∀ t : Engine,
      t.code = e.code → t.stack = e.stack → t.ip = e.ip →
      Machine.answer c t =
        (reply, { t with stack, ip, halting := decide (c = .halt) || t.halting }) := by
  cases c with
  | push v =>
    refine ⟨(e.stack.push v).1, (e.stack.push v).2, e.ip, ?_⟩
    rintro ⟨⟩ rfl rfl rfl
    rfl
  | pop =>
    refine ⟨e.stack.pop.1, e.stack.pop.2, e.ip, ?_⟩
    rintro ⟨⟩ rfl rfl rfl
    rfl
  | peek depth =>
    refine ⟨e.stack.peek depth, e.stack, e.ip, ?_⟩
    rintro ⟨⟩ rfl rfl rfl
    rfl
  | len =>
    refine ⟨.ok e.stack.size, e.stack, e.ip, ?_⟩
    rintro ⟨⟩ rfl rfl rfl
    rfl
  | fetch =>
    refine ⟨e.fetch.1, e.stack, e.fetch.2.ip, ?_⟩
    rintro ⟨⟩ rfl rfl rfl
    change fetch _ = _
    simp only [fetch]
    cases e.code[e.ip]? <;> rfl
  | jump target =>
    refine ⟨(e.jump target).1, e.stack, (e.jump target).2.ip, ?_⟩
    rintro ⟨⟩ rfl rfl rfl
    change jump target _ = _
    simp only [jump]
    split <;> rfl
  | halt =>
    refine ⟨.ok (), e.stack, e.ip, ?_⟩
    rintro ⟨⟩ rfl rfl rfl
    rfl

theorem answer_kept (c : Call) (e : Engine) : Kept e (Machine.answer c e).2 := by
  obtain ⟨reply, stack, ip, sees⟩ := e.answer_sees c
  rw [sees e rfl rfl rfl]
  rfl

theorem dispatch_eq {e : Engine} {reg : Registry} (h : e.registry = some reg) (nr : Int32) :
    e.dispatch nr = reg.dispatch e.depth nr e := by
  rw [dispatch, h]
  exact reg.execute_eq_dispatch e.depth nr e

theorem dispatch_kept {e t : Engine} {nr : Int32} {reply : Except Fault Unit}
    (h : e.dispatch nr = .ok (reply, t)) : Kept e t := by
  cases hreg : e.registry with
  | none =>
    rw [dispatch, hreg] at h
    cases h
  | some reg =>
    rw [dispatch_eq hreg] at h
    exact Registry.dispatch_invariant (I := Kept e) (fun c s hs => hs.trans (answer_kept c s)) h rfl

def dispatchTrail (nr : Int32) (e : Engine) : List Engine :=
  match e.registry with
  | none => []
  | some reg => reg.trail e.depth nr e

theorem dispatch_leads (nr : Int32) (e : Engine) :
    Leads Move e (e.dispatchTrail nr) (e.dispatch nr) := by
  cases hreg : e.registry with
  | none =>
    rw [dispatchTrail, dispatch, hreg]
    exact .of_error (.nil e)
  | some reg =>
    rw [dispatch_eq hreg, dispatchTrail, hreg]
    exact (reg.trail_leads e.depth nr e).imp move_of_answers

theorem step_of_idle {e : Engine} (h : e.status ≠ .running) : ∃ reply, e.step = .ok (reply, e) := by
  unfold step
  cases hs : e.status with
  | running => exact absurd hs h
  | ready => exact ⟨_, rfl⟩
  | halted => exact ⟨_, rfl⟩
  | faulted f ip => exact ⟨_, rfl⟩

theorem step_of_running {e : Engine} (running : e.status = .running) :
    e.step = match e.fetch with
      | (.error f, t) => .ok ({ t with current := none }.failAt e.ip "-" f)
      | (.ok nr, t) => t.execute e.ip nr := by
  cases e
  cases running
  rfl

theorem step_of_le {e : Engine} (running : e.status = .running) (h : e.code.size ≤ e.ip) :
    e.step = .ok ({ e with current := none }.failAt e.ip "-" (.endOfBytecode (some e.ip))) := by
  rw [step_of_running running, fetch_of_le h]

theorem step_of_lt {e : Engine} (running : e.status = .running) (h : e.ip < e.code.size) :
    e.step = { e with ip := e.ip + 1 }.execute e.ip e.code[e.ip] := by
  rw [step_of_running running, fetch_of_lt h]

theorem execute_move {e u : Engine} {ip : Nat} {nr : Int32} {reply : StepReply}
    (running : e.status = .running) (hip : ip < e.code.size)
    (h : e.execute ip nr = .ok (reply, u)) :
    ∃ r t, (e.enter ip nr).dispatch nr = .ok (r, t) ∧ Move t u := by
  obtain ⟨⟨r, t⟩, hd, hsettle⟩ := exists_of_map_ok h
  obtain ⟨log, hlog⟩ := e.enter_eq ip nr
  -- A dispatch keeps the status and the code, so the step may still fail or end at `ip`.
  have kept := dispatch_kept hd
  rw [hlog] at kept
  have hstatus : t.status = .running := by
    rw [kept]
    exact running
  have hcode : ip < t.code.size := by
    rw [kept]
    exact hip
  have hu : (settle ip nr (r, t)).2 = u := congrArg Prod.snd hsettle
  refine ⟨r, t, hd, ?_⟩
  rw [← hu]
  cases r with
  | error f => exact .fail ip _ f hstatus hcode
  | ok _ => exact .complete nr hstatus

/-- The moments of an instruction behind its fetch: the note taken of it, the
calls of its opcode, and how it ended. -/
def executeTrail (e : Engine) (ip : Nat) (nr : Int32) : List Engine :=
  e.enter ip nr :: (e.enter ip nr).dispatchTrail nr ++ endOf (e.execute ip nr)

theorem execute_leads {e : Engine} {ip : Nat} (nr : Int32) (running : e.status = .running)
    (hip : ip < e.code.size) : Leads Move e (e.executeTrail ip nr) (e.execute ip nr) := by
  obtain ⟨t, path, last⟩ := dispatch_leads nr (e.enter ip nr)
  have way : Path Move e (e.enter ip nr :: (e.enter ip nr).dispatchTrail nr) t :=
    .cons (.enter ip nr running) path
  refine .append_end way ?_
  intro reply u h
  obtain ⟨r, t', hd, move⟩ := execute_move running hip h
  rw [last r t' hd] at move
  exact move

def stepTrail (e : Engine) : List Engine :=
  if e.status = .running then
    match e.fetch with
    | (.ok nr, t) => t :: t.executeTrail e.ip nr
    | (.error _, _) => endOf e.step
  else endOf e.step

theorem step_leads (e : Engine) : Leads Move e e.stepTrail e.step := by
  unfold stepTrail
  by_cases running : e.status = .running
  · rw [if_pos running]
    by_cases hip : e.ip < e.code.size
    · rw [fetch_of_lt hip, step_of_lt running hip]
      have fetched : Move e { e with ip := e.ip + 1 } := .goto _ hip
      exact .prepend (.single fetched) (execute_leads _ running hip)
    · have hle : e.code.size ≤ e.ip := Nat.le_of_not_lt hip
      rw [fetch_of_le hle, step_of_le running hle]
      exact .of_path (.single (.starve _ running))
  · rw [if_neg running]
    obtain ⟨reply, h⟩ := step_of_idle running
    rw [h]
    exact .of_path (.single (.stay e))

def stepsTrail : (checks : Nat) → Engine → List Engine
  | 0, _ => []
  | checks + 1, e =>
    match e.step with
    | .ok (.continue, t) => e.stepTrail ++ t.stepsTrail checks
    | _ => e.stepTrail

theorem stepUpTo_leads (checks : Nat) (e : Engine) :
    Leads Move e (e.stepsTrail checks) (e.stepUpTo checks) := by
  induction checks generalizing e with
  | zero => exact .of_path (.nil e)
  | succ checks ih =>
    have leads := e.step_leads
    rw [stepsTrail, stepUpTo]
    cases hs : e.step with
    | error a =>
      obtain ⟨t, path, _⟩ := leads
      exact .of_error path
    | ok p =>
      obtain ⟨reply, t⟩ := p
      rw [hs] at leads
      cases reply with
      | «continue» => exact .prepend leads.path (ih t)
      | halt => exact .of_path leads.path
      | failed f => exact .of_path leads.path

theorem runWithin_leads (checks : Nat) (e : Engine) :
    Leads Move e (e.announce :: e.announce.stepsTrail checks) (e.runWithin checks) :=
  .prepend (.single (.announce e)) (stepUpTo_leads checks e.announce)

def callTrail (c : HostCall) (e : Engine) : List Engine :=
  match c with
  | .step => e.stepTrail
  | .run => e.announce :: e.announce.stepsTrail horizon
  | .runWithin checks => e.announce :: e.announce.stepsTrail checks
  | .dispatch nr => e.dispatchTrail nr
  | c => endOf (e.call c)

theorem call_leads (c : HostCall) (e : Engine) : Leads Move e (e.callTrail c) (e.call c) := by
  cases c with
  | look => exact .of_path (.single (.stay e))
  | step => exact e.step_leads.map _
  | run => exact (runWithin_leads horizon e).map _
  | runWithin checks => exact (runWithin_leads checks e).map _
  | push v => exact .of_path (.single (push_move v e))
  | pop => exact .of_path (.single e.pop_move)
  | peek depth => exact .of_path (.single (.stay e))
  | len => exact .of_path (.single (.stay e))
  | fetch => exact .of_path (.single e.fetch_move)
  | jump target => exact .of_path (.single (jump_move target e))
  | dispatch nr => exact (dispatch_leads nr e).map _
  | halt => exact .of_path (.single (.halt e))

theorem call_step {e t : Engine} {reply : StepReply} (h : e.step = .ok (reply, t)) :
    e.call .step = .ok (.stepped reply, t) := by
  rw [call, h]
  rfl

theorem calls_cons_of_error {c : HostCall} {e : Engine} {a : Abort} (h : e.call c = .error a)
    (rest : List HostCall) : e.calls (c :: rest) = .error a := by
  rw [calls, h]
  rfl

theorem calls_cons_of_ok {c : HostCall} {e t : Engine} {reply : HostReply}
    (h : e.call c = .ok (reply, t)) (rest : List HostCall) :
    e.calls (c :: rest) = (t.calls rest).map fun q => (reply :: q.1, q.2) := by
  rw [calls, h]
  change (t.calls rest >>= fun q => pure (reply :: q.1, q.2)) = _
  cases t.calls rest <;> rfl

/-- The moments of a history of host calls behind its first. -/
def history : List HostCall → Engine → List Engine
  | [], _ => []
  | c :: rest, e =>
    match e.call c with
    | .ok (_, t) => e.callTrail c ++ t.history rest
    | .error _ => e.callTrail c

theorem calls_leads (cs : List HostCall) (e : Engine) :
    Leads Move e (e.history cs) (e.calls cs) := by
  induction cs generalizing e with
  | nil => exact .of_path (.nil e)
  | cons c rest ih =>
    have leads := call_leads c e
    rw [history]
    cases hc : e.call c with
    | error a =>
      obtain ⟨t, path, _⟩ := leads
      rw [calls_cons_of_error hc]
      exact .of_error path
    | ok p =>
      obtain ⟨reply, t⟩ := p
      rw [hc] at leads
      rw [calls_cons_of_ok hc]
      exact .prepend leads.path ((ih t).map _)

/-- Left by some history of host calls on a fresh engine. -/
def Reachable (s : Setup) (e : Engine) : Prop :=
  ∃ cs replies, (create s).calls cs = .ok (replies, e)

theorem calls_append {cs : List HostCall} {c : HostCall} {e u t : Engine}
    {replies : List HostReply} {reply : HostReply} (h : e.calls cs = .ok (replies, u))
    (hc : u.call c = .ok (reply, t)) : e.calls (cs ++ [c]) = .ok (replies ++ [reply], t) := by
  induction cs generalizing e replies with
  | nil =>
    cases h
    rw [List.nil_append, calls_cons_of_ok hc]
    rfl
  | cons first rest ih =>
    cases hfirst : e.call first with
    | error a =>
      rw [calls_cons_of_error hfirst] at h
      cases h
    | ok p =>
      rw [calls_cons_of_ok hfirst] at h
      obtain ⟨q, hq, hqu⟩ := exists_of_map_ok h
      cases hqu
      rw [List.cons_append, calls_cons_of_ok hfirst, ih hq]
      rfl

theorem history_append {cs : List HostCall} {c : HostCall} {e u : Engine}
    {replies : List HostReply} (h : e.calls cs = .ok (replies, u)) :
    e.history (cs ++ [c]) = e.history cs ++ u.callTrail c := by
  induction cs generalizing e replies with
  | nil =>
    cases h
    rw [List.nil_append, history, history]
    cases u.call c <;> simp [history]
  | cons first rest ih =>
    cases hfirst : e.call first with
    | error a =>
      rw [calls_cons_of_error hfirst] at h
      cases h
    | ok p =>
      rw [calls_cons_of_ok hfirst] at h
      obtain ⟨q, hq, hqu⟩ := exists_of_map_ok h
      cases hqu
      simp only [List.cons_append, history, hfirst, ih hq, List.append_assoc]

theorem Reachable.call {s : Setup} {c : HostCall} {e t : Engine} {reply : HostReply}
    (h : Reachable s e) (hc : e.call c = .ok (reply, t)) : Reachable s t := by
  obtain ⟨cs, replies, hcs⟩ := h
  exact ⟨cs ++ [c], replies ++ [reply], calls_append hcs hc⟩

theorem Reachable.invariant {s : Setup} {e : Engine} {I : Engine → Prop} (h : Reachable s e)
    (keep : ∀ a b, Move a b → I a → I b) (start : I (create s)) : I e := by
  obtain ⟨cs, replies, hcs⟩ := h
  exact (calls_leads cs (create s)).invariant keep hcs start

end StackMachine.Engine
