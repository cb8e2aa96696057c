import StackMachine.Proofs.Finality
import StackMachine.Proofs.Resume
/-! The log records what was done, and nothing reads it. A history of host calls is retold as
the list of its steps, each with the engine before and after it. What one step can do is said
once; from that the lines of the log, the count of steps and the status of the engine are
those of the retelling, whatever a host does between the steps. -/
namespace StackMachine

def Event.isClosing : Event → Bool
  | .halted .. => true
  | .faulted .. => true
  | _ => false

namespace Engine

def opcodeAt (e : Engine) (ip : Nat) : String := e.code[ip]?.elim "-" e.nameOf

structure Stepped where
  before : Engine
  reply : StepReply
  after : Engine

namespace Stepped

/-- The engine was running, and no error came back. -/
def succeeded (s : Stepped) : Bool :=
  s.before.status == .running &&
    match s.reply with
    | .failed _ => false
    | _ => true

/-- The line on a step that fetched an opcode; place and depth are those before it. -/
def line? (s : Stepped) : Option Event :=
  if s.before.status = .running then
    s.before.code[s.before.ip]?.map fun nr =>
      .executing s.before.ip (s.before.nameOf nr) s.before.stack.size
  else none

def closing? (s : Stepped) : Option Event :=
  if s.before.status = .running then
    match s.reply with
    | .continue => none
    | .halt => some (.halted s.after.steps s.after.stack.size)
    | .failed fault => some (.faulted s.before.ip (s.before.opcodeAt s.before.ip) fault)
  else none

def notes (traced : Bool) (s : Stepped) : List Event :=
  (if traced then s.line?.toList else []) ++ s.closing?.toList

theorem level_of_mem_line? {s : Stepped} {event : Event} (h : event ∈ s.line?.toList) :
    event.level = .debug ∧ event.isClosing = false := by
  simp only [line?, Option.mem_toList, Option.ite_none_right_eq_some,
    Option.map_eq_some_iff] at h
  obtain ⟨_, _, _, rfl⟩ := h
  exact ⟨rfl, rfl⟩

theorem isClosing_of_mem_closing? {s : Stepped} {event : Event} (h : event ∈ s.closing?.toList) :
    event.level ≠ .debug ∧ event.isClosing = true := by
  simp only [closing?, Option.mem_toList, Option.ite_none_right_eq_some] at h
  obtain ⟨_, h⟩ := h
  cases hr : s.reply <;> simp only [hr, reduceCtorEq, Option.some.injEq] at h
  all_goals
    rw [← h]
    simp [Event.level, Event.isClosing]

theorem filter_debug_notes (traced : Bool) (s : Stepped) :
    (s.notes traced).filter (·.level = .debug) = if traced then s.line?.toList else [] := by
  have closing : s.closing?.toList.filter (·.level = .debug) = [] := by
    simpa using fun event h => (isClosing_of_mem_closing? (Option.mem_toList.mpr h)).1
  rw [notes, List.filter_append, closing, List.append_nil]
  split
  · simpa using fun event h => (level_of_mem_line? (Option.mem_toList.mpr h)).1
  · rfl

theorem filter_isClosing_notes (traced : Bool) (s : Stepped) :
    (s.notes traced).filter Event.isClosing = s.closing?.toList := by
  have closing : s.closing?.toList.filter Event.isClosing = s.closing?.toList := by
    simpa using fun event h => (isClosing_of_mem_closing? (Option.mem_toList.mpr h)).2
  rw [notes, List.filter_append, closing, List.append_left_eq_self]
  split
  · simpa using fun event h => (level_of_mem_line? (Option.mem_toList.mpr h)).2
  · rfl

end Stepped

/-! The retelling of a history. -/

/-- The step made from here, unless it never returns. -/
def stepped (e : Engine) : List Stepped :=
  match e.step with
  | .ok (reply, t) => [⟨e, reply, t⟩]
  | .error _ => []

def stepsWithin : (checks : Nat) → Engine → List Stepped
  | 0, _ => []
  | checks + 1, e =>
    e.stepped ++
      match e.step with
      | .ok (.continue, t) => t.stepsWithin checks
      | _ => []

def stepsOf (c : HostCall) (e : Engine) : List Stepped :=
  match c with
  | .step => e.stepped
  | .run => e.announce.stepsWithin horizon
  | .runWithin checks => e.announce.stepsWithin checks
  | _ => []

/-- The steps of a history, those inside of runs included. -/
def stepsMade : List HostCall → Engine → List Stepped
  | [], _ => []
  | c :: rest, e =>
    e.stepsOf c ++
      match e.call c with
      | .ok (_, t) => t.stepsMade rest
      | .error _ => []

/-! What one step can do. -/

/-- The opcode `nr` was noted and run; it may have touched what a call can touch. -/
def begun (e : Engine) (nr : Int32) (stack : Stack) (ip : Nat) (halting : Bool) : Engine :=
  { e with
    current := some nr, stack, ip, halting
    log := if e.trace then e.log.push (.executing e.ip (e.nameOf nr) e.stack.size) else e.log }

theorem begun_log (e : Engine) (nr : Int32) (stack : Stack) (ip : Nat) (halting : Bool) :
    (e.begun nr stack ip halting).log.toList = e.log.toList ++
      if e.trace then [.executing e.ip (e.nameOf nr) e.stack.size] else [] := by
  unfold begun
  split <;> simp

/-- A step finds the engine idle, or no opcode, or one that fails, goes on or ends the run. -/
inductive Progress (e : Engine) : StepReply → Engine → Prop where
  | idle : e.status ≠ .running → Progress e e.status.idleReply e
  | starved (f : Fault) : e.status = .running → e.code[e.ip]? = none →
      Progress e (.failed f) ({ e with current := none }.failAt e.ip "-" f).2
  | failed (nr : Int32) (stack : Stack) (ip : Nat) (halting : Bool) (f : Fault) :
      e.status = .running → e.code[e.ip]? = some nr →
      Progress e (.failed f) ((e.begun nr stack ip halting).failAt e.ip (e.nameOf nr) f).2
  | continued (nr : Int32) (stack : Stack) (ip : Nat) (halting : Bool) :
      e.status = .running → e.code[e.ip]? = some nr →
      Progress e .continue { e.begun nr stack ip halting with steps := e.steps + 1 }
  | halted (nr : Int32) (stack : Stack) (ip : Nat) : e.status = .running →
      e.code[e.ip]? = some nr →
      Progress e .halt ({ e.begun nr stack ip false with
        steps := e.steps + 1, status := .halted }.note (.halted (e.steps + 1) stack.size))

variable {e t : Engine} {reply : StepReply}

theorem step_progress (h : e.step = .ok (reply, t)) : Progress e reply t := by
  by_cases running : e.status = .running
  case neg =>
    cases (step_eq_of_idle running).symm.trans h
    exact .idle running
  by_cases inside : e.ip < e.code.size
  case neg =>
    have outside := Nat.le_of_not_lt inside
    cases (step_of_le running outside).symm.trans h
    exact .starved _ running (Array.getElem?_eq_none outside)
  have fetched := Array.getElem?_eq_getElem inside
  rw [step_of_lt running inside] at h
  obtain ⟨⟨answer, u⟩, dispatched, settled⟩ := exists_of_map_ok h
  -- All that an opcode can do to the engine is in three of its fields.
  have entered : Engine.enter { e with ip := e.ip + 1 } e.ip e.code[e.ip] =
      e.begun e.code[e.ip] e.stack (e.ip + 1) false := by
    unfold enter begun
    dsimp only
    split
    next traced => simp [traced, note, nameOf]
    next untraced => simp [untraced]
  have kept : u = e.begun e.code[e.ip] u.stack u.ip u.halting := by
    have := dispatch_kept dispatched
    rw [entered] at this
    exact this
  generalize u.stack = stack at kept
  generalize u.ip = ip at kept
  generalize u.halting = halting at kept
  subst kept
  cases answer with
  | error f =>
    cases settled
    exact .failed _ stack ip halting f running fetched
  | ok _ =>
    change Engine.complete _ _ = _ at settled
    simp only [complete] at settled
    split at settled
    · cases settled
      exact .halted _ stack ip running fetched
    · cases settled
      exact .continued _ stack ip halting running fetched

/-- One if the run faulted at an opcode that could be fetched, else zero. -/
def cutShort (e : Engine) : Nat :=
  match e.status with
  | .faulted _ ip => if ip < e.code.size then 1 else 0
  | _ => 0

/-- One line that matches the status if the run has ended, and none before. -/
def ClosedBy (e : Engine) (lines : List Event) : Prop :=
  match e.status with
  | .halted => ∃ depth, lines = [.halted e.steps depth]
  | .faulted fault ip => lines = [.faulted ip (e.opcodeAt ip) fault]
  | _ => lines = []

namespace Progress

variable (p : Progress e reply t)

include p

theorem trace_eq : t.trace = e.trace := by
  cases p <;> rfl

theorem registry_eq : t.registry = e.registry := by
  cases p <;> rfl

theorem log_eq : t.log.toList = e.log.toList ++ Stepped.notes e.trace ⟨e, reply, t⟩ := by
  cases p with
  | idle idle => simp [Stepped.notes, Stepped.line?, Stepped.closing?, idle]
  | starved f running outside =>
    simp [Stepped.notes, Stepped.line?, Stepped.closing?, running, outside, failAt, note, opcodeAt]
  | failed nr stack ip halting f running fetched =>
    simp [Stepped.notes, Stepped.line?, Stepped.closing?, running, fetched, failAt, note, opcodeAt,
      begun_log]
  | continued nr stack ip halting running fetched =>
    simp [Stepped.notes, Stepped.line?, Stepped.closing?, running, fetched, begun_log]
  | halted nr stack ip running fetched =>
    simp [Stepped.notes, Stepped.line?, Stepped.closing?, running, fetched, note, begun_log]
    rfl

theorem steps_eq :
    t.steps = e.steps + UInt64.ofNat (List.countP Stepped.succeeded [⟨e, reply, t⟩]) := by
  cases p with
  | idle idle => simp [Stepped.succeeded, idle]
  | starved f running outside => simp [Stepped.succeeded, failAt, note]
  | failed nr stack ip halting f running fetched => simp [Stepped.succeeded, failAt, note, begun]
  | continued nr stack ip halting running fetched => simp [Stepped.succeeded, running]
  | halted nr stack ip running fetched => simp [Stepped.succeeded, running, note]

theorem balance :
    (Stepped.line? ⟨e, reply, t⟩).toList.length + e.cutShort =
      List.countP Stepped.succeeded [⟨e, reply, t⟩] + t.cutShort := by
  cases p with
  | idle idle => simp [Stepped.succeeded, Stepped.line?, idle]
  | starved f running outside =>
    have := Nat.not_lt.mpr (Array.getElem?_eq_none_iff.mp outside)
    simp [Stepped.succeeded, Stepped.line?, running, failAt, note, cutShort, this]
  | failed nr stack ip halting f running fetched =>
    have := (Array.getElem?_eq_some_iff.mp fetched).1
    simp [Stepped.succeeded, Stepped.line?, running, failAt, note, begun, cutShort, this]
  | continued nr stack ip halting running fetched =>
    simp [Stepped.succeeded, Stepped.line?, running, fetched, begun, cutShort]
  | halted nr stack ip running fetched =>
    simp [Stepped.succeeded, Stepped.line?, running, fetched, note, cutShort]

theorem closedBy {lines : List Event} (h : e.ClosedBy lines) :
    t.ClosedBy (lines ++ (Stepped.closing? ⟨e, reply, t⟩).toList) := by
  cases p with
  | idle idle => simpa [Stepped.closing?, idle] using h
  | starved f running outside =>
    simp only [ClosedBy, running] at h
    simp [h, ClosedBy, Stepped.closing?, running, outside, failAt, note, opcodeAt]
  | failed nr stack ip halting f running fetched =>
    simp only [ClosedBy, running] at h
    simp [h, ClosedBy, Stepped.closing?, running, fetched, failAt, note, begun, opcodeAt, nameOf]
  | continued nr stack ip halting running fetched =>
    simp only [ClosedBy, running] at h
    simp [h, ClosedBy, Stepped.closing?, running, begun]
  | halted nr stack ip running fetched =>
    simp only [ClosedBy, running] at h
    simp [h, ClosedBy, Stepped.closing?, running, note]

end Progress

/-- The log, the count and the status of an engine are those of the steps it made. The count
is a word, so it starts again where a word does. -/
structure Faithful (traced : Bool) (made : List Stepped) (e : Engine) : Prop where
  trace_eq : e.trace = traced
  steps_eq : e.steps = UInt64.ofNat (made.countP Stepped.succeeded)
  lines_eq : e.log.toList.filter (·.level = .debug) =
    if traced then made.filterMap Stepped.line? else []
  lines_length : (made.filterMap Stepped.line?).length =
    made.countP Stepped.succeeded + e.cutShort
  closing_eq : e.log.toList.filter Event.isClosing = made.filterMap Stepped.closing?
  closed : e.ClosedBy (made.filterMap Stepped.closing?)

namespace Faithful

variable {traced : Bool} {made : List Stepped}

theorem create (s : Setup) : Faithful s.trace [] (create s) := by
  unfold Engine.create
  cases s.registry with
  | none => exact ⟨rfl, rfl, by simp [Event.level], rfl, rfl, rfl⟩
  | some reg => exact ⟨rfl, rfl, by simp, rfl, rfl, rfl⟩

theorem kept (h : Faithful traced made e) (same : Kept e t) : Faithful traced made t := by
  unfold Kept at same
  rw [same]
  exact { h with }

theorem announce (h : Faithful traced made e) : Faithful traced made e.announce := by
  unfold Engine.announce
  split
  · exact { h with
      lines_eq := by simpa [note, Event.level] using h.lines_eq
      closing_eq := by simpa [note, Event.isClosing] using h.closing_eq }
  · exact h

theorem step (h : Faithful traced made e) (hs : e.step = .ok (reply, t)) :
    Faithful traced (made ++ e.stepped) t := by
  have p := step_progress hs
  have once : e.stepped = [⟨e, reply, t⟩] := by simp [stepped, hs]
  have appended (f : Stepped → Option Event) :
      (made ++ e.stepped).filterMap f = made.filterMap f ++ (f ⟨e, reply, t⟩).toList := by
    rw [once, List.filterMap_append]
    cases hf : f ⟨e, reply, t⟩ <;> simp [hf]
  constructor
  case trace_eq => rw [p.trace_eq, h.trace_eq]
  case steps_eq => rw [p.steps_eq, h.steps_eq, once, List.countP_append, UInt64.ofNat_add]
  case lines_eq =>
    rw [p.log_eq, List.filter_append, h.lines_eq, h.trace_eq, Stepped.filter_debug_notes, appended]
    cases traced <;> simp
  case lines_length =>
    have balance := p.balance
    have before := h.lines_length
    rw [appended, List.length_append, once, List.countP_append]
    omega
  case closing_eq =>
    rw [p.log_eq, List.filter_append, h.closing_eq, Stepped.filter_isClosing_notes, appended]
  case closed =>
    rw [appended]
    exact p.closedBy h.closed

theorem stepUpTo {checks : Nat} {ended : RunReply} (h : Faithful traced made e)
    (hrun : e.stepUpTo checks = .ok (ended, t)) :
    Faithful traced (made ++ e.stepsWithin checks) t := by
  induction checks generalizing e made with
  | zero =>
    cases hrun
    simpa [stepsWithin] using h
  | succ checks ih =>
    rw [Engine.stepUpTo] at hrun
    rw [stepsWithin, ← List.append_assoc]
    split at hrun
    next => cases hrun
    next u hs =>
      rw [hs]
      exact ih (h.step hs) hrun
    next u hs =>
      cases hrun
      simpa [hs] using h.step hs
    next f u hs =>
      cases hrun
      simpa [hs] using h.step hs

theorem call {c : HostCall} {answer : HostReply} (h : Faithful traced made e)
    (hc : e.call c = .ok (answer, t)) : Faithful traced (made ++ e.stepsOf c) t := by
  have still {u : Engine} (same : Kept e u) : Faithful traced (made ++ []) u := by
    simpa using h.kept same
  cases c with
  | step =>
    obtain ⟨⟨reply, u⟩, hs, hu⟩ := exists_of_map_ok hc
    cases hu
    exact h.step hs
  | run =>
    obtain ⟨⟨ended, u⟩, hrun, hu⟩ := exists_of_map_ok hc
    cases hu
    exact h.announce.stepUpTo hrun
  | runWithin checks =>
    obtain ⟨⟨ended, u⟩, hrun, hu⟩ := exists_of_map_ok hc
    cases hu
    exact h.announce.stepUpTo hrun
  | dispatch nr =>
    obtain ⟨⟨reply, u⟩, hd, hu⟩ := exists_of_map_ok hc
    cases hu
    exact still (dispatch_kept hd)
  | look | peek | len =>
    cases hc
    exact still rfl
  | push v =>
    cases hc
    exact still (answer_kept (.push v) e)
  | pop =>
    cases hc
    exact still (answer_kept .pop e)
  | fetch =>
    cases hc
    exact still (answer_kept .fetch e)
  | jump target =>
    cases hc
    exact still (answer_kept (.jump target) e)
  | halt =>
    cases hc
    exact still (answer_kept .halt e)

theorem calls {cs : List HostCall} {replies : List HostReply} (h : Faithful traced made e)
    (hcs : e.calls cs = .ok (replies, t)) : Faithful traced (made ++ e.stepsMade cs) t := by
  induction cs generalizing e made replies with
  | nil =>
    cases hcs
    simpa [stepsMade] using h
  | cons c rest ih =>
    cases hc : e.call c with
    | error a =>
      rw [calls_cons_of_error hc] at hcs
      cases hcs
    | ok p =>
      obtain ⟨answer, u⟩ := p
      rw [calls_cons_of_ok hc] at hcs
      obtain ⟨⟨others, v⟩, hrest, hv⟩ := exists_of_map_ok hcs
      cases hv
      rw [stepsMade, hc, ← List.append_assoc]
      exact ih (h.call hc) hrest

end Faithful

/-- The log is faithful to every history, and whether it is kept makes no difference to
one. -/
theorem log_records_and_is_not_read (s : Setup) (cs : List HostCall) :
    Alike SameButNotes ((create { s with trace := true }).calls cs)
      ((create { s with trace := false }).calls cs) ∧
    ∀ replies t, (create s).calls cs = .ok (replies, t) →
      Faithful s.trace ((create s).stepsMade cs) t := by
  constructor
  · apply SameButNotes.unseen.calls_alike
    exact ⟨_, false, rfl⟩
  · intro replies t h
    simpa using (Faithful.create s).calls h

def tracedFailure : Setup :=
  { nestedFailure with code := #[Builtin.Nr.pushInt, 7, 100], trace := true }

/-- The fault comes within the run; what the host does afterwards is not in the log. -/
def tracedHistory : List HostCall :=
  [.push (some (.integer 1)), .step, .look, .run, .pop, .jump 0, .step]

theorem tracedFailure_records :
    ∃ replies t, (create tracedFailure).calls tracedHistory = .ok (replies, t) ∧ t.steps = 1 ∧
      t.log.toList.filter (·.level = .debug) = [.executing 0 "PUSH_INT" 1, .executing 2 "op100" 2] ∧
      t.log.toList.filter Event.isClosing = [.faulted 2 "op100" (.stackOverflow 2)] := by
  have answered : ((create tracedFailure).calls tracedHistory).isOk = true := by decide +kernel
  have count : ((create tracedFailure).stepsMade tracedHistory).countP Stepped.succeeded = 1 := by
    decide +kernel
  have lines : ((create tracedFailure).stepsMade tracedHistory).filterMap Stepped.line? =
      [.executing 0 "PUSH_INT" 1, .executing 2 "op100" 2] := by
    decide +kernel
  have closing : ((create tracedFailure).stepsMade tracedHistory).filterMap Stepped.closing? =
      [.faulted 2 "op100" (.stackOverflow 2)] := by
    decide +kernel
  cases hcalls : (create tracedFailure).calls tracedHistory with
  | error a =>
    rw [hcalls] at answered
    cases answered
  | ok p =>
    have faithful := (log_records_and_is_not_read tracedFailure tracedHistory).2 p.1 p.2 hcalls
    refine ⟨p.1, p.2, rfl, ?_, ?_, ?_⟩
    · rw [faithful.steps_eq, count]
      rfl
    · rw [faithful.lines_eq, lines]
      rfl
    · rw [faithful.closing_eq, closing]

end Engine
end StackMachine
