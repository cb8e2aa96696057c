import StackMachine.Command.Run
import StackMachine.Proofs.FileTree
import StackMachine.Proofs.Program.Boundary
import StackMachine.Proofs.Rendering
import StackMachine.Proofs.Snapshot.Wire
/-! A run is reported as it ended. The exit code is that of the reply while the texts are
those of the engine, so they agree only because a reply says in which status the engine was
left. The stack is printed from the top down and dumped from the bottom up. The dump is the
last that is written, but for the message about it: a log in the same file grows behind it. -/
namespace StackMachine

inductive RunReply.Leaves : RunReply → Status → Prop where
  | finished : Leaves .finished .halted
  | failed (fault : Fault) (ip : Nat) : Leaves (.failed fault) (.faulted fault ip)
  | cancelled : Leaves .cancelled .running

namespace Engine

variable {e : Engine}

theorem step_leaves (hreg : e.registry = some Builtin.registry) (running : e.status = .running) :
    (∃ t, e.step = .ok (.continue, t) ∧ t.registry = some Builtin.registry ∧ t.status = .running) ∨
    (∃ t, e.step = .ok (.halt, t) ∧ t.status = .halted) ∨
    (∃ f ip t, e.step = .ok (.failed f, t) ∧ t.status = .faulted f ip) := by
  by_cases inside : e.ip < e.code.size
  · obtain ⟨log, reply, u, hu, hstep⟩ := step_settles hreg running inside
    have kept := dispatch_kept hu
    cases reply with
    | error f => exact .inr (.inr ⟨f, e.ip, _, hstep, rfl⟩)
    | ok _ =>
      rw [settle] at hstep
      rcases u.complete_eq e.code[e.ip] with hc | ⟨_, hc⟩
      · rw [hc] at hstep
        refine .inl ⟨_, hstep, ?_, ?_⟩
        · rw [kept]
          exact hreg
        · rw [kept]
          exact running
      · rw [hc] at hstep
        exact .inr (.inl ⟨_, hstep, rfl⟩)
  · exact .inr (.inr ⟨_, e.ip, _, step_of_le running (Nat.le_of_not_lt inside), rfl⟩)

theorem stepUpTo_leaves (hreg : e.registry = some Builtin.registry) (running : e.status = .running)
    (checks : Nat) : ∃ reply t, e.stepUpTo checks = .ok (reply, t) ∧ reply.Leaves t.status := by
  induction checks generalizing e with
  | zero => exact ⟨.cancelled, e, rfl, running ▸ .cancelled⟩
  | succ checks ih =>
    rw [stepUpTo]
    rcases step_leaves hreg running with
      ⟨t, hs, hreg', running'⟩ | ⟨t, hs, halted⟩ | ⟨f, ip, t, hs, faulted⟩
    · rw [hs]
      exact ih hreg' running'
    · rw [hs]
      exact ⟨.finished, t, rfl, halted ▸ .finished⟩
    · rw [hs]
      exact ⟨.failed f, t, rfl, faulted ▸ .failed f ip⟩

theorem runWithin_leaves (hreg : e.registry = some Builtin.registry) (running : e.status = .running)
    (checks : Nat) : ∃ reply t, e.runWithin checks = .ok (reply, t) ∧ reply.Leaves t.status := by
  obtain ⟨log, hlog⟩ := e.announce_eq
  rw [runWithin, hlog]
  exact stepUpTo_leaves (e := { e with log }) hreg running checks

end Engine

namespace Command

variable {s : Surroundings} {o : Options} {found : Option Manifest} {job : Job}

theorem makeJob_eq_execute {m : Manifest} {code : List Int32}
    (h : makeJob s m o code = .execute job) :
    ∃ setup, setup.registry = some Builtin.registry ∧
      job = { engine := .create setup, timeout := m.runTimeout.toOption.getD ⟨0⟩, dump := o.dump,
              files := s.files, cwd := s.cwd, color := s.color,
              outputFailure := s.outputFailure, log := m.logPath
              journal := s.journal m.verbosity } := by
  unfold makeJob at h
  dsimp only at h
  split at h
  case h_1 => cases h
  rename_i engine created
  cases h
  exact ⟨_, rfl, by rw [Engine.eq_create created]⟩

theorem exists_makeJob_of_plan (h : plan s = .execute job) :
    ∃ o found files code, parse {} s.args = .ok o ∧
      Manifest.find s.files s.cwd (Pathname.ofPlace s.cwd) = .ok found ∧
      openLog s (configure (found.getD .default) o) = .ok files ∧
      makeJob { s with files } (configure (found.getD .default) o) o code = .execute job := by
  unfold plan at h
  split at h
  case h_1 => cases h
  rename_i o flags
  split at h
  case h_1 => cases h
  rename_i found search
  dsimp only at h
  split at h
  case h_1 => cases h
  rename_i files opened
  split at h
  case h_1 => cases h
  rename_i planned carried
  cases h
  unfold carryOut at carried
  split at carried
  case isTrue => cases carried
  split at carried
  case h_1 => cases carried
  rename_i code name _
  split at carried
  case isTrue => cases carried
  exact ⟨o, found, files, code, flags, search, opened, carried⟩

theorem sameDirectories_openLog {m : Manifest} {files : FileTree} (h : openLog s m = .ok files) :
    s.files.SameDirectories files := by
  unfold openLog at h
  split at h
  case h_1 =>
    cases h
    exact .refl s.files
  case h_2 => exact FileTree.sameDirectories_append h

theorem plan_eq_execute (h : plan s = .execute job) (flags : parse {} s.args = .ok o)
    (search : Manifest.find s.files s.cwd (Pathname.ofPlace s.cwd) = .ok found) :
    ∃ setup timeout files, setup.registry = some Builtin.registry ∧
      s.files.SameDirectories files ∧
      job = { engine := .create setup, timeout, dump := o.dump, files, cwd := s.cwd,
              color := s.color, outputFailure := s.outputFailure
              log := (configure (found.getD .default) o).logPath
              journal := s.journal (configure (found.getD .default) o).verbosity } := by
  obtain ⟨o', found', files, code, flags', search', opened, made⟩ := exists_makeJob_of_plan h
  cases flags.symm.trans flags'
  cases search.symm.trans search'
  obtain ⟨setup, builtin, hjob⟩ := makeJob_eq_execute made
  exact ⟨setup, _, files, builtin, sameDirectories_openLog opened, hjob⟩

theorem Job.run_leaves (job : Job) (hreg : job.engine.registry = some Builtin.registry)
    (running : job.engine.status = .running) (patience : Duration → Option Nat) :
    ∃ reply e, job.run patience = .ok (reply, e) ∧ reply.Leaves e.status := by
  unfold run
  dsimp only
  split
  case h_1 checks _ => exact Engine.runWithin_leaves hreg running checks
  case h_2 => exact Engine.runWithin_leaves hreg running Engine.horizon

/-! The texts. -/

/-- The slots of the stack from the top down: each shows the value as many places below the
top. -/
def TopDown (stack : Stack) (slots : List SlotSnapshot) : Prop :=
  slots.length = stack.size ∧
    ∀ i < stack.size, ∃ v slot, stack.peek i = .ok v ∧ slots[i]? = some slot ∧
      slot = ⟨v.kind.name, v.text⟩ ∧ v.ShownAs slot

theorem topDown_reverse (stack : Stack) :
    TopDown stack (stack.values.map Value.snapshot).reverse := by
  refine ⟨by simp [Stack.size_eq_length], fun i hi => ?_⟩
  obtain ⟨v, hpeek, hvalue⟩ := Stack.peek_of_lt ⟨Int.natCast_nonneg i, Int.ofNat_lt.mpr hi⟩
  refine ⟨v, v.snapshot, hpeek, ?_, rfl, v.shownAs_snapshot⟩
  rw [← List.map_reverse, List.getElem?_map]
  exact congrArg (Option.map Value.snapshot) hvalue

theorem TopDown.unique {stack : Stack} {slots others : List SlotSnapshot}
    (h : TopDown stack slots) (h' : TopDown stack others) : slots = others := by
  refine List.ext_getElem? fun i => ?_
  by_cases hi : i < stack.size
  · obtain ⟨v, slot, hpeek, hslot, rfl, -⟩ := h.2 i hi
    obtain ⟨w, other, hpeek', hother, rfl, -⟩ := h'.2 i hi
    cases hpeek.symm.trans hpeek'
    rw [hslot, hother]
  · rw [List.getElem?_eq_none (by rw [h.1]; exact Nat.le_of_not_lt hi),
      List.getElem?_eq_none (by rw [h'.1]; exact Nat.le_of_not_lt hi)]

def slotLine (slot : SlotSnapshot) : String :=
  "  " ++ (slot.kind ++ String.ofList (List.replicate (9 - slot.kind.length) ' ')) ++ " " ++
    slot.repr ++ "\n"

def listing (slots : List SlotSnapshot) : String :=
  if slots.isEmpty then "stack: empty\n"
  else "stack (top first):\n" ++ String.join (slots.map slotLine)

theorem stackText_eq (stack : Stack) :
    stackText stack = listing (stack.values.map Value.snapshot).reverse := by
  unfold stackText listing
  rw [← List.map_reverse, List.map_map, List.isEmpty_map, List.isEmpty_reverse]
  rfl

def stateName : Status → String
  | .ready => "ready"
  | .running => "running"
  | .halted => "halted"
  | .faulted _ _ => "faulted"

theorem name_eq_stateName (status : Status) : status.name = stateName status := by
  cases status <;> rfl

def shade : Status → String
  | .halted => "32"
  | .faulted _ _ => "31"
  | .ready | .running => "33"

/-- The name in capitals, on a terminal between escapes. -/
def label (color : Bool) (status : Status) : String :=
  if color then "\x1b[" ++ shade status ++ "m" ++ (stateName status).toUpper ++ "\x1b[0m"
  else (stateName status).toUpper

theorem paint_eq_label (color : Bool) (status : Status) : paint color status = label color status := by
  cases color <;> cases status <;> rfl

/-- The line on the error stream that goes with the status of an engine. -/
def notice (e : Engine) : String :=
  match e.status with
  | .halted => ""
  | .faulted fault _ => "Fault at ip=" ++ toString e.faultIp ++ ": " ++ fault.message ++ "\n"
  | .ready | .running => "Stopped at ip=" ++ toString e.ip ++ ": context deadline exceeded\n"

section Replies

variable {reply : RunReply} {e : Engine} (leaves : reply.Leaves e.status)
include leaves

theorem complaint_eq_notice : complaint reply e = notice e := by
  unfold complaint notice Engine.faultIp
  generalize e.status = status at leaves ⊢
  cases leaves with
  | finished => rfl
  | failed fault ip => rfl
  | cancelled =>
    change _ ++ ": " ++ "context deadline exceeded" ++ "\n" = _
    rw [String.append_assoc, String.append_assoc]
    rfl

theorem exitCode_eq_zero_iff : exitCode reply = 0 ↔ e.status = .halted := by
  generalize e.status = status at leaves ⊢
  cases leaves with
  | finished => simp [exitCode]
  | failed fault ip => simp [exitCode]
  | cancelled => simp [exitCode]

theorem running_of_cancelled (h : reply = .cancelled) : e.status = .running := by
  generalize e.status = status at leaves ⊢
  cases leaves with
  | finished => cases h
  | failed fault ip => cases h
  | cancelled => rfl

end Replies

/-! The files. -/

/-- There is a log, and it is kept in the file at `place`. -/
def LogsTo (files : FileTree) (cwd : Pathname.Place) (log : Option String)
    (place : Pathname.Place) : Prop :=
  ∃ path, log = some path ∧ files.target cwd path = .ok place

theorem logsTo_iff {t u : FileTree} (h : t.SameDirectories u) {cwd : Pathname.Place}
    {log : Option String} {place : Pathname.Place} : LogsTo t cwd log place ↔ LogsTo u cwd log place :=
  exists_congr fun _ => and_congr_right fun _ => h.target_iff

def wrote (e : Engine) (dump : String) : Message :=
  (.info, "wrote snapshot of run " ++ e.runId ++ " to " ++ dump)

namespace Job

variable {e : Engine} {files : FileTree} {place : Pathname.Place} {content : List UInt8}
  {messages : List Message}

theorem sameDirectories_note (job : Job) (files : FileTree) (messages : List Message) :
    files.SameDirectories (job.note files messages) := by
  unfold note
  split
  case h_1 => exact .refl files
  case h_2 path _ =>
    cases grown : files.append job.cwd path (job.journal messages) with
    | error fault => exact .refl files
    | ok after => exact FileTree.sameDirectories_append grown

theorem entry?_note_of_elsewhere (elsewhere : ¬ LogsTo files job.cwd job.log place) :
    FileTree.entry? (job.note files messages) place = files.entry? place := by
  unfold note
  split
  case h_1 => rfl
  case h_2 path log =>
    rw [FileTree.append]
    cases target : files.target job.cwd path with
    | error cause => rfl
    | ok q =>
      have other : place ≠ q := by
        rintro rfl
        exact elsewhere ⟨path, log, target⟩
      exact FileTree.entry?_put_of_ne _ _ other

theorem entry?_note_of_logsTo (logs : LogsTo files job.cwd job.log place)
    (held : files.entry? place = some (.file content)) :
    FileTree.entry? (job.note files messages) place = some (.file (content ++ job.journal messages)) := by
  obtain ⟨path, log, target⟩ := logs
  have before : files.contentAt place = content := by rw [FileTree.contentAt, held]
  have grown : files.append job.cwd path (job.journal messages) =
      .ok (files.put place (.file (content ++ job.journal messages))) := by
    simp only [FileTree.append, target, before]
  unfold note
  rw [log]
  dsimp only
  rw [grown]
  exact FileTree.entry?_put_self _ _ (FileTree.vacant_of_target target).1

theorem unwritable_of_warning (h : (job.writeDump files e).1 ≠ "") :
    job.dump ≠ "" ∧ ∀ place, files.target job.cwd job.dump ≠ .ok place := by
  unfold writeDump at h
  split at h
  case isTrue => exact absurd rfl h
  case isFalse asked =>
    split at h
    case h_1 failed =>
      refine ⟨by simpa using asked, fun place target => ?_⟩
      rw [FileTree.write, target] at failed
      cases failed
    case h_2 => exact absurd rfl h

def noted (job : Job) (e : Engine) : FileTree :=
  job.note job.files (e.log.toList.map fun event => (event.level, event.message e.runId))

theorem sameDirectories_noted (job : Job) (e : Engine) :
    job.files.SameDirectories (job.noted e) := job.sameDirectories_note _ _

theorem output_finish (job : Job) (reply : RunReply) (e : Engine) :
    (job.finish (.ok (reply, e))).output = shown job.outputFailure (summary job.color e) := rfl

theorem errors_finish (job : Job) (reply : RunReply) (e : Engine) :
    ∃ warning, (job.finish (.ok (reply, e))).errors = warning ++ complaint reply e ∧
      (warning ≠ "" → job.dump ≠ "" ∧ ∀ place, job.files.target job.cwd job.dump ≠ .ok place) := by
  refine ⟨(job.writeDump (job.noted e) e).1, rfl, fun warned => ?_⟩
  obtain ⟨asked, unwritable⟩ := unwritable_of_warning warned
  exact ⟨asked, fun place target => unwritable place ((job.sameDirectories_noted e).target target)⟩

section Dump

variable (asked : job.dump ≠ "") (target : files.target job.cwd job.dump = .ok place)

include asked target

theorem writeDump_eq : job.writeDump files e =
    ("", files.put place (.file e.snapshot.encode), [wrote e job.dump]) := by
  unfold writeDump
  rw [if_neg (by simpa using asked), FileTree.write, target]
  rfl

/-- What the dump holds in the end: the snapshot, and behind it what a log there grew by. -/
theorem read_note_writeDump :
    (¬ LogsTo files job.cwd job.log place →
      (job.note (job.writeDump files e).2.1 (job.writeDump files e).2.2).read job.cwd job.dump =
        .ok e.snapshot.encode) ∧
    (LogsTo files job.cwd job.log place →
      (job.note (job.writeDump files e).2.1 (job.writeDump files e).2.2).read job.cwd job.dump =
        .ok (e.snapshot.encode ++ job.journal [wrote e job.dump])) := by
  rw [writeDump_eq asked target]
  obtain ⟨nonroot, vacant⟩ := FileTree.vacant_of_target target
  have held := FileTree.entry?_put_self files (.file e.snapshot.encode) nonroot
  have same := FileTree.SameDirectories.put vacant e.snapshot.encode
  have reached := (same.trans (job.sameDirectories_note _ [wrote e job.dump])).target target
  constructor
  · intro elsewhere
    refine FileTree.read_of_target reached ?_
    rw [entry?_note_of_elsewhere ((logsTo_iff same).not.mp elsewhere), held]
  · intro logs
    exact FileTree.read_of_target reached (entry?_note_of_logsTo ((logsTo_iff same).mp logs) held)

end Dump

theorem read_finish (reply : RunReply) (asked : job.dump ≠ "")
    (target : job.files.target job.cwd job.dump = .ok place) :
    (¬ LogsTo job.files job.cwd job.log place →
      (job.finish (.ok (reply, e))).files.read job.cwd job.dump = .ok e.snapshot.encode) ∧
    (LogsTo job.files job.cwd job.log place →
      (job.finish (.ok (reply, e))).files.read job.cwd job.dump =
        .ok (e.snapshot.encode ++ job.journal [wrote e job.dump])) := by
  have same := job.sameDirectories_noted e
  have left : (job.finish (.ok (reply, e))).files =
      job.note (job.writeDump (job.noted e) e).2.1 (job.writeDump (job.noted e) e).2.2 := rfl
  rw [left, logsTo_iff same]
  exact read_note_writeDump asked (same.target target)

end Job

/-- What `outcome` says of a run under the manifest `m` that ended in `e` and was asked to
`dump` its snapshot. -/
structure Reports (s : Surroundings) (m : Manifest) (dump : String) (reply : RunReply)
    (e : Engine) (slots : List SlotSnapshot) (outcome : Outcome) : Prop where
  exit : ∃ code, outcome.exit = .ok code ∧ (code = 0 ↔ e.status = .halted)
  stopped : reply = .cancelled → e.status = .running
  errors : ∃ warning, outcome.errors = warning ++ notice e ∧
    (warning ≠ "" → dump ≠ "" ∧ ∀ place, s.files.target s.cwd dump ≠ .ok place)
  output : s.outputFailure = none → outcome.output =
    label s.color e.status ++ " after " ++ toString e.steps.toNat ++ " steps\n" ++ listing slots
  dumped : dump ≠ "" → ∀ place, s.files.target s.cwd dump = .ok place →
    ¬ LogsTo s.files s.cwd m.logPath place → e.snapshot.Portable →
    ∃ bytes snapshot, outcome.files.read s.cwd dump = .ok bytes ∧
      Snapshot.decode? bytes = some snapshot ∧ snapshot.state = stateName e.status ∧
      snapshot.steps = e.steps ∧ snapshot.stack = slots.reverse
  logged : dump ≠ "" → ∀ place, s.files.target s.cwd dump = .ok place →
    LogsTo s.files s.cwd m.logPath place → ∃ rest, rest = s.journal m.verbosity [wrote e dump] ∧
      outcome.files.read s.cwd dump = .ok (e.snapshot.encode ++ rest) ∧
      (e.snapshot.Portable → rest ≠ [] → Snapshot.decode? (e.snapshot.encode ++ rest) = none)

/-- A value of every kind and an opcode that is not there, with a snapshot asked for. -/
def strayOpcode : Surroundings where
  args := ["-dump", "out.cbor", "-e", "1 5 8 1 10 9 1 -3 10 32 99"]
  files := { entries := [(["work"], .directory)] }
  cwd := ["work"]

def strayFlags : Options := { dump := "out.cbor", inline := "1 5 8 1 10 9 1 -3 10 32 99" }

def Plan.faultsWith (slots : List SlotSnapshot) : Plan → Bool
  | .done _ => false
  | .execute job =>
    match job.run fun _ => none with
    | .ok (_, e) => decide (e.snapshot.Portable ∧ stateName e.status = "faulted" ∧
        e.stack.values.map Value.snapshot = slots)
    | .error _ => false

def strayReport : String :=
  "FAULTED after 4 steps\nstack (top first):\n  OpcodeRef &32\n" ++
  "  Rational  -0.33333333333333333334\n  String    \"\\n\"\n  Integer   5\n"

def straySlots : List SlotSnapshot :=
  [⟨"Integer", "5"⟩, ⟨"String", "\"\\n\""⟩, ⟨"Rational", "-0.33333333333333333334"⟩,
    ⟨"OpcodeRef", "&32"⟩]

end Command
end StackMachine
