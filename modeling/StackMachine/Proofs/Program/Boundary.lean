import StackMachine.Proofs.Builtin.Arity
import StackMachine.Proofs.Program.Row
/-! Where an instruction ends, by the listing and by the engine. The listing takes
the length from the columns of the table; the engine goes as far as the operation
fetches. Both agree, and an instruction that the listing finds cut short fails. -/
namespace StackMachine

variable {α ε : Type} {dispatch : Int32 → Engine → Except ε (Except Fault Unit × Engine)}
  {e t : Engine}

/-- Cells that are still to be read before and after a call; there are no jumps. -/
inductive Call.Reads : Call → Nat → Nat → Prop where
  | fetch (n : Nat) : Reads .fetch (n + 1) n
  | push (v : Option Value) (n : Nat) : Reads (.push v) n n
  | pop (n : Nat) : Reads .pop n n
  | peek (depth : Int) (n : Nat) : Reads (.peek depth) n n
  | len (n : Nat) : Reads .len n n
  | halt (n : Nat) : Reads .halt n n

abbrev Routine.Reads (n : Nat) (r : Routine α) : Prop := r.Follows Call.Reads (fun _ => True) n 0

namespace Engine

structure Facing (code : Array Int32) (stop n : Nat) (e : Engine) : Prop where
  code_eq : e.code = code
  ip_eq : e.ip + n = stop
  ip_le : e.ip ≤ code.size

theorem answer_facing {code : Array Int32} {stop : Nat} (c : Call) (i j : Nat) (e : Engine)
    (reads : c.Reads i j) (h : e.Facing code stop i) :
    (∀ f, (Machine.answer c e).1 = .error f → True) ∧
    ∀ a, (Machine.answer c e).1 = .ok a → (Machine.answer c e).2.Facing code stop j := by
  refine ⟨fun _ _ => trivial, ?_⟩
  cases reads with
  | fetch n =>
    intro a ha
    change e.fetch.1 = _ at ha
    change Facing code stop j e.fetch.2
    by_cases inside : e.ip < e.code.size
    · have hip := h.ip_eq
      have hcode := h.code_eq
      rw [fetch_of_lt inside]
      exact ⟨hcode, by simp only; omega, by simp only; rw [← hcode]; omega⟩
    · rw [fetch_of_le (Nat.le_of_not_lt inside)] at ha
      cases ha
  | push v n => exact fun _ _ => { h with }
  | pop n => exact fun _ _ => { h with }
  | peek depth n => exact fun _ _ => h
  | len n => exact fun _ _ => h
  | halt n => exact fun _ _ => { h with }

theorem ip_of_reads {n : Nat} {r : Routine α} {a : α} (h : r.Reads n) (inside : e.ip ≤ e.code.size)
    (hrun : r.run dispatch e = .ok (.ok a, t)) :
    t.ip = e.ip + n ∧ e.ip + n ≤ e.code.size := by
  have start : e.Facing e.code (e.ip + n) n := ⟨rfl, rfl, inside⟩
  obtain ⟨reply, u, hu, _, held⟩ := h.run answer_facing dispatch start
  rw [hrun] at hu
  cases hu
  have last := held a rfl
  have hip := last.ip_eq
  have hle := last.ip_le
  omega

theorem fetched_of_run {β : Type} {next : Int32 → Routine β} {b : β}
    (h : (Routine.fetch >>= next).run dispatch e = .ok (.ok b, t)) :
    ∃ cell, e.code[e.ip]? = some cell ∧
      (next cell).run dispatch { e with ip := e.ip + 1 } = .ok (.ok b, t) := by
  obtain ⟨cell, u, hc, hnext⟩ := Routine.exists_answer_of_run h
  change e.fetch = _ at hc
  by_cases inside : e.ip < e.code.size
  · rw [fetch_of_lt inside] at hc
    cases hc
    exact ⟨_, Array.getElem?_eq_getElem inside, hnext⟩
  · rw [fetch_of_le (Nat.le_of_not_lt inside)] at hc
    cases hc

theorem popped_of_run {β : Type} {next : Value → Routine β} {b : β}
    (h : (Routine.pop >>= next).run dispatch e = .ok (.ok b, t)) :
    ∃ below v, e.stack.values = below ++ [v] ∧
      (next v).run dispatch { e with stack := e.stack.dropping v } = .ok (.ok b, t) := by
  obtain ⟨v, u, hc, hnext⟩ := Routine.exists_answer_of_run h
  rcases e.answer_pop_cases with ⟨_, hpop⟩ | ⟨w, top, hpop⟩
  · rw [hpop] at hc
    cases hc
  · rw [hpop] at hc
    cases hc
    exact ⟨_, v, top, hnext⟩

theorem ip_of_jump {target : Int} {a : Unit}
    (h : (Routine.jump target).run dispatch e = .ok (.ok a, t)) : (t.ip : Int) = target := by
  rw [Routine.jump, Routine.run_perform] at h
  have hj : e.jump target = (.ok a, t) := Except.ok.inj h
  unfold jump at hj
  split at hj
  next inside =>
    cases hj
    exact Int.toNat_of_nonneg inside.1
  next => cases hj

end Engine

namespace Builtin

open Routine

theorem reads_push (v : Value) : (push v).Reads 0 := follows_perform (.push _ 0)

theorem reads_pop (n : Nat) : pop.Follows Call.Reads (fun _ => True) n n :=
  follows_perform (.pop n)

theorem reads_fetch (n : Nat) : fetch.Follows Call.Reads (fun _ => True) (n + 1) n :=
  follows_perform (.fetch n)

theorem reads_ofExcept (x : Except Fault α) : (ofExcept x).Reads 0 :=
  follows_ofExcept fun _ _ => trivial

theorem reads_popPair : popPair.Reads 0 :=
  (reads_pop 0).bind fun _ => (reads_pop 0).bind fun _ => rfl

theorem reads_readChars (count offset : Nat) (text : String) :
    (readChars count offset text).Reads count := by
  induction count generalizing offset text with
  | zero => exact rfl
  | succ count ih =>
    unfold readChars
    refine (reads_fetch count).bind fun cell => ?_
    cases charOf? cell with
    | none => trivial
    | some c => exact ih _ _

theorem reads_pushRational : pushRational.Reads 2 := by
  refine (reads_fetch 1).bind fun num => (reads_fetch 0).bind fun den => ?_
  split
  · trivial
  · exact reads_push _

def Nr.jumps : List Int32 := [jump, jumpIfTrue, jumpIfFalse]

theorem Form.reads {nr : Int32} {params results : UInt32} {immediates : Int} {r : Routine Unit}
    (h : Form nr params results immediates r) (plain : nr ≠ Nr.invoke) (straight : nr ∉ Nr.jumps)
    (fixed : nr ≠ Nr.pushString) : 0 ≤ immediates ∧ r.Reads immediates.toNat := by
  cases h with
  | halt => exact ⟨by decide, follows_perform (.halt 0)⟩
  | pushInt => exact ⟨by decide, (reads_fetch 0).bind fun _ => reads_push _⟩
  | unary =>
    exact ⟨by decide, (reads_pop 0).bind fun _ => (reads_ofExcept _).bind fun _ => reads_push _⟩
  | binary =>
    exact ⟨by decide, reads_popPair.bind fun _ => (reads_ofExcept _).bind fun _ => reads_push _⟩
  | pushString => exact absurd rfl fixed
  | pushRational => exact ⟨by decide, reads_pushRational⟩
  | pushOpcode => exact ⟨by decide, (reads_fetch 0).bind fun _ => reads_push _⟩
  | discard => exact ⟨by decide, (reads_pop 0).bind fun _ => rfl⟩
  | dup => exact ⟨by decide, Follows.bind (j := 0) (follows_perform (.peek 0 0)) fun _ => reads_push _⟩
  | swap =>
    exact ⟨by decide, reads_popPair.bind fun _ => (reads_push _).bind fun _ => reads_push _⟩
  | jump => exact absurd (by decide) straight
  | jumpIfTrue => exact absurd (by decide) straight
  | jumpIfFalse => exact absurd (by decide) straight
  | invoke => exact absurd rfl plain
  | nop => exact ⟨by decide, rfl⟩
  | pushWide =>
    exact ⟨by decide, (reads_fetch 1).bind fun _ => (reads_fetch 0).bind fun _ => reads_push _⟩

/-- The opcode is a jump, and its condition holds if it has one. -/
def Jumps (nr : Int32) (values : List Value) : Prop :=
  nr = Nr.jump ∨ ∃ below n, values = below ++ [.integer n] ∧
    (nr = Nr.jumpIfTrue ∧ n ≠ 0 ∨ nr = Nr.jumpIfFalse ∧ n = 0)

theorem ip_of_pushString (h : pushString.run dispatch e = .ok (.ok (), t)) :
    ∃ count, e.code[e.ip]? = some count ∧ 0 ≤ count ∧
      t.ip = e.ip + 1 + count.toInt.toNat ∧ t.ip ≤ e.code.size := by
  obtain ⟨count, hcell, hrest⟩ := Engine.fetched_of_run h
  have hlt : e.ip < e.code.size := (Array.getElem?_eq_some_iff.mp hcell).1
  split at hrest
  next => cases hrest
  next nonneg =>
    have reads : (readChars count.toInt.toNat 0 "" >>= fun text =>
        Routine.push (.ofBytes (Text.utf8 text))).Reads count.toInt.toNat :=
      (reads_readChars _ _ _).bind fun _ => reads_push _
    obtain ⟨hip, hle⟩ := Engine.ip_of_reads reads (e := { e with ip := e.ip + 1 }) hlt hrest
    exact ⟨count, hcell, Int32.not_lt.mp nonneg, hip, hip ▸ hle⟩

theorem ip_of_jumpIf {wanted : Bool} (h : (jumpIf wanted).run dispatch e = .ok (.ok (), t)) :
    ∃ target below n, e.code[e.ip]? = some target ∧ e.stack.values = below ++ [.integer n] ∧
      if (n != 0) = wanted then (t.ip : Int) = target.toInt else t.ip = e.ip + 1 := by
  obtain ⟨target, hcell, hrest⟩ := Engine.fetched_of_run h
  obtain ⟨below, v, top, hrest⟩ := Engine.popped_of_run hrest
  cases v with
  | string s => cases hrest
  | rational r => cases hrest
  | opcodeRef nr => cases hrest
  | integer n =>
    refine ⟨target, below, n, hcell, top, ?_⟩
    change (if (n != 0) == wanted then Routine.jump target.toInt else .done ()).run dispatch _ = _
      at hrest
    split
    next taken =>
      rw [if_pos (beq_iff_eq.mpr taken)] at hrest
      exact Engine.ip_of_jump hrest
    next missed =>
      rw [if_neg (fun h => missed (beq_iff_eq.mp h))] at hrest
      cases hrest
      rfl

/-- An opcode that succeeds has gone as far as its row says, unless it jumped. -/
structure EndsAt (place : Nat) (nr : Int32) (e t : Engine) (row : Program.Row) : Prop where
  row_eq : Program.rowAt registry place nr (e.code.toList.drop e.ip) = .ok row
  complete : row.operands.isTruncated = false
  jumped : Jumps nr e.stack.values →
    ∃ target, e.code[e.ip]? = some target ∧ (t.ip : Int) = target.toInt
  passed : ¬ Jumps nr e.stack.values → t.ip + 1 = e.ip + row.length

section EndsAt

variable {nr : Int32} {held : Nat} {r : Routine Unit} {d : Descriptor} {place : Nat}

theorem endsAt_of_fixed (found : registry.find? nr = some d) (fixed : 0 ≤ d.immediates)
    (enough : e.ip + d.immediates.toNat ≤ e.code.size)
    (jumped : Jumps nr e.stack.values →
      ∃ target, e.code[e.ip]? = some target ∧ (t.ip : Int) = target.toInt)
    (passed : ¬ Jumps nr e.stack.values → t.ip = e.ip + d.immediates.toNat) :
    ∃ row, EndsAt place nr e t row := by
  obtain ⟨row, hrow, truncated, length⟩ :=
    exists_row_of_fixed found fixed place (e.code.toList.drop e.ip)
  rw [List.length_drop, Array.length_toList] at truncated length
  have hlength := length (by omega)
  refine ⟨row, hrow, ?_, jumped, ?_⟩
  · cases ht : row.operands.isTruncated with
    | false => rfl
    | true =>
      have := truncated.mp ht
      omega
  · intro straight
    have := passed straight
    omega

theorem endsAt_of_pushString (h : pushString.run dispatch e = .ok (.ok (), t)) :
    ∃ row, EndsAt place Nr.pushString e t row := by
  obtain ⟨count, hcell, nonneg, hip, hle⟩ := ip_of_pushString h
  have hlt : e.ip < e.code.size := (Array.getElem?_eq_some_iff.mp hcell).1
  have fits : 0 ≤ count ∧ count.toInt ≤ (e.code.toList.drop (e.ip + 1)).length := by
    refine ⟨nonneg, ?_⟩
    rw [List.length_drop, Array.length_toList]
    omega
  obtain ⟨row, hrow, complete, hlength⟩ := rowAt_pushString fits place
  rw [← drop_of_getElem? hcell] at hrow
  refine ⟨row, hrow, complete, ?_, ?_⟩
  · rintro (hnr | ⟨_, _, _, ⟨hnr, _⟩ | ⟨hnr, _⟩⟩)
    all_goals exact absurd hnr (by decide)
  · intro _
    omega

theorem not_jumps_of_other (other : nr ∉ Nr.jumps) (values : List Value) : ¬ Jumps nr values := by
  rintro (rfl | ⟨_, _, _, ⟨rfl, _⟩ | ⟨rfl, _⟩⟩)
  all_goals exact absurd (by decide) other

theorem jumps_iff_of_top {below : List Value} {n : Int64} {wanted : Bool} :
    Jumps (if wanted then Nr.jumpIfTrue else Nr.jumpIfFalse) (below ++ [.integer n]) ↔
      (n != 0) = wanted := by
  constructor
  · rintro (hnr | ⟨below', m, hvalues, hnr⟩)
    · cases wanted <;> exact absurd hnr (by decide)
    · cases (List.append_inj_right' hvalues rfl : [Value.integer n] = [.integer m])
      rcases hnr with ⟨hnr, hn⟩ | ⟨hnr, hn⟩
      · cases wanted with
        | false => exact absurd hnr (by decide)
        | true => simpa using hn
      · cases wanted with
        | true => exact absurd hnr (by decide)
        | false => simpa using hn
  · intro h
    refine .inr ⟨below, n, rfl, ?_⟩
    cases wanted with
    | true => exact .inl ⟨rfl, by simpa using h⟩
    | false => exact .inr ⟨rfl, by simpa using h⟩

theorem endsAt_of_jump (h : jump.run dispatch e = .ok (.ok (), t)) :
    ∃ row, EndsAt place Nr.jump e t row := by
  obtain ⟨target, hcell, hrest⟩ := Engine.fetched_of_run h
  have hlt : e.ip < e.code.size := (Array.getElem?_eq_some_iff.mp hcell).1
  refine endsAt_of_fixed (find?_entry rfl rfl) (by decide) hlt ?_ ?_
  · exact fun _ => ⟨target, hcell, Engine.ip_of_jump hrest⟩
  · exact fun straight => absurd (.inl rfl) straight

theorem endsAt_of_jumpIf (wanted : Bool) (h : (jumpIf wanted).run dispatch e = .ok (.ok (), t))
    (found : registry.find? (if wanted then Nr.jumpIfTrue else Nr.jumpIfFalse) = some d)
    (single : d.immediates = 1) :
    ∃ row, EndsAt place (if wanted then Nr.jumpIfTrue else Nr.jumpIfFalse) e t row := by
  obtain ⟨target, below, n, hcell, top, hip⟩ := ip_of_jumpIf h
  have hlt : e.ip < e.code.size := (Array.getElem?_eq_some_iff.mp hcell).1
  refine endsAt_of_fixed found (by omega) (by rw [single]; exact hlt) ?_ ?_
  · intro taken
    rw [top, jumps_iff_of_top] at taken
    rw [if_pos taken] at hip
    exact ⟨target, hcell, hip⟩
  · intro missed
    rw [top, jumps_iff_of_top] at missed
    rw [if_neg missed] at hip
    rw [hip, single]
    rfl

theorem endsAt_of_run (resolved : registry.resolve nr held = .ok r) (plain : nr ≠ Nr.invoke)
    (inside : e.ip ≤ e.code.size) (h : r.run dispatch e = .ok (.ok (), t)) :
    ∃ row, EndsAt place nr e t row := by
  by_cases jumps : nr ∈ Nr.jumps
  · simp only [Nr.jumps, List.mem_cons, List.not_mem_nil, or_false] at jumps
    rcases jumps with rfl | rfl | rfl
    · cases eq_of_resolve resolved rfl rfl rfl
      exact endsAt_of_jump h
    · cases eq_of_resolve resolved rfl rfl rfl
      exact endsAt_of_jumpIf true h (find?_entry rfl rfl) rfl
    · cases eq_of_resolve resolved rfl rfl rfl
      exact endsAt_of_jumpIf false h (find?_entry rfl rfl) rfl
  · by_cases text : nr = Nr.pushString
    · cases text
      cases eq_of_resolve resolved rfl rfl rfl
      exact endsAt_of_pushString h
    · obtain ⟨d, hd, hnr, _, _, form⟩ := resolve_form resolved
      obtain ⟨fixed, reads⟩ := form.reads plain jumps text
      obtain ⟨hip, hle⟩ := Engine.ip_of_reads reads inside h
      have found := find?_of_mem hd
      rw [hnr] at found
      have straight := not_jumps_of_other jumps e.stack.values
      exact endsAt_of_fixed found fixed hle (fun taken => absurd taken straight) fun _ => hip

end EndsAt
end Builtin

namespace Engine

theorem dispatch_ok (hreg : e.registry = some Builtin.registry) (nr : Int32) :
    ∃ reply t, e.dispatch nr = .ok (reply, t) := by
  rw [dispatch_eq hreg]
  refine Builtin.dispatch_returns nr ?_
  unfold depth
  omega

theorem endsAt_of_dispatch {nr : Int32} (hreg : e.registry = some Builtin.registry)
    (plain : nr ≠ Builtin.Nr.invoke) (inside : e.ip ≤ e.code.size)
    (h : e.dispatch nr = .ok (.ok (), t)) (place : Nat) : ∃ row, Builtin.EndsAt place nr e t row := by
  cases resolved : Builtin.registry.resolve nr e.stack.size with
  | error f =>
    rw [dispatch_of_resolve_error hreg resolved] at h
    cases h
  | ok r =>
    rw [dispatch_of_resolve_ok hreg resolved] at h
    exact Builtin.endsAt_of_run resolved plain inside h

theorem step_settles (hreg : e.registry = some Builtin.registry) (running : e.status = .running)
    (inside : e.ip < e.code.size) :
    ∃ log reply u, Engine.dispatch e.code[e.ip]
        { e with ip := e.ip + 1, current := some e.code[e.ip], halting := false, log } =
          .ok (reply, u) ∧
      e.step = .ok (settle e.ip e.code[e.ip] (reply, u)) := by
  obtain ⟨log, hlog⟩ := enter_eq { e with ip := e.ip + 1 } e.ip e.code[e.ip]
  obtain ⟨reply, u, hu⟩ := dispatch_ok (e := { e with
    ip := e.ip + 1, current := some e.code[e.ip], halting := false, log }) hreg e.code[e.ip]
  refine ⟨log, reply, u, hu, ?_⟩
  rw [step_of_lt running inside, execute, hlog, hu]
  rfl

theorem step_cases (hreg : e.registry = some Builtin.registry) (running : e.status = .running)
    (inside : e.ip < e.code.size) :
    (∃ f t, e.step = .ok (.failed f, t)) ∨
    ∃ log u reply t, Engine.dispatch e.code[e.ip]
        { e with ip := e.ip + 1, current := some e.code[e.ip], halting := false, log } =
          .ok (.ok (), u) ∧
      e.step = .ok (reply, t) ∧ t.ip = u.ip := by
  obtain ⟨log, reply, u, hu, hstep⟩ := step_settles hreg running inside
  cases reply with
  | error f => exact .inl ⟨f, _, hstep⟩
  | ok _ =>
    refine .inr ⟨log, u, _, _, hu, hstep, ?_⟩
    change (u.complete e.code[e.ip]).2.ip = u.ip
    rcases u.complete_eq e.code[e.ip] with h | ⟨log', h⟩
    · rw [h]
    · rw [h]

theorem complete_of_dispatch {nr : Int32} {place : Nat} {row : Program.Row}
    (hreg : e.registry = some Builtin.registry) (inside : e.ip ≤ e.code.size)
    (h : e.dispatch nr = .ok (.ok (), t))
    (hrow : Program.rowAt Builtin.registry place nr (e.code.toList.drop e.ip) = .ok row) :
    row.operands.isTruncated = false := by
  by_cases plain : nr = Builtin.Nr.invoke
  · cases plain
    cases hrow.symm.trans (Program.rowAt_of_plain (Builtin.find?_entry rfl rfl) rfl)
    rfl
  · obtain ⟨row', ends⟩ := endsAt_of_dispatch hreg plain inside h place
    cases hrow.symm.trans ends.row_eq
    exact ends.complete

theorem instructionAt_set {code : Array Int32} {place : Nat} (h : place < code.size) (nr : Int32) :
    Program.instructionAt Builtin.registry (code.set place nr) place (by simpa) =
      Program.rowAt Builtin.registry place nr (code.toList.drop (place + 1)) := by
  unfold Program.instructionAt
  rw [Array.getElem_set_self, Array.toList_set, List.drop_set_of_lt (Nat.lt_succ_self place)]

/-- A step of a running engine over the builtin opcodes that succeeds ends where the
row of its instruction does, or at the target if it jumped. An instruction that the
listing marks as cut short fails. Through references INVOKE is the opcode it ends up
with, and goes as far as the row with that opcode in its place. -/
theorem steps_end_at_boundaries (s : Setup) (builtin : s.registry = some Builtin.registry)
    {e : Engine} (reachable : Reachable s e) (running : e.status = .running)
    (inside : e.ip < e.code.size) :
    ∃ row reply t, Program.instructionAt Builtin.registry e.code e.ip inside = .ok row ∧
      e.step = .ok (reply, t) ∧
      (e.code[e.ip] ≠ Builtin.Nr.invoke → (∀ f, reply ≠ .failed f) →
        (Builtin.Jumps e.code[e.ip] e.stack.values →
          ∃ target, e.code[e.ip + 1]? = some target ∧ (t.ip : Int) = target.toInt) ∧
        (¬ Builtin.Jumps e.code[e.ip] e.stack.values → t.ip = e.ip + row.length)) ∧
      ((∃ front, row.instruction = front ++ Program.truncatedMark) → ∃ f, reply = .failed f) ∧
      (e.code[e.ip] = Builtin.Nr.invoke → ∀ below nr k, e.stack.values =
          below ++ .opcodeRef nr :: List.replicate k (.opcodeRef Builtin.Nr.invoke) →
        nr ≠ Builtin.Nr.invoke → nr ∉ Builtin.Nr.jumps → (∀ f, reply ≠ .failed f) →
        ∃ row', Program.instructionAt Builtin.registry (e.code.set e.ip nr) e.ip (by simpa) =
            .ok row' ∧ t.ip = e.ip + row'.length) := by
  have hreg : e.registry = some Builtin.registry :=
    (reachable_wellFormed reachable).registry_eq.trans builtin
  obtain ⟨row, hrow⟩ : ∃ row, Program.instructionAt Builtin.registry e.code e.ip inside = .ok row :=
    Builtin.exists_row ..
  rcases step_cases hreg running inside with ⟨f, t, hstep⟩ | ⟨log, u, reply, t, hdispatch, hstep, hip⟩
  · refine ⟨row, _, t, hrow, hstep, ?_, fun _ => ⟨f, rfl⟩, ?_⟩
    · exact fun _ succeeds => absurd rfl (succeeds f)
    · exact fun _ _ _ _ _ _ _ succeeds => absurd rfl (succeeds f)
  · -- the engine that dispatches stands behind the opcode's cell
    have hlt : e.ip + 1 ≤ e.code.size := inside
    refine ⟨row, reply, t, hrow, hstep, ?_, ?_, ?_⟩
    · intro plain _
      obtain ⟨row', ends⟩ := endsAt_of_dispatch (e := { e with
        ip := e.ip + 1, current := some e.code[e.ip], halting := false, log })
        hreg plain hlt hdispatch e.ip
      cases hrow.symm.trans ends.row_eq
      rw [hip]
      refine ⟨ends.jumped, ?_⟩
      intro straight
      have := ends.passed straight
      simp only at this
      omega
    · rintro ⟨front, marked⟩
      have complete := complete_of_dispatch (e := { e with
        ip := e.ip + 1, current := some e.code[e.ip], halting := false, log })
        hreg hlt hdispatch hrow
      have plain := Builtin.endsPlain_of_complete hrow complete
      rw [marked] at plain
      exact absurd plain (Builtin.not_endsPlain_mark front)
    · intro hinvoke below nr k top plain straight _
      rw [hinvoke] at hdispatch
      obtain ⟨stack, _, hchain⟩ := dispatch_invoke_chain Builtin.resolve_invoke (e := { e with
        ip := e.ip + 1, current := some Builtin.Nr.invoke, halting := false, log }) hreg k top
      rw [hchain] at hdispatch
      obtain ⟨row', ends⟩ := endsAt_of_dispatch (e := { e with
        ip := e.ip + 1, current := some Builtin.Nr.invoke, halting := false, log, stack })
        hreg plain hlt hdispatch e.ip
      have := ends.passed (Builtin.not_jumps_of_other straight _)
      refine ⟨row', (instructionAt_set inside nr).trans ends.row_eq, ?_⟩
      simp only at this
      omega

/-- INVOKE that goes through itself to PUSH_STRING, a jump over nothing, and a text
with two of its three characters missing. -/
def textByReference : Setup := { code := #[32, 1, 233, 25, 5, 8, 3, 104], capacity := 2 }

theorem textByReference_ends_at_boundaries :
    ∃ e t u : Engine, Reachable textByReference e ∧ Reachable textByReference u ∧
      e.stack.values = [.opcodeRef 8, .opcodeRef 32] ∧ e.step = .ok (.continue, t) ∧
      (∃ row, Program.rowAt Builtin.registry 0 8 [1, 233, 25, 5, 8, 3, 104] = .ok row ∧
        t.ip = row.length) ∧
      u.ip = 5 ∧ ∃ f v, u.step = .ok (.failed f, v) := by
  have hrun : ((create textByReference).calls
      [.push (some (.opcodeRef 8)), .push (some (.opcodeRef 32))]).map (fun p =>
        (p.2.code.toList, p.2.ip, p.2.status, p.2.stack.values)) =
      .ok ([32, 1, 233, 25, 5, 8, 3, 104], 0, .running, [.opcodeRef 8, .opcodeRef 32]) := by
    decide +kernel
  have hstep : ((create textByReference).calls
      [.push (some (.opcodeRef 8)), .push (some (.opcodeRef 32))]).map (fun p =>
        p.2.step.map Prod.fst) = .ok (.ok .continue) := by decide +kernel
  have hlater : ((create textByReference).calls
      [.push (some (.opcodeRef 8)), .push (some (.opcodeRef 32)), .step, .step]).map (fun p =>
        (p.2.code.toList, p.2.ip, p.2.status)) =
      .ok ([32, 1, 233, 25, 5, 8, 3, 104], 5, .running) := by decide +kernel
  obtain ⟨⟨replies, e⟩, hcalls, hend⟩ := exists_of_map_ok hrun
  simp only [Prod.mk.injEq] at hend
  obtain ⟨hcode, hip, running, hvalues⟩ := hend
  obtain ⟨⟨replies', u⟩, hcalls', hend'⟩ := exists_of_map_ok hlater
  simp only [Prod.mk.injEq] at hend'
  obtain ⟨hcode', hip', running'⟩ := hend'
  rw [hcalls] at hstep
  obtain ⟨⟨reply, t⟩, hstep, hreply⟩ := exists_of_map_ok (Except.ok.inj hstep)
  cases hreply
  have reachable : Reachable textByReference e := ⟨_, replies, hcalls⟩
  have reachable' : Reachable textByReference u := ⟨_, replies', hcalls'⟩
  have inside : e.ip < e.code.size := by
    rw [← Array.length_toList, hcode, hip]
    decide
  have inside' : u.ip < u.code.size := by
    rw [← Array.length_toList, hcode', hip']
    decide
  have hcell : e.code[e.ip] = 32 := by
    rw [← Array.getElem_toList]
    simp only [hcode, hip]
    rfl
  have hcell' : u.code[u.ip] = 8 := by
    rw [← Array.getElem_toList]
    simp only [hcode', hip']
    rfl
  obtain ⟨_, _, _, _, hstep₀, _, _, throughInvoke⟩ :=
    steps_end_at_boundaries _ rfl reachable running inside
  cases hstep.symm.trans hstep₀
  obtain ⟨row, hrow, hlength⟩ :=
    throughInvoke hcell [] 8 1 hvalues (by decide) (by decide) (by simp)
  rw [instructionAt_set inside, hcode, hip] at hrow
  obtain ⟨row', reply', v, hrow', hstep', _, marked, _⟩ :=
    steps_end_at_boundaries _ rfl reachable' running' inside'
  rw [Program.instructionAt, hcell', hcode', hip'] at hrow'
  cases hrow'
  obtain ⟨f, rfl⟩ := marked ⟨"PUSH_STRING 3 ", by decide +kernel⟩
  exact ⟨e, t, u, reachable, reachable', hvalues, hstep, ⟨row, hrow, by omega⟩, hip', f, v, hstep'⟩

end Engine
end StackMachine
