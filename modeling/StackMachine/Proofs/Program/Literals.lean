import StackMachine.Program.Builder
import StackMachine.Proofs.Builtin.Failure
import StackMachine.Proofs.Rational.Integer
import StackMachine.Proofs.Text.Utf8
/-! Literals through the assembler and the engine. The cells of a literal, followed by
any others, let the engine push the value of the literal and stop behind them. -/
namespace StackMachine

open Program (Builder Emission)

variable {α ε : Type} {dispatch : Int32 → Engine → Except ε (Except Fault Unit × Engine)}
  {e t : Engine} {rest : List Int32}

theorem Engine.cell_of_drop {cell : Int32} (h : e.code.toList.drop e.ip = cell :: rest) :
    ∃ inside : e.ip < e.code.size, e.code[e.ip] = cell ∧ e.code.toList.drop (e.ip + 1) = rest := by
  have inside : e.ip < e.code.toList.length := by
    by_contra outside
    rw [List.drop_eq_nil_of_le (Nat.le_of_not_lt outside)] at h
    cases h
  rw [List.drop_eq_getElem_cons inside] at h
  obtain ⟨hcell, hrest⟩ := List.cons.inj h
  exact ⟨by simpa using inside, hcell, hrest⟩

theorem Engine.run_fetch {cell : Int32}
    (dispatch : Int32 → Engine → Except ε (Except Fault Unit × Engine))
    (h : e.code.toList.drop e.ip = cell :: rest) (next : Int32 → Routine α) :
    (Routine.fetch >>= next).run dispatch e = (next cell).run dispatch { e with ip := e.ip + 1 } ∧
      e.code.toList.drop (e.ip + 1) = rest := by
  obtain ⟨inside, hcell, hrest⟩ := Engine.cell_of_drop h
  refine ⟨Routine.run_perform_of_ok (c := .fetch) ?_ next, hrest⟩
  exact (Engine.fetch_of_lt inside).trans (by rw [hcell])

namespace Builtin

/-- Wherever it finds the cells, the routine pushes the value behind them. -/
def Spells (r : Routine Unit) (cells : List Int32) (v : Value) : Prop :=
  ∀ {ε : Type} (dispatch : Int32 → Engine → Except ε (Except Fault Unit × Engine)) (e : Engine)
    (rest : List Int32), e.code.toList.drop e.ip = cells ++ rest →
    r.run dispatch e = (Routine.push v).run dispatch { e with ip := e.ip + cells.length }

theorem spells_pushInt (n : Int32) : Spells pushInt [n] (.integer n.toInt64) :=
  fun _ _ _ h => (Engine.run_fetch _ h _).1

theorem spells_pushOpcode (nr : Int32) : Spells pushOpcode [nr] (.opcodeRef nr) :=
  fun _ _ _ h => (Engine.run_fetch _ h _).1

theorem spells_pushWide (hi lo : Int32) : Spells pushWide [hi, lo] (.integer (joinHalves hi lo)) := by
  intro ε dispatch e rest h
  obtain ⟨hfirst, h⟩ := Engine.run_fetch dispatch h fun hi =>
    Routine.fetch >>= fun lo => Routine.push (.integer (joinHalves hi lo))
  exact hfirst.trans (Engine.run_fetch (e := { e with ip := e.ip + 1 }) dispatch h _).1

theorem spells_pushRational (num : Int32) {den : Int32} (h : den ≠ 0) :
    Spells pushRational [num, den] (.rational (.ofFraction num.toInt den.toInt)) := by
  intro ε dispatch e rest hcells
  obtain ⟨hfirst, hcells⟩ := Engine.run_fetch dispatch hcells fun num =>
    Routine.fetch >>= fun den =>
      if den = 0 then .fail (.invalidOperand .zeroDenominator)
      else Routine.push (.rational (.ofFraction num.toInt den.toInt))
  refine hfirst.trans ((Engine.run_fetch (e := { e with ip := e.ip + 1 }) dispatch hcells _).1.trans ?_)
  rw [if_neg h]
  rfl

theorem toInt_cellOf (c : Char) : (Builder.cellOf c).toInt = c.toNat := by
  have hlt : c.toNat < 2 ^ 31 := by
    rcases c.valid with h | ⟨_, h⟩
    · exact Nat.lt_trans h (by decide)
    · exact Nat.lt_trans h (by decide)
  exact Int32.toInt_ofNat_of_lt hlt

theorem charOf?_cellOf (c : Char) : charOf? (Builder.cellOf c) = some c := by
  have hnonneg : 0 ≤ Builder.cellOf c := by
    rw [Int32.le_iff_toInt_le, toInt_cellOf]
    exact Int.natCast_nonneg _
  unfold charOf?
  rw [toInt_cellOf, Int.toNat_natCast, if_pos ⟨hnonneg, c.valid⟩, Char.ofNat_toNat]

theorem run_readChars (chars : List Char) (offset : Nat) (text : String)
    (h : e.code.toList.drop e.ip = chars.map Builder.cellOf ++ rest) (next : String → Routine α) :
    (readChars chars.length offset text >>= next).run dispatch e =
      (next (text ++ String.ofList chars)).run dispatch { e with ip := e.ip + chars.length } := by
  induction chars generalizing e offset text with
  | nil =>
    rw [String.ofList_nil, String.append_empty]
    rfl
  | cons c chars ih =>
    have htext : text.push c ++ String.ofList chars = text ++ String.ofList (c :: chars) := by
      apply String.toList_inj.mp
      simp
    obtain ⟨_, _, hrest⟩ := Engine.cell_of_drop h
    change ((Routine.fetch.bind _).bind next).run dispatch e = _
    rw [Routine.bind_assoc]
    refine (Engine.run_fetch dispatch h _).1.trans ?_
    simp only [charOf?_cellOf]
    refine (ih (e := { e with ip := e.ip + 1 }) (offset + 1) (text.push c) hrest).trans ?_
    rw [htext, List.length_cons, Nat.add_assoc, Nat.add_comm 1]

theorem run_pushString {count : Nat}
    (dispatch : Int32 → Engine → Except ε (Except Fault Unit × Engine)) (short : count < 2 ^ 31)
    (h : e.code.toList.drop e.ip = .ofNat count :: rest) :
    pushString.run dispatch e = (readChars count 0 "" >>= fun text =>
      Routine.push (.string text)).run dispatch { e with ip := e.ip + 1 } ∧
    e.code.toList.drop (e.ip + 1) = rest := by
  have hcount : (Int32.ofNat count).toInt = count := Int32.toInt_ofNat_of_lt short
  have hnonneg : ¬ Int32.ofNat count < 0 := by
    rw [Int32.not_lt, Int32.le_iff_toInt_le, hcount]
    exact Int.natCast_nonneg _
  obtain ⟨hfirst, hcells⟩ := Engine.run_fetch dispatch h fun count =>
    if count < 0 then .fail (.invalidOperand (.stringLength count))
    else readChars count.toInt.toNat 0 "" >>= fun text => Routine.push (.ofBytes (Text.utf8 text))
  refine ⟨hfirst.trans ?_, hcells⟩
  rw [if_neg hnonneg, hcount, Int.toNat_natCast]
  simp only [Value.ofBytes_utf8]

theorem spells_pushString {s : String} (short : s.length < 2 ^ 31) :
    Spells pushString (.ofNat s.length :: s.toList.map Builder.cellOf) (.string s) := by
  intro ε dispatch e rest h
  obtain ⟨hrun, hcells⟩ := run_pushString dispatch short h
  rw [hrun, ← String.length_toList]
  refine (run_readChars (e := { e with ip := e.ip + 1 }) s.toList 0 "" hcells _).trans ?_
  rw [String.empty_append, String.ofList_toList, List.length_cons, List.length_map,
    Nat.add_assoc, Nat.add_comm 1]

theorem joinHalves_halves (n : Int64) : joinHalves (n >>> 32).toInt32 n.toInt32 = n := by
  have halves : (joinHalves (n >>> 32).toInt32 n.toInt32).toBitVec =
      ((n.toBitVec.sshiftRight 32).signExtend 32).signExtend 64 <<< 32 |||
        (n.toBitVec.signExtend 32).setWidth 64 := by
    simp [joinHalves]
  apply Int64.toBitVec_inj.mp
  rw [halves]
  ext i hi
  by_cases low : i < 32
  · simp [low, hi, BitVec.getElem_signExtend]
  · have half : i - 32 < 32 := by omega
    have word : i - 32 < 64 := by omega
    have back : 32 + (i - 32) = i := by omega
    simp [low, half, word, hi, back, BitVec.getLsbD_signExtend, BitVec.getElem_signExtend,
      BitVec.getElem_sshiftRight]

end Builtin

namespace Program

inductive Literal where
  | integer (n : Int64)
  | string (s : String) (short : s.length < 2 ^ 31)
  | rational (num den : Int32) (nonzero : den ≠ 0)
  | opcodeRef (nr : Int32)

namespace Literal

def emission : Literal → Emission
  | .integer n => .int n
  | .string s _ => .string (Text.utf8 s)
  | .rational num den _ => .rational num den
  | .opcodeRef nr => .emit Builtin.Nr.pushOpcode [nr]

/-- The value of a literal: a fraction is rounded, with a zero that takes the sign of the
denominator, and all else is kept. -/
def Denotes : Literal → Value → Prop
  | .integer n, v => v = .integer n
  | .string s _, v => v = .string s
  | .rational num den _, v => ∃ r, v = .rational r ∧ r.Rounds (num.toInt / den.toInt) ∧
      (num = 0 → r = .zero (den < 0))
  | .opcodeRef nr, v => v = .opcodeRef nr

theorem natAbs_toInt_le (n : Int32) : n.toInt.natAbs ≤ 2 ^ 63 := by
  have := n.toInt_lt
  have := n.le_toInt
  omega

theorem exists_spelling (l : Literal) :
    ∃ nr cells r v, (∀ b : Builder, (b.apply l.emission).2 = (b.emit nr cells).2) ∧
      nr ≠ Builtin.Nr.halt ∧ (∀ held, Builtin.registry.resolve nr held = .ok r) ∧
      Builtin.Spells r cells v ∧ l.Denotes v := by
  cases l with
  | integer n =>
    by_cases narrow : n.toInt32.toInt64 = n
    · refine ⟨Builtin.Nr.pushInt, [n.toInt32], Builtin.pushInt, _, fun b => ?_, by decide, ?_,
        Builtin.spells_pushInt _, congrArg Value.integer narrow⟩
      · simp only [emission, Builder.apply, Builder.emitInt, if_pos narrow]
      · exact fun held => Builtin.resolve_entry rfl rfl rfl held.zero_le
    · refine ⟨Builtin.Nr.pushWide, [(n >>> 32).toInt32, n.toInt32], Builtin.pushWide, _,
        fun b => ?_, by decide, ?_, Builtin.spells_pushWide _ _,
        congrArg Value.integer (Builtin.joinHalves_halves n)⟩
      · simp only [emission, Builder.apply, Builder.emitInt, if_neg narrow]
      · exact fun held => Builtin.resolve_entry rfl rfl rfl held.zero_le
  | string s short =>
    refine ⟨Builtin.Nr.pushString, _, Builtin.pushString, _, fun b => ?_, by decide, ?_,
      Builtin.spells_pushString short, rfl⟩
    · simp only [emission, Builder.apply, Builder.emitString, Text.repairEach_utf8,
        String.length_toList]
    · exact fun held => Builtin.resolve_entry rfl rfl rfl held.zero_le
  | rational num den nonzero =>
    have hden : den.toInt ≠ 0 := fun h => nonzero (Int32.toInt_inj.mp h)
    refine ⟨Builtin.Nr.pushRational, [num, den], Builtin.pushRational, _, fun b => rfl, by decide, ?_,
      Builtin.spells_pushRational num nonzero, _, rfl,
      Rational.rounds_ofFraction (natAbs_toInt_le num) (natAbs_toInt_le den) hden, ?_⟩
    · exact fun held => Builtin.resolve_entry rfl rfl rfl held.zero_le
    · rintro rfl
      simp [Rational.ofFraction, Rational.ofQuotient, Int32.lt_iff_toInt_lt]
  | opcodeRef nr =>
    refine ⟨Builtin.Nr.pushOpcode, [nr], Builtin.pushOpcode, _, fun b => rfl, by decide, ?_,
      Builtin.spells_pushOpcode nr, rfl⟩
    exact fun held => Builtin.resolve_entry rfl rfl rfl held.zero_le

def cells (l : Literal) : List Int32 := (({} : Builder).apply l.emission).2.code.toList

theorem code_apply (b : Builder) (l : Literal) :
    (b.apply l.emission).2.code.toList = b.code.toList ++ l.cells := by
  obtain ⟨nr, operands, _, _, hemit, _⟩ := l.exists_spelling
  rw [cells, hemit, hemit]
  simp [Builder.emit]

end Literal

def Builder.applyAll (b : Builder) (emissions : List Emission) : Builder :=
  emissions.foldl (fun b emission => (b.apply emission).2) b

/-- The code of literals written one after another and closed by HALT. -/
def codeOf (literals : List Literal) : Array Int32 :=
  (Builder.applyAll {} (literals.map Literal.emission ++ [.emit Builtin.Nr.halt []])).code

theorem code_applyAll (literals : List Literal) (b : Builder) :
    (b.applyAll (literals.map Literal.emission)).code.toList =
      b.code.toList ++ literals.flatMap Literal.cells := by
  unfold Builder.applyAll
  induction literals generalizing b with
  | nil => simp
  | cons l literals ih =>
    rw [List.map_cons, List.foldl_cons, ih, Literal.code_apply, List.flatMap_cons, List.append_assoc]

theorem toList_codeOf (literals : List Literal) :
    (codeOf literals).toList = literals.flatMap Literal.cells ++ [Builtin.Nr.halt] := by
  have hlast : codeOf literals =
      ((Builder.applyAll {} (literals.map Literal.emission)).emit Builtin.Nr.halt []).2.code := by
    rw [codeOf, Builder.applyAll, List.foldl_append]
    rfl
  rw [hlast, Builder.emit, Array.toList_append, code_applyAll, List.nil_append]

end Program

namespace Engine

open Program (Literal)

variable {code : Array Int32} {room : Nat} {values : List Value}

/-- Without a limit, running in front of the cells `rest`. -/
structure Poised (code : Array Int32) (room : Nat) (values : List Value) (rest : List Int32)
    (e : Engine) : Prop where
  code_eq : e.code = code
  registry_eq : e.registry = some Builtin.registry
  running : e.status = .running
  left : e.code.toList.drop e.ip = rest
  values_eq : e.stack.values = values
  capacity_eq : e.stack.capacity = room
  unlimited : e.stack.budget.limit ≤ 0
  steps_eq : e.steps = .ofNat values.length

theorem step_of_resolve {nr : Int32} {r : Routine Unit} (running : e.status = .running)
    (hreg : e.registry = some Builtin.registry) (h : e.code.toList.drop e.ip = nr :: rest)
    (resolved : Builtin.registry.resolve nr e.stack.size = .ok r) :
    ∃ log, e.step = (r.run (Builtin.registry.dispatch (e.nesting + e.stack.size))
      { e with ip := e.ip + 1, current := some nr, halting := false, log }).map (settle e.ip nr) := by
  obtain ⟨inside, hcell, _⟩ := cell_of_drop h
  obtain ⟨log, hlog⟩ := enter_eq { e with ip := e.ip + 1 } e.ip nr
  refine ⟨log, ?_⟩
  rw [step_of_lt running inside, hcell, execute, hlog]
  rw [dispatch_of_resolve_ok (e := { e with
    ip := e.ip + 1, current := some nr, halting := false, log }) hreg resolved]

theorem step_of_run {nr : Int32} {r : Routine Unit} (ip : Nat) (stack : Stack)
    (running : e.status = .running) (hreg : e.registry = some Builtin.registry)
    (h : e.code.toList.drop e.ip = nr :: rest) (plain : nr ≠ Builtin.Nr.halt)
    (resolved : Builtin.registry.resolve nr e.stack.size = .ok r)
    (ran : ∀ log, r.run (Builtin.registry.dispatch (e.nesting + e.stack.size))
      { e with ip := e.ip + 1, current := some nr, halting := false, log } =
      .ok (.ok (), { e with ip, stack, current := some nr, halting := false, log })) :
    ∃ log, e.step = .ok (.continue,
      { e with ip, stack, current := some nr, halting := false, log, steps := e.steps + 1 }) := by
  obtain ⟨log, hstep⟩ := step_of_resolve running hreg h resolved
  refine ⟨log, ?_⟩
  rw [hstep, ran log]
  simp [Except.map, settle, complete, plain]

theorem step_of_spells {nr : Int32} {r : Routine Unit} {v : Value} (cells : List Int32)
    (running : e.status = .running) (hreg : e.registry = some Builtin.registry)
    (h : e.code.toList.drop e.ip = nr :: (cells ++ rest)) (plain : nr ≠ Builtin.Nr.halt)
    (resolved : ∀ held, Builtin.registry.resolve nr held = .ok r) (spells : Builtin.Spells r cells v)
    (hpush : e.stack.push (some v) = (.ok (), e.stack.holding v)) :
    (∃ log, e.step = .ok (.continue, { e with
      ip := e.ip + 1 + cells.length, stack := e.stack.holding v, current := some nr,
      halting := false, log, steps := e.steps + 1 })) ∧
    e.code.toList.drop (e.ip + 1 + cells.length) = rest := by
  obtain ⟨_, _, hcells⟩ := cell_of_drop h
  constructor
  · apply step_of_run _ _ running hreg h plain (resolved _)
    intro log
    rw [spells _ { e with ip := e.ip + 1, current := some nr, halting := false, log } rest hcells,
      Routine.push, Routine.run_perform]
    exact congrArg Except.ok (answer_push hpush)
  · rw [← List.drop_drop, hcells, List.drop_left]

theorem Poised.step {l : Literal} (h : e.Poised code room values (l.cells ++ rest))
    (free : values.length < room) :
    ∃ v t, l.Denotes v ∧ e.step = .ok (.continue, t) ∧ t.Poised code room (values ++ [v]) rest := by
  obtain ⟨nr, operands, r, v, hemit, plain, resolved, spells, denotes⟩ := l.exists_spelling
  have hcells : l.cells = nr :: operands := by
    rw [Literal.cells, hemit]
    simp [Program.Builder.emit]
  have hleft := h.left
  rw [hcells, List.cons_append] at hleft
  have hpush : e.stack.push (some v) = (.ok (), e.stack.holding v) := by
    refine Stack.push_of_grants ?_ (Budget.grants_of_unlimited h.unlimited _)
    rw [Stack.size_eq_length, h.values_eq, h.capacity_eq]
    exact free
  obtain ⟨⟨log, hstep⟩, hrest⟩ :=
    step_of_spells operands h.running h.registry_eq hleft plain resolved spells hpush
  refine ⟨v, _, denotes, hstep, ?_⟩
  constructor
  · exact h.code_eq
  · exact h.registry_eq
  · exact h.running
  · exact hrest
  · rw [Stack.values_holding, h.values_eq]
  · exact h.capacity_eq
  · exact h.unlimited
  · rw [List.length_append, List.length_singleton, UInt64.ofNat_add, ← h.steps_eq]
    rfl

theorem Poised.halt (h : e.Poised code room values [Builtin.Nr.halt]) :
    ∃ t, e.step = .ok (.halt, t) ∧ t.status = .halted ∧ t.stack.values = values ∧
      t.steps = .ofNat (values.length + 1) ∧ t.ip = code.size := by
  obtain ⟨inside, _, hlast⟩ := cell_of_drop h.left
  obtain ⟨log, hstep⟩ := step_of_resolve (r := Builtin.halt) h.running h.registry_eq h.left
    (Builtin.resolve_entry rfl rfl rfl (Nat.zero_le _))
  refine ⟨_, hstep.trans rfl, rfl, h.values_eq, ?_, ?_⟩
  · rw [UInt64.ofNat_add, ← h.steps_eq]
    rfl
  · have hle := List.drop_eq_nil_iff.mp hlast
    rw [Array.length_toList] at hle
    change e.ip + 1 = code.size
    rw [← h.code_eq]
    omega

theorem Poised.run {literals : List Literal}
    (h : e.Poised code room values (literals.flatMap Literal.cells ++ [Builtin.Nr.halt]))
    (free : values.length + literals.length ≤ room) :
    ∃ vs t, List.Forall₂ Literal.Denotes literals vs ∧
      (∀ checks, literals.length < checks → e.stepUpTo checks = .ok (.finished, t)) ∧
      t.status = .halted ∧ t.stack.values = values ++ vs ∧
      t.steps = .ofNat (values.length + literals.length + 1) ∧ t.ip = code.size := by
  induction literals generalizing e values with
  | nil =>
    obtain ⟨t, hstep, halted, hvalues, hsteps, hip⟩ := Poised.halt h
    refine ⟨[], t, .nil, ?_, halted, by rw [hvalues, List.append_nil], hsteps, hip⟩
    intro checks enough
    obtain ⟨more, rfl⟩ := Nat.exists_eq_add_one_of_ne_zero enough.ne'
    rw [stepUpTo, hstep]
  | cons l literals ih =>
    rw [List.flatMap_cons, List.append_assoc] at h
    rw [List.length_cons] at free
    obtain ⟨v, u, denotes, hstep, poised⟩ := h.step (by omega)
    obtain ⟨vs, t, hall, hrun, halted, hvalues, hsteps, hip⟩ := ih poised (by simp; omega)
    refine ⟨v :: vs, t, .cons denotes hall, ?_, halted, ?_, ?_, hip⟩
    · intro checks enough
      obtain ⟨more, rfl⟩ := Nat.exists_eq_add_one_of_ne_zero (Nat.ne_zero_of_lt enough)
      rw [stepUpTo, hstep]
      exact hrun more (by simpa using enough)
    · rw [hvalues, List.append_assoc, List.singleton_append]
    · rw [hsteps, List.length_append, List.length_singleton, List.length_cons]
      congr 2
      omega

/-- Literals written in order through one builder and closed by HALT run to the values
they were written for: for every number of checks that lets the run come to its end,
and so for `run` too. -/
theorem literals_run_to_their_values (literals : List Literal) (s : Setup)
    (builtin : s.registry = some Builtin.registry) (written : s.code = Program.codeOf literals)
    (unlimited : s.limit ≤ 0) (free : literals.length ≤ s.capacity) :
    ∃ values t, List.Forall₂ Literal.Denotes literals values ∧
      (∀ checks, literals.length < checks → (create s).runWithin checks = .ok (.finished, t)) ∧
      (∀ e checks, create? s = some e → literals.length < checks →
        e.runWithin checks = .ok (.finished, t)) ∧
      t.status = .halted ∧ t.stack.values = values ∧ t.steps = .ofNat (literals.length + 1) ∧
      t.ip = s.code.size := by
  obtain ⟨log, hlog⟩ := (create s).announce_eq
  have poised : Poised s.code s.capacity.toNat []
      (literals.flatMap Literal.cells ++ [Builtin.Nr.halt]) (create s).announce := by
    rw [hlog]
    constructor
    · rfl
    · exact builtin
    · simp [create, builtin]
    · rw [← Program.toList_codeOf, ← written]
      rfl
    · rfl
    · rfl
    · exact unlimited
    · rfl
  obtain ⟨values, t, hall, hrun, halted, hvalues, hsteps, hip⟩ := poised.run (by simp; omega)
  refine ⟨values, t, hall, hrun, ?_, halted, hvalues, ?_, hip⟩
  · intro e checks made enough
    rw [eq_create made]
    exact hrun checks enough
  · rw [hsteps, List.length_nil, Nat.zero_add]

def mixedLiterals : List Literal :=
  [.integer (-1099511627776), .string "é😀" (by decide), .rational 1 (-3) (by decide), .opcodeRef 32]

theorem mixedLiterals_run_to_their_values :
    ∃ r t, (create { code := Program.codeOf mixedLiterals, capacity := 4 }).run =
        .ok (.finished, t) ∧ t.status = .halted ∧
      t.stack.values = [.integer (-1099511627776), .string "é😀", .rational r, .opcodeRef 32] ∧
      r.Rounds ((1 : Int32).toInt / (-3 : Int32).toInt) ∧ t.steps = 5 ∧
      t.ip = (Program.codeOf mixedLiterals).size := by
  obtain ⟨values, t, hall, hrun, -, halted, hvalues, hsteps, hip⟩ := literals_run_to_their_values
    mixedLiterals { code := Program.codeOf mixedLiterals, capacity := 4 } rfl rfl (by decide)
    (by decide)
  rcases hall with _ | ⟨rfl, _ | ⟨rfl, _ | ⟨⟨r, rfl, rounds, _⟩, _ | ⟨rfl, _ | _⟩⟩⟩⟩
  exact ⟨r, t, hrun horizon (by decide), halted, hvalues, rounds, hsteps, hip⟩

end Engine
end StackMachine
