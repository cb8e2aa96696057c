import StackMachine.Proofs.Builtin.Calculation
import StackMachine.Proofs.Program.Literals
import StackMachine.Proofs.Text.Repair
/-! Bytes that become a text on two ways: as cells that a builder writes and an engine
pushes, and as a value made at once. Damage is repaired on both, by different rules. -/
namespace StackMachine.Program

open Text (Piece)

variable {b : Builder} {bytes : List UInt8} {s : String}

theorem toList_emitString (b : Builder) (each : s.toList = Text.repairEach bytes) :
    (b.emitString bytes).2.code.toList = b.code.toList ++
      Builtin.Nr.pushString :: .ofNat s.length :: s.toList.map Builder.cellOf := by
  simp [Builder.emitString, Builder.emit, ← each, String.length_toList]

theorem step_emitString {e : Engine} {later : List Int32} (each : s.toList = Text.repairEach bytes)
    (short : s.length < 2 ^ 31) (running : e.status = .running)
    (builtin : e.registry = some Builtin.registry)
    (written : e.code.toList = (b.emitString bytes).2.code.toList ++ later)
    (place : e.ip = (b.emitString bytes).1) (room : e.HasRoomFor [.string s]) :
    ∃ t, e.step = .ok (.continue, t) ∧ t.stack.values = e.stack.values ++ [.string s] ∧
      t.ip = (b.emitString bytes).2.offset := by
  have code_eq := toList_emitString b each
  have left : e.code.toList.drop e.ip = Builtin.Nr.pushString ::
      ((.ofNat s.length :: s.toList.map Builder.cellOf) ++ later) := by
    rw [written, code_eq, place, List.append_assoc]
    exact List.drop_left
  obtain ⟨hpush, holds⟩ := (Engine.Holds.refl e).push_of_room room
  obtain ⟨⟨log, hstep⟩, _⟩ := Engine.step_of_spells _ running builtin left (by decide)
    (fun held => Builtin.resolve_entry rfl rfl rfl held.zero_le)
    (Builtin.spells_pushString short) hpush
  refine ⟨_, hstep, holds.values_eq, ?_⟩
  have size := congrArg List.length code_eq
  have start : e.ip = b.code.toList.length := place
  simp only [List.length_append, List.length_cons, Array.length_toList] at size start ⊢
  rw [Builder.offset]
  omega

/-- A builder mends a text byte by byte and a value run by run, so that they agree as long
as no stray byte follows another. -/
theorem repairs_agree_iff_apart (b : Builder) (bytes : List UInt8) (short : bytes.length < 2 ^ 31) :
    ∃ ps each runs, (∀ qs, Text.Reads bytes qs ↔ qs = ps) ∧
      -- the text that the cells push
      (∀ (e : Engine) later, e.status = .running → e.registry = some Builtin.registry →
        e.code.toList = (b.emitString bytes).2.code.toList ++ later →
        e.ip = (b.emitString bytes).1 → e.HasRoomFor [.string each] →
        ∃ t, e.step = .ok (.continue, t) ∧ t.stack.values = e.stack.values ++ [.string each] ∧
          t.ip = (b.emitString bytes).2.offset) ∧
      Text.isValid (Text.utf8 each) = true ∧ each.toList = ps.map Piece.mended ∧
      -- the text of the value
      Value.ofBytes bytes = .string runs ∧ Text.isValid (Text.utf8 runs) = true ∧
      (Text.isValid bytes = true → Text.utf8 runs = bytes) ∧
      Value.ofBytes (Text.utf8 runs) = Value.ofBytes bytes ∧ Text.Merged ps runs.toList ∧
      -- both
      (Value.equal (some (.string each)) (some (Value.ofBytes bytes)) = true ↔ Text.Apart ps) := by
  have mended := Text.repairEach_eq_map bytes
  have runs_eq : (Text.repairRuns bytes).toList = Text.mergeRuns false (Text.scan bytes) :=
    String.toList_ofList
  refine ⟨Text.scan bytes, String.ofList (Text.repairEach bytes), Text.repairRuns bytes,
    fun qs => Text.reads_iff, ?_, Text.isValid_utf8 _, ?_, rfl, Text.isValid_utf8 _,
    Text.utf8_repairRuns, ?_, ?_, ?_⟩
  · intro e later running builtin written place room
    refine step_emitString String.toList_ofList ?_ running builtin written place room
    rw [String.length_ofList, mended, List.length_map]
    exact Nat.lt_of_le_of_lt (Text.reads_scan bytes).length_le short
  · rw [String.toList_ofList, mended]
  · rw [Value.ofBytes_utf8]
    rfl
  · rw [runs_eq]
    exact (Text.merged_mergeRuns _).1
  · change (String.ofList (Text.repairEach bytes) == Text.repairRuns bytes) = true ↔ _
    rw [beq_iff_eq, ← String.toList_inj, String.toList_ofList, runs_eq, mended, eq_comm]
    exact (Text.mergeRuns_eq_map_iff _).1

/-- A surrogate, which no encoding may stand for, between two characters. -/
def encodedSurrogate : List UInt8 := [0x61, 0xED, 0xA0, 0x80, 0xC3, 0xA9]

theorem encodedSurrogate_is_repaired :
    encodedSurrogate.length < 2 ^ 31 ∧
    (∃ t, (Engine.create { code := (({} : Builder).emitString encodedSurrogate).2.code
                           capacity := 1 }).step = .ok (.continue, t) ∧
      t.stack.values = [.string "a���é"]) ∧
    Text.Merged [.char 'a', .stray 0xED, .stray 0xA0, .stray 0x80, .char 'é']
      (Text.repairRuns encodedSurrogate).toList ∧
    Value.equal (some (.string "a���é")) (some (Value.ofBytes encodedSurrogate)) ≠ true := by
  have short : encodedSurrogate.length < 2 ^ 31 := by decide
  obtain ⟨ps, each, runs, reads, pushes, _, mended, made, _, _, _, merged, agree⟩ :=
    repairs_agree_iff_apart {} encodedSurrogate short
  have read : [.char 'a', .stray 0xED, .stray 0xA0, .stray 0x80, .char 'é'] = ps :=
    (reads _).mp (Text.reads_iff.mpr (by decide +kernel))
  have each_eq : each = "a���é" := by
    rw [← read] at mended
    exact String.toList_inj.mp mended
  rw [each_eq] at pushes agree
  have runs_eq : Text.repairRuns encodedSurrogate = runs := Value.string.inj made
  refine ⟨short, ?_, ?_, ?_⟩
  · obtain ⟨t, hstep, hvalues, _⟩ := pushes (Engine.create
      { code := (({} : Builder).emitString encodedSurrogate).2.code, capacity := 1 }) [] rfl rfl
      (List.append_nil _).symm rfl ⟨by decide, by decide⟩
    exact ⟨t, hstep, hvalues⟩
  · rw [runs_eq, read]
    exact merged
  · rw [Ne, agree, ← read]
    decide

end StackMachine.Program
