import Mathlib.Data.List.Chain
import StackMachine.Proofs.Text.Utf8
import StackMachine.Value
/-! Damaged text and its two repairs. Bytes are read from the left, and there is one way to
do so: where no encoding begins a byte is stray. One repair replaces every stray byte, the
other every run of them, so they agree as long as stray bytes stand apart. -/
namespace StackMachine.Text

/-- The bytes, from the left, as encoded characters and bytes at which none begins. -/
inductive Reads : List UInt8 → List Piece → Prop where
  | nil : Reads [] []
  | char {rest ps} (c : Char) :
      Reads rest ps → Reads (String.utf8EncodeChar c ++ rest) (.char c :: ps)
  | stray {rest ps} (b : UInt8) : (∀ c behind, b :: rest ≠ String.utf8EncodeChar c ++ behind) →
      Reads rest ps → Reads (b :: rest) (.stray b :: ps)

variable {bytes rest : List UInt8} {ps : List Piece}

theorem scan_stray {b : UInt8} (h : ∀ c behind, b :: rest ≠ String.utf8EncodeChar c ++ behind) :
    scan (b :: rest) = .stray b :: scan rest := by
  rw [scan]
  cases first : firstChar? (b :: rest) with
  | none => rfl
  | some c =>
    obtain ⟨behind, encoded⟩ := exists_of_firstChar? first
    exact absurd encoded (h c behind)

theorem Reads.scan_eq (h : Reads bytes ps) : scan bytes = ps := by
  induction h with
  | nil => rw [scan]
  | char c _ ih => rw [scan_encode, ih]
  | stray b none _ ih => rw [scan_stray none, ih]

theorem reads_scan (bytes : List UInt8) : Reads bytes (scan bytes) := by
  fun_induction scan bytes with
  | case1 => exact .nil
  | case2 b rest c first ih =>
    obtain ⟨behind, encoded⟩ := exists_of_firstChar? first
    rw [drop_of_encode encoded.symm] at ih ⊢
    rw [encoded]
    exact .char c ih
  | case3 b rest first ih =>
    refine .stray b (fun c behind encoded => ?_) ih
    rw [encoded, firstChar?_encode] at first
    cases first

theorem reads_iff : Reads bytes ps ↔ ps = scan bytes := by
  constructor
  · exact fun h => h.scan_eq.symm
  · rintro rfl
    exact reads_scan bytes

theorem Reads.length_le (h : Reads bytes ps) : ps.length ≤ bytes.length := by
  induction h with
  | nil => exact Nat.le_refl 0
  | char c _ ih =>
    have := c.utf8Size_pos
    rw [List.length_cons, List.length_append, String.length_utf8EncodeChar]
    omega
  | stray b _ _ ih => exact Nat.succ_le_succ ih

def Piece.isStray : Piece → Bool
  | .char _ => false
  | .stray _ => true

def Piece.mended : Piece → Char
  | .char c => c
  | .stray _ => replacement

theorem repairEach_eq_map (bytes : List UInt8) :
    repairEach bytes = (scan bytes).map Piece.mended := by
  unfold repairEach
  congr 1

/-- Characters are kept, and a run of stray bytes, as long as it goes on, becomes one
replacement character. -/
inductive Merged : List Piece → List Char → Prop where
  | nil : Merged [] []
  | char {rest : List Piece} {cs : List Char} (c : Char) :
      Merged rest cs → Merged (.char c :: rest) (c :: cs)
  | run {rest : List Piece} {cs : List Char} (b : UInt8) (more : List UInt8) :
      (∀ p ∈ rest.head?, p.isStray = false) → Merged rest cs →
      Merged ((b :: more).map .stray ++ rest) (replacement :: cs)

/-- The second half is the case of a run that has been replaced already. -/
theorem merged_mergeRuns (ps : List Piece) : Merged ps (mergeRuns false ps) ∧
    ∀ b more, Merged ((b :: more).map .stray ++ ps) (replacement :: mergeRuns true ps) := by
  induction ps with
  | nil => exact ⟨.nil, fun b more => .run b more nofun .nil⟩
  | cons p ps ih =>
    cases p with
    | char c =>
      refine ⟨.char c ih.1, fun b more => .run b more ?_ (.char c ih.1)⟩
      simp [Piece.isStray]
    | stray x =>
      refine ⟨ih.2 x [], fun b more => ?_⟩
      simpa [mergeRuns] using ih.2 b (more ++ [x])

def Apart (ps : List Piece) : Prop := ps.IsChain fun p q => ¬ (p.isStray ∧ q.isStray)

instance (ps : List Piece) : Decidable (Apart ps) := inferInstanceAs (Decidable (List.IsChain _ ps))

theorem length_mergeRuns_le (inRun : Bool) (ps : List Piece) :
    (mergeRuns inRun ps).length ≤ ps.length := by
  fun_induction mergeRuns inRun ps with
  | case1 => exact Nat.le_refl 0
  | case2 _ c ps ih => exact Nat.succ_le_succ ih
  | case3 b ps ih => exact Nat.le_succ_of_le ih
  | case4 _ b ps _ ih => exact Nat.succ_le_succ ih

/-- Merging changes nothing unless a stray byte follows another, or the run before. -/
theorem mergeRuns_eq_map_iff (ps : List Piece) :
    (mergeRuns false ps = ps.map Piece.mended ↔ Apart ps) ∧
    (mergeRuns true ps = ps.map Piece.mended ↔ (∀ p ∈ ps.head?, p.isStray = false) ∧ Apart ps) := by
  induction ps with
  | nil => simp [mergeRuns, Apart]
  | cons p ps ih =>
    cases p with
    | char c => simpa [mergeRuns, Piece.mended, Piece.isStray, Apart, List.isChain_cons] using ih.1
    | stray b =>
      constructor
      · simpa [mergeRuns, Piece.mended, Piece.isStray, Apart, List.isChain_cons] using ih.2
      · have shorter : mergeRuns true (.stray b :: ps) ≠ (Piece.stray b :: ps).map Piece.mended := by
          intro same
          have := length_mergeRuns_le true ps
          have := congrArg List.length same
          simp [mergeRuns] at this
          omega
        simpa [Piece.isStray] using shorter

theorem mergeRuns_map_char (inRun : Bool) (chars : List Char) :
    mergeRuns inRun (chars.map .char) = chars := by
  induction chars generalizing inRun with
  | nil => rfl
  | cons c chars ih => rw [List.map_cons, mergeRuns, ih]

theorem repairRuns_utf8 (s : String) : repairRuns (utf8 s) = s := by
  rw [repairRuns, scan_utf8, mergeRuns_map_char, String.ofList_toList]

theorem utf8_repairRuns (valid : isValid bytes = true) : utf8 (repairRuns bytes) = bytes := by
  have decoded : decode? bytes = some (String.ofList (repairEach bytes)) := if_pos valid
  have encoded := utf8_of_decode? decoded
  rw [← encoded, repairRuns_utf8]

end StackMachine.Text

namespace StackMachine

@[simp]
theorem Value.ofBytes_utf8 (s : String) : ofBytes (Text.utf8 s) = .string s := by
  rw [ofBytes, Text.repairRuns_utf8]

end StackMachine
