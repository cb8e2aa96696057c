import Mathlib.Algebra.Group.Int.Defs
import Mathlib.Data.List.Forall2
import StackMachine.Proofs.Program.Literals
/-! The code of a builder as the history of its calls. Emissions stand one behind the other
in the order of the calls, and of an emitted cell only the target of a jump may change: it
is what the last patch made it. -/
namespace StackMachine.Program

variable {b : Builder} {e : Emission} {es before after : List Emission} {k n p : Nat}

namespace Emission

/-- The placeholder that a call fills. -/
def Patches : Emission → Int → Prop
  | .patch placeholder, p => placeholder = p
  | .patchTo placeholder _, p => placeholder = p
  | _, _ => False

def cells : Emission → List Int32
  | .emit op immediates => op :: immediates
  | .int n =>
    if n.toInt32.toInt64 = n then [Builtin.Nr.pushInt, n.toInt32]
    else [Builtin.Nr.pushWide, (n >>> 32).toInt32, n.toInt32]
  | .string bytes =>
    Builtin.Nr.pushString :: .ofNat (Text.repairEach bytes).length ::
      (Text.repairEach bytes).map Builder.cellOf
  | .rational num den => [Builtin.Nr.pushRational, num, den]
  | .jump op => [op, -1]
  | .patch _ | .patchTo _ _ => []

/-- Where an emission stands that answers `n`: a jump answers the place of its target. -/
def start : Emission → Nat → Nat
  | .jump _, n => n - 1
  | _, n => n

/-- What an emission in code looks like: an opcode and its immediates. The target of a jump
can be any cell, and a patch writes no instruction. -/
inductive Writes : Emission → List Int32 → Prop where
  | emit {op : Int32} {immediates : List Int32} : Writes (.emit op immediates) (op :: immediates)
  | short {n : Int64} {cell : Int32} :
      cell.toInt = n.toInt → Writes (.int n) [Builtin.Nr.pushInt, cell]
  | wide {n : Int64} {hi lo : Int32} :
      n.toInt < -2 ^ 31 ∨ 2 ^ 31 ≤ n.toInt → Builtin.joinHalves hi lo = n →
      Writes (.int n) [Builtin.Nr.pushWide, hi, lo]
  | string {bytes : List UInt8} {count : Int32} {cells : List Int32} :
      count.toInt = cells.length →
      cells.map Int32.toInt = (Text.repairEach bytes).map (fun c => (c.toNat : Int)) →
      Writes (.string bytes) (Builtin.Nr.pushString :: count :: cells)
  | rational {num den : Int32} : Writes (.rational num den) [Builtin.Nr.pushRational, num, den]
  | jump {op target : Int32} : Writes (.jump op) [op, target]
  | patch {placeholder : Int} : Writes (.patch placeholder) []
  | patchTo {placeholder target : Int} : Writes (.patchTo placeholder target) []

theorem narrow_iff (n : Int64) : n.toInt32.toInt64 = n ↔ -2 ^ 31 ≤ n.toInt ∧ n.toInt < 2 ^ 31 := by
  rw [← Int64.toInt_inj, Int32.toInt_toInt64, Int64.toInt_toInt32]
  constructor
  · intro same
    rw [← same]
    exact ⟨Int.le_bmod (by decide), Int.bmod_lt (by decide)⟩
  · rintro ⟨least, greatest⟩
    exact Int.bmod_eq_of_le least greatest

theorem writes_cells (fits : e.cells.length < 2 ^ 31) : e.Writes e.cells := by
  cases e with
  | emit op immediates => exact .emit
  | int n =>
    rw [cells]
    split
    next narrow =>
      apply Writes.short
      rw [← Int32.toInt_toInt64, narrow]
    next wide =>
      rw [narrow_iff] at wide
      exact .wide (by omega) (Builtin.joinHalves_halves n)
  | string bytes =>
    apply Writes.string
    · simp only [cells, List.length_cons, List.length_map] at fits
      rw [List.length_map, Int32.toInt_ofNat_of_lt (by omega)]
    · simp [Builtin.toInt_cellOf]
  | rational num den => exact .rational
  | jump op => exact .jump
  | patch placeholder => exact .patch
  | patchTo placeholder target => exact .patchTo

end Emission

namespace Builder

theorem apply_of_emission (h : ∀ p, ¬ e.Patches p) (b : Builder) :
    ∃ n, b.apply e = (.ok (some n), { code := b.code ++ e.cells.toArray }) ∧ e.start n = b.offset := by
  cases e with
  | int n =>
    by_cases narrow : n.toInt32.toInt64 = n
    · exact ⟨b.offset, by simp [apply, emitInt, emit, Emission.cells, narrow], rfl⟩
    · exact ⟨b.offset, by simp [apply, emitInt, emit, Emission.cells, narrow], rfl⟩
  | jump op => exact ⟨b.offset + 1, rfl, rfl⟩
  | patch placeholder => exact absurd rfl (h placeholder)
  | patchTo placeholder target => exact absurd rfl (h placeholder)
  | _ => exact ⟨b.offset, rfl, rfl⟩

theorem apply_patch (b : Builder) (placeholder : Int) :
    b.apply (.patch placeholder) = b.apply (.patchTo placeholder b.offset) := rfl

theorem apply_patchTo (inside : p < b.code.size) (target : Int) :
    b.apply (.patchTo p target) = (.ok none, { code := b.code.setIfInBounds p (.ofInt target) }) := by
  have bounds : 0 ≤ (p : Int) ∧ (p : Int) < b.code.size := by omega
  simp [apply, patchTo, bounds]

theorem code_apply_cases (b : Builder) (e : Emission) :
    (b.apply e).2.code = b.code ++ e.cells.toArray ∨
      ∃ (p : Nat) (cell : Int32), e.Patches p ∧ e.cells = [] ∧
        (b.apply e).2.code = b.code.setIfInBounds p cell := by
  have patched (placeholder target : Int) :
      (b.apply (.patchTo placeholder target)).2.code = b.code ∨ ∃ p : Nat, placeholder = p ∧
        (b.apply (.patchTo placeholder target)).2.code = b.code.setIfInBounds p (.ofInt target) := by
    by_cases bounds : 0 ≤ placeholder ∧ placeholder < b.code.size
    · obtain ⟨p, rfl⟩ := Int.eq_ofNat_of_zero_le bounds.1
      exact .inr ⟨p, rfl, by rw [apply_patchTo (by omega)]⟩
    · left
      simp only [apply, patchTo, if_neg bounds]
  by_cases h : ∃ q, e.Patches q
  · obtain ⟨q, h⟩ := h
    cases e with
    | patch placeholder =>
      rcases patched placeholder b.offset with same | ⟨p, rfl, set⟩
      · exact .inl (by simpa [apply_patch, Emission.cells] using same)
      · exact .inr ⟨p, _, rfl, rfl, set⟩
    | patchTo placeholder target =>
      rcases patched placeholder target with same | ⟨p, rfl, set⟩
      · exact .inl (by simpa [Emission.cells] using same)
      · exact .inr ⟨p, _, rfl, rfl, set⟩
    | _ => exact absurd h id
  · obtain ⟨n, applied, _⟩ := apply_of_emission (not_exists.mp h) b
    exact .inl (by rw [applied])

theorem size_apply (b : Builder) (e : Emission) :
    (b.apply e).2.code.size = b.code.size + e.cells.length := by
  rcases b.code_apply_cases e with appended | ⟨p, cell, _, none, set⟩
  · simp [appended]
  · simp [set, none]

theorem code_apply_of_lt (inside : k < b.code.size) (other : ¬ e.Patches k) :
    (b.apply e).2.code[k]? = b.code[k]? := by
  rcases b.code_apply_cases e with appended | ⟨p, cell, patches, _, set⟩
  · rw [appended, Array.getElem?_append_left inside]
  · have apart : p ≠ k := by
      rintro rfl
      exact other patches
    rw [set, Array.getElem?_setIfInBounds_ne apart]

theorem size_applyAll (b : Builder) (es : List Emission) :
    (b.applyAll es).code.size = b.code.size + (es.flatMap Emission.cells).length := by
  induction es generalizing b with
  | nil => rfl
  | cons e es ih =>
    rw [applyAll, List.foldl_cons]
    change ((b.apply e).2.applyAll es).code.size = _
    rw [ih, size_apply, List.flatMap_cons, List.length_append]
    omega

theorem code_applyAll_of_lt (inside : k < b.code.size) (others : ∀ f ∈ es, ¬ f.Patches k) :
    (b.applyAll es).code[k]? = b.code[k]? := by
  induction es generalizing b with
  | nil => rfl
  | cons e es ih =>
    obtain ⟨other, others⟩ := List.forall_mem_cons.mp others
    have still : k < (b.apply e).2.code.size := by
      rw [size_apply]
      omega
    exact (ih still others).trans (code_apply_of_lt inside other)

end Builder

/-- The builder that the calls make. -/
def built (es : List Emission) : Builder := Builder.applyAll {} es

/-- One of the calls is `e`, and its answer is `n`. -/
def Answers (es : List Emission) (e : Emission) (n : Nat) : Prop :=
  ∃ before after, es = before ++ e :: after ∧ ((built before).apply e).1 = .ok (some n)

/-- The target of one of the emitted jumps. -/
def Placeholder (es : List Emission) (p : Nat) : Prop := ∃ op, Answers es (.jump op) p

/-- Nothing is patched but what an earlier jump answered. -/
def Proper (es : List Emission) : Prop :=
  ∀ (before : List Emission) (e : Emission) (after : List Emission) (placeholder : Int),
    es = before ++ e :: after → e.Patches placeholder →
    ∃ p : Nat, placeholder = p ∧ Placeholder before p

section Places

theorem built_append (before after : List Emission) :
    built (before ++ after) = (built before).applyAll after := List.foldl_append

theorem built_cons (before : List Emission) (e : Emission) (after : List Emission) :
    built (before ++ e :: after) = ((built before).apply e).2.applyAll after := by
  rw [built_append]
  rfl

theorem offset_append (before after : List Emission) : (built (before ++ after)).offset =
    (built before).offset + (after.flatMap Emission.cells).length := by
  rw [built_append]
  exact Builder.size_applyAll _ _

theorem placeholder_iff : Placeholder es p ↔
    ∃ before op after, es = before ++ .jump op :: after ∧ p = (built before).offset + 1 := by
  constructor
  · rintro ⟨op, before, after, rfl, answer⟩
    cases answer
    exact ⟨before, op, after, rfl, rfl⟩
  · rintro ⟨before, op, after, rfl, rfl⟩
    exact ⟨op, before, after, rfl, rfl⟩

theorem Placeholder.lt (h : Placeholder es p) : p < (built es).offset := by
  obtain ⟨before, op, after, rfl, rfl⟩ := placeholder_iff.mp h
  rw [offset_append]
  simp [Emission.cells]

theorem eq_of_overlap {e f : Emission} {before after before' after' : List Emission}
    (same : before ++ e :: after = before' ++ f :: after')
    (he : (built before).offset ≤ k ∧ k < (built before).offset + e.cells.length)
    (hf : (built before').offset ≤ k ∧ k < (built before').offset + f.cells.length) :
    before = before' ∧ e = f := by
  rcases List.append_eq_append_iff.mp same with ⟨mid, rfl, tail⟩ | ⟨mid, rfl, tail⟩
  · cases mid with
    | nil =>
      cases tail
      simp
    | cons g mid =>
      cases tail
      rw [offset_append, List.flatMap_cons, List.length_append] at hf
      omega
  · cases mid with
    | nil =>
      cases tail
      simp
    | cons g mid =>
      cases tail
      rw [offset_append, List.flatMap_cons, List.length_append] at he
      omega

theorem offset_built (es : List Emission) : (built es).offset = (es.flatMap Emission.cells).length := by
  rw [← List.nil_append es, offset_append]
  exact Nat.zero_add _

end Places

section Cells

variable {i : Nat}

theorem Proper.jump_of_patched {f : Emission} (proper : Proper (before ++ e :: after))
    (later : f ∈ after) (inside : i < e.cells.length)
    (patches : f.Patches ((built before).offset + i : Nat)) :
    ∃ op, e = .jump op ∧ i = 1 := by
  obtain ⟨mid, rest, rfl⟩ := List.append_of_mem later
  obtain ⟨p, same, target⟩ := proper (before ++ e :: mid) f rest _ (by simp) patches
  obtain ⟨before', op, after', split, place⟩ := placeholder_iff.mp target
  have jumpLength : (Emission.jump op).cells.length = 2 := rfl
  obtain ⟨rfl, rfl⟩ := eq_of_overlap (k := (built before).offset + i) split (by omega) (by omega)
  exact ⟨op, rfl, by omega⟩

theorem code_appended (before : List Emission) (inside : i < e.cells.length) :
    ((built before).apply e).2.code[(built before).offset + i]? = e.cells[i]? := by
  rcases (built before).code_apply_cases e with appended | ⟨_, _, _, none, _⟩
  · rw [appended, Builder.offset, Array.getElem?_append_right (Nat.le_add_right _ _)]
    simp
  · simp [none] at inside

theorem Proper.cell_eq (proper : Proper (before ++ e :: after)) (inside : i < e.cells.length)
    (fixed : ∀ op, e = .jump op → i ≠ 1) :
    (built (before ++ e :: after)).code[(built before).offset + i]? = e.cells[i]? := by
  have others : ∀ f ∈ after, ¬ f.Patches ((built before).offset + i : Nat) := by
    intro f later patches
    obtain ⟨op, jump, second⟩ := proper.jump_of_patched later inside patches
    exact fixed op jump second
  have present : (built before).offset + i < ((built before).apply e).2.code.size := by
    rw [Builder.size_apply]
    exact Nat.add_lt_add_left inside _
  rw [built_cons, Builder.code_applyAll_of_lt present others, code_appended before inside]

theorem Proper.writes_slice (proper : Proper (before ++ e :: after))
    (small : (built (before ++ e :: after)).offset < 2 ^ 31) :
    e.Writes (((built (before ++ e :: after)).code.toList.drop (built before).offset).take
      e.cells.length) := by
  have total := offset_append before (e :: after)
  rw [List.flatMap_cons, List.length_append] at total
  by_cases jumps : ∃ op, e = .jump op
  · obtain ⟨op, rfl⟩ := jumps
    have first := proper.cell_eq (i := 0) Nat.two_pos (by simp)
    have enough : 2 ≤ ((built (before ++ .jump op :: after)).code.toList.drop
        (built before).offset).length := by
      have size : (built (before ++ .jump op :: after)).code.size = _ := total
      simp only [List.length_drop, Array.length_toList, size, Emission.cells, List.length_cons]
      omega
    rw [Nat.add_zero, ← Array.getElem?_toList, ← List.head?_drop] at first
    match (built (before ++ .jump op :: after)).code.toList.drop (built before).offset, enough, first with
    | op :: target :: rest, _, rfl => exact .jump
  · have slice : ((built (before ++ e :: after)).code.toList.drop (built before).offset).take
        e.cells.length = e.cells := by
      apply List.ext_getElem?
      intro i
      rw [List.getElem?_take]
      split
      next inside =>
        rw [List.getElem?_drop, Array.getElem?_toList]
        exact proper.cell_eq inside fun op jump => absurd ⟨op, jump⟩ jumps
      next outside => exact (List.getElem?_eq_none (Nat.le_of_not_lt outside)).symm
    rw [slice]
    exact Emission.writes_cells (by omega)

end Cells

section Cover

/-- Code cut at the lengths of the emissions. -/
def slices (code : List Int32) : List Emission → List (List Int32)
  | [] => []
  | e :: es => code.take e.cells.length :: slices (code.drop e.cells.length) es

theorem flatten_slices {code : List Int32} (total : code.length = (es.flatMap Emission.cells).length) :
    (slices code es).flatten = code := by
  induction es generalizing code with
  | nil => simpa [slices, eq_comm] using total
  | cons e es ih =>
    rw [List.flatMap_cons, List.length_append] at total
    rw [slices, List.flatten_cons, ih (by simp [total]), List.take_append_drop]

theorem writes_slices {code : List Int32} (each : ∀ before e after, es = before ++ e :: after →
      e.Writes ((code.drop (before.flatMap Emission.cells).length).take e.cells.length)) :
    List.Forall₂ Emission.Writes es (slices code es) := by
  induction es generalizing code with
  | nil => exact .nil
  | cons e es ih =>
    refine .cons (each [] e es rfl) (ih fun before f after split => ?_)
    rw [List.drop_drop, ← List.length_append]
    exact each (e :: before) f after (by rw [split, List.cons_append])

end Cover

section Targets

theorem Emission.cells_of_patches {q : Int} (h : e.Patches q) : e.cells = [] := by
  cases e with
  | patch placeholder => rfl
  | patchTo placeholder target => rfl
  | _ => exact absurd h id

theorem Placeholder.of_lt {mid : List Emission} (h : Placeholder (before ++ mid) k)
    (inside : k < (built before).offset) : Placeholder before k := by
  obtain ⟨earlier, op, later, split, rfl⟩ := placeholder_iff.mp h
  rcases List.append_eq_append_iff.mp split with ⟨more, rfl, _⟩ | ⟨more, rfl, tail⟩
  · rw [offset_append] at inside
    omega
  · cases more with
    | nil => simp at inside
    | cons f more =>
      cases tail
      exact placeholder_iff.mpr ⟨earlier, op, more, rfl, rfl⟩

theorem Proper.kept (proper : Proper (before ++ after)) (inside : k < (built before).offset)
    (other : ¬ Placeholder before k) :
    (built (before ++ after)).code[k]? = (built before).code[k]? := by
  rw [built_append]
  apply Builder.code_applyAll_of_lt inside
  intro f later patches
  obtain ⟨mid, rest, rfl⟩ := List.append_of_mem later
  obtain ⟨p, same, target⟩ := proper (before ++ mid) f rest k (by simp) patches
  obtain rfl : k = p := by omega
  exact other (target.of_lt inside)

theorem Proper.placeholder (proper : Proper (before ++ e :: after)) (patches : e.Patches p) :
    Placeholder before p := by
  obtain ⟨q, same, target⟩ := proper before e after p rfl patches
  obtain rfl : p = q := by omega
  exact target

theorem Proper.answer (proper : Proper (before ++ e :: after)) :
    (∃ n, ((built before).apply e).1 = .ok (some n) ∧ e.start n = (built before).offset) ∨
      (∃ q, e.Patches q) ∧ ((built before).apply e).1 = .ok none := by
  by_cases h : ∃ q, e.Patches q
  · obtain ⟨q, patches⟩ := h
    obtain ⟨p, rfl, target⟩ := proper before e after q rfl patches
    refine .inr ⟨⟨p, patches⟩, ?_⟩
    cases e with
    | patch placeholder =>
      cases patches
      rw [Builder.apply_patch, Builder.apply_patchTo target.lt]
    | patchTo placeholder cell =>
      cases patches
      rw [Builder.apply_patchTo target.lt]
    | _ => exact absurd patches id
  · obtain ⟨n, applied, start⟩ := Builder.apply_of_emission (not_exists.mp h) (built before)
    exact .inl ⟨n, by rw [applied], start⟩

theorem Proper.start_eq (proper : Proper (before ++ e :: after))
    (answer : ((built before).apply e).1 = .ok (some n)) : e.start n = (built before).offset := by
  rcases proper.answer with ⟨m, answer', start⟩ | ⟨_, none⟩
  · cases answer.symm.trans answer'
    exact start
  · cases answer.symm.trans none

theorem offset_of_patches (before : List Emission) (patches : ∀ f ∈ after, ∃ q, f.Patches q) :
    (built (before ++ after)).offset = (built before).offset := by
  have nothing : after.flatMap Emission.cells = [] := by
    rw [List.flatMap_eq_nil_iff]
    intro f hf
    obtain ⟨q, h⟩ := patches f hf
    exact Emission.cells_of_patches h
  rw [offset_append, nothing, List.length_nil, Nat.add_zero]

theorem Placeholder.open (h : Placeholder es p) (unpatched : ∀ f ∈ es, ¬ f.Patches p) :
    (built es).code[p]? = some (-1) := by
  obtain ⟨before, op, after, rfl, rfl⟩ := placeholder_iff.mp h
  have present : (built before).offset + 1 < ((built before).apply (.jump op)).2.code.size := by
    rw [Builder.size_apply]
    exact Nat.lt_succ_self _
  have others : ∀ f ∈ after, ¬ f.Patches ((built before).offset + 1 : Nat) :=
    fun f later => unpatched f (by simp [later])
  rw [built_cons, Builder.code_applyAll_of_lt present others, code_appended before Nat.one_lt_two]
  rfl

theorem Placeholder.patched {target : Int} (h : Placeholder before p)
    (applied : (built before).apply e = (built before).apply (.patchTo p target))
    (last : ∀ f ∈ after, ¬ f.Patches p) :
    (built (before ++ e :: after)).code[p]? = some (.ofInt target) := by
  have inside : p < (built before).code.size := h.lt
  rw [built_cons, applied, Builder.apply_patchTo inside,
    Builder.code_applyAll_of_lt (by simpa using inside) last]
  simp [inside]

end Targets

structure Recorded (es : List Emission) : Prop where
  length_eq : (built es).code.size = (built es).offset
  /-- An emission answers where it stands, and no patch fails. -/
  answered : ∀ before e after, es = before ++ e :: after →
    (∃ n, ((built before).apply e).1 = .ok (some n) ∧ e.start n = (built before).offset) ∨
      (∃ q, e.Patches q) ∧ ((built before).apply e).1 = .ok none
  /-- An instruction stands where its emission answered. -/
  held : ∀ e n, Answers es e n →
    ∃ cells, e.Writes cells ∧ cells <+: (built es).code.toList.drop (e.start n)
  /-- The instructions in the order of the calls are all of the code. -/
  covered : ∃ written, List.Forall₂ Emission.Writes es written ∧
    written.flatten = (built es).code.toList
  kept : ∀ before after k, es = before ++ after → k < (built before).offset →
    ¬ Placeholder before k → (built es).code[k]? = (built before).code[k]?
  opened : ∀ p, Placeholder es p → (∀ f ∈ es, ¬ f.Patches p) → (built es).code[p]? = some (-1)
  /-- The target that was given last is cut to a cell, and is the same if it fits. -/
  patchedTo : ∀ before (p : Nat) target after, es = before ++ .patchTo p target :: after →
    (∀ f ∈ after, ¬ f.Patches p) → (built es).code[p]? = some (.ofInt target) ∧
      (-2 ^ 31 ≤ target → (Int32.ofInt target).toInt = target)
  /-- Without a target given, the jump leads to what is emitted next. -/
  patched : ∀ before (p : Nat) after, es = before ++ .patch p :: after →
    (∀ f ∈ after, ¬ f.Patches p) → ∃ cell, (built es).code[p]? = some cell ∧
      cell.toInt = (built before).offset ∧
      ∀ skipped f later n, after = skipped ++ f :: later → (∀ g ∈ skipped, ∃ q, g.Patches q) →
        ((built (before ++ .patch p :: skipped)).apply f).1 = .ok (some n) → cell.toInt = f.start n

theorem builders_record_their_calls (es : List Emission) (proper : Proper es)
    (small : (built es).offset < 2 ^ 31)
    (targets : ∀ placeholder target, .patchTo placeholder target ∈ es → target < 2 ^ 31) :
    Recorded es := by
  constructor
  · rfl
  · rintro before e after rfl
    exact proper.answer
  · rintro e n ⟨before, after, rfl, answer⟩
    rw [proper.start_eq answer]
    exact ⟨_, proper.writes_slice small, List.take_prefix _ _⟩
  · refine ⟨slices (built es).code.toList es, writes_slices ?_, flatten_slices (offset_built es)⟩
    rintro before e after rfl
    rw [← offset_built]
    exact proper.writes_slice small
  · rintro before after k rfl
    exact proper.kept
  · intro p
    exact Placeholder.open
  · rintro before p target after rfl last
    have below := targets p target (by simp)
    exact ⟨(proper.placeholder rfl).patched rfl last, fun least => Int32.toInt_ofInt_of_le least below⟩
  · rintro before p after rfl last
    have place := (proper.placeholder rfl).patched (Builder.apply_patch _ _) last
    have value : (Int32.ofInt (built before).offset).toInt = (built before).offset := by
      rw [offset_append] at small
      exact Int32.toInt_ofInt_of_le (by omega) (by omega)
    refine ⟨_, place, value, ?_⟩
    rintro skipped f later n rfl patches answer
    have whole : before ++ .patch p :: (skipped ++ f :: later) =
        (before ++ .patch p :: skipped) ++ f :: later := by simp
    have silent : ∀ g ∈ Emission.patch p :: skipped, ∃ q, g.Patches q :=
      List.forall_mem_cons.mpr ⟨⟨p, rfl⟩, patches⟩
    rw [whole] at proper
    rw [value, proper.start_eq answer, offset_of_patches before silent]

theorem Proper.snoc (proper : Proper es)
    (earlier : ∀ q, e.Patches q → ∃ p : Nat, q = p ∧ Placeholder es p) : Proper (es ++ [e]) := by
  intro before f after q split patches
  rcases List.append_eq_append_iff.mp split with ⟨mid, rfl, tail⟩ | ⟨mid, rfl, tail⟩
  · cases mid with
    | nil =>
      cases tail
      simpa using earlier q patches
    | cons g mid => simp at tail
  · cases mid with
    | nil =>
      cases tail
      simpa using earlier q patches
    | cons g mid =>
      cases tail
      exact proper before f mid q rfl patches

/-- A loop whose end is patched twice, around a text with a stray byte. -/
def patchedLoop : List Emission :=
  [.int 3, .jump Builtin.Nr.jumpIfFalse, .patchTo 3 0, .string [0x61, 0xFF], .patch 3,
    .emit Builtin.Nr.halt []]

theorem patchedLoop_is_recorded : Proper patchedLoop ∧ Recorded patchedLoop ∧
    (built patchedLoop).code = #[1, 3, 27, 8, 8, 2, 97, 65533, 0] := by
  have code : (built patchedLoop).code = #[1, 3, 27, 8, 8, 2, 97, 65533, 0] := by
    decide +kernel
  have target (more : List Emission) :
      Placeholder (.int 3 :: .jump Builtin.Nr.jumpIfFalse :: more) 3 :=
    placeholder_iff.mpr ⟨[.int 3], _, more, rfl, by decide⟩
  have empty : Proper [] := by simp [Proper]
  have started : Proper [.int 3, .jump Builtin.Nr.jumpIfFalse] :=
    (empty.snoc fun _ => False.elim).snoc fun _ => False.elim
  have patched : Proper [.int 3, .jump Builtin.Nr.jumpIfFalse, .patchTo 3 0, .string [0x61, 0xFF]] :=
    (started.snoc (e := .patchTo 3 0) fun _ same => ⟨3, same.symm, target []⟩).snoc fun _ => False.elim
  have proper : Proper patchedLoop :=
    (patched.snoc (e := .patch 3) fun _ same => ⟨3, same.symm, target _⟩).snoc fun _ => False.elim
  refine ⟨proper, builders_record_their_calls _ proper ?_ ?_, code⟩
  · rw [Builder.offset, code]
    decide
  · simp [patchedLoop]

end StackMachine.Program
