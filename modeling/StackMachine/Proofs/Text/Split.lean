import Mathlib.Data.List.TakeWhile
import StackMachine.Text.Split
/-! Cutting at separators. The pieces are those of `List.splitOnP`, and the runs are the
only way to read a list as separators and maximal stretches between them. -/
namespace StackMachine.Text

variable {α : Type} {p : α → Bool} {xs rest : List α} {rs more : List (List α)}

theorem plain_takeWhile (p : α → Bool) (xs : List α) : ∀ x ∈ xs.takeWhile (!p ·), p x = false := by
  intro x hx
  simpa using List.mem_takeWhile_imp hx

theorem separates_dropWhile (p : α → Bool) (xs : List α) :
    ∀ s ∈ (xs.dropWhile (!p ·)).head?, p s = true := by
  intro s hs
  have := List.head?_dropWhile_not (!p ·) xs
  simpa [Option.mem_def.mp hs] using this

theorem pieces_eq_splitOnP (p : α → Bool) (xs : List α) : pieces p xs = xs.splitOnP p := by
  fun_induction pieces p xs with
  | case1 xs first last =>
    have plain : ∀ x ∈ xs, p x = false := by simpa [List.dropWhile_eq_nil_iff] using last
    have all : first = xs := List.takeWhile_eq_self_iff.mpr (by simpa using plain)
    rw [all, List.splitOnP_eq_singleton plain]
  | case2 xs first s rest last ih =>
    have separates : p s = true := separates_dropWhile p xs s (by rw [last, List.head?_cons]; rfl)
    have cut := List.splitOnP_append_cons_of_forall_mem (plain_takeWhile p xs) s separates rest
    rw [← last, List.takeWhile_append_dropWhile] at cut
    rw [ih, cut]

theorem pieces_append (xs ys : List α) {s : α} (separates : p s = true) :
    pieces p (xs ++ s :: ys) = pieces p xs ++ pieces p ys := by
  simp only [pieces_eq_splitOnP, List.splitOnP_append_cons xs ys separates]

theorem pieces_of_plain (plain : ∀ x ∈ xs, p x = false) : pieces p xs = [xs] := by
  rw [pieces_eq_splitOnP, List.splitOnP_eq_singleton plain]

theorem plain_of_mem_pieces {piece : List α} (h : piece ∈ pieces p xs) : ∀ x ∈ piece, p x = false := by
  fun_induction pieces p xs with
  | case1 xs first last =>
    rw [List.mem_singleton.mp h]
    exact plain_takeWhile p xs
  | case2 xs first s rest last ih =>
    rcases List.mem_cons.mp h with rfl | h
    · exact plain_takeWhile p xs
    · exact ih h

theorem length_pieces (p : α → Bool) (xs : List α) : (pieces p xs).length = xs.countP p + 1 := by
  rw [pieces_eq_splitOnP]
  induction xs with
  | nil => simp
  | cons x xs ih =>
    rw [List.splitOnP_cons_eq_if_modifyHead, List.countP_cons]
    split
    next separates => simp [ih]
    next => simp [ih]

/-- A list read as separators and as maximal stretches without one, which are its runs. -/
inductive Runs (p : α → Bool) : List α → List (List α) → Prop where
  | done : Runs p [] []
  | skip {s : α} {rest : List α} {rs : List (List α)} :
      p s = true → Runs p rest rs → Runs p (s :: rest) rs
  | run {run rest : List α} {rs : List (List α)} :
      run ≠ [] → (∀ x ∈ run, p x = false) → (∀ s ∈ rest.head?, p s = true) →
      Runs p rest rs → Runs p (run ++ rest) (run :: rs)

theorem runs_nil : runs p [] = [] := by
  simp [runs, pieces_eq_splitOnP]

theorem runs_skip {s : α} (separates : p s = true) (rest : List α) :
    runs p (s :: rest) = runs p rest := by
  have empty : pieces p ([] : List α) = [[]] := pieces_of_plain nofun
  have cut := pieces_append [] rest separates
  rw [List.nil_append, empty] at cut
  simp [runs, cut]

theorem runs_append {run : List α} (some : run ≠ []) (plain : ∀ x ∈ run, p x = false)
    (ends : ∀ s ∈ rest.head?, p s = true) : runs p (run ++ rest) = run :: runs p rest := by
  cases rest with
  | nil =>
    rw [List.append_nil, runs_nil]
    simp [runs, pieces_of_plain plain, some]
  | cons s rest =>
    have separates : p s = true := ends s rfl
    rw [runs_skip separates]
    simp [runs, pieces_append run rest separates, pieces_of_plain plain, some]

theorem Runs.eq_runs (h : Runs p xs rs) : rs = runs p xs := by
  induction h with
  | done => exact runs_nil.symm
  | skip separates _ ih => rw [runs_skip separates, ih]
  | run some plain ends _ ih => rw [runs_append some plain ends, ih]

theorem exists_runs (p : α → Bool) (xs : List α) : ∃ rs, Runs p xs rs := by
  induction length : xs.length using Nat.strongRecOn generalizing xs with
  | ind n shorter =>
    cases xs with
    | nil => exact ⟨[], .done⟩
    | cons x xs =>
      cases separates : p x with
      | true =>
        obtain ⟨rs, hrs⟩ := shorter xs.length (by simp [← length]) xs rfl
        exact ⟨rs, .skip separates hrs⟩
      | false =>
        let run := (x :: xs).takeWhile (!p ·)
        let rest := (x :: xs).dropWhile (!p ·)
        have whole : run ++ rest = x :: xs := List.takeWhile_append_dropWhile
        have some : run ≠ [] := by simp [run, separates]
        have fewer : rest.length < n := by
          have := congrArg List.length whole
          have := List.length_pos_iff.mpr some
          simp only [List.length_append] at *
          omega
        obtain ⟨rs, hrs⟩ := shorter rest.length fewer rest rfl
        rw [← whole]
        exact ⟨run :: rs, .run some (plain_takeWhile p _) (separates_dropWhile p _) hrs⟩

theorem runs_iff : Runs p xs rs ↔ rs = runs p xs := by
  constructor
  · exact Runs.eq_runs
  · rintro rfl
    obtain ⟨rs, h⟩ := exists_runs p xs
    rwa [← h.eq_runs]

end StackMachine.Text
