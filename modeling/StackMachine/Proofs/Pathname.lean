import Mathlib.Data.List.Induction
import Mathlib.Logic.Function.Iterate
import StackMachine.Pathname
import StackMachine.Proofs.Text.Split
/-! Places and the paths that name them. A path without dots and empty names says the same as
the list of its names, so joining, reducing and resolving it is done on the list. -/
namespace StackMachine.Pathname

def parent (p : Place) : Place := p.dropLast

/-- A name that leads from a directory to an entry of it. -/
structure Proper (name : String) : Prop where
  nonempty : name ≠ ""
  no_dot : name ≠ "."
  no_dots : name ≠ ".."
  no_slash : '/' ∉ name.toList

variable {p kept : Place} {path name : String}

theorem names_append (a b : String) : names (a ++ "/" ++ b) = names a ++ names b := by
  have cut := Text.pieces_append (p := (· == '/')) a.toList b.toList (s := '/') rfl
  simp [names, String.toList_append, cut]

theorem no_slash_of_mem_names (h : name ∈ names path) : '/' ∉ name.toList := by
  obtain ⟨piece, hpiece, rfl⟩ := List.mem_map.mp h
  intro slash
  have := Text.plain_of_mem_pieces hpiece '/' (by simpa using slash)
  simp at this

theorem names_of_no_slash (h : '/' ∉ name.toList) : names name = [name] := by
  have plain : ∀ c ∈ name.toList, (c == '/') = false := by
    intro c hc
    rw [beq_eq_false_iff_ne]
    rintro rfl
    exact h hc
  simp [names, Text.pieces_of_plain plain]

/-- A path from the root; that of the root itself has one more empty name. -/
theorem names_ofPlace (proper : ∀ n ∈ p, Proper n) :
    names (ofPlace p) = "" :: if p = [] then [""] else p := by
  have rooted : ofPlace p = "" ++ "/" ++ "/".intercalate p := by simp [ofPlace]
  rw [rooted, names_append, names_of_no_slash (by simp)]
  split
  next root => simp [root, names_of_no_slash]
  next more =>
    have slashless : ∀ l ∈ p.map String.toList, '/' ∉ l := by
      simpa using fun n hn => (proper n hn).no_slash
    have cut := List.splitOn_intercalate '/' slashless (by simpa using more)
    simp [names, String.toList_intercalate, Text.pieces_eq_splitOnP, ← List.splitOn.eq_1, cut]

theorem reduce_append (proper : ∀ n ∈ p, Proper n) (more : List String) :
    reduce true kept (p ++ more) = reduce true (p.reverse ++ kept) more := by
  induction p generalizing kept with
  | nil => simp
  | cons name rest ih =>
    rw [List.forall_mem_cons] at proper
    obtain ⟨⟨nonempty, no_dot, no_dots, _⟩, proper⟩ := proper
    simp [reduce, nonempty, no_dot, no_dots, ih proper]

theorem proper_of_mem_reduce {ns : List String} (slashless : ∀ n ∈ ns, '/' ∉ n.toList)
    (proper : ∀ n ∈ kept, Proper n) : ∀ n ∈ reduce true kept ns, Proper n := by
  fun_induction reduce true kept ns with
  | case1 => simpa using proper
  | case2 kept name rest skipped ih =>
    rw [List.forall_mem_cons] at slashless
    exact ih slashless.2 proper
  | case3 rest up ih =>
    rw [List.forall_mem_cons] at slashless
    exact ih slashless.2 (by simp)
  | case4 rest before up ih => exact absurd rfl (proper ".." List.mem_cons_self).no_dots
  | case5 rest last before named up ih =>
    rw [List.forall_mem_cons] at slashless proper
    exact ih slashless.2 proper.2
  | case6 kept name rest named no_dots ih =>
    rw [List.forall_mem_cons] at slashless
    rw [not_or] at named
    apply ih slashless.2
    rw [List.forall_mem_cons]
    exact ⟨⟨named.1, named.2, no_dots, slashless.1⟩, proper⟩

theorem proper_of_mem_resolve (absolute : isAbsolute path = true) (cwd : Place) :
    ∀ n ∈ resolve cwd path, Proper n := by
  rw [resolve, if_pos absolute]
  exact proper_of_mem_reduce (fun _ => no_slash_of_mem_names) (by simp)

theorem isAbsolute_ofPlace (p : Place) : isAbsolute (ofPlace p) = true := by
  simp [isAbsolute, ofPlace]

section Proper

variable (proper : ∀ n ∈ p, Proper n)

include proper

theorem reduce_names_ofPlace (more : List String) :
    reduce true [] (names (ofPlace p) ++ more) = reduce true p.reverse more := by
  rw [names_ofPlace proper]
  split
  next root => simp [root, reduce]
  next => simp [reduce, reduce_append proper]

theorem resolve_ofPlace (cwd : Place) : resolve cwd (ofPlace p) = p := by
  have reduced := reduce_names_ofPlace proper []
  rw [List.append_nil] at reduced
  simp [resolve, isAbsolute_ofPlace, reduced, reduce]

theorem join_ofPlace (hname : Proper name) : join (ofPlace p) name = ofPlace (p ++ [name]) := by
  have absolute : isAbsolute (ofPlace p ++ "/" ++ name) = true := by simp [isAbsolute, ofPlace]
  have reduced : reduce true [] (names (ofPlace p ++ "/" ++ name)) = p ++ [name] := by
    rw [names_append, names_of_no_slash hname.no_slash, reduce_names_ofPlace proper]
    simp [reduce, hname.nonempty, hname.no_dot, hname.no_dots]
  have nonempty : (ofPlace p).isEmpty = false := by simp [ofPlace]
  simp [join, nonempty, clean, absolute, reduced]

end Proper

theorem upward_concat (p : Place) (name : String) :
    upward (p ++ [name]) = (p ++ [name]) :: upward p := by
  have above (k : Nat) : (p ++ [name]).take (p.length - k) = p.take (p.length - k) :=
    List.take_append_of_le_length (Nat.sub_le _ _)
  rw [upward, List.length_append, List.length_singleton, List.range_succ_eq_map]
  simp [upward, above, List.take_of_length_le]

theorem proper_iterate_parent (proper : ∀ n ∈ p, Proper n) (k : Nat) :
    ∀ n ∈ parent^[k] p, Proper n := by
  induction k with
  | zero => simpa using proper
  | succ k ih =>
    intro n hn
    rw [Function.iterate_succ_apply'] at hn
    exact ih n (List.dropLast_subset _ hn)

theorem iterate_parent_length (p : Place) : parent^[p.length] p = [] := by
  induction p using List.reverseRecOn with
  | nil => rfl
  | append_singleton p name ih => simp [parent, ih]

end StackMachine.Pathname
