/-! Cutting a list at separators. -/
namespace StackMachine.Text

variable {α : Type}

/-- The pieces between separators; what stands behind the last one is a piece
too, also when it is empty. -/
def pieces (isSeparator : α → Bool) (xs : List α) : List (List α) :=
  let first := xs.takeWhile (!isSeparator ·)
  match _h : xs.dropWhile (!isSeparator ·) with
  | [] => [first]
  | _ :: rest => first :: pieces isSeparator rest
termination_by xs.length
decreasing_by
  have := (List.dropWhile_suffix (l := xs) (!isSeparator ·)).length_le
  rw [_h] at this
  simp only [List.length_cons] at this
  omega

def runs (isSeparator : α → Bool) (xs : List α) : List (List α) :=
  (pieces isSeparator xs).filter (!·.isEmpty)

end StackMachine.Text
