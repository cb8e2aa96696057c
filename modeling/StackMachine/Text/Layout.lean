/-! Fields of fixed width; a width counts characters. -/
namespace StackMachine.Text

def padRight (width : Nat) (s : String) : String :=
  s ++ String.ofList (List.replicate (width - s.length) ' ')

def zeroPadded (width n : Nat) : String :=
  let s := toString n
  String.ofList (List.replicate (width - s.length) '0') ++ s

end StackMachine.Text
