/-! Dates and times of day. A reader gives back the text behind what it read;
`fixed` asks for two digits where otherwise one will do. -/
namespace StackMachine.Text.Calendar

def isLeap (year : Nat) : Bool := year % 4 == 0 && (year % 100 != 0 || year % 400 == 0)

def daysIn (year month : Nat) : Nat :=
  if month = 2 then if isLeap year then 29 else 28
  else if month = 4 ∨ month = 6 ∨ month = 9 ∨ month = 11 then 30
  else 31

def digit (c : Char) : Nat := c.toNat - '0'.toNat

def readNumber? (fixed : Bool) : List Char → Option (Nat × List Char)
  | a :: b :: rest =>
    if a.isDigit && b.isDigit then some (10 * digit a + digit b, rest)
    else if a.isDigit && !fixed then some (digit a, b :: rest)
    else none
  | [a] => if a.isDigit && !fixed then some (digit a, []) else none
  | [] => none

def skip? (c : Char) : List Char → Option (List Char)
  | [] => none
  | d :: rest => if c = d then some rest else none

def readYear? : List Char → Option (Nat × List Char)
  | a :: b :: c :: d :: rest =>
    if [a, b, c, d].all Char.isDigit then
      some (1000 * digit a + 100 * digit b + 10 * digit c + digit d, rest)
    else none
  | _ => none

def readDate? (fixed : Bool) (text : List Char) : Option (List Char) := do
  let (year, rest) ← readYear? text
  let (month, rest) ← readNumber? fixed (← skip? '-' rest)
  let (day, rest) ← readNumber? fixed (← skip? '-' rest)
  if 1 ≤ month ∧ month ≤ 12 ∧ 1 ≤ day ∧ day ≤ daysIn year month then some rest else none

def readMinute? (fixed : Bool) (text : List Char) : Option (List Char) := do
  let (hour, rest) ← readNumber? fixed text
  let (minute, rest) ← readNumber? fixed (← skip? ':' rest)
  if hour < 24 ∧ minute < 60 then some rest else none

/-- A fraction needs a digit; without one it is left to be read. -/
def dropFraction : List Char → List Char
  | mark :: d :: rest =>
    if (mark = '.' ∨ mark = ',') ∧ d.isDigit then rest.dropWhile Char.isDigit else mark :: d :: rest
  | text => text

def readClock? (fixed : Bool) (text : List Char) : Option (List Char) := do
  let rest ← readMinute? fixed text
  let (second, rest) ← readNumber? fixed (← skip? ':' rest)
  if second < 60 then some (dropFraction rest) else none

/-- An offset from universal time; whole days and hours may be spelt out. -/
def readZone? : List Char → Option (List Char)
  | 'Z' :: rest => some rest
  | sign :: rest => do
    if sign ≠ '+' ∧ sign ≠ '-' then none
    let (hours, rest) ← readNumber? true rest
    let (minutes, rest) ← readNumber? true (← skip? ':' rest)
    if hours ≤ 24 ∧ minutes ≤ 60 then some rest else none
  | [] => none

def isEnd (rest : Option (List Char)) : Bool := rest.any List.isEmpty

end StackMachine.Text.Calendar
