import Mathlib.Algebra.Group.Nat.Defs
import StackMachine.Text.Quoted
/-! A quoted text gives the text back: one character is read off in front of any rest, and
the closing quote is no character, so that reading goes up to there. Quoted texts stay on
one line. -/
namespace StackMachine.Text

section Hexadecimal

def hexDigit (c : Char) : Nat := if c.isDigit then c.toNat - '0'.toNat else c.toNat - 'a'.toNat + 10

def natOfHex (cs : List Char) : Nat := cs.foldl (fun n c => 16 * n + hexDigit c) 0

theorem hexDigit_digitChar : ∀ d < 16, hexDigit d.digitChar = d := by decide

theorem natOfHex_zeros (k : Nat) (cs : List Char) :
    natOfHex (List.replicate k '0' ++ cs) = natOfHex cs := by
  induction k with
  | zero => rfl
  | succ k ih =>
    rw [← ih]
    rfl

theorem natOfHex_toDigits (n : Nat) : natOfHex (Nat.toDigits 16 n) = n := by
  induction n using Nat.strongRecOn with
  | ind n ih =>
    rcases Nat.lt_or_ge n 16 with small | large
    · rw [Nat.toDigits_of_lt_base small]
      simpa [natOfHex] using hexDigit_digitChar n small
    · have front := ih (n / 16) (by omega)
      have last := hexDigit_digitChar (n % 16) (Nat.mod_lt _ (by decide))
      rw [Nat.toDigits_of_base_le (by decide) large]
      unfold natOfHex at front ⊢
      rw [List.foldl_append, front, List.foldl_cons, List.foldl_nil, last]
      omega

theorem toList_hex (width n : Nat) : (hex width n).toList =
    List.replicate (width - (Nat.toDigits 16 n).length) '0' ++ Nat.toDigits 16 n :=
  String.toList_ofList

theorem natOfHex_hex (width n : Nat) : natOfHex (hex width n).toList = n := by
  rw [toList_hex, natOfHex_zeros, natOfHex_toDigits]

theorem length_hex {width n : Nat} (pos : 0 < width) (fits : n < 16 ^ width) :
    (hex width n).toList.length = width := by
  have short := (Nat.length_toDigits_le_iff (by decide) pos).mpr fits
  rw [toList_hex, List.length_append, List.length_replicate]
  omega

end Hexadecimal

def codePoint (width : Nat) (cs : List Char) : Char × List Char :=
  (Char.ofNat (natOfHex (cs.take width)), cs.drop width)

def ofLetter : Char → Char
  | 'a' => '\x07'
  | 'b' => '\x08'
  | 'f' => '\x0C'
  | 'n' => '\n'
  | 'r' => '\r'
  | 't' => '\t'
  | 'v' => '\x0B'
  | mark => mark

def readChar? : List Char → Option (Char × List Char)
  | [] => none
  | '"' :: _ => none
  | '\\' :: mark :: cs =>
    if mark = 'x' then some (codePoint 2 cs)
    else if mark = 'u' then some (codePoint 4 cs)
    else if mark = 'U' then some (codePoint 8 cs)
    else some (ofLetter mark, cs)
  | c :: cs => some (c, cs)

variable {c : Char} {letter : Char}

theorem codePoint_hex {width : Nat} (pos : 0 < width) (fits : c.toNat < 16 ^ width)
    (rest : List Char) : codePoint width ((hex width c.toNat).toList ++ rest) = (c, rest) := by
  have length := length_hex pos fits
  rw [codePoint, List.take_left' length, List.drop_left' length, natOfHex_hex, Char.ofNat_toNat]

theorem ofLetter_of_shortEscape? (h : shortEscape? c = some letter) :
    ofLetter letter = c ∧ letter ≠ 'x' ∧ letter ≠ 'u' ∧ letter ≠ 'U' ∧ letter ≠ '\n' := by
  have code := Char.ofNat_toNat c
  unfold shortEscape? at h
  generalize c.toNat = n at h code
  subst code
  split at h <;> cases h <;> decide

theorem readChar?_plain (noQuote : c ≠ '"') (noEscape : c ≠ '\\') (rest : List Char) :
    readChar? (c :: rest) = some (c, rest) := by
  unfold readChar?
  split
  next h => cases h
  next h => exact absurd (List.cons.inj h).1 noQuote
  next h => exact absurd (List.cons.inj h).1 noEscape
  next h => cases h; rfl

/-- Every character is read off in front of any rest. -/
theorem readChar?_quoteChar (c : Char) (rest : List Char) :
    readChar? ((quoteChar c).toList ++ rest) = some (c, rest) := by
  have below : c.toNat < 16 ^ 8 := c.val.toNat_lt
  unfold quoteChar
  split
  next mark =>
    rw [String.toList_ofList]
    rcases mark with rfl | rfl
    · rfl
    · rfl
  next unmarked =>
    rw [not_or] at unmarked
    split
    · rw [Char.toString, String.toList_singleton]
      exact readChar?_plain unmarked.1 unmarked.2 rest
    · split
      next letter short =>
        obtain ⟨back, noX, noSmall, noLarge, _⟩ := ofLetter_of_shortEscape? short
        rw [String.toList_ofList]
        change (if letter = 'x' then _ else if letter = 'u' then _ else if letter = 'U' then _ else _) = _
        rw [if_neg noX, if_neg noSmall, if_neg noLarge, back]
        rfl
      · split
        next ascii =>
          rw [String.toList_append]
          exact congrArg some (codePoint_hex (by decide) (Nat.lt_trans ascii (by decide)) rest)
        · split
          next basic =>
            rw [String.toList_append]
            exact congrArg some (codePoint_hex (by decide) basic rest)
          · rw [String.toList_append]
            exact congrArg some (codePoint_hex (by decide) below rest)

def escaped (cs : List Char) : List Char := cs.flatMap fun c => (quoteChar c).toList

theorem escaped_cons (c : Char) (cs : List Char) :
    escaped (c :: cs) = (quoteChar c).toList ++ escaped cs := List.flatMap_cons

theorem toList_quote (s : String) : (quote s).toList = '"' :: (escaped s.toList ++ ['"']) := by
  rw [quote, quotePieces, String.toList_append, String.toList_append, String.toList_join, List.map_map,
    List.flatMap_map]
  rfl

theorem escaped_inj {cs ds : List Char} (h : escaped cs ++ ['"'] = escaped ds ++ ['"']) : cs = ds := by
  have finish : readChar? ['"'] = none := rfl
  induction cs generalizing ds with
  | nil =>
    cases ds with
    | nil => rfl
    | cons d ds =>
      rw [escaped_cons, List.append_assoc] at h
      have first := readChar?_quoteChar d (escaped ds ++ ['"'])
      rw [← h] at first
      exact absurd (finish.symm.trans first) nofun
  | cons c cs ih =>
    rw [escaped_cons, List.append_assoc] at h
    have first := readChar?_quoteChar c (escaped cs ++ ['"'])
    cases ds with
    | nil =>
      rw [h] at first
      exact absurd (finish.symm.trans first) nofun
    | cons d ds =>
      rw [h, escaped_cons, List.append_assoc, readChar?_quoteChar] at first
      obtain ⟨same, rest⟩ := Prod.mk.inj (Option.some.inj first)
      rw [← same, ih rest.symm]

theorem quote_inj {s t : String} (h : quote s = quote t) : s = t := by
  have written := congrArg String.toList h
  rw [toList_quote, toList_quote] at written
  exact String.toList_inj.mp (escaped_inj (List.cons.inj written).2)

section Readback

theorem length_readChar? {cs rest : List Char} (h : readChar? cs = some (c, rest)) :
    rest.length < cs.length := by
  unfold readChar? at h
  split at h
  · cases h
  · cases h
  next mark more =>
    have shorter (width : Nat) : (codePoint width more).2.length ≤ more.length := by simp [codePoint]
    repeat' split at h
    all_goals cases h
    all_goals simp only [List.length_cons]
    · exact Nat.lt_add_right 1 (Nat.lt_succ_of_le (shorter 2))
    · exact Nat.lt_add_right 1 (Nat.lt_succ_of_le (shorter 4))
    · exact Nat.lt_add_right 1 (Nat.lt_succ_of_le (shorter 8))
    · omega
  · cases h
    simp

def unescaped (cs : List Char) : List Char :=
  match _h : readChar? cs with
  | none => []
  | some (c, rest) => c :: unescaped rest
termination_by cs.length
decreasing_by exact length_readChar? _h

theorem unescaped_escaped (cs : List Char) : unescaped (escaped cs ++ ['"']) = cs := by
  induction cs with
  | nil =>
    rw [unescaped]
    rfl
  | cons c cs ih =>
    rw [escaped_cons, List.append_assoc, unescaped]
    split
    next none =>
      rw [readChar?_quoteChar] at none
      cases none
    next d rest first =>
      rw [readChar?_quoteChar] at first
      cases first
      rw [ih]

end Readback

section Lines

def OneLine (cs : List Char) : Prop := '\n' ∉ cs

instance : DecidablePred OneLine := fun cs => inferInstanceAs (Decidable ('\n' ∉ cs))

theorem OneLine.append {cs ds : List Char} (hc : OneLine cs) (hd : OneLine ds) : OneLine (cs ++ ds) := by
  intro h
  rcases List.mem_append.mp h with left | right
  · exact hc left
  · exact hd right

theorem oneLine_of_digits {cs : List Char} (h : ∀ c ∈ cs, c.isDigit = true) : OneLine cs := fun hn =>
  absurd (h _ hn) (by decide)

theorem oneLine_toDigits (n : Nat) : OneLine (Nat.toDigits 16 n) := by
  induction n using Nat.strongRecOn with
  | ind n ih =>
    rcases Nat.lt_or_ge n 16 with small | large
    · rw [Nat.toDigits_of_lt_base small]
      simp [OneLine]
    · rw [Nat.toDigits_of_base_le (by decide) large]
      exact (ih (n / 16) (by omega)).append (by simp [OneLine])

theorem oneLine_hex (width n : Nat) : OneLine (hex width n).toList := by
  rw [toList_hex]
  refine OneLine.append (fun h => ?_) (oneLine_toDigits n)
  exact absurd (List.eq_of_mem_replicate h) (by decide)

theorem isPrintable_newline : isPrintable '\n' = false := by decide +kernel

theorem oneLine_quoteChar (c : Char) : OneLine (quoteChar c).toList := by
  unfold quoteChar
  split
  next mark =>
    rcases mark with rfl | rfl
    · decide
    · decide
  · split
    next printable =>
      rw [Char.toString, String.toList_singleton, OneLine, List.mem_singleton]
      rintro rfl
      rw [isPrintable_newline] at printable
      cases printable
    · split
      next letter short =>
        obtain ⟨_, _, _, _, sameLine⟩ := ofLetter_of_shortEscape? short
        rw [String.toList_ofList]
        simpa [OneLine] using sameLine.symm
      · repeat' split
        all_goals
          rw [String.toList_append]
          exact OneLine.append (by decide) (oneLine_hex _ _)

theorem oneLine_quote (s : String) : OneLine (quote s).toList := by
  have body : OneLine (escaped s.toList) := by
    intro h
    obtain ⟨c, _, hc⟩ := List.mem_flatMap.mp h
    exact oneLine_quoteChar c hc
  rw [toList_quote]
  exact OneLine.append (by decide : OneLine ['"']) (body.append (by decide))

end Lines

end StackMachine.Text
