import StackMachine.Command.Report
import StackMachine.Proofs.Rational.Numeral
import StackMachine.Proofs.Text.Quoted
import StackMachine.Snapshot.Basic
/-! What is shown of a value determines it: its kind and its text, a slot of a snapshot, and
a line of a listing. -/
namespace StackMachine

namespace Value

variable {a b : Value} {vs ws : List Value}

/-- Numbers whose texts read back; see `Rational.Legible`. -/
def Legible : Value → Prop
  | .rational r => r.Legible
  | _ => True

instance : DecidablePred Legible
  | .rational r => inferInstanceAs (Decidable r.Legible)
  | .integer _ => inferInstanceAs (Decidable True)
  | .string _ => inferInstanceAs (Decidable True)
  | .opcodeRef _ => inferInstanceAs (Decidable True)

theorem toString_inj {z w : ℤ} (h : toString z = toString w) : z = w := by
  have read := Numeral.read?_toString z
  rw [h, Numeral.read?_toString, Option.some.injEq] at read
  exact_mod_cast read.symm

theorem same_of_text_eq (ha : a.Legible) (hb : b.Legible) (kind : a.kind = b.kind)
    (text : a.text = b.text) : a.same b = true := by
  cases a with
  | integer n =>
    cases b with
    | integer m => exact beq_iff_eq.mpr (Int64.toInt_inj.mp (toString_inj text))
    | _ => cases kind
  | string s =>
    cases b with
    | string t => exact beq_iff_eq.mpr (Text.quote_inj text)
    | _ => cases kind
  | rational p =>
    cases b with
    | rational q => exact beq_iff_eq.mpr (Rational.compare_eq_of_text_eq ha hb text)
    | _ => cases kind
  | opcodeRef n =>
    cases b with
    | opcodeRef m =>
      have digits : toString n.toInt = toString m.toInt := (String.append_right_inj "&").mp text
      exact beq_iff_eq.mpr (Int32.toInt_inj.mp (toString_inj digits))
    | _ => cases kind

theorem kind_eq_of_name_eq (k l : Kind) : k.name = l.name → k = l := by
  cases k <;> cases l <;> decide

theorem same_of_snapshot_eq (ha : a.Legible) (hb : b.Legible) (h : a.snapshot = b.snapshot) :
    a.same b = true := by
  obtain ⟨kind, text⟩ := SlotSnapshot.mk.inj h
  exact same_of_text_eq ha hb (kind_eq_of_name_eq _ _ kind) text

/-- How a slot shows a value: by the name of its kind, and by a text from which the value can
be read. -/
inductive ShownAs : Value → SlotSnapshot → Prop where
  | integer (n : Int64) : ShownAs (.integer n) ⟨"Integer", toString n.toInt⟩
  | string {s text : String} {body : List Char} : text.toList = '"' :: (body ++ ['"']) →
      Text.unescaped (body ++ ['"']) = s.toList → ShownAs (.string s) ⟨"String", text⟩
  | rational {r : Rational} {text : String} : r.ReadsBack text →
      ShownAs (.rational r) ⟨"Rational", text⟩
  | opcodeRef (nr : Int32) : ShownAs (.opcodeRef nr) ⟨"OpcodeRef", "&" ++ toString nr.toInt⟩

theorem shownAs_snapshot (v : Value) : v.ShownAs v.snapshot := by
  cases v with
  | integer n => exact .integer n
  | string s => exact .string (Text.toList_quote s) (Text.unescaped_escaped s.toList)
  | rational r => exact .rational r.readsBack_text
  | opcodeRef nr => exact .opcodeRef nr

def SameEach (vs ws : List Value) : Prop := List.Forall₂ (fun a b => a.same b = true) vs ws

theorem sameEach_of_snapshot_eq (hv : ∀ v ∈ vs, v.Legible) (hw : ∀ w ∈ ws, w.Legible)
    (h : vs.map snapshot = ws.map snapshot) : SameEach vs ws := by
  induction vs generalizing ws with
  | nil =>
    cases ws with
    | nil => exact .nil
    | cons b ws => cases h
  | cons a vs ih =>
    cases ws with
    | nil => cases h
    | cons b ws =>
      obtain ⟨ha, hvs⟩ := List.forall_mem_cons.mp hv
      obtain ⟨hb, hws⟩ := List.forall_mem_cons.mp hw
      obtain ⟨first, rest⟩ := List.cons.inj h
      exact .cons (same_of_snapshot_eq ha hb first) (ih hvs hws rest)

end Value

section Lines

open Text Numeral

variable {cs : List Char} {x : ℤ} {y : ℚ} {text : String}

theorem oneLine_of_natural? {n : ℕ} (h : natural? cs = some n) : OneLine cs :=
  oneLine_of_digits (natural?_eq_some_iff.mp h).2.1

theorem oneLine_of_exponent? (h : exponent? cs = some x) : OneLine cs := by
  unfold exponent? at h
  split at h
  · decide
  next ds =>
    obtain ⟨n, hn, _⟩ := Option.map_eq_some_iff.mp h
    exact OneLine.append (by decide : OneLine ['e', '+']) (oneLine_of_natural? hn)
  next ds =>
    obtain ⟨n, hn, _⟩ := Option.map_eq_some_iff.mp h
    exact OneLine.append (by decide : OneLine ['e', '-']) (oneLine_of_natural? hn)
  · cases h

theorem oneLine_takeWhile (cs : List Char) : OneLine (cs.takeWhile Char.isDigit) :=
  oneLine_of_digits fun _ hc => List.mem_takeWhile_imp hc

theorem oneLine_of_unsigned? (h : unsigned? cs = some y) : OneLine cs := by
  rw [← List.takeWhile_append_dropWhile (p := Char.isDigit) (l := cs)]
  apply (oneLine_takeWhile cs).append
  unfold unsigned? at h
  dsimp only at h
  split at h
  · cases h
  · split at h
    next rest point =>
      obtain ⟨x, hx, _⟩ := Option.map_eq_some_iff.mp h
      rw [point, ← List.takeWhile_append_dropWhile (p := Char.isDigit) (l := rest)]
      exact OneLine.append (by decide : OneLine ['.'])
        ((oneLine_takeWhile rest).append (oneLine_of_exponent? hx))
    · obtain ⟨x, hx, _⟩ := Option.map_eq_some_iff.mp h
      exact oneLine_of_exponent? hx

theorem oneLine_of_read? (h : read? text = some y) : OneLine text.toList := by
  unfold read? at h
  split at h
  next cs minus =>
    obtain ⟨z, hz, _⟩ := Option.map_eq_some_iff.mp h
    rw [minus]
    exact OneLine.append (by decide : OneLine ['-']) (oneLine_of_unsigned? hz)
  · exact oneLine_of_unsigned? h

theorem oneLine_text {v : Value} (legible : v.Legible) : OneLine v.text.toList := by
  cases v with
  | integer n => exact oneLine_of_read? (read?_toString n.toInt)
  | string s => exact oneLine_quote s
  | rational r =>
    have readable : r.Legible := legible
    cases r with
    | zero neg =>
      obtain ⟨y, hy, _⟩ := Rational.exists_read?_text readable rfl
      exact oneLine_of_read? hy
    | finite neg a =>
      obtain ⟨y, hy, _⟩ := Rational.exists_read?_text readable rfl
      exact oneLine_of_read? hy
    | infinite neg => cases neg <;> decide
  | opcodeRef n =>
    rw [Value.text, String.toList_append]
    exact OneLine.append (by decide) (oneLine_of_read? (read?_toString n.toInt))

end Lines

namespace Command

open Text

variable {vs ws : List Value}

def margin (k : Kind) : List Char := ("  " ++ padRight 9 k.name ++ " ").toList

theorem length_margin (k : Kind) : (margin k).length = 12 := by cases k <;> decide

theorem margin_inj (k l : Kind) : margin k = margin l → k = l := by
  cases k <;> cases l <;> decide

theorem oneLine_margin (k : Kind) : OneLine (margin k) := by cases k <;> decide

theorem toList_valueLine (v : Value) :
    (valueLine v).toList = (margin v.kind ++ v.text.toList) ++ ['\n'] := by
  rw [valueLine, String.toList_append, String.toList_append, margin]
  rfl

theorem eq_of_append_newline {cs ds rest more : List Char} (hc : OneLine cs) (hd : OneLine ds)
    (h : cs ++ '\n' :: rest = ds ++ '\n' :: more) : cs = ds ∧ rest = more := by
  induction cs generalizing ds with
  | nil =>
    cases ds with
    | nil => exact ⟨rfl, (List.cons.inj h).2⟩
    | cons d ds => exact absurd (List.mem_cons.mpr (.inl (List.cons.inj h).1)) hd
  | cons c cs ih =>
    cases ds with
    | nil => exact absurd (List.mem_cons.mpr (.inl (List.cons.inj h).1.symm)) hc
    | cons d ds =>
      obtain ⟨same, tail⟩ := List.cons.inj h
      obtain ⟨rfl, equal⟩ := ih (fun hn => hc (List.mem_cons_of_mem _ hn))
        (fun hn => hd (List.mem_cons_of_mem _ hn)) tail
      exact ⟨by rw [same], equal⟩

theorem snapshot_eq_of_lines (hv : ∀ v ∈ vs, v.Legible) (hw : ∀ w ∈ ws, w.Legible)
    (h : (vs.map valueLine).flatMap String.toList = (ws.map valueLine).flatMap String.toList) :
    vs.map Value.snapshot = ws.map Value.snapshot := by
  induction vs generalizing ws with
  | nil =>
    cases ws with
    | nil => rfl
    | cons b ws => simp [toList_valueLine] at h
  | cons a vs ih =>
    cases ws with
    | nil => simp [toList_valueLine] at h
    | cons b ws =>
      obtain ⟨ha, hvs⟩ := List.forall_mem_cons.mp hv
      obtain ⟨hb, hws⟩ := List.forall_mem_cons.mp hw
      rw [List.map_cons, List.map_cons, List.flatMap_cons, List.flatMap_cons, toList_valueLine,
        toList_valueLine, List.append_assoc _ ['\n'], List.append_assoc _ ['\n']] at h
      obtain ⟨line, rest⟩ := eq_of_append_newline ((oneLine_margin _).append (oneLine_text ha))
        ((oneLine_margin _).append (oneLine_text hb)) h
      obtain ⟨before, text⟩ := List.append_inj line (by rw [length_margin, length_margin])
      have slot : a.snapshot = b.snapshot := by
        rw [Value.snapshot, Value.snapshot, margin_inj _ _ before, String.toList_inj.mp text]
      rw [List.map_cons, List.map_cons, slot, ih hvs hws rest]

theorem toList_stackText {s : Stack} (h : s.values ≠ []) : (stackText s).toList =
    "stack (top first):\n".toList ++ (s.values.reverse.map valueLine).flatMap String.toList := by
  rw [stackText, if_neg (by simpa using h), String.toList_append, String.toList_join]

theorem stackText_of_empty {s : Stack} (h : s.values = []) : stackText s = "stack: empty\n" := by
  rw [stackText, h]
  rfl

theorem stackText_ne_of_empty {s t : Stack} (hs : s.values = []) (ht : t.values ≠ []) :
    stackText s ≠ stackText t := by
  intro h
  rw [← String.toList_inj, stackText_of_empty hs, toList_stackText ht] at h
  have heads : "stack:".toList = "stack ".toList := congrArg (List.take 6) h
  exact absurd heads (by decide)

theorem snapshot_eq_of_stackText {s t : Stack} (hs : ∀ v ∈ s.values, v.Legible)
    (ht : ∀ v ∈ t.values, v.Legible) (h : stackText s = stackText t) :
    s.values.map Value.snapshot = t.values.map Value.snapshot := by
  by_cases emptyS : s.values = []
  · by_cases emptyT : t.values = []
    · rw [emptyS, emptyT]
    · exact absurd h (stackText_ne_of_empty emptyS emptyT)
  · by_cases emptyT : t.values = []
    · exact absurd h.symm (stackText_ne_of_empty emptyT emptyS)
    · rw [← String.toList_inj, toList_stackText emptyS, toList_stackText emptyT] at h
      have slots := snapshot_eq_of_lines (by simpa using hs) (by simpa using ht)
        (List.append_cancel_left h)
      rwa [List.map_reverse, List.map_reverse, List.reverse_inj] at slots

end Command

/-- What is shown of a value determines it, by itself, in a snapshot and in a listing, and
the decimal of a number reads back as that number. -/
theorem rendering_determines_value :
    (∀ a b : Value, a.Legible → b.Legible → a.kind = b.kind → a.text = b.text → a.same b = true) ∧
    (∀ neg a, (Rational.finite neg a).Legible →
      ∃ y, Numeral.read? (Rational.finite neg a).text = some y ∧
        ∀ r : Rational, r.Rounds y ↔ r = .finite neg a) ∧
    ∀ e f : Engine, (∀ v ∈ e.stack.values, v.Legible) → (∀ v ∈ f.stack.values, v.Legible) →
      e.snapshot.stack = f.snapshot.stack ∨ Command.stackText e.stack = Command.stackText f.stack →
      Value.SameEach e.stack.values f.stack.values := by
  refine ⟨fun a b => Value.same_of_text_eq, ?_, ?_⟩
  · intro neg a legible
    obtain ⟨y, read, rounds⟩ := Rational.exists_read?_text legible rfl
    exact ⟨y, read, fun r => rounds.iff_eq_finite⟩
  · intro e f he hf shown
    apply Value.sameEach_of_snapshot_eq he hf
    rcases shown with slots | listing
    · exact slots
    · exact Command.snapshot_eq_of_stackText he hf listing

def tenth : Magnitude := ⟨0xCCCCCCCCCCCCCCCD, -3, by decide⟩

def shownEngine (runId : String) : Engine where
  runId
  code := #[]
  registry := none
  stack := { capacity := 3, slots := #[.integer (-1), .string "\"\n", .rational (.finite true tenth)] }
  status := .ready
  nesting := 0

theorem tenth_is_shown_exactly :
    (∀ v ∈ (shownEngine "first").stack.values, v.Legible) ∧
    Command.stackText (shownEngine "first").stack =
      "stack (top first):\n  Rational  -0.1\n  String    \"\\\"\\n\"\n  Integer   -1\n" ∧
    Value.SameEach (shownEngine "first").stack.values (shownEngine "second").stack.values ∧
    (Value.rational (.finite true tenth)).same (.rational (.finite true tenth)) = true ∧
    ∃ y, Numeral.read? "-0.1" = some y ∧ ∀ r : Rational, r.Rounds y ↔ r = .finite true tenth := by
  have legible : ∀ v ∈ (shownEngine "first").stack.values, v.Legible := by decide
  have written : (Rational.finite true tenth).text = "-0.1" := by decide +kernel
  obtain ⟨values, numbers, engines⟩ := rendering_determines_value
  refine ⟨legible, by decide +kernel, ?_, values _ _ (by decide) (by decide) rfl rfl, ?_⟩
  · exact engines (shownEngine "first") (shownEngine "second") legible legible (.inr rfl)
  · rw [← written]
    exact numbers true tenth (by decide)

end StackMachine
