import StackMachine.Proofs.Builtin.Calculation
/-! Lack of room is reported only by opcodes that leave more behind than they take. An
operation that pushes no more than it has popped, in slots and in bytes, finds room on
every stack whose limit is held against the bytes it holds; this is checked on the operation
alone, and most of the builtin opcodes pass. -/
namespace StackMachine

variable {α β ε : Type}

/-- There was no slot, or there were not enough bytes. -/
def Fault.OfRoom (f : Fault) : Prop := f.kind = .stackOverflow ∨ f.kind = .outOfMemory

theorem Fault.OnOperands.not_ofRoom {f : Fault} (h : f.OnOperands) : ¬ f.OfRoom := by
  unfold Fault.OfRoom
  rcases h with h | h | h <;> simp [h]

/-- Slots and bytes that were set free and not filled again. -/
structure Allowance where
  slots : Nat := 0
  bytes : Nat := 0

namespace Call

def Covered (p : Allowance) : Call → Prop
  | .push (some v) => 0 < p.slots ∧ v.footprint ≤ p.bytes
  | _ => True

def left (p : Allowance) : (c : Call) → c.Reply → Allowance
  | .push (some v), _ => ⟨p.slots - 1, p.bytes - v.footprint⟩
  | .pop, v => ⟨p.slots + 1, p.bytes + v.footprint⟩
  | _, _ => p

end Call

namespace Routine

/-- From the allowance `p` on, every push is covered by what was popped before; `Q` is
what is known when the routine ends. -/
def Frugal (p : Allowance) (Q : α → Allowance → Prop) : Routine α → Prop
  | .done a => Q a p
  | .fail f => ¬ f.OfRoom
  | .call c next => c.Covered p ∧ (∀ f, next (.error f) = .fail f) ∧
      ∀ a, (next (.ok a)).Frugal (c.left p a) Q
  | .dispatch _ _ => False

variable {p : Allowance} {Q : α → Allowance → Prop}

theorem frugal_perform {c : Call} {Q : c.Reply → Allowance → Prop} (h : c.Covered p)
    (hQ : ∀ a, Q a (c.left p a)) : (perform c).Frugal p Q :=
  ⟨h, fun _ => rfl, hQ⟩

theorem frugal_ofExcept {x : Except Fault α} (fails : FailsOnOperands x)
    (hQ : ∀ a, x = .ok a → Q a p) : (ofExcept x).Frugal p Q := by
  cases x with
  | ok a => exact hQ a rfl
  | error f => exact (fails f rfl).not_ofRoom

theorem Frugal.bind {r : Routine β} {k : β → Routine α}
    (h : r.Frugal p fun b q => (k b).Frugal q Q) : (r >>= k).Frugal p Q := by
  change (r.bind k).Frugal p Q
  induction r generalizing p with
  | done b => exact h
  | fail f => exact h
  | call c next ih =>
    obtain ⟨covered, stop, go⟩ := h
    exact ⟨covered, fun f => bind_of_fail (stop f) k, fun a => ih _ (go a)⟩
  | dispatch nr next ih => exact h.elim

end Routine

namespace Engine

structure Affords (p : Allowance) (e : Engine) : Prop where
  reliable : e.stack.Reliable
  slots : e.stack.size + p.slots ≤ e.stack.capacity
  bytes : 0 < e.stack.budget.limit →
    e.stack.budget.used.toInt + p.bytes ≤ e.stack.budget.limit.toInt

variable {p : Allowance} {e t : Engine}

theorem push_affords {v : Value} (h : e.Affords p) (hslots : 0 < p.slots)
    (hbytes : v.footprint ≤ p.bytes) :
    e.stack.push (some v) = (.ok (), e.stack.holding v) ∧
      Affords ⟨p.slots - 1, p.bytes - v.footprint⟩ { e with stack := e.stack.holding v } := by
  have slots := h.slots
  have bytes := h.bytes
  have fits (limited : 0 < e.stack.budget.limit) :
      e.stack.budget.used.toInt + v.footprint ≤ e.stack.budget.limit.toInt := by
    have := bytes limited
    omega
  -- Under a limit the new sum is one that a word can hold.
  have inRange (limited : 0 < e.stack.budget.limit) : (e.stack.holding v).footprint < 2 ^ 63 := by
    have hused := (h.reliable limited).used_eq
    have := e.stack.budget.limit.toInt_lt
    have := fits limited
    rw [Stack.footprint_holding]
    omega
  refine ⟨Stack.push_of_fits (by omega) fits, ?_, ?_, ?_⟩
  · intro limited
    exact (h.reliable limited).holding (Budget.grants_of_fits fits) (inRange limited)
  · simp only [Stack.size_holding, Stack.capacity_holding]
    omega
  · intro limited
    have hused := (h.reliable limited).used_holding (inRange limited)
    have := bytes limited
    simp only [Stack.limit_holding]
    omega

theorem drop_affords {v : Value} (h : e.Affords p)
    (top : e.stack.values = (e.stack.dropping v).values ++ [v]) :
    Affords ⟨p.slots + 1, p.bytes + v.footprint⟩ { e with stack := e.stack.dropping v } := by
  have slots := h.slots
  have size : e.stack.size = (e.stack.dropping v).size + 1 := by
    rw [Stack.size_eq_length, top]
    simp [Stack.size_eq_length]
  refine ⟨h.reliable.dropping top, ?_, ?_⟩
  · simp only [Stack.capacity_dropping]
    omega
  · intro limited
    have hused := (h.reliable limited).used_dropping top
    have := h.bytes limited
    simp only [Stack.limit_dropping]
    omega

theorem answer_affords {c : Call} (covered : c.Covered p) (h : e.Affords p) :
    (∀ f, (Machine.answer c e).1 = .error f → ¬ f.OfRoom) ∧
    ∀ a, (Machine.answer c e).1 = .ok a → (Machine.answer c e).2.Affords (c.left p a) := by
  have plain (f : Fault) (hf : f.kind ≠ .stackOverflow ∧ f.kind ≠ .outOfMemory) : ¬ f.OfRoom := by
    simp [Fault.OfRoom, hf]
  cases c with
  | push v =>
    cases v with
    | none =>
      change (∀ f, (Except.error Fault.absentValue : Except Fault Unit) = .error f → _) ∧ _
      refine ⟨?_, nofun⟩
      intro f hf
      cases hf
      exact plain _ (by decide)
    | some v =>
      obtain ⟨hpush, left⟩ := push_affords h covered.1 covered.2
      rw [answer_push hpush]
      exact ⟨nofun, fun _ _ => left⟩
  | pop =>
    rcases e.answer_pop_cases with ⟨_, hpop⟩ | ⟨v, top, hpop⟩
    · rw [hpop]
      refine ⟨?_, nofun⟩
      intro f hf
      cases hf
      exact plain _ (by decide)
    · rw [hpop]
      refine ⟨nofun, ?_⟩
      intro w hw
      cases hw
      exact drop_affords h top
  | peek depth =>
    refine ⟨?_, fun _ _ => h⟩
    intro f hf
    change e.stack.peek depth = _ at hf
    unfold Stack.peek at hf
    apply plain
    split at hf
    · split at hf <;> cases hf
      simp [Fault.kind]
    · cases hf
      simp [Fault.kind]
  | len => exact ⟨nofun, fun _ _ => h⟩
  | fetch =>
    change (∀ f, e.fetch.1 = _ → _) ∧ ∀ a, e.fetch.1 = _ → e.fetch.2.Affords p
    unfold fetch
    split
    · exact ⟨nofun, fun _ _ => ⟨h.reliable, h.slots, h.bytes⟩⟩
    · refine ⟨?_, nofun⟩
      intro f hf
      cases hf
      exact plain _ (by simp [Fault.kind])
  | jump target =>
    change (∀ f, (e.jump target).1 = _ → _) ∧
      ∀ a, (e.jump target).1 = _ → (e.jump target).2.Affords p
    unfold jump
    split
    · exact ⟨nofun, fun _ _ => ⟨h.reliable, h.slots, h.bytes⟩⟩
    · refine ⟨?_, nofun⟩
      intro f hf
      cases hf
      exact plain _ (by simp [Fault.kind])
  | halt => exact ⟨nofun, fun _ _ => ⟨h.reliable, h.slots, h.bytes⟩⟩

theorem run_frugal (dispatch : Int32 → Engine → Except ε (Except Fault Unit × Engine))
    {Q : α → Allowance → Prop} {r : Routine α} (frugal : r.Frugal p Q) (h : e.Affords p) :
    ∃ reply t, r.run dispatch e = .ok (reply, t) ∧ ∀ f, reply = .error f → ¬ f.OfRoom := by
  induction r generalizing p e with
  | done a => exact ⟨.ok a, e, rfl, nofun⟩
  | fail f =>
    refine ⟨.error f, e, rfl, ?_⟩
    intro g hg
    cases hg
    exact frugal
  | call c next ih =>
    obtain ⟨covered, stop, go⟩ := frugal
    obtain ⟨failed, held⟩ := answer_affords covered h
    rw [Routine.run]
    cases hreply : (Machine.answer c e).1 with
    | error f =>
      refine ⟨.error f, (Machine.answer c e).2, ?_, ?_⟩
      · simp only [hreply, stop f]
        rfl
      · intro g hg
        cases hg
        exact failed f hreply
    | ok a => simpa only [hreply] using ih _ (go a) (held a hreply)
  | dispatch nr next ih => exact frugal.elim

end Engine

namespace Value

theorem footprint_ofBool (b : Bool) : (ofBool b).footprint = 8 := rfl

theorem four_le_footprint (v : Value) : 4 ≤ v.footprint := by
  unfold footprint
  split <;> omega

end Value

namespace Builtin

open Routine

/-- The opcodes that leave more values than they find. -/
def growing : List String :=
  ["PUSH_INT", "PUSH_WIDE", "PUSH_STRING", "PUSH_RATIONAL", "PUSH_OPCODE", "DUP"]

/-- The opcodes that leave one value for one or two. -/
def shrinking : List String :=
  ["ADD", "SUB", "MUL", "DIV", "MOD", "BAND", "BOR", "BXOR", "SHL", "SHR",
   "EQ", "NE", "LT", "LE", "GT", "GE", "NEG", "CONCAT", "STRLEN", "TO_INTEGER"]

def Light (f : Value → Except Fault Value) : Prop :=
  ∀ a v, f a = .ok v → v.footprint ≤ a.footprint

def LightPair (f : Value → Value → Except Fault Value) : Prop :=
  ∀ a b v, f a b = .ok v → v.footprint ≤ a.footprint + b.footprint

theorem frugal_unary {f : Value → Except Fault Value} (fails : ∀ a, FailsOnOperands (f a))
    (light : Light f) : (unary f).Frugal {} fun _ _ => True := by
  refine Frugal.bind (frugal_perform trivial fun a => ?_)
  refine Frugal.bind (frugal_ofExcept (fails a) fun v hv => ?_)
  refine frugal_perform ⟨Nat.one_pos, ?_⟩ fun _ => trivial
  simpa [Call.left] using light a v hv

theorem frugal_popPair {Q : Value × Value → Allowance → Prop}
    (h : ∀ a b, Q (a, b) ⟨2, b.footprint + a.footprint⟩) : popPair.Frugal {} Q := by
  refine Frugal.bind (frugal_perform trivial fun b => ?_)
  refine Frugal.bind (frugal_perform trivial fun a => ?_)
  change Q (a, b) ⟨2, 0 + b.footprint + a.footprint⟩
  rw [Nat.zero_add]
  exact h a b

theorem frugal_binary {f : Value → Value → Except Fault Value}
    (fails : ∀ a b, FailsOnOperands (f a b)) (light : LightPair f) :
    (binary f).Frugal {} fun _ _ => True := by
  refine Frugal.bind (frugal_popPair fun a b => ?_)
  refine Frugal.bind (frugal_ofExcept (fails a b) fun v hv => ?_)
  refine frugal_perform ⟨Nat.two_pos, ?_⟩ fun _ => trivial
  rw [Nat.add_comm]
  exact light a b v hv

theorem frugal_swap : swap.Frugal {} fun _ _ => True := by
  refine Frugal.bind (frugal_popPair fun a b => ?_)
  refine Frugal.bind (frugal_perform ⟨Nat.two_pos, Nat.le_add_right _ _⟩ fun _ => ?_)
  refine frugal_perform ⟨Nat.one_pos, ?_⟩ fun _ => trivial
  simp [Call.left]

theorem frugal_discard : discard.Frugal {} fun _ _ => True :=
  Frugal.bind (frugal_perform trivial fun _ => trivial)

theorem frugal_jump : jump.Frugal {} fun _ _ => True :=
  Frugal.bind (frugal_perform trivial fun _ => frugal_perform trivial fun _ => trivial)

theorem frugal_jumpIf (wanted : Bool) : (jumpIf wanted).Frugal {} fun _ _ => True := by
  refine Frugal.bind (frugal_perform trivial fun target => ?_)
  refine Frugal.bind (frugal_perform trivial fun v => ?_)
  refine Frugal.bind (frugal_ofExcept (Value.failsOnOperands_asInteger _) fun n _ => ?_)
  split
  · exact frugal_perform trivial fun _ => trivial
  · trivial

theorem lightPair_arithmetic (onIntegers : IntegerOp) (onRationals : Option RationalOp) :
    LightPair (arithmetic onIntegers onRationals) := by
  intro a b v h
  unfold arithmetic at h
  split at h
  · obtain ⟨n, _, rfl⟩ := exists_of_map_ok h
    simp [Value.footprint]
  · cases h
  · split at h
    · cases h
    · obtain ⟨r, _, rfl⟩ := exists_of_map_ok h
      simp [Value.footprint]
    · cases h
  · cases h

theorem footprint_answer_le (a b : Value) (x : Bool) :
    (Value.ofBool x).footprint ≤ a.footprint + b.footprint := by
  have ha := a.four_le_footprint
  have hb := b.four_le_footprint
  rw [Value.footprint_ofBool]
  omega

theorem lightPair_equality (wanted : Bool) : LightPair (equality wanted) := by
  intro a b v h
  cases h
  exact footprint_answer_le a b _

theorem lightPair_comparison (holds : Ordering → Bool) : LightPair (comparison holds) := by
  intro a b v h
  obtain ⟨o, _, rfl⟩ := exists_of_map_ok h
  exact footprint_answer_le a b _

theorem lightPair_append : LightPair append := by
  intro a b v h
  cases a with
  | string x =>
    cases b with
    | string y =>
      rw [append_strings] at h
      cases h
      simp [Value.footprint]
      omega
    | _ => cases h
  | _ => cases h

theorem light_negate : Light negate := by
  intro a v h
  cases a with
  | integer n =>
    cases h
    simp [Value.footprint]
  | rational r =>
    cases h
    simp [Value.footprint]
  | _ => cases h

theorem light_lengthOf : Light lengthOf := by
  intro a v h
  cases a with
  | string s =>
    cases h
    simp [Value.footprint]
    omega
  | _ => cases h

theorem light_asIntegerValue : Light asIntegerValue := by
  intro a v h
  unfold asIntegerValue at h
  split at h
  · cases h
    simp [Value.footprint]
  · cases h
  · split at h
    · cases h
      simp [Value.footprint]
    · cases h
  · cases h

/-- What room an opcode may lack: any, bytes only, that of another opcode, or none. -/
inductive Demand (d : Descriptor) : Prop where
  | grows : d.name ∈ growing → Demand d
  | widens {f : Value → Except Fault Value} : d.name = "TO_RATIONAL" →
      d.operation = some (unary f) → (∀ a, FailsOnOperands (f a)) → Demand d
  | handsOver : d.number = Nr.invoke → Demand d
  | frugal {r : Routine Unit} : d.operation = some r → (r.Frugal {} fun _ _ => True) → Demand d

theorem demand_of_mem : ∀ d ∈ table, Demand d := by
  have numbers (f g) := frugal_binary
    (failsOnOperands_numbers (failsOnOperands_total f) (failsOnOperands_rounded g))
    (lightPair_arithmetic _ _)
  have bits (f) := frugal_binary (failsOnOperands_integers (failsOnOperands_total f))
    (lightPair_arithmetic _ _)
  have shifts (f) := frugal_binary (failsOnOperands_integers (failsOnOperands_shift f))
    (lightPair_arithmetic _ _)
  have answers (wanted) := frugal_binary (failsOnOperands_equality wanted)
    (lightPair_equality wanted)
  have orders (holds) := frugal_binary (failsOnOperands_comparison holds)
    (lightPair_comparison holds)
  simp only [table, definitions, List.forall_mem_map, List.forall_mem_cons, List.not_mem_nil,
    false_implies, implies_true, and_true]
  refine ⟨.frugal rfl (frugal_perform trivial fun _ => trivial), .grows (by decide), ?_⟩
  iterate 3 refine ⟨.frugal rfl (numbers _ _), ?_⟩
  refine ⟨.frugal rfl (frugal_binary
    (failsOnOperands_numbers failsOnOperands_divide failsOnOperands_divideRational)
    (lightPair_arithmetic _ _)), ?_⟩
  refine ⟨.frugal rfl (frugal_binary (failsOnOperands_integers failsOnOperands_remainder)
    (lightPair_arithmetic _ _)), ?_⟩
  refine ⟨.frugal rfl (frugal_unary failsOnOperands_negate light_negate), ?_⟩
  refine ⟨.grows (by decide), .grows (by decide), .grows (by decide), ?_⟩
  refine ⟨.frugal rfl frugal_discard, .grows (by decide), .frugal rfl frugal_swap, ?_⟩
  iterate 3 refine ⟨.frugal rfl (bits _), ?_⟩
  iterate 2 refine ⟨.frugal rfl (shifts _), ?_⟩
  iterate 2 refine ⟨.frugal rfl (answers _), ?_⟩
  iterate 4 refine ⟨.frugal rfl (orders _), ?_⟩
  refine ⟨.frugal rfl frugal_jump, .frugal rfl (frugal_jumpIf _), .frugal rfl (frugal_jumpIf _), ?_⟩
  refine ⟨.frugal rfl (frugal_binary failsOnOperands_append lightPair_append), ?_⟩
  refine ⟨.frugal rfl (frugal_unary failsOnOperands_lengthOf light_lengthOf), ?_⟩
  refine ⟨.widens rfl rfl failsOnOperands_asRationalValue, ?_⟩
  refine ⟨.frugal rfl (frugal_unary failsOnOperands_asIntegerValue light_asIntegerValue), ?_⟩
  exact ⟨.handsOver rfl, .frugal rfl trivial, .grows (by decide)⟩

end Builtin

namespace Engine

variable {e : Engine}

theorem run_unary_not_overflow
    (dispatch : Int32 → Engine → Except ε (Except Fault Unit × Engine))
    {f : Value → Except Fault Value} (fails : ∀ a, FailsOnOperands (f a))
    (fits : e.stack.size ≤ e.stack.capacity) :
    ∃ reply t, (Builtin.unary f).run dispatch e = .ok (reply, t) ∧
      ∀ g, reply = .error g → g.kind ≠ .stackOverflow := by
  rcases e.answer_pop_cases with ⟨_, hpop⟩ | ⟨v, top, _⟩
  · unfold Builtin.unary
    rw [Routine.pop, Routine.run_perform_of_error hpop]
    refine ⟨_, e, rfl, ?_⟩
    intro g hg
    cases hg
    decide
  · have room : (e.stack.dropping v).size < (e.stack.dropping v).capacity := by
      have size : e.stack.size = (e.stack.dropping v).size + 1 := by
        rw [Stack.size_eq_length, top]
        simp [Stack.size_eq_length]
      rw [Stack.capacity_dropping]
      omega
    rw [Builtin.run_unary top]
    cases hf : f v with
    | error g =>
      refine ⟨.error g, _, rfl, ?_⟩
      intro g' hg
      cases hg
      have operands := fails v g hf
      rcases operands with h | h | h <;> simp [h]
    | ok w =>
      refine ⟨((e.stack.dropping v).push (some w)).1, _, Routine.run_perform _ _ _, ?_⟩
      intro g hg
      cases refused : (e.stack.dropping v).budget.refuses w.footprint with
      | true =>
        rw [Stack.push_of_refuses room refused] at hg
        cases hg
        intro overflow
        cases overflow
      | false =>
        rw [Stack.push_of_grants room refused] at hg
        cases hg

theorem dispatch_entry {d : Descriptor} {r : Routine Unit} (hreg : e.registry = some Builtin.registry)
    (hd : d ∈ Builtin.table) (hop : d.operation = some r) :
    (∃ f, e.dispatch d.number = .ok (.error f, e) ∧ f.kind = .stackUnderflow) ∨
    e.dispatch d.number = r.run (Builtin.registry.dispatch (e.nesting + e.stack.size)) e := by
  have resolved : Builtin.registry.resolve d.number e.stack.size = _ :=
    Registry.resolve_of_implemented (Builtin.find?_of_mem hd) hop
  split at resolved
  · exact .inl ⟨_, dispatch_of_resolve_error hreg resolved, rfl⟩
  · exact .inr (dispatch_of_resolve_ok hreg resolved)

/-- Three slots and twelve bytes, all in use by references. -/
def packedReferences : List HostCall :=
  [.push (some (.opcodeRef 7)), .push (some (.opcodeRef 8)), .push (some (.opcodeRef 9))]

end Engine
end StackMachine
