import Mathlib.Data.List.Dedup
import Mathlib.Data.List.Sort
import Mathlib.Data.List.TakeWhile
import StackMachine.Builtin.Table
import StackMachine.Proofs.Registry
/-! Registries as they come about, by registering opcodes one by one and by installing the
builtins. Whatever the order of these calls, a registry is the list of the first
registrations, ordered by number. -/
namespace StackMachine

inductive RegistryCall where
  | register (d : Descriptor)
  | install

namespace Registry

/-- A call that is refused leaves the registry as far as it came. -/
def serve (reg : Registry) : RegistryCall → Registry
  | .register d => (reg.register d).toOption.getD reg
  | .install => (Builtin.install reg).2

/-- The registry that a history of calls makes of an empty one. -/
def after (cs : List RegistryCall) : Registry := cs.foldl serve {}

/-- The first descriptor of a list under a number. -/
def first? (ds : List Descriptor) (nr : Int32) : Option Descriptor := ds.find? (·.number == nr)

/-- Behind what was offered before, a call offers one descriptor, or the builtins up to the
first whose number was offered before. -/
def offer (before : List Descriptor) : RegistryCall → List Descriptor
  | .register d => before ++ [d]
  | .install => before ++ Builtin.table.takeWhile fun b => (first? before b.number).isNone

/-- All descriptors that a history of calls offers, in order. -/
def offered (cs : List RegistryCall) : List Descriptor := cs.foldl offer []

/-- The registry holds the first descriptor under each number, in the order of the numbers. -/
structure KeepsFirst (ds : List Descriptor) (reg : Registry) : Prop where
  sorted : reg.entries.Pairwise (·.number < ·.number)
  find?_eq : ∀ nr, reg.find? nr = first? ds nr

variable {reg reg' : Registry} {d : Descriptor} {ds es : List Descriptor} {nr : Int32}

theorem first?_append : first? (ds ++ es) nr = (first? ds nr).or (first? es nr) :=
  List.find?_append

theorem first?_singleton : first? [d] nr = if d.number = nr then some d else none := by
  simp [first?, List.find?_singleton]

theorem first?_iff (distinct : (ds.map Descriptor.number).Nodup) :
    first? ds nr = some d ↔ d ∈ ds ∧ d.number = nr := by
  constructor
  · intro found
    exact ⟨List.mem_of_find?_eq_some found, by simpa using List.find?_some found⟩
  · rintro ⟨listed, rfl⟩
    have distinct : ((Registry.mk ds).entries.map Descriptor.number).Nodup := distinct
    exact find?_of_mem distinct listed

theorem mem_numbers_iff : nr ∈ ds.map Descriptor.number ↔ first? ds nr ≠ none := by
  simp [first?]

theorem first?_perm (perm : ds.Perm es) (distinct : (ds.map Descriptor.number).Nodup) :
    first? ds nr = first? es nr := by
  ext d
  rw [first?_iff distinct, first?_iff ((perm.map _).nodup_iff.mp distinct), perm.mem_iff]

theorem mem_insertOrdered {l : List Descriptor} {x : Descriptor} :
    x ∈ insertOrdered d l ↔ x = d ∨ x ∈ l := by
  fun_induction insertOrdered d l with
  | case1 => simp
  | case2 e rest before => simp
  | case3 e rest behind ih => simp [ih, or_left_comm]

theorem pairwise_insertOrdered {l : List Descriptor} (sorted : l.Pairwise (·.number < ·.number))
    (free : ∀ e ∈ l, e.number ≠ d.number) :
    (insertOrdered d l).Pairwise (·.number < ·.number) := by
  fun_induction insertOrdered d l with
  | case1 => simp
  | case2 e rest before =>
    rw [List.pairwise_cons] at sorted ⊢
    refine ⟨?_, List.pairwise_cons.mpr sorted⟩
    rw [List.forall_mem_cons]
    exact ⟨before, fun x hx => Int32.lt_trans before (sorted.1 x hx)⟩
  | case3 e rest behind ih =>
    rw [List.pairwise_cons] at sorted ⊢
    rw [List.forall_mem_cons] at free
    refine ⟨?_, ih sorted.2 free.2⟩
    intro x hx
    rcases mem_insertOrdered.mp hx with rfl | hx
    · exact Int32.lt_of_le_of_ne (Int32.not_lt.mp behind) free.1
    · exact sorted.1 x hx

theorem distinct_of_sorted (sorted : ds.Pairwise (·.number < ·.number)) :
    (ds.map Descriptor.number).Nodup := by
  apply List.Pairwise.map _ _ sorted
  intro a b less
  exact Int32.ne_of_lt less

namespace KeepsFirst

theorem mem_iff (h : KeepsFirst ds reg) : d ∈ reg.entries ↔ first? ds d.number = some d := by
  rw [← h.find?_eq]
  exact ((first?_iff (distinct_of_sorted h.sorted)).trans (and_iff_left rfl)).symm

theorem size_eq (h : KeepsFirst ds reg) : reg.size = (ds.map Descriptor.number).dedup.length := by
  rw [size, ← List.length_map Descriptor.number]
  apply List.Perm.length_eq
  rw [List.perm_ext_iff_of_nodup (distinct_of_sorted h.sorted) (List.nodup_dedup _)]
  intro nr
  rw [List.mem_dedup, mem_numbers_iff, mem_numbers_iff, ← h.find?_eq]
  rfl

theorem unique (h : KeepsFirst ds reg) (h' : KeepsFirst es reg')
    (same : ∀ nr, first? ds nr = first? es nr) : reg = reg' := by
  have asymm : Std.Antisymm fun a b : Descriptor => a.number < b.number :=
    ⟨fun _ _ less greater => absurd greater (Int32.lt_asymm less)⟩
  have irrefl : Std.Irrefl fun a b : Descriptor => a.number < b.number :=
    ⟨fun _ => Int32.lt_irrefl⟩
  have entries : reg.entries = reg'.entries := by
    apply List.Pairwise.eq_of_mem_iff h.sorted h'.sorted
    intro d
    rw [h.mem_iff, h'.mem_iff, same]
  cases reg
  cases reg'
  exact congrArg Registry.mk entries

theorem empty : KeepsFirst [] {} := ⟨.nil, fun _ => rfl⟩

theorem register_of_taken (h : KeepsFirst ds reg) (taken : first? ds d.number ≠ none) :
    reg.register d = .error (.duplicateOpcode d.number) ∧ KeepsFirst (ds ++ [d]) reg := by
  obtain ⟨e, he⟩ := Option.ne_none_iff_exists'.mp taken
  constructor
  · rw [register, h.find?_eq, he]
  · refine ⟨h.sorted, ?_⟩
    intro nr
    rw [h.find?_eq, first?_append, first?_singleton]
    by_cases own : d.number = nr
    · simp [← own, he]
    · simp [own]

theorem register_of_free (h : KeepsFirst ds reg) (free : first? ds d.number = none) :
    ∃ reg', reg.register d = .ok reg' ∧ KeepsFirst (ds ++ [d]) reg' := by
  have vacant := (h.find?_eq d.number).trans free
  have registered : reg.register d = .ok { entries := insertOrdered d reg.entries } := by
    rw [register, vacant]
  refine ⟨_, registered, ?_, ?_⟩
  · exact pairwise_insertOrdered h.sorted (by simpa [find?] using vacant)
  · intro nr
    rw [find?_register registered, h.find?_eq, first?_append, first?_singleton]
    by_cases own : d.number = nr
    · simp [← own, free]
    · simp [own]

/-- Registering in turn comes up to the first descriptor whose number is not free. The
numbers are distinct, so it makes no difference that those before it take theirs. -/
theorem registerAll (h : KeepsFirst ds reg) (distinct : (es.map Descriptor.number).Nodup)
    {free : Descriptor → Bool} (agree : ∀ e ∈ es, free e = (first? ds e.number).isNone) :
    (reg.registerAll es).1 = es.find? (!free ·) ∧
      KeepsFirst (ds ++ es.takeWhile free) (reg.registerAll es).2 := by
  induction es generalizing ds reg with
  | nil => simpa [Registry.registerAll] using h
  | cons e rest ih =>
    rw [List.map_cons, List.nodup_cons] at distinct
    rw [List.forall_mem_cons] at agree
    rw [Registry.registerAll]
    cases taken : first? ds e.number with
    | some earlier =>
      have refused := (h.register_of_taken (d := e) (by simp [taken])).1
      rw [taken] at agree
      simpa [refused, agree.1] using h
    | none =>
      obtain ⟨reg', registered, keeps⟩ := h.register_of_free taken
      have agree' : ∀ x ∈ rest, free x = (first? (ds ++ [e]) x.number).isNone := by
        intro x hx
        have other : e.number ≠ x.number := by
          intro same
          rw [same] at distinct
          exact distinct.1 (List.mem_map_of_mem hx)
        rw [agree.2 x hx, first?_append, first?_singleton]
        simp [other]
      rw [taken] at agree
      simpa [registered, agree.1] using ih keeps distinct.2 agree'

theorem mem_append (h : KeepsFirst ds reg) (h' : KeepsFirst (ds ++ es) reg')
    (distinct : (es.map Descriptor.number).Nodup) (free : ∀ e ∈ es, first? ds e.number = none) :
    d ∈ reg'.entries ↔ d ∈ reg.entries ∨ d ∈ es := by
  rw [h'.mem_iff, h.mem_iff, first?_append]
  cases taken : first? ds d.number with
  | some e =>
    have other : d ∉ es := by
      intro hd
      cases (free d hd).symm.trans taken
    simp [other]
  | none => simp [first?_iff distinct]

end KeepsFirst

theorem takeWhile_of_find? {free : Descriptor → Bool} (sorted : es.Pairwise (·.number < ·.number))
    (stopped : es.find? (!free ·) = some d) :
    d ∈ es ∧ free d = false ∧ (∀ e ∈ es, free e = false → d.number ≤ e.number) ∧
      ∀ e, e ∈ es.takeWhile free ↔ e ∈ es ∧ e.number < d.number := by
  obtain ⟨taken, front, back, rfl, passed⟩ := List.find?_eq_some_iff_append.mp stopped
  have taken : free d = false := by simpa using taken
  have passed : ∀ e ∈ front, free e = true := by simpa using passed
  obtain ⟨_, behind, less⟩ := List.pairwise_append.mp sorted
  have greater := (List.pairwise_cons.mp behind).1
  refine ⟨by simp, taken, ?_, ?_⟩
  · intro e he blocked
    rcases List.mem_append.mp he with he | he
    · cases (passed e he).symm.trans blocked
    · rcases List.mem_cons.mp he with rfl | he
      · exact Int32.le_refl _
      · exact Int32.le_of_lt (greater e he)
  · intro e
    rw [List.takeWhile_append_of_pos passed, List.takeWhile_cons_of_neg (by simp [taken]),
      List.append_nil]
    constructor
    · intro he
      exact ⟨List.mem_append_left _ he, less e he d List.mem_cons_self⟩
    · rintro ⟨he, below⟩
      rcases List.mem_append.mp he with he | he
      · exact he
      · rcases List.mem_cons.mp he with rfl | he
        · exact absurd below Int32.lt_irrefl
        · exact absurd below (Int32.lt_asymm (greater e he))

section Install

theorem table_sorted : Builtin.table.Pairwise (·.number < ·.number) := by decide

variable {conflict : Builtin.Conflict} (h : KeepsFirst ds reg)

include h

theorem KeepsFirst.install :
    (Builtin.install reg).1 =
      (Builtin.table.find? fun b => !(first? ds b.number).isNone).map Builtin.Conflict.mk ∧
    KeepsFirst (offer ds .install) (Builtin.install reg).2 := by
  have agree : ∀ b ∈ Builtin.table, (first? ds b.number).isNone = (first? ds b.number).isNone :=
    fun _ _ => rfl
  obtain ⟨stopped, keeps⟩ := h.registerAll (distinct_of_sorted table_sorted) agree
  exact ⟨congrArg (Option.map Builtin.Conflict.mk) stopped, keeps⟩

theorem KeepsFirst.serve (c : RegistryCall) : KeepsFirst (offer ds c) (reg.serve c) := by
  cases c with
  | register d =>
    rw [Registry.serve, offer]
    by_cases free : first? ds d.number = none
    · obtain ⟨reg', registered, keeps⟩ := h.register_of_free free
      simpa [registered, Except.toOption] using keeps
    · obtain ⟨refused, keeps⟩ := h.register_of_taken free
      simpa [refused, Except.toOption] using keeps
  | install => exact h.install.2

theorem KeepsFirst.serveAll (cs : List RegistryCall) :
    KeepsFirst (cs.foldl offer ds) (cs.foldl Registry.serve reg) := by
  induction cs generalizing ds reg with
  | nil => exact h
  | cons c rest ih => exact ih (h.serve c)

theorem KeepsFirst.mem_install :
    d ∈ (Builtin.install reg).2.entries ↔ d ∈ reg.entries ∨
      d ∈ Builtin.table.takeWhile fun b => (first? ds b.number).isNone := by
  refine h.mem_append h.install.2 ?_ ?_
  · exact ((List.takeWhile_sublist _).map _).nodup (distinct_of_sorted table_sorted)
  · intro b hb
    simpa using List.mem_takeWhile_imp hb

theorem KeepsFirst.install_eq_none_iff :
    (Builtin.install reg).1 = none ↔ ∀ b ∈ Builtin.table, reg.find? b.number = none := by
  simp [h.install.1, h.find?_eq]

theorem KeepsFirst.mem_install_of_none (done : (Builtin.install reg).1 = none) :
    d ∈ (Builtin.install reg).2.entries ↔ d ∈ reg.entries ∨ d ∈ Builtin.table := by
  have free := h.install_eq_none_iff.mp done
  rw [h.mem_install, List.takeWhile_eq_self_iff.mpr]
  intro b hb
  rw [← h.find?_eq, free b hb]
  rfl

theorem KeepsFirst.mem_install_of_some (stopped : (Builtin.install reg).1 = some conflict) :
    (conflict.taken ∈ Builtin.table ∧ reg.find? conflict.taken.number ≠ none ∧
      ∀ b ∈ Builtin.table, reg.find? b.number ≠ none → conflict.taken.number ≤ b.number) ∧
    ∀ d, d ∈ (Builtin.install reg).2.entries ↔
      d ∈ reg.entries ∨ d ∈ Builtin.table ∧ d.number < conflict.taken.number := by
  obtain ⟨k, hk, rfl⟩ := Option.map_eq_some_iff.mp (h.install.1.symm.trans stopped)
  obtain ⟨listed, taken, least, below⟩ := takeWhile_of_find? table_sorted hk
  constructor
  · refine ⟨listed, ?_, ?_⟩
    · rwa [h.find?_eq, ← Option.isSome_iff_ne_none, ← Option.isNone_eq_false_iff]
    · intro b hb taken
      rw [h.find?_eq, ← Option.isSome_iff_ne_none, ← Option.isNone_eq_false_iff] at taken
      exact least b hb taken
  · intro d
    rw [h.mem_install, below]

end Install

theorem after_append (cs rest : List RegistryCall) :
    after (cs ++ rest) = rest.foldl serve (after cs) := List.foldl_append

theorem foldl_offer_register (ds es : List Descriptor) :
    (es.map .register).foldl offer ds = ds ++ es := by
  induction es generalizing ds with
  | nil => simp
  | cons e rest ih => simp [offer, ih]

/-- A registry keeps the first registration of every number, whatever the order of the calls:
it lists them by number and finds each under its own. An installation succeeds if no builtin
number is taken; otherwise it ends at the least that is, with the builtins below it added.
Registrations under distinct numbers may be made in any order. -/
theorem registrations_keep_the_first (cs : List RegistryCall) :
    (∀ nr, (after cs).lookup nr = (first? (offered cs) nr).elim (.error (.unknownOpcode nr)) .ok) ∧
    (∀ b ∈ Builtin.table, b.builtin = true) ∧
    -- the list
    (after cs).descriptors.Pairwise (·.number < ·.number) ∧
    (∀ d, d ∈ (after cs).descriptors ↔ first? (offered cs) d.number = some d) ∧
    (after cs).descriptors.length = (after cs).size ∧
    (after cs).size = ((offered cs).map Descriptor.number).dedup.length ∧
    -- installation
    ((Builtin.install (after cs)).1 = none ↔
      ∀ b ∈ Builtin.table, (after cs).find? b.number = none) ∧
    ((Builtin.install (after cs)).1 = none → ∀ d,
      (d ∈ (after (cs ++ [.install])).descriptors ↔ d ∈ (after cs).descriptors ∨ d ∈ Builtin.table)) ∧
    (∀ conflict, (Builtin.install (after cs)).1 = some conflict →
      ∃ k, conflict.fault = .duplicateOpcode k ∧
        (∃ b ∈ Builtin.table, b.number = k) ∧ (after cs).find? k ≠ none ∧
        (∀ b ∈ Builtin.table, (after cs).find? b.number ≠ none → k ≤ b.number) ∧
        ∀ d, d ∈ (after (cs ++ [.install])).descriptors ↔
          d ∈ (after cs).descriptors ∨ d ∈ Builtin.table ∧ d.number < k) ∧
    -- order
    ∀ ds es : List Descriptor, ds.Perm es → (ds.map Descriptor.number).Nodup → ∀ rest,
      after (cs ++ ds.map .register ++ rest) = after (cs ++ es.map .register ++ rest) := by
  have keeps : KeepsFirst (offered cs) (after cs) := KeepsFirst.empty.serveAll cs
  have installed : after (cs ++ [.install]) = (Builtin.install (after cs)).2 := after_append cs _
  refine ⟨?_, by decide, keeps.sorted, fun _ => keeps.mem_iff, rfl, keeps.size_eq,
    keeps.install_eq_none_iff, ?_, ?_, ?_⟩
  · intro nr
    rw [lookup, keeps.find?_eq]
    cases first? (offered cs) nr <;> rfl
  · intro done d
    rw [installed]
    exact keeps.mem_install_of_none done
  · intro conflict stopped
    obtain ⟨⟨listed, taken, least⟩, below⟩ := keeps.mem_install_of_some stopped
    rw [installed]
    exact ⟨conflict.taken.number, rfl, ⟨_, listed, rfl⟩, taken, least, below⟩
  · intro ds es perm distinct rest
    have registered (ds : List Descriptor) :
        KeepsFirst (offered cs ++ ds) (after (cs ++ ds.map .register)) := by
      rw [after_append, ← foldl_offer_register]
      exact keeps.serveAll _
    have same : after (cs ++ ds.map .register) = after (cs ++ es.map .register) := by
      apply (registered ds).unique (registered es)
      intro nr
      rw [first?_append, first?_append, first?_perm perm distinct]
    rw [after_append, same, ← after_append]

def takenThree : List RegistryCall :=
  [.register { number := 3, name := "MINE" }, .register { number := -5 }, .register { number := 3 }]

theorem takenThree_keeps_the_first :
    ((after takenThree).lookup 3).toOption.map Descriptor.name = some "MINE" ∧
    (∃ conflict, (Builtin.install (after takenThree)).1 = some conflict ∧
      conflict.fault = .duplicateOpcode 3 ∧
      ∀ d, d ∈ (after (takenThree ++ [.install])).descriptors ↔
        d ∈ (after takenThree).descriptors ∨ d ∈ Builtin.table ∧ d.number < 3) ∧
    after (takenThree ++ [{ number := 40 }, { number := -40 }].map .register ++ [.install]) =
      after (takenThree ++ [{ number := -40 }, { number := 40 }].map .register ++ [.install]) := by
  obtain ⟨found, _, _, _, _, _, _, _, stops, order⟩ := registrations_keep_the_first takenThree
  have refused : (Builtin.install (after takenThree)).1.map (·.taken.number) = some 3 := by decide
  obtain ⟨conflict, stopped, number⟩ := Option.map_eq_some_iff.mp refused
  obtain ⟨k, fault, _, _, _, below⟩ := stops conflict stopped
  cases fault
  rw [number] at below
  refine ⟨?_, ⟨conflict, stopped, congrArg Fault.duplicateOpcode number, below⟩, ?_⟩
  · rw [found]
    decide
  · exact order _ _ (.swap _ _ []) (by decide) _

end Registry
end StackMachine
