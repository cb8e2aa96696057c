import StackMachine.Registry
/-! Which entry is found under a number, and when dispatch finds something to run. -/
namespace StackMachine.Registry

variable {reg : Registry} {nr : Int32} {held : Nat}

theorem number_of_find? {d : Descriptor} (h : reg.find? nr = some d) : d.number = nr := by
  simpa using List.find?_some h

theorem find?_of_mem {d : Descriptor} (distinct : (reg.entries.map Descriptor.number).Nodup)
    (h : d ∈ reg.entries) : reg.find? d.number = some d := by
  unfold find?
  generalize reg.entries = entries at *
  induction entries with
  | nil => cases h
  | cons first rest ih =>
    rw [List.map_cons, List.nodup_cons] at distinct
    rcases List.mem_cons.mp h with rfl | hrest
    · simp
    · have hne : first.number ≠ d.number := by
        intro heq
        rw [heq] at distinct
        exact distinct.1 (List.mem_map_of_mem hrest)
      rw [List.find?_cons_of_neg (by simpa using hne)]
      exact ih distinct.2 hrest

theorem find?_insertOrdered {d : Descriptor} {l : List Descriptor} (free : ∀ e ∈ l, e.number ≠ d.number)
    (nr : Int32) : (insertOrdered d l).find? (·.number == nr) =
      if d.number = nr then some d else l.find? (·.number == nr) := by
  induction l with
  | nil => simp [insertOrdered, List.find?_singleton]
  | cons e rest ih =>
    rw [List.forall_mem_cons] at free
    unfold insertOrdered
    split
    · by_cases own : d.number = nr
      · simp [own]
      · simp [own, List.find?_cons_of_neg]
    · by_cases own : e.number = nr
      · have other : d.number ≠ nr := own ▸ free.1.symm
        simp [own, other]
      · simp [own, List.find?_cons_of_neg, ih free.2]

theorem find?_register {reg' : Registry} {d : Descriptor} (h : reg.register d = .ok reg') (nr : Int32) :
    reg'.find? nr = if d.number = nr then some d else reg.find? nr := by
  unfold register at h
  split at h
  · cases h
  next free =>
    cases h
    exact find?_insertOrdered (by simpa [find?] using free) nr

theorem find?_registerAll (ds : List Descriptor) (reg : Registry) (nr : Int32) :
    (∀ d, reg.find? nr = some d → (reg.registerAll ds).2.find? nr = some d) ∧
    ∀ d, (reg.registerAll ds).2.find? nr = some d → reg.find? nr = some d ∨ d ∈ ds := by
  induction ds generalizing reg with
  | nil => exact ⟨fun _ h => h, fun _ h => .inl h⟩
  | cons e rest ih =>
    rw [registerAll]
    cases hreg : reg.register e with
    | error f => exact ⟨fun _ h => h, fun _ h => .inl h⟩
    | ok reg' =>
      obtain ⟨stays, comes⟩ := ih reg'
      have found := find?_register hreg nr
      constructor
      · intro d hd
        apply stays
        have taken : e.number ≠ nr := by
          rintro rfl
          simp [register, hd] at hreg
        rw [found, if_neg taken, hd]
      · intro d hd
        rcases comes d hd with h | h
        · rw [found] at h
          split at h
          · cases h
            exact .inr List.mem_cons_self
          · exact .inl h
        · exact .inr (List.mem_cons_of_mem _ h)

theorem resolve_of_find?_none (h : reg.find? nr = none) :
    reg.resolve nr held = .error (.unknownOpcode nr) := by
  unfold resolve lookup
  rw [h]
  rfl

theorem resolve_of_unimplemented {d : Descriptor} (h : reg.find? nr = some d)
    (hop : d.operation = none) : reg.resolve nr held = .error (.unimplementedOpcode nr) := by
  unfold resolve lookup
  simp only [h, bind, Except.bind, hop]

theorem resolve_of_implemented {d : Descriptor} {r : Routine Unit} (h : reg.find? nr = some d)
    (hop : d.operation = some r) :
    reg.resolve nr held =
      if held < d.params.toNat then .error (.missingOperands nr d.label d.params.toNat held)
      else .ok r := by
  unfold resolve lookup
  simp only [h, bind, Except.bind, hop]

theorem resolve_eq_ok_iff {r : Routine Unit} :
    reg.resolve nr held = .ok r ↔
      ∃ d, reg.find? nr = some d ∧ d.operation = some r ∧ d.params.toNat ≤ held := by
  cases h : reg.find? nr with
  | none => simp [resolve_of_find?_none h]
  | some d =>
    cases hop : d.operation with
    | none => simp [resolve_of_unimplemented h hop, hop]
    | some q =>
      rw [resolve_of_implemented h hop]
      by_cases hlt : held < d.params.toNat
      · rw [if_pos hlt]
        constructor
        · nofun
        · rintro ⟨_, ⟨⟩, _, hle⟩
          omega
      · rw [if_neg hlt]
        constructor
        · intro hq
          cases hq
          exact ⟨d, rfl, hop, Nat.le_of_not_lt hlt⟩
        · rintro ⟨_, ⟨⟩, hr, _⟩
          rw [hop] at hr
          cases hr
          rfl

/-- Nothing is run for a number that is not registered, that has no operation, or
that needs more operands than the stack holds. -/
theorem exists_resolve_error
    (h : ∀ d, reg.find? nr = some d → d.operation = none ∨ held < d.params.toNat) :
    ∃ f, reg.resolve nr held = .error f := by
  cases hr : reg.resolve nr held with
  | error f => exact ⟨f, rfl⟩
  | ok r =>
    obtain ⟨d, hd, hop, hle⟩ := resolve_eq_ok_iff.mp hr
    rcases h d hd with hnone | hlt
    · rw [hop] at hnone
      cases hnone
    · omega

end StackMachine.Registry
