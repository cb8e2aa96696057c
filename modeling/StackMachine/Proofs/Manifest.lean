import Mathlib.Data.Nat.Find
import StackMachine.Proofs.Command.Report
import StackMachine.Proofs.Pathname
/-! The nearest manifest counts, and every manifest in use is valid. The search goes from a
place to its parent and stops at the root, which is its own parent; what it stops at is
reported, right or wrong. A manifest is checked after its defaults are filled in, so that the
time limit of a run can always be read off it. -/
namespace StackMachine

open Pathname (Place Proper parent)

namespace Manifest

/-- Settings that a run can be made with. -/
structure Valid (m : Manifest) : Prop where
  capacity : 1 ≤ m.stackCapacity
  limit : 0 ≤ m.memoryLimit
  timeout : ∃ d, m.runTimeout = .ok d ∧ 0 ≤ d.nanoseconds

variable {m : Manifest} {t : FileTree} {cwd place : Place} {dir : String}

theorem nonneg_of_runTimeout {d : Duration} (h : m.runTimeout = .ok d) : 0 ≤ d.nanoseconds := by
  unfold runTimeout at h
  split at h
  case isTrue =>
    cases h
    simp
  split at h
  case h_1 => cases h
  split at h
  case isTrue => cases h
  case isFalse nonneg =>
    cases h
    exact Int.not_lt.mp nonneg

theorem validate_eq_ok_iff (set : m.stackCapacity ≠ 0) : m.validate = .ok () ↔ m.Valid := by
  constructor
  · intro h
    unfold validate at h
    split at h
    case isTrue => cases h
    split at h
    case isTrue => cases h
    case isFalse capacity limit =>
      cases hd : m.runTimeout with
      | error why => simp [hd, Except.map] at h
      | ok d => exact ⟨by omega, by omega, d, hd, nonneg_of_runTimeout hd⟩
  · intro ⟨capacity, limit, d, hd, _⟩
    rw [validate, if_neg (by omega), if_neg (by omega), hd]
    rfl

theorem withDefaults_capacity_ne_zero (m : Manifest) : m.withDefaults.stackCapacity ≠ 0 := by
  unfold withDefaults
  split
  next => simp [defaultCapacity, default]
  next set => exact set

theorem parse_eq_ok_iff {bytes : List UInt8} :
    parse bytes = .ok m ↔ ∃ r, decode? bytes = some r ∧ r.withDefaults = m ∧ m.Valid := by
  unfold parse
  cases decode? bytes with
  | none => simp
  | some r =>
    have checked := validate_eq_ok_iff (withDefaults_capacity_ne_zero r)
    cases hv : r.withDefaults.validate with
    | error why =>
      have invalid : ¬ r.withDefaults.Valid := by simp [← checked, hv]
      simpa [bind, Except.bind, hv] using fun h => h ▸ invalid
    | ok _ =>
      have valid : r.withDefaults.Valid := checked.mp hv
      simpa [bind, Except.bind, pure, Except.pure, hv] using fun h => h ▸ valid

theorem valid_default : default.Valid :=
  ⟨by decide, by decide, ⟨0⟩, rfl, by decide⟩

/-! The search. -/

/-- The path of the manifest in this place leads to something. -/
def Offers (t : FileTree) (cwd place : Place) : Prop :=
  t.reaches cwd (pathIn (Pathname.ofPlace place)) = true

instance (t : FileTree) (cwd place : Place) : Decidable (Offers t cwd place) :=
  inferInstanceAs (Decidable (_ = true))

theorem nearest?_of_offers (h : Offers t cwd place) : nearest? t cwd place = some place := by
  have first : ∃ above, Pathname.upward place = place :: above := by
    induction place using List.reverseRecOn with
    | nil => exact ⟨[], rfl⟩
    | append_singleton above name => exact ⟨_, Pathname.upward_concat above name⟩
  obtain ⟨above, hup⟩ := first
  rw [nearest?, hup]
  exact List.find?_cons_of_pos h

/-- Without a manifest here the search goes on above; from the root it leads nowhere else. -/
theorem nearest?_parent (h : ¬ Offers t cwd place) :
    nearest? t cwd (parent place) = nearest? t cwd place := by
  induction place using List.reverseRecOn with
  | nil => rfl
  | append_singleton above name =>
    rw [nearest?, nearest?, Pathname.upward_concat, List.find?_cons_of_neg (by exact h)]
    simp [parent]

theorem nearest?_iterate_parent {k : Nat} (h : ∀ j < k, ¬ Offers t cwd (parent^[j] place)) :
    nearest? t cwd (parent^[k] place) = nearest? t cwd place := by
  induction k with
  | zero => rfl
  | succ k ih =>
    rw [Function.iterate_succ_apply', nearest?_parent (h k k.lt_succ_self)]
    exact ih fun j hj => h j (Nat.lt_succ_of_lt hj)

/-- The place `k` above `start` is the first upward that offers a manifest. -/
structure Nearest (t : FileTree) (cwd start : Place) (k : Nat) : Prop where
  offers : Offers t cwd (parent^[k] start)
  first : ∀ j < k, ¬ Offers t cwd (parent^[j] start)

theorem Nearest.nearest?_eq {k : Nat} (h : Nearest t cwd place k) :
    nearest? t cwd place = some (parent^[k] place) := by
  rw [← nearest?_iterate_parent h.first, nearest?_of_offers h.offers]

theorem exists_nearest {k : Nat} (h : Offers t cwd (parent^[k] place)) :
    ∃ j, Nearest t cwd place j := by
  have some_offer : ∃ j, Offers t cwd (parent^[j] place) := ⟨k, h⟩
  exact ⟨Nat.find some_offer, Nat.find_spec some_offer, fun _ => Nat.find_min some_offer⟩

theorem nearest?_eq_none_iff :
    nearest? t cwd place = none ↔ ∀ k, ¬ Offers t cwd (parent^[k] place) := by
  constructor
  · intro nowhere k offer
    obtain ⟨j, nearest⟩ := exists_nearest offer
    simp [nearest.nearest?_eq] at nowhere
  · intro h
    have root := h place.length
    rw [Pathname.iterate_parent_length] at root
    rw [← nearest?_iterate_parent (k := place.length) fun j _ => h j, Pathname.iterate_parent_length]
    simpa [nearest?, Pathname.upward, Offers] using root

/-! What is found. -/

/-- The search for a manifest from `dir` comes to what the one in `place` says. -/
structure DecidedBy (t : FileTree) (cwd : Place) (dir : String) (place : Place) : Prop where
  loads : find t cwd dir = (load t cwd (Pathname.ofPlace place)).map some
  unreadable : ∀ fault, t.read cwd (pathIn (Pathname.ofPlace place)) = .error fault →
    find t cwd dir = .error (.unreadable (pathIn (Pathname.ofPlace place)) fault)
  wrong : ∀ bytes why, t.read cwd (pathIn (Pathname.ofPlace place)) = .ok bytes → parse bytes = .error why →
    find t cwd dir = .error (.wrong (pathIn (Pathname.ofPlace place)) why)
  right : ∀ bytes m, t.read cwd (pathIn (Pathname.ofPlace place)) = .ok bytes → parse bytes = .ok m →
    find t cwd dir = .ok (some { m with dir := Pathname.ofPlace place })

theorem proper_fileName : Proper fileName :=
  ⟨by decide, by decide, by decide, by decide⟩

theorem pathIn_ofPlace (proper : ∀ n ∈ place, Proper n) :
    pathIn (Pathname.ofPlace place) = Pathname.ofPlace (place ++ [fileName]) :=
  Pathname.join_ofPlace proper proper_fileName

/-- A manifest is offered where there is an entry of its name, unless the path to it is
refused. -/
theorem offers_iff (connected : t.Connected) (proper : ∀ n ∈ place, Proper n) :
    Offers t cwd place ↔ t.contains (place ++ [fileName]) = true ∧
      FileTree.Passable (place ++ [fileName]) := by
  have named : ∀ n ∈ place ++ [fileName], Proper n :=
    List.forall_mem_append.mpr ⟨proper, List.forall_mem_singleton.mpr proper_fileName⟩
  rw [Offers, pathIn_ofPlace proper]
  exact FileTree.reaches_ofPlace_iff connected named (by simp) cwd

theorem decidedBy_of_nearest? (proper : ∀ n ∈ place, Proper n)
    (h : nearest? t cwd (Pathname.resolve cwd dir) = some place) : DecidedBy t cwd dir place := by
  have here := Pathname.resolve_ofPlace proper cwd
  constructor
  case loads => simp [find, h]
  case unreadable =>
    intro fault unread
    simp [find, h, load, unread, Except.map]
  case wrong =>
    intro bytes why content invalid
    simp [find, h, load, content, invalid, Except.map]
  case right =>
    intro bytes m content valid
    simp [find, h, load, content, valid, here, Except.map]

theorem find_eq_ok_none_iff :
    find t cwd dir = .ok none ↔ nearest? t cwd (Pathname.resolve cwd dir) = none := by
  unfold find
  split
  next nowhere => simp [nowhere]
  next place here => cases load t cwd (Pathname.ofPlace place) <;> simp [here, Except.map]

theorem valid_of_load (h : load t cwd dir = .ok m) : m.Valid := by
  unfold load at h
  dsimp only at h
  split at h
  case h_1 => cases h
  split at h
  case h_1 => cases h
  rename_i read hread
  cases h
  obtain ⟨_, _, _, valid⟩ := parse_eq_ok_iff.mp hread
  exact ⟨valid.capacity, valid.limit, valid.timeout⟩

theorem valid_of_find (h : find t cwd dir = .ok (some m)) : m.Valid := by
  unfold find at h
  split at h
  case h_1 => cases h
  rename_i place _
  cases hload : load t cwd (Pathname.ofPlace place) with
  | error why => simp [hload, Except.map] at h
  | ok found =>
    simp only [hload, Except.map, Except.ok.injEq, Option.some.injEq] at h
    exact valid_of_load (h ▸ hload)

theorem Valid.configure (valid : m.Valid) (o : Command.Options) : (Command.configure m o).Valid where
  capacity := by
    have := valid.capacity
    dsimp only [Command.configure]
    split <;> omega
  limit := valid.limit
  timeout := valid.timeout

theorem valid_of_found {found : Option Manifest} (h : find t cwd dir = .ok found) :
    (found.getD default).Valid := by
  cases found with
  | none => exact valid_default
  | some m => exact valid_of_find h

def longName : String := String.ofList (List.replicate 256 'n')

/-- A broken manifest below a good one, and one where no path leads to it. -/
def shadowedTree : FileTree :=
  (((({} : FileTree).makeFile [fileName] (Text.utf8 "[machine]\ntimeout = \"2s\"\n")).makeFile
    ["a", fileName] (Text.utf8 "[machine]\nstack-capacity = -1\n")).makeDirectory
    ["a", "b"]).makeFile [longName, fileName] []

theorem proper_longName : ∀ n ∈ [longName], Proper n := by
  have plain (k : Nat) : '/' ∉ (String.ofList (List.replicate k 'n')).toList := by
    simp [List.mem_replicate]
  exact List.forall_mem_singleton.mpr
    ⟨by decide +kernel, by decide +kernel, by decide +kernel, plain 256⟩

end Manifest
end StackMachine
