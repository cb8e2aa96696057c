import StackMachine.FileTree
import StackMachine.Proofs.Pathname
/-! What the file at a path holds is read from it. Writing puts a file where no directory was,
so every directory that a path led through is still there, and all paths lead where they led
before. And a path leads to every entry that lies in directories all the way down, as long as
the path is none that is refused. -/
namespace StackMachine.FileTree
open Pathname (Place Proper)

variable {t : FileTree} {place dir : Place} {e : FileEntry}

theorem lookup_filter_ne {l : List (Place × FileEntry)} {p : Place} (h : p ≠ place) :
    (l.filter (·.1 ≠ place)).lookup p = l.lookup p := by
  induction l with
  | nil => rfl
  | cons entry l ih =>
    obtain ⟨q, e⟩ := entry
    by_cases hq : q = place
    · have hpq : (p == q) = false := beq_eq_false_iff_ne.mpr (hq ▸ h)
      simp only [List.filter_cons, hq, ne_eq, not_true_eq_false, decide_false, Bool.false_eq_true,
        ↓reduceIte, ih, List.lookup_cons, hq ▸ hpq]
    · simp only [List.filter_cons, hq, ne_eq, not_false_eq_true, decide_true, ↓reduceIte,
        List.lookup_cons, ih]

theorem entry?_put_self (t : FileTree) (e : FileEntry) (h : place ≠ []) :
    entry? (t.put place e) place = some e := by
  simp [put, entry?, h]

theorem entry?_put_of_ne (t : FileTree) (e : FileEntry) {p : Place} (h : p ≠ place) :
    entry? (t.put place e) p = t.entry? p := by
  have hbeq : (p == place) = false := beq_eq_false_iff_ne.mpr h
  simp only [put, entry?, List.lookup_cons, hbeq, lookup_filter_ne h]

def follow? (p : Place) (name : String) : Option Place :=
  if name = "" ∨ name = "." then some p
  else if name = ".." then some p.dropLast
  else if maxName < name.utf8ByteSize then none
  else some (p ++ [name])

theorem walk_nil_iff {p : Place} : t.walk p [] = .ok dir ↔ t.contains p = true ∧ p = dir := by
  unfold walk
  split <;> simp_all

theorem walk_cons_iff {p : Place} {name : String} {rest : List String} :
    t.walk p (name :: rest) = .ok dir ↔
      t.entry? p = some .directory ∧ ∃ q, follow? p name = some q ∧ t.walk q rest = .ok dir := by
  rw [walk]
  cases t.entry? p with
  | none => simp
  | some e =>
    cases e with
    | file content => simp
    | directory =>
      dsimp only
      unfold follow?
      split
      · simp
      · split
        · simp
        · split <;> simp

theorem walk_snoc {p q : Place} {names : List String} {name : String} (h : t.walk p names = .ok dir)
    (directory : t.entry? dir = some .directory) (leads : follow? dir name = some q)
    (found : t.contains q = true) : t.walk p (names ++ [name]) = .ok q := by
  induction names generalizing p with
  | nil =>
    obtain ⟨_, rfl⟩ := walk_nil_iff.mp h
    exact walk_cons_iff.mpr ⟨directory, q, leads, walk_nil_iff.mpr ⟨found, rfl⟩⟩
  | cons first rest ih =>
    obtain ⟨passed, r, hr, hrest⟩ := walk_cons_iff.mp h
    exact walk_cons_iff.mpr ⟨passed, r, hr, ih hrest⟩

/-! Paths that lead to an entry. -/

def Connected (t : FileTree) : Prop := ∀ e ∈ t.entries, t.entry? e.1.dropLast = some .directory

instance (t : FileTree) : Decidable t.Connected :=
  inferInstanceAs (Decidable (∀ e ∈ t.entries, _))

theorem Connected.above {name : String} (connected : t.Connected)
    (h : t.contains (place ++ [name]) = true) : t.entry? place = some .directory := by
  have nonroot : (place ++ [name]).isEmpty = false := by simp
  rw [contains, entry?, nonroot] at h
  obtain ⟨e, he⟩ := Option.isSome_iff_exists.mp h
  have mem : (place ++ [name], e) ∈ t.entries := by
    obtain ⟨before, after, listed, _⟩ := List.lookup_eq_some_iff.mp he
    simp [listed]
  simpa using connected _ mem

theorem Connected.passed {name : String} {rest : List String} (connected : t.Connected)
    (h : t.contains (place ++ name :: rest) = true) : t.entry? place = some .directory := by
  induction rest using List.reverseRecOn with
  | nil => exact connected.above h
  | append_singleton rest last ih =>
    apply ih
    rw [← List.cons_append, ← List.append_assoc] at h
    rw [contains, connected.above h]
    rfl

theorem follow?_proper {name : String} (proper : Proper name) {p : Place} :
    follow? p name = if name.utf8ByteSize ≤ maxName then some (p ++ [name]) else none := by
  rw [follow?, if_neg (not_or.mpr ⟨proper.nonempty, proper.no_dot⟩), if_neg proper.no_dots]
  split
  · rw [if_neg (by omega)]
  · rw [if_pos (by omega)]

theorem walk_proper_iff (connected : t.Connected) {names : List String}
    (proper : ∀ n ∈ names, Proper n) {p : Place} :
    t.walk p names = .ok dir ↔
      p ++ names = dir ∧ t.contains dir = true ∧ ∀ n ∈ names, n.utf8ByteSize ≤ maxName := by
  induction names generalizing p with
  | nil =>
    rw [walk_nil_iff, List.append_nil]
    constructor
    · rintro ⟨found, rfl⟩
      exact ⟨rfl, found, by simp⟩
    · rintro ⟨rfl, found, _⟩
      exact ⟨found, rfl⟩
  | cons name rest ih =>
    rw [List.forall_mem_cons] at proper
    rw [walk_cons_iff, follow?_proper proper.1, List.forall_mem_cons, List.append_cons p name rest]
    constructor
    · rintro ⟨_, q, leads, walked⟩
      split at leads
      case isFalse => cases leads
      rename_i short
      cases leads
      obtain ⟨here, found, rest_short⟩ := (ih proper.2).mp walked
      exact ⟨here, found, short, rest_short⟩
    · rintro ⟨rfl, found, short, rest_short⟩
      refine ⟨?_, _, if_pos short, (ih proper.2).mpr ⟨rfl, found, rest_short⟩⟩
      rw [← List.append_cons] at found
      exact connected.passed found

/-- A place whose path is not refused for its length or its characters. -/
structure Passable (place : Place) : Prop where
  length : (Pathname.ofPlace place).utf8ByteSize ≤ maxPath
  names : ∀ n ∈ place, n.utf8ByteSize ≤ maxName
  no_nul : '\x00' ∉ (Pathname.ofPlace place).toList

theorem checkPath_ofPlace_iff :
    checkPath (Pathname.ofPlace place) = .ok () ↔
      (Pathname.ofPlace place).utf8ByteSize ≤ maxPath ∧
        '\x00' ∉ (Pathname.ofPlace place).toList := by
  have nonempty : (Pathname.ofPlace place).isEmpty = false := by simp [Pathname.ofPlace]
  rw [checkPath, nonempty]
  by_cases nul : '\x00' ∈ (Pathname.ofPlace place).toList
  · simp [nul]
  · by_cases long : maxPath < (Pathname.ofPlace place).utf8ByteSize
    · simp [nul, long]
    · simp [nul, long, Nat.le_of_not_lt long]

theorem reaches_ofPlace_iff (connected : t.Connected) (proper : ∀ n ∈ place, Proper n)
    (nonroot : place ≠ []) (cwd : Place) :
    t.reaches cwd (Pathname.ofPlace place) = true ↔ t.contains place = true ∧ Passable place := by
  have names : Pathname.names (Pathname.ofPlace place) = "" :: place := by
    rw [Pathname.names_ofPlace proper, if_neg nonroot]
  have located : t.locate cwd (Pathname.ofPlace place) =
      (checkPath (Pathname.ofPlace place)).bind fun _ => t.walk [] place := by
    rw [locate, start, Pathname.isAbsolute_ofPlace, names]
    rfl
  have walks (dir : Place) : t.walk [] place = .ok dir ↔ _ := walk_proper_iff connected proper
  rw [reaches, located]
  constructor
  · intro reached
    cases checked : checkPath (Pathname.ofPlace place) with
    | error cause =>
      rw [checked] at reached
      cases reached
    | ok _ =>
      rw [checked] at reached
      obtain ⟨length, no_nul⟩ := checkPath_ofPlace_iff.mp checked
      change (t.walk [] place).isOk = true at reached
      cases walked : t.walk [] place with
      | error cause =>
        rw [walked] at reached
        cases reached
      | ok dir =>
        obtain ⟨rfl, found, short⟩ := (walks dir).mp walked
        exact ⟨found, length, short, no_nul⟩
  · rintro ⟨found, length, short, no_nul⟩
    rw [checkPath_ofPlace_iff.mpr ⟨length, no_nul⟩]
    change (t.walk [] place).isOk = true
    rw [(walks place).mpr ⟨rfl, found, short⟩]
    rfl

/-- Of a path that does not end in a slash. -/
theorem names_of_trimmed {names trimmed : List String} {name : String}
    (htrimmed : trimmed = (names.reverse.dropWhile (· == "")).reverse)
    (whole : names.length ≤ trimmed.length) (last : trimmed.getLast? = some name) :
    names = trimmed.dropLast ++ [name] ∧ name ≠ "" := by
  have kept : trimmed <+: names := by
    rw [htrimmed, ← List.reverse_suffix, List.reverse_reverse]
    exact List.dropWhile_suffix _
  constructor
  · obtain ⟨front, hfront⟩ := List.getLast?_eq_some_iff.mp last
    rw [← kept.eq_of_length_le whole, hfront, List.dropLast_concat]
  · rw [htrimmed, List.getLast?_reverse] at last
    have head := List.head?_dropWhile_not (· == "") names.reverse
    rw [last] at head
    simpa using head

/-- A path that can be written to ends in a name, within a directory, and leads to no
directory. -/
theorem target_eq_ok_iff {cwd : Place} {path : String} : t.target cwd path = .ok place ↔
    checkPath path = .ok () ∧ ∃ front name dir, Pathname.names path = front ++ [name] ∧
      t.walk (start cwd path) front = .ok dir ∧ t.entry? dir = some .directory ∧
      name ≠ "" ∧ name ≠ "." ∧ name ≠ ".." ∧ name.utf8ByteSize ≤ maxName ∧
      place = dir ++ [name] ∧ t.entry? place ≠ some .directory := by
  constructor
  · intro h
    unfold target at h
    cases checked : checkPath path with
    | error cause =>
      rw [checked] at h
      cases h
    | ok _ =>
      rw [checked] at h
      dsimp only [bind, Except.bind] at h
      split at h
      case h_2 => cases h
      rename_i name last
      split at h
      case h_1 => cases h
      rename_i dir walked
      split at h
      case h_2 => cases h
      rename_i directory
      split at h
      case isTrue => cases h
      rename_i named
      split at h
      case isTrue => cases h
      rename_i short
      split at h
      case isTrue => cases h
      rename_i vacant
      cases h
      obtain ⟨whole, no_dot, no_dots⟩ : _ ∧ name ≠ "." ∧ name ≠ ".." := by
        rwa [not_or, not_or] at named
      obtain ⟨names_eq, nonempty⟩ := names_of_trimmed rfl (Nat.le_of_not_lt whole) last
      exact ⟨rfl, _, name, dir, names_eq, walked, directory, nonempty, no_dot, no_dots,
        Nat.le_of_not_lt short, rfl, vacant⟩
  · rintro ⟨checked, front, name, dir, names_eq, walked, directory, nonempty, no_dot, no_dots,
      short, rfl, vacant⟩
    have trimmed : ((front ++ [name]).reverse.dropWhile (· == "")).reverse = front ++ [name] := by
      simp [nonempty]
    unfold target
    rw [checked, names_eq]
    dsimp only [bind, Except.bind]
    simp only [trimmed, List.getLast?_concat, List.dropLast_concat, walked, directory, no_dot,
      no_dots, vacant, Nat.not_lt.mpr short, Nat.lt_irrefl, or_self, if_false]

theorem read_of_target {cwd : Place} {path : String} {content : List UInt8}
    (h : t.target cwd path = .ok place) (held : t.entry? place = some (.file content)) :
    t.read cwd path = .ok content := by
  obtain ⟨checked, front, name, dir, names_eq, walked, directory, nonempty, no_dot, no_dots,
    short, rfl, -⟩ := target_eq_ok_iff.mp h
  have leads : follow? dir name = some (dir ++ [name]) := by
    rw [follow?, if_neg (not_or.mpr ⟨nonempty, no_dot⟩), if_neg no_dots,
      if_neg (Nat.not_lt.mpr short)]
  have found : t.locate cwd path = .ok (dir ++ [name]) := by
    unfold locate
    rw [checked, names_eq]
    refine walk_snoc walked directory leads ?_
    rw [contains, held]
    rfl
  rw [read, found]
  simp only [held]

/-! Files come and go, and directories stay. -/

/-- Both trees have the same directories. -/
def SameDirectories (t u : FileTree) : Prop :=
  ∀ p, t.entry? p = some .directory ↔ u.entry? p = some .directory

namespace SameDirectories

variable {u v : FileTree}

theorem refl (t : FileTree) : SameDirectories t t := fun _ => .rfl

theorem symm (h : SameDirectories t u) : SameDirectories u t := fun p => (h p).symm

theorem trans (h : SameDirectories t u) (h' : SameDirectories u v) : SameDirectories t v :=
  fun p => (h p).trans (h' p)

theorem put (vacant : t.entry? place ≠ some .directory) (content : List UInt8) :
    SameDirectories t (t.put place (.file content)) := by
  intro p
  by_cases hp : p = place
  · subst hp
    have named : p ≠ [] := by
      rintro rfl
      exact vacant rfl
    simp [entry?_put_self t _ named, vacant]
  · rw [entry?_put_of_ne t _ hp]

/-- A walk to a directory goes through directories only. -/
theorem walk (h : SameDirectories t u) {p : Place} {names : List String}
    (walked : t.walk p names = .ok dir) (directory : t.entry? dir = some .directory) :
    u.walk p names = .ok dir := by
  induction names generalizing p with
  | nil =>
    obtain ⟨-, rfl⟩ := walk_nil_iff.mp walked
    refine walk_nil_iff.mpr ⟨?_, rfl⟩
    rw [contains, (h p).mp directory]
    rfl
  | cons name rest ih =>
    obtain ⟨passed, q, leads, hrest⟩ := walk_cons_iff.mp walked
    exact walk_cons_iff.mpr ⟨(h p).mp passed, q, leads, ih hrest⟩

theorem target (h : SameDirectories t u) {cwd : Place} {path : String}
    (found : t.target cwd path = .ok place) : u.target cwd path = .ok place := by
  obtain ⟨checked, front, name, dir, names_eq, walked, directory, nonempty, no_dot, no_dots,
    short, placed, vacant⟩ := target_eq_ok_iff.mp found
  exact target_eq_ok_iff.mpr ⟨checked, front, name, dir, names_eq, h.walk walked directory,
    (h dir).mp directory, nonempty, no_dot, no_dots, short, placed, mt (h place).mpr vacant⟩

theorem target_iff (h : SameDirectories t u) {cwd : Place} {path : String} :
    t.target cwd path = .ok place ↔ u.target cwd path = .ok place := ⟨h.target, h.symm.target⟩

end SameDirectories

theorem vacant_of_target {cwd : Place} {path : String} (h : t.target cwd path = .ok place) :
    place ≠ [] ∧ t.entry? place ≠ some .directory := by
  obtain ⟨-, _, _, _, -, -, -, -, -, -, -, rfl, vacant⟩ := target_eq_ok_iff.mp h
  exact ⟨by simp, vacant⟩

theorem sameDirectories_append {cwd : Place} {path : String} {content : List UInt8}
    {grown : FileTree} (h : t.append cwd path content = .ok grown) : SameDirectories t grown := by
  unfold append at h
  split at h
  case h_1 => cases h
  case h_2 place htarget =>
    cases h
    exact .put (vacant_of_target htarget).2 _

end StackMachine.FileTree
