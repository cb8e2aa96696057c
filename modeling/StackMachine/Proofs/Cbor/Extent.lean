import StackMachine.Cbor.Item
/-! What is read is no larger than the bytes it was read from: the texts of an item have
no more bytes than these, at any depth, and its arrays no more elements than are
accepted. -/
namespace StackMachine.Cbor

variable {α : Type}

/-- No text of the item has more than `size` bytes, and no array more elements than are
accepted. The keys of maps are not looked at. -/
inductive Item.Within (size : Nat) : Item → Prop where
  | unsigned (n : Nat) : Within size (.unsigned n)
  | negative (n : Nat) : Within size (.negative n)
  | bytes (chunks : List Bytes) : Within size (.bytes chunks)
  | text {chunks : List Bytes} : chunks.flatten.length ≤ size → Within size (.text chunks)
  | array {items : List Item} : items.length ≤ maxCount → (∀ i ∈ items, Within size i) →
      Within size (.array items)
  | map {pairs : List (Item × Item)} : (∀ p ∈ pairs, Within size p.2) → Within size (.map pairs)
  | tag (number : Nat) {content : Item} : Within size content → Within size (.tag number content)
  | simple (code : Nat) : Within size (.simple code)
  | float : Within size .float

theorem within_mono (m n : Nat) (item : Item) (le : m ≤ n) (h : item.Within m) : item.Within n := by
  induction h with
  | unsigned n => exact .unsigned n
  | negative n => exact .negative n
  | bytes chunks => exact .bytes chunks
  | text length_le => exact .text (Nat.le_trans length_le le)
  | array count _ ih => exact .array count ih
  | map _ ih => exact .map ih
  | tag number _ ih => exact .tag number ih
  | simple code => exact .simple code
  | float => exact .float

/-- What the reader reads is bounded by the number of bytes it was given, and it leaves no
more than that. -/
def Bounded (P : Nat → α → Prop) (one : Reader α) : Prop :=
  ∀ bytes a rest, one bytes = some (a, rest) → P bytes.length a ∧ rest.length ≤ bytes.length

section Sequences

variable {P : Nat → α → Prop} {one : Reader α}

theorem bounded_cons {bytes behind rest : Bytes} {a : α} {l : List α} {count : Nat}
    (mono : ∀ m n a, m ≤ n → P m a → P n a)
    (first : P bytes.length a ∧ behind.length ≤ bytes.length)
    (others : (l.length ≤ count ∧ ∀ b ∈ l, P behind.length b) ∧ rest.length ≤ behind.length) :
    ((a :: l).length ≤ count + 1 ∧ ∀ b ∈ a :: l, P bytes.length b) ∧ rest.length ≤ bytes.length := by
  refine ⟨⟨Nat.succ_le_succ others.1.1, ?_⟩, Nat.le_trans others.2 first.2⟩
  intro b hb
  rcases List.mem_cons.mp hb with rfl | hb
  · exact first.1
  · exact mono _ _ _ first.2 (others.1.2 b hb)

theorem bounded_readExactly (mono : ∀ m n a, m ≤ n → P m a → P n a) (h : Bounded P one) (count : Nat) :
    Bounded (fun n l => l.length ≤ count ∧ ∀ a ∈ l, P n a) (readExactly one count) := by
  induction count with
  | zero =>
    intro bytes l rest hread
    cases hread
    exact ⟨⟨Nat.le_refl 0, nofun⟩, Nat.le_refl _⟩
  | succ count ih =>
    intro bytes l rest hread
    obtain ⟨⟨a, behind⟩, hfirst, hread⟩ := Option.bind_eq_some_iff.mp hread
    obtain ⟨⟨more, left⟩, hmore, hread⟩ := Option.bind_eq_some_iff.mp hread
    cases hread
    exact bounded_cons mono (h bytes a behind hfirst) (ih behind more _ hmore)

theorem bounded_readToStop (mono : ∀ m n a, m ≤ n → P m a → P n a) (h : Bounded P one) (room : Nat) :
    Bounded (fun n l => l.length ≤ room ∧ ∀ a ∈ l, P n a) (readToStop one room) := by
  induction room with
  | zero =>
    intro bytes l rest hread
    cases bytes with
    | nil => simp [readToStop] at hread
    | cons first more =>
      by_cases ends : first = stop
      · simp only [readToStop, if_pos ends] at hread
        cases hread
        exact ⟨⟨Nat.le_refl 0, nofun⟩, Nat.le_succ _⟩
      · simp [readToStop, ends] at hread
  | succ room ih =>
    intro bytes l rest hread
    cases bytes with
    | nil => simp [readToStop] at hread
    | cons first more =>
      by_cases ends : first = stop
      · simp only [readToStop, if_pos ends] at hread
        cases hread
        exact ⟨⟨Nat.zero_le _, nofun⟩, Nat.le_succ _⟩
      · simp only [readToStop, if_neg ends] at hread
        obtain ⟨⟨a, behind⟩, hfirst, hread⟩ := Option.bind_eq_some_iff.mp hread
        obtain ⟨⟨others, left⟩, hothers, hread⟩ := Option.bind_eq_some_iff.mp hread
        cases hread
        exact bounded_cons mono (h _ a behind hfirst) (ih behind others _ hothers)

theorem bounded_readSequence (mono : ∀ m n a, m ≤ n → P m a → P n a) (h : Bounded P one)
    (count : Option Nat) :
    Bounded (fun n l => l.length ≤ maxCount ∧ ∀ a ∈ l, P n a) (readSequence one count) := by
  intro bytes l rest hread
  cases count with
  | none => exact bounded_readToStop mono h maxCount bytes l rest hread
  | some count =>
    simp only [readSequence] at hread
    split at hread
    next count_le =>
      obtain ⟨⟨length_le, others⟩, left_le⟩ := bounded_readExactly mono h count bytes l rest hread
      exact ⟨⟨Nat.le_trans length_le count_le, others⟩, left_le⟩
    next => cases hread

end Sequences

theorem bounded_pairOf {P : Nat → α → Prop} {one : Reader α}
    (mono : ∀ m n a, m ≤ n → P m a → P n a) (h : Bounded P one) :
    Bounded (fun n p => P n p.2) (pairOf one) := by
  intro bytes p rest hread
  obtain ⟨⟨key, behind⟩, hkey, hread⟩ := Option.bind_eq_some_iff.mp hread
  obtain ⟨⟨value, left⟩, hvalue, hread⟩ := Option.bind_eq_some_iff.mp hread
  cases hread
  obtain ⟨_, shorter⟩ := h bytes key behind hkey
  obtain ⟨within, left_le⟩ := h behind value rest hvalue
  exact ⟨mono _ _ _ shorter within, Nat.le_trans left_le shorter⟩

theorem length_readChunks {major : Nat} {bytes rest : Bytes} {chunks : List Bytes}
    (h : readChunks major bytes = some (chunks, rest)) :
    chunks.flatten.length + rest.length ≤ bytes.length := by
  fun_induction readChunks major bytes generalizing chunks rest with
  | case1 => cases h
  | case2 tail =>
    cases h
    exact Nat.le_trans (Nat.le_of_eq (Nat.zero_add _)) (Nat.le_succ _)
  | case3 first tail _ m info length behind head_eq _ ih =>
    obtain ⟨⟨more, left⟩, hmore, h⟩ := Option.map_eq_some_iff.mp h
    cases h
    have shorter := length_readHead head_eq
    have others := ih hmore
    simp only [List.flatten_cons, List.length_append, List.length_take, List.length_drop] at *
    omega
  | case4 => cases h
  | case5 => cases h

theorem length_front {count : Nat} {bytes front rest : Bytes}
    (h : take? count bytes = some (front, rest)) : front.length ≤ bytes.length := by
  simp only [take?] at h
  split at h
  · simp only [List.splitAt_eq, Option.some.injEq, Prod.mk.injEq] at h
    rw [← h.1]
    exact List.length_take_le' count bytes
  · cases h

theorem bounded_readString (major : Nat) (length : Option Nat) :
    Bounded (fun n chunks => chunks.flatten.length ≤ n) (readString major length) := by
  intro bytes chunks rest hread
  cases length with
  | none =>
    have := length_readChunks hread
    omega
  | some length =>
    obtain ⟨⟨front, left⟩, htake, hread⟩ := Option.map_eq_some_iff.mp hread
    cases hread
    have hsum := length_take? htake
    have hfront := length_front htake
    simp only [List.flatten_cons, List.flatten_nil, List.append_nil]
    omega

theorem bounded_build {P : Nat → α → Prop} {one : Reader α} {f : α → Item} {bytes behind rest : Bytes}
    {item : Item} (h : Bounded P one) (wraps : ∀ n a, P n a → (f a).Within n)
    (shorter : behind.length < bytes.length) (hread : build f (one behind) = some (item, rest)) :
    item.Within bytes.length ∧ rest.length ≤ bytes.length := by
  obtain ⟨⟨a, left⟩, hone, heq⟩ := Option.map_eq_some_iff.mp hread
  cases heq
  obtain ⟨within, left_le⟩ := h behind a _ hone
  have le := Nat.le_of_lt shorter
  exact ⟨within_mono _ _ _ le (wraps _ a within), Nat.le_trans left_le le⟩

theorem bounded_of_nested {levels : Nat} {tagged : Bool}
    (nested : ∀ l, levels = l + 1 → Bounded Item.Within (readItem l false))
    (behindTag : tagged = false → Bounded Item.Within (readItem levels true))
    (deeperTag : ∀ l, tagged = true → levels = l + 1 → Bounded Item.Within (readItem l true)) :
    Bounded Item.Within (readItem levels tagged) := by
  intro bytes item rest hread
  rw [readItem] at hread
  obtain ⟨⟨head, behind⟩, hhead, hitem⟩ := Option.bind_eq_some_iff.mp hread
  clear hread
  have shorter := length_readHead hhead
  have plain {i : Item} (within : i.Within bytes.length)
      (h : some (i, behind) = some (item, rest)) :
      item.Within bytes.length ∧ rest.length ≤ bytes.length := by
    cases h
    exact ⟨within, Nat.le_of_lt shorter⟩
  simp only at hitem
  split at hitem
  next => exact plain (.unsigned _) hitem
  next => exact plain (.negative _) hitem
  next => exact bounded_build (bounded_readString _ _) (fun _ _ _ => .bytes _) shorter hitem
  next => exact bounded_build (bounded_readString _ _) (fun _ _ => .text) shorter hitem
  next =>
    split at hitem
    next => cases hitem
    next l =>
      exact bounded_build (bounded_readSequence within_mono (nested l rfl) _)
        (fun _ _ h => .array h.1 h.2) shorter hitem
  next =>
    split at hitem
    next => cases hitem
    next l =>
      have pairs := bounded_pairOf within_mono (nested l rfl)
      exact bounded_build (bounded_readSequence (fun _ _ p => within_mono _ _ p.2) pairs _)
        (fun _ _ h => .map h.2) shorter hitem
  next =>
    split at hitem
    next => exact bounded_build (behindTag rfl) (fun _ _ => .tag _) shorter hitem
    next => cases hitem
    next l => exact bounded_build (deeperTag l rfl rfl) (fun _ _ => .tag _) shorter hitem
  next =>
    refine plain ?_ hitem
    split
    · exact .simple _
    · exact .float
  next => cases hitem

/-- The induction is on the levels; at each of them items behind a tag come first. -/
theorem bounded_readItem (levels : Nat) :
    Bounded Item.Within (readItem levels true) ∧ Bounded Item.Within (readItem levels false) := by
  induction levels with
  | zero =>
    have behindTag : Bounded Item.Within (readItem 0 true) := bounded_of_nested nofun nofun nofun
    exact ⟨behindTag, bounded_of_nested nofun (fun _ => behindTag) nofun⟩
  | succ levels ih =>
    obtain ⟨deeperTag, deeper⟩ := ih
    have nested : ∀ l, levels + 1 = l + 1 → Bounded Item.Within (readItem l false) := by
      rintro l ⟨⟩
      exact deeper
    have behindTag : Bounded Item.Within (readItem (levels + 1) true) := by
      refine bounded_of_nested nested nofun ?_
      rintro l _ ⟨⟩
      exact deeperTag
    exact ⟨behindTag, bounded_of_nested nested (fun _ => behindTag) nofun⟩

theorem within_of_ofBytes? {bytes : Bytes} {item : Item} (h : Item.ofBytes? bytes = some item) :
    item.Within bytes.length := by
  unfold Item.ofBytes? at h
  split at h
  next hread =>
    cases h
    exact ((bounded_readItem maxLevels).2 bytes item [] hread).1
  next => cases h

end StackMachine.Cbor
