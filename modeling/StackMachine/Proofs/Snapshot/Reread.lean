import Mathlib.Algebra.Group.Int.Defs
import Mathlib.Algebra.Group.Nat.Defs
import Mathlib.Data.List.Forall2
import StackMachine.Proofs.Cbor.Extent
import StackMachine.Proofs.Snapshot.Wire
/-! Whatever bytes are accepted as a snapshot, the snapshot says what the items in them
say, no number narrowed and no text repaired; so it is one that can be written, and what
is written of it is read as the same snapshot. -/
namespace StackMachine.Snapshot
open Cbor

variable {α : Type}

/-- The integer an item stands for. A big number is that of its bytes, and other tags are
passed over. -/
inductive Denotes : Item → Int → Prop where
  | unsigned (n : Nat) : Denotes (.unsigned n) n
  | negative (n : Nat) : Denotes (.negative n) (-1 - n)
  | simple {code : Nat} : code < 20 ∨ 32 ≤ code → Denotes (.simple code) code
  | positiveBig (chunks : List Bytes) :
      Denotes (.tag TagNr.positiveBig (.bytes chunks)) (ofBigEndian chunks.flatten)
  | negativeBig (chunks : List Bytes) :
      Denotes (.tag TagNr.negativeBig (.bytes chunks)) (-1 - ofBigEndian chunks.flatten)
  | tag {number : Nat} {content : Item} {n : Int} : number ≠ TagNr.positiveBig →
      number ≠ TagNr.negativeBig → Denotes content n → Denotes (.tag number content) n

/-- The text an item stands for: its bytes are the UTF-8 of the text. -/
inductive Spells : Item → String → Prop where
  | text {chunks : List Bytes} {s : String} : Text.utf8 s = chunks.flatten → Spells (.text chunks) s
  | tag (number : Nat) {content : Item} {s : String} : Spells content s →
      Spells (.tag number content) s

inductive Lists (means : Item → α → Prop) : Item → List α → Prop where
  | array {items : List Item} {as : List α} : List.Forall₂ means items as →
      Lists means (.array items) as
  | tag (number : Nat) {content : Item} {as : List α} : Lists means content as →
      Lists means (.tag number content) as

def Null (item : Item) : Prop := (bare? item).any isNull = true

/-- What a map tells under `key`: what the first item there says, or `zero` if there is
none or a null. -/
inductive Tells (means : Item → α → Prop) (zero : α) (pairs : List (Option Int × Item))
    (key : Int) : α → Prop where
  | absent : pairs.find? (·.1 == some key) = none → Tells means zero pairs key zero
  | null {k : Option Int} {item : Item} : pairs.find? (·.1 == some key) = some (k, item) →
      Null item → Tells means zero pairs key zero
  | item {k : Option Int} {item : Item} {a : α} :
      pairs.find? (·.1 == some key) = some (k, item) → means item a → Tells means zero pairs key a

def SlotFrom (item : Item) (slot : SlotSnapshot) : Prop :=
  ∃ pairs, pairs? item = some pairs ∧
    Tells Spells "" pairs 1 slot.kind ∧ Tells Spells "" pairs 2 slot.repr

def CellFrom (item : Item) (cell : Int32) : Prop :=
  Null item ∧ cell = 0 ∨ Denotes item cell.toInt

/-- Every field of the snapshot is what the map tells under its key, and the number in it
is the very number there. -/
structure ReadFrom (pairs : List (Option Int × Item)) (s : Snapshot) : Prop where
  runId : Tells Spells "" pairs 1 s.runId
  state : Tells Spells "" pairs 2 s.state
  ip : Tells (Denotes · ·.toInt) 0 pairs 3 s.ip
  faultIp : Tells (Denotes · ·.toInt) 0 pairs 4 s.faultIp
  opcode : Tells (Denotes · ·.toInt) 0 pairs 5 s.opcode
  steps : Tells (Denotes · ·.toNat) 0 pairs 6 s.steps
  stack : Tells (Lists SlotFrom) [] pairs 7 s.stack
  fault : Tells Spells "" pairs 8 s.fault
  code : Tells (Lists CellFrom) [] pairs 9 s.code

/-! Each reader of a field takes it as the item says. -/

theorem of_bare? {P : Item → Prop} {item b : Item}
    (tag : ∀ number content, number ≠ TagNr.positiveBig → number ≠ TagNr.negativeBig →
      P content → P (.tag number content))
    (positive : ∀ chunks, P (.unsigned (ofBigEndian chunks.flatten)) →
      P (.tag TagNr.positiveBig (.bytes chunks)))
    (negative : ∀ chunks, P (.negative (ofBigEndian chunks.flatten)) →
      P (.tag TagNr.negativeBig (.bytes chunks)))
    (h : bare? item = some b) (hb : P b) : P item := by
  -- The tags of dates come first, then the two of big numbers, and any other tag.
  fun_induction bare? item with
  | case1 chunks ih =>
    exact tag _ _ (by decide) (by decide) (ih h)
  | case3 content _ _ ih =>
    exact tag _ _ (by decide) (by decide) (ih h)
  | case5 chunks =>
    cases h
    exact positive chunks hb
  | case7 chunks =>
    cases h
    exact negative chunks hb
  | case9 number content _ _ positive_ne negative_ne ih =>
    exact tag number content positive_ne negative_ne (ih h)
  | case10 item =>
    cases h
    exact hb
  | case2 | case4 | case6 | case8 => cases h

theorem denotes_of_bare? {item b : Item} {n : Int} (h : bare? item = some b) (hb : Denotes b n) :
    Denotes item n := by
  refine of_bare? (P := (Denotes · n)) (fun _ _ hp hn => .tag hp hn) ?_ ?_ h hb
  · rintro chunks ⟨⟩
    exact .positiveBig chunks
  · rintro chunks ⟨⟩
    exact .negativeBig chunks

theorem spells_of_bare? {item b : Item} {s : String} (h : bare? item = some b) (hb : Spells b s) :
    Spells item s :=
  of_bare? (P := (Spells · s)) (fun number _ _ _ => .tag number) nofun nofun h hb

theorem lists_of_bare? {means : Item → α → Prop} {item b : Item} {as : List α}
    (h : bare? item = some b) (hb : Lists means b as) : Lists means item as :=
  of_bare? (P := (Lists means · as)) (fun number _ _ _ => .tag number) nofun nofun h hb

theorem denotes_of_integer? {lo hi n : Int} {item : Item} (h : integer? lo hi item = some n) :
    Denotes item n ∧ lo ≤ n ∧ n ≤ hi := by
  obtain ⟨b, hbare, hb⟩ := Option.bind_eq_some_iff.mp h
  have inRange {m : Int} (hm : Denotes b m)
      (hn : (if lo ≤ m ∧ m ≤ hi then some m else none) = some n) :
      Denotes item n ∧ lo ≤ n ∧ n ≤ hi := by
    obtain ⟨hrange, ⟨⟩⟩ := Option.ite_none_right_eq_some.mp hn
    exact ⟨denotes_of_bare? hbare hm, hrange⟩
  split at hb
  case h_1 m => exact inRange (.unsigned m) hb
  case h_2 m => exact inRange (.negative m) hb
  case h_3 code =>
    split at hb
    case isTrue hcode => exact inRange (.simple hcode) hb
    case isFalse => cases hb
  case h_4 => cases hb

theorem denotes_of_map {lo hi : Int} {make : Int → α} {item : Item} {a : α} (view : α → Int)
    (exact : ∀ n, lo ≤ n → n ≤ hi → view (make n) = n)
    (h : (integer? lo hi item).map make = some a) : Denotes item (view a) := by
  obtain ⟨n, hn, rfl⟩ := Option.map_eq_some_iff.mp h
  obtain ⟨hdenotes, hlo, hhi⟩ := denotes_of_integer? hn
  rwa [exact n hlo hhi]

theorem denotes_of_int64? {item : Item} {n : Int64} (h : int64? item = some n) :
    Denotes item n.toInt := by
  refine denotes_of_map Int64.toInt (fun m lo hi => Int64.toInt_ofInt_of_le lo ?_) h
  have : Int64.maxValue.toInt = 2 ^ 63 - 1 := rfl
  omega

theorem denotes_of_int32? {item : Item} {n : Int32} (h : int32? item = some n) :
    Denotes item n.toInt := by
  refine denotes_of_map Int32.toInt (fun m lo hi => Int32.toInt_ofInt_of_le lo ?_) h
  have : Int32.maxValue.toInt = 2 ^ 31 - 1 := rfl
  omega

theorem denotes_of_uint64? {item : Item} {n : UInt64} (h : uint64? item = some n) :
    Denotes item n.toNat := by
  refine denotes_of_map (fun n : UInt64 => (n.toNat : Int)) (fun m lo hi => ?_) h
  have small : m.toNat < UInt64.size := by
    simp only [UInt64.size] at hi ⊢
    omega
  rw [UInt64.toNat_ofNat_of_lt' small, Int.toNat_of_nonneg lo]

theorem cellFrom_of_cell? {item : Item} {cell : Int32} (h : cell? item = some cell) :
    CellFrom item cell := by
  unfold cell? at h
  split at h
  case isTrue hnull => exact .inl ⟨hnull, (Option.some.inj h).symm⟩
  case isFalse => exact .inr (denotes_of_int32? h)

theorem forall₂_of_mapM {β : Type} {f : α → Option β} {as : List α} {bs : List β}
    (h : as.mapM f = some bs) : List.Forall₂ (f · = some ·) as bs := by
  induction as generalizing bs with
  | nil =>
    cases h
    exact .nil
  | cons a as ih =>
    simp only [List.mapM_cons, Option.bind_eq_bind, Option.bind_eq_some_iff] at h
    obtain ⟨b, hb, bs, hbs, ⟨⟩⟩ := h
    exact .cons hb (ih hbs)

theorem exists_of_forall₂ {β : Type} {R : α → β → Prop} {as : List α} {bs : List β}
    (h : List.Forall₂ R as bs) : ∀ b ∈ bs, ∃ a ∈ as, R a b := by
  induction h with
  | nil => nofun
  | cons hab _ ih =>
    intro b hb
    rcases List.mem_cons.mp hb with rfl | hb
    · exact ⟨_, List.mem_cons_self, hab⟩
    · obtain ⟨a, ha, hR⟩ := ih b hb
      exact ⟨a, List.mem_cons_of_mem _ ha, hR⟩

/-- The chunks are UTF-8 one by one, so no character is cut in two. -/
theorem utf8_of_joinText? {chunks : List Bytes} {s : String} (h : joinText? chunks = some s) :
    Text.utf8 s = chunks.flatten := by
  obtain ⟨texts, htexts, rfl⟩ := Option.map_eq_some_iff.mp h
  clear h
  have each := forall₂_of_mapM htexts
  clear htexts
  induction each with
  | nil =>
    rw [String.join_nil]
    exact List.eq_nil_of_length_eq_zero (Text.length_utf8 "")
  | cons hchunk _ ih =>
    rw [String.join_cons, List.flatten_cons, Text.utf8_append, Text.utf8_of_decode? hchunk, ih]

theorem spells_of_text? {item : Item} {s : String} (h : text? item = some s) : Spells item s := by
  obtain ⟨b, hbare, hb⟩ := Option.bind_eq_some_iff.mp h
  split at hb
  case h_1 chunks => exact spells_of_bare? hbare (.text (utf8_of_joinText? hb))
  case h_2 => cases hb

theorem lists_of_mapM {means : Item → α → Prop} {read : Item → Option α} {item : Item}
    {as : List α} (reads : ∀ {item a}, read item = some a → means item a)
    (h : (array? item).bind (·.mapM read) = some as) : Lists means item as := by
  obtain ⟨items, hitems, has⟩ := Option.bind_eq_some_iff.mp h
  obtain ⟨b, hbare, hb⟩ := Option.bind_eq_some_iff.mp hitems
  split at hb
  case h_1 =>
    cases hb
    exact lists_of_bare? hbare (.array ((forall₂_of_mapM has).imp fun _ _ => reads))
  case h_2 => cases hb

theorem tells_of_field {means : Item → α → Prop} {read : Item → Option α} {zero a : α}
    {pairs : List (Option Int × Item)} {key : Int}
    (reads : ∀ {item a}, read item = some a → means item a)
    (h : field pairs key zero read = some a) : Tells means zero pairs key a := by
  unfold field at h
  split at h
  case h_1 hfind =>
    cases h
    exact .absent hfind
  case h_2 hfind =>
    split at h
    case isTrue hnull =>
      cases h
      exact .null hfind hnull
    case isFalse => exact .item hfind (reads h)

theorem slotFrom_of_slot? {item : Item} {slot : SlotSnapshot} (h : slot? item = some slot) :
    SlotFrom item slot := by
  simp only [slot?, Option.bind_eq_bind, Option.bind_eq_some_iff] at h
  obtain ⟨pairs, hpairs, kind, hkind, repr, hrepr, ⟨⟩⟩ := h
  exact ⟨pairs, hpairs, tells_of_field spells_of_text? hkind, tells_of_field spells_of_text? hrepr⟩

theorem readFrom_of_ofItem? {item : Item} {s : Snapshot} (h : ofItem? item = some s) :
    ∃ pairs, pairs? item = some pairs ∧ s.ReadFrom pairs := by
  simp only [ofItem?, Option.bind_eq_bind, Option.bind_eq_some_iff] at h
  obtain ⟨pairs, hpairs, runId, hrunId, state, hstate, ip, hip, faultIp, hfaultIp, opcode, hopcode,
    steps, hsteps, stack, hstack, fault, hfault, code, hcode, ⟨⟩⟩ := h
  exact ⟨pairs, hpairs, {
    runId := tells_of_field spells_of_text? hrunId
    state := tells_of_field spells_of_text? hstate
    ip := tells_of_field denotes_of_int64? hip
    faultIp := tells_of_field denotes_of_int64? hfaultIp
    opcode := tells_of_field denotes_of_int32? hopcode
    steps := tells_of_field denotes_of_uint64? hsteps
    stack := tells_of_field (lists_of_mapM slotFrom_of_slot?) hstack
    fault := tells_of_field spells_of_text? hfault
    code := tells_of_field (lists_of_mapM cellFrom_of_cell?) hcode }⟩

/-! What an item within `size` bytes stands for is no longer than they are. -/

variable {size : Nat}

theorem within_bare? {item b : Item} (h : bare? item = some b) (within : item.Within size) :
    b.Within size := by
  refine of_bare? (P := fun item => item.Within size → b.Within size) ?_ ?_ ?_ h id within
  · intro number content _ _ ih hwithin
    cases hwithin with
    | tag _ hcontent => exact ih hcontent
  · intro chunks ih _
    exact ih (.unsigned _)
  · intro chunks ih _
    exact ih (.negative _)

theorem within_pairs? {item : Item} {pairs : List (Option Int × Item)}
    (h : pairs? item = some pairs) (within : item.Within size) : ∀ p ∈ pairs, p.2.Within size := by
  obtain ⟨b, hbare, hb⟩ := Option.bind_eq_some_iff.mp h
  split at hb
  case isTrue =>
    cases hb
    nofun
  case isFalse =>
    split at hb
    case h_1 items =>
      intro p hp
      obtain ⟨q, hq, hread⟩ := exists_of_forall₂ (forall₂_of_mapM hb) p hp
      obtain ⟨key, _, ⟨⟩⟩ := Option.bind_eq_some_iff.mp hread
      cases within_bare? hbare within with
      | map hvalues => exact hvalues q hq
    case h_2 => cases hb

theorem size_of_spells {item : Item} {s : String} (h : Spells item s) (within : item.Within size) :
    s.utf8ByteSize ≤ size := by
  induction h with
  | text hutf8 =>
    cases within with
    | text length_le => rwa [← hutf8, Text.length_utf8] at length_le
  | tag number _ ih =>
    cases within with
    | tag _ hcontent => exact ih hcontent

theorem elements_of_lists {means : Item → α → Prop} {item : Item} {as : List α}
    (h : Lists means item as) (within : item.Within size) :
    as.length ≤ maxCount ∧ ∀ a ∈ as, ∃ item, item.Within size ∧ means item a := by
  induction h with
  | array each =>
    cases within with
    | array count hitems =>
      refine ⟨each.length_eq ▸ count, fun a ha => ?_⟩
      obtain ⟨item, hitem, hmeans⟩ := exists_of_forall₂ each a ha
      exact ⟨item, hitems item hitem, hmeans⟩
  | tag number _ ih =>
    cases within with
    | tag _ hcontent => exact ih hcontent

section Portable

variable {pairs : List (Option Int × Item)} (within : ∀ p ∈ pairs, p.2.Within size)
include within

theorem zero_or_item {means : Item → α → Prop} {zero a : α} {key : Int}
    (h : Tells means zero pairs key a) : a = zero ∨ ∃ item, item.Within size ∧ means item a := by
  cases h with
  | absent => exact .inl rfl
  | null => exact .inl rfl
  | item hfind hmeans => exact .inr ⟨_, within _ (List.mem_of_find?_eq_some hfind), hmeans⟩

theorem size_of_tells {s : String} {key : Int} (h : Tells Spells "" pairs key s) :
    s.utf8ByteSize ≤ size := by
  rcases zero_or_item within h with rfl | ⟨item, hitem, hspells⟩
  · exact Nat.zero_le size
  · exact size_of_spells hspells hitem

theorem elements_of_tells {means : Item → α → Prop} {as : List α} {key : Int}
    (h : Tells (Lists means) [] pairs key as) :
    as.length ≤ maxCount ∧ ∀ a ∈ as, ∃ item, item.Within size ∧ means item a := by
  rcases zero_or_item within h with rfl | ⟨item, hitem, hlists⟩
  · exact ⟨Nat.zero_le maxCount, nofun⟩
  · exact elements_of_lists hlists hitem

end Portable

theorem portable_of_readFrom {pairs : List (Option Int × Item)} {s : Snapshot}
    (h : s.ReadFrom pairs) (within : ∀ p ∈ pairs, p.2.Within size) (fits : size < 2 ^ 64) :
    s.Portable := by
  obtain ⟨stack_le, hslots⟩ := elements_of_tells within h.stack
  obtain ⟨code_le, _⟩ := elements_of_tells within h.code
  refine ⟨stack_le, code_le, fun t ht => Nat.lt_of_le_of_lt ?_ fits⟩
  simp only [texts, List.mem_append, List.mem_cons, List.not_mem_nil, or_false,
    List.mem_flatMap] at ht
  rcases ht with (rfl | rfl | rfl) | ⟨slot, hslot, rfl | rfl⟩
  · exact size_of_tells within h.runId
  · exact size_of_tells within h.state
  · exact size_of_tells within h.fault
  all_goals
    obtain ⟨item, hitem, pairs, hpairs, hkind, hrepr⟩ := hslots slot hslot
    have hwithin := within_pairs? hpairs hitem
  · exact size_of_tells hwithin hkind
  · exact size_of_tells hwithin hrepr

/-- Whatever is accepted as a snapshot, from bytes as many as fit in memory, says what the
items in the bytes say; it can be written, and what is written of it is read as the same
snapshot, from which the same bytes are written again. -/
theorem accepted_bytes_hold_writable_snapshots {bytes : Bytes} {s : Snapshot}
    (fits : bytes.length < 2 ^ 64) (h : decode? bytes = some s) :
    (∃ item pairs, Item.ofBytes? bytes = some item ∧ pairs? item = some pairs ∧ s.ReadFrom pairs) ∧
      s.Portable ∧ decode? s.encode = some s ∧
      ∀ t, decode? s.encode = some t → t.encode = s.encode := by
  obtain ⟨item, hitem, hs⟩ := Option.bind_eq_some_iff.mp h
  obtain ⟨pairs, hpairs, hread⟩ := readFrom_of_ofItem? hs
  have portable : s.Portable :=
    portable_of_readFrom hread (within_pairs? hpairs (within_of_ofBytes? hitem)) fits
  have reread : decode? s.encode = some s := decode?_encode portable
  refine ⟨⟨item, pairs, hitem, hpairs, hread⟩, portable, reread, fun t ht => ?_⟩
  rw [← Option.some.inj (reread.symm.trans ht)]

/-- A map without a length and with its keys out of order. Numbers are longer than they
need be, and a text comes in chunks. -/
def roundabout : Bytes :=
  [0xBF,                                                  -- a map that a break ends
   0x06, 0x18, 0x05,                                      -- five steps
   0x02, 0x7F, 0x61, 0x68, 0x61, 0x69, 0xFF,              -- the state "hi" in two chunks
   0x03, 0xC3, 0x41, 0x07,                                -- a big number, -8
   0x61, 0x34, 0x19, 0x00, 0x07,                          -- the key as the text "4"
   0x06, 0x09,                                            -- a key for the second time
   0x0C, 0xF5,                                            -- a key that names no field
   0x07, 0x9F, 0xA1, 0x01, 0x63, 0x69, 0x6E, 0x74, 0xFF,  -- a slot with a kind only
   0x09, 0x9F, 0x20, 0xF6, 0xFF,                          -- the cells -1 and null
   0xFF]

def roundaboutItem : Item :=
  .map [(.unsigned 6, .unsigned 5), (.unsigned 2, .text [[0x68], [0x69]]),
    (.unsigned 3, .tag TagNr.negativeBig (.bytes [[7]])), (.text [[0x34]], .unsigned 7),
    (.unsigned 6, .unsigned 9), (.unsigned 12, .simple 21),
    (.unsigned 7, .array [.map [(.unsigned 1, .text [[0x69, 0x6E, 0x74]])]]),
    (.unsigned 9, .array [.negative 0, .simple 22])]

def straightened : Snapshot :=
  { state := "hi", ip := -8, faultIp := 7, steps := 5, stack := [{ kind := "int" }], code := [-1, 0] }

theorem roundabout_is_straightened :
    (decode? roundabout = some straightened ∧ roundabout ≠ straightened.encode) ∧
      straightened.Portable ∧ decode? straightened.encode = some straightened := by
  have item : Item.ofBytes? roundabout = some roundaboutItem := by cbv
  have fields : ofItem? roundaboutItem = some straightened := by decide +kernel
  have read : decode? roundabout = some straightened := by
    rw [decode?, item, Option.bind_some, fields]
  obtain ⟨_, portable, reread, _⟩ := accepted_bytes_hold_writable_snapshots (by decide) read
  exact ⟨⟨read, by decide +kernel⟩, portable, reread⟩

end StackMachine.Snapshot
