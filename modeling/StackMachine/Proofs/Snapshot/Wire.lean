import Mathlib.Algebra.Group.Int.Defs
import Mathlib.Algebra.Group.Nat.Defs
import StackMachine.Proofs.Cbor.Reader
import StackMachine.Proofs.Text.Utf8
import StackMachine.Proofs.WellFormed
import StackMachine.Snapshot.Wire
/-! Snapshots survive the wire. Writing a snapshot lays out a table of fields, each with
its key, its bytes and the item the bytes are; reading finds the items again and takes
every field from the item under its key. -/
namespace StackMachine
open Cbor

namespace Snapshot

def texts (s : Snapshot) : List String :=
  [s.runId, s.state, s.fault] ++ s.stack.flatMap fun slot => [slot.kind, slot.repr]

/-- No more slots and cells than a reader accepts, and texts whose length in bytes fits
64 bits, as that of all texts in memory does. -/
structure Portable (s : Snapshot) : Prop where
  stack_le : s.stack.length ≤ maxCount
  code_le : s.code.length ≤ maxCount
  texts_lt : ∀ t ∈ s.texts, t.utf8ByteSize < 2 ^ 64

instance (s : Snapshot) : Decidable s.Portable :=
  decidable_of_iff (s.stack.length ≤ maxCount ∧ s.code.length ≤ maxCount ∧
      ∀ t ∈ s.texts, t.utf8ByteSize < 2 ^ 64)
    ⟨fun h => ⟨h.1, h.2.1, h.2.2⟩, fun h => ⟨h.stack_le, h.code_le, h.texts_lt⟩⟩

/-! From bytes to items. -/

def numberItem (n : Int) : Item :=
  if n < 0 then .negative (-1 - n).toNat else .unsigned n.toNat

def textItem (s : String) : Item := .text [Text.utf8 s]

theorem takes_writeInt {n : Int} (lower : -2 ^ 64 ≤ n) (upper : n < 2 ^ 64) (levels : Nat) :
    Takes (readItem levels false) (writeInt n) (numberItem n) := by
  unfold writeInt numberItem
  split
  · exact takes_negative (by omega) levels
  · exact takes_unsigned (by omega) levels

theorem takes_writeText {s : String} (h : s.utf8ByteSize < 2 ^ 64) (levels : Nat) :
    Takes (readItem levels false) (writeText s) (textItem s) := by
  rw [← Text.length_utf8] at h
  rw [writeText, ← Text.length_utf8]
  exact takes_text h levels

theorem takes_writeArray {α : Type} {write : α → Bytes} {read : α → Item} {l : List α} {levels : Nat}
    (hcount : l.length ≤ maxCount) (each : ∀ a ∈ l, Takes (readItem levels false) (write a) (read a)) :
    Takes (readItem (levels + 1) false) (writeArray (l.map write)) (.array (l.map read)) := by
  rw [writeArray, List.length_map, ← List.flatMap_def]
  exact takes_array hcount each

/-- A field of a map: its key, the bytes written for it, and the item they are. -/
structure Entry where
  key : Nat
  bytes : Bytes
  item : Item

/-- With `levels` of nesting left the bytes are read as the item; a key is small. -/
structure Entry.Readable (levels : Nat) (e : Entry) : Prop where
  key_lt : e.key < 10
  takes : Takes (readItem levels false) e.bytes e.item

def mapItem (entries : List Entry) : Item := .map (entries.map fun e => (.unsigned e.key, e.item))

theorem takes_writeFields {entries : List Entry} {levels : Nat} (hcount : entries.length ≤ maxCount)
    (readable : ∀ e ∈ entries, e.Readable levels) :
    Takes (readItem (levels + 1) false) (writeFields (entries.map fun e => (e.key, e.bytes)))
      (mapItem entries) := by
  rw [writeFields, List.length_map, List.flatMap_map]
  refine takes_map hcount ?_
  intro e he
  obtain ⟨key_lt, takes⟩ := readable e he
  exact takes_pairOf (takes_unsigned (by omega) levels) takes

def textEntry (key : Nat) (s : String) : Entry := ⟨key, writeText s, textItem s⟩

def numberEntry (key : Nat) (n : Int) : Entry := ⟨key, writeInt n, numberItem n⟩

theorem textEntry_readable {key : Nat} {s : String} (hkey : key < 10) (h : s.utf8ByteSize < 2 ^ 64)
    (levels : Nat) : (textEntry key s).Readable levels :=
  ⟨hkey, takes_writeText h levels⟩

theorem numberEntry_readable {key : Nat} {n : Int} (hkey : key < 10) (lower : -2 ^ 64 ≤ n)
    (upper : n < 2 ^ 64) (levels : Nat) : (numberEntry key n).Readable levels :=
  ⟨hkey, takes_writeInt lower upper levels⟩

def slotEntries (slot : SlotSnapshot) : List Entry := [textEntry 1 slot.kind, textEntry 2 slot.repr]

def stackEntry (stack : List SlotSnapshot) : Entry :=
  ⟨7, writeArray (stack.map writeSlot), .array (stack.map fun slot => mapItem (slotEntries slot))⟩

def codeEntry (code : List Int32) : Entry :=
  ⟨9, writeArray (code.map fun c => writeInt c.toInt), .array (code.map fun c => numberItem c.toInt)⟩

def optional (absent : Bool) (e : Entry) : List Entry := if absent then [] else [e]

def entries (s : Snapshot) : List Entry :=
  [textEntry 1 s.runId, textEntry 2 s.state, numberEntry 3 s.ip.toInt,
   numberEntry 4 s.faultIp.toInt, numberEntry 5 s.opcode.toInt, numberEntry 6 s.steps.toNat] ++
  optional s.stack.isEmpty (stackEntry s.stack) ++
  optional s.fault.isEmpty (textEntry 8 s.fault) ++
  optional s.code.isEmpty (codeEntry s.code)

theorem map_optional {β : Type} (f : Entry → β) (absent : Bool) (e : Entry) :
    (optional absent e).map f = if absent then [] else [f e] := by
  cases absent <;> rfl

theorem encode_eq (s : Snapshot) : s.encode = writeFields (s.entries.map fun e => (e.key, e.bytes)) := by
  simp only [encode, fields, entries, List.map_append, map_optional]
  rfl

theorem takes_writeSlot {slot : SlotSnapshot} (hkind : slot.kind.utf8ByteSize < 2 ^ 64)
    (hrepr : slot.repr.utf8ByteSize < 2 ^ 64) (levels : Nat) :
    Takes (readItem (levels + 1) false) (writeSlot slot) (mapItem (slotEntries slot)) := by
  have hcount : (slotEntries slot).length ≤ maxCount := Nat.le_of_ble_eq_true rfl
  refine takes_writeFields hcount ?_
  simp only [slotEntries, List.forall_mem_cons]
  exact ⟨textEntry_readable (by decide) hkind levels, textEntry_readable (by decide) hrepr levels,
    List.forall_mem_nil _⟩

theorem forall_mem_optional {p : Entry → Prop} {e : Entry} (h : p e) (absent : Bool) :
    ∀ x ∈ optional absent e, p x := by
  cases absent with
  | true => exact nofun
  | false => simpa [optional] using h

theorem entries_readable {s : Snapshot} (h : s.Portable) (levels : Nat) :
    ∀ e ∈ s.entries, e.Readable (levels + 2) := by
  have text {t : String} (ht : t ∈ s.texts) : t.utf8ByteSize < 2 ^ 64 := h.texts_lt t ht
  have stack : (stackEntry s.stack).Readable (levels + 2) := by
    refine ⟨(by decide : 7 < 10), takes_writeArray h.stack_le ?_⟩
    intro slot hslot
    have mem {t : String} (ht : t ∈ [slot.kind, slot.repr]) : t ∈ s.texts :=
      List.mem_append_right _ (List.mem_flatMap.mpr ⟨slot, hslot, ht⟩)
    exact takes_writeSlot (text (mem (by simp))) (text (mem (by simp))) levels
  have code : (codeEntry s.code).Readable (levels + 2) := by
    refine ⟨(by decide : 9 < 10), takes_writeArray h.code_le ?_⟩
    intro c _
    have := c.le_toInt
    have := c.toInt_lt
    exact takes_writeInt (by omega) (by omega) _
  have ip_le := s.ip.le_toInt
  have ip_lt := s.ip.toInt_lt
  have faultIp_le := s.faultIp.le_toInt
  have faultIp_lt := s.faultIp.toInt_lt
  have opcode_le := s.opcode.le_toInt
  have opcode_lt := s.opcode.toInt_lt
  have steps_lt := s.steps.toNat_lt
  simp only [entries, List.forall_mem_append, List.forall_mem_cons]
  refine ⟨⟨⟨⟨?_, ?_, ?_, ?_, ?_, ?_, List.forall_mem_nil _⟩, forall_mem_optional stack _⟩,
    forall_mem_optional ?_ _⟩, forall_mem_optional code _⟩
  · exact textEntry_readable (by decide) (text (by simp [texts])) _
  · exact textEntry_readable (by decide) (text (by simp [texts])) _
  · exact numberEntry_readable (by decide) (by omega) (by omega) _
  · exact numberEntry_readable (by decide) (by omega) (by omega) _
  · exact numberEntry_readable (by decide) (by omega) (by omega) _
  · exact numberEntry_readable (by decide) (by omega) (by omega) _
  · exact textEntry_readable (by decide) (text (by simp [texts])) _

theorem length_entries_le (s : Snapshot) : s.entries.length ≤ 9 := by
  have single (absent : Bool) (e : Entry) : (optional absent e).length ≤ 1 := by
    cases absent <;> simp [optional]
  have hstack := single s.stack.isEmpty (stackEntry s.stack)
  have hfault := single s.fault.isEmpty (textEntry 8 s.fault)
  have hcode := single s.code.isEmpty (codeEntry s.code)
  simp only [entries, List.length_append, List.length_cons, List.length_nil]
  omega

/-- A reader takes what was written and leaves what stands behind it, which is then refused. -/
theorem ofBytes?_encode_append {s : Snapshot} (h : s.Portable) (rest : Bytes) :
    Item.ofBytes? (s.encode ++ rest) = if rest = [] then some (mapItem s.entries) else none := by
  have hcount : s.entries.length ≤ maxCount := Nat.le_trans s.length_entries_le (by decide)
  have takes := takes_writeFields hcount (entries_readable h 29) rest
  rw [← encode_eq] at takes
  rw [Item.ofBytes?, maxLevels, takes]
  cases rest with
  | nil => rfl
  | cons b rest => rfl

/-! From items to the snapshot. -/

theorem text?_textItem (s : String) : text? (textItem s) = some s := by
  simp [text?, textItem, bare?, joinText?, Text.decode?_utf8, String.join]

theorem bare?_numberItem (n : Int) : bare? (numberItem n) = some (numberItem n) := by
  unfold numberItem
  split <;> rfl

theorem isNull_numberItem (n : Int) : isNull (numberItem n) = false := by
  unfold numberItem
  split <;> rfl

theorem integer?_numberItem {n lo hi : Int} (lower : lo ≤ n) (upper : n ≤ hi) :
    integer? lo hi (numberItem n) = some n := by
  by_cases negative : n < 0
  · have hn : -1 - ((-1 - n).toNat : Int) = n := by omega
    simp only [integer?, numberItem, if_pos negative, bare?, Option.bind_eq_bind, Option.bind_some, hn]
    exact if_pos ⟨lower, upper⟩
  · have hn : (n.toNat : Int) = n := by omega
    simp only [integer?, numberItem, if_neg negative, bare?, Option.bind_eq_bind, Option.bind_some, hn]
    exact if_pos ⟨lower, upper⟩

theorem int64?_numberItem (n : Int64) : int64? (numberItem n.toInt) = some n := by
  rw [int64?, integer?_numberItem n.minValue_le_toInt n.toInt_le]
  simp

theorem int32?_numberItem (n : Int32) : int32? (numberItem n.toInt) = some n := by
  rw [int32?, integer?_numberItem n.minValue_le_toInt n.toInt_le]
  simp

theorem uint64?_numberItem (n : UInt64) : uint64? (numberItem n.toNat) = some n := by
  have hlt := n.toNat_lt
  rw [uint64?, integer?_numberItem (by omega) (by simp only [UInt64.size]; omega)]
  simp

theorem cell?_numberItem (n : Int32) : cell? (numberItem n.toInt) = some n := by
  simp [cell?, bare?_numberItem, isNull_numberItem, int32?_numberItem]

theorem mapM_map_eq_some {α β γ : Type} {f : β → Option γ} {g : α → β} {k : α → γ} {l : List α}
    (each : ∀ a ∈ l, f (g a) = some (k a)) : (l.map g).mapM f = some (l.map k) := by
  induction l with
  | nil => rfl
  | cons a l ih =>
    have others := ih fun b hb => each b (List.mem_cons_of_mem a hb)
    simp [List.mapM_cons, each a List.mem_cons_self, others]

theorem keyNumber?_unsigned {key : Nat} (h : key < 10) :
    keyNumber? (.unsigned key) = some (some (key : Int)) := by
  have hkey : (Int64.ofNat key).toInt = (key : Int) := Int64.toInt_ofNat_of_lt (by omega)
  rw [keyNumber?, hkey]

def pairsOf (entries : List Entry) : List (Option Int × Item) :=
  entries.map fun e => (some (e.key : Int), e.item)

theorem pairs?_mapItem {entries : List Entry} (small : ∀ e ∈ entries, e.key < 10) :
    pairs? (mapItem entries) = some (pairsOf entries) := by
  refine mapM_map_eq_some ?_
  intro e he
  simp [keyNumber?_unsigned (small e he)]

theorem find?_pairsOf (entries : List Entry) (key : Nat) :
    (pairsOf entries).find? (·.1 == some (key : Int)) =
      (entries.find? (·.key == key)).map fun e => (some (e.key : Int), e.item) := by
  have hkey (e : Entry) : (some (e.key : Int) == some (key : Int)) = (e.key == key) := by
    rw [Bool.eq_iff_iff, beq_iff_eq, beq_iff_eq, Option.some.injEq]
    exact Int.ofNat_inj
  rw [pairsOf, List.find?_map]
  congr 2
  funext e
  exact hkey e

/-- A field is read from the entry under its key; if that was left out, the field was
zero. -/
theorem field_of_find {α : Type} {entries : List Entry} {e : Entry} {zero a : α}
    {read : Item → Option α} (key : Nat) (absent : Bool)
    (found : entries.find? (·.key == key) = if absent then none else some e)
    (plain : (bare? e.item).any isNull = false) (reads : read e.item = some a)
    (left_out : absent = true → zero = a) : field (pairsOf entries) key zero read = some a := by
  rw [field, find?_pairsOf, found]
  cases absent with
  | true => simp [left_out]
  | false => simp [plain, reads]

theorem find?_optional (absent : Bool) (e : Entry) (key : Nat) :
    (optional absent e).find? (·.key == key) =
      if e.key = key then (if absent then none else some e) else none := by
  cases absent with
  | true => simp [optional]
  | false => by_cases h : e.key = key <;> simp [optional, h]

theorem slot?_mapItem (slot : SlotSnapshot) : slot? (mapItem (slotEntries slot)) = some slot := by
  have small : ∀ e ∈ slotEntries slot, e.key < 10 := by simp [slotEntries, textEntry]
  have kind : field (pairsOf (slotEntries slot)) 1 "" text? = some slot.kind :=
    field_of_find 1 false rfl rfl (text?_textItem slot.kind) nofun
  have repr : field (pairsOf (slotEntries slot)) 2 "" text? = some slot.repr :=
    field_of_find 2 false rfl rfl (text?_textItem slot.repr) nofun
  simp [slot?, pairs?_mapItem small, kind, repr]

theorem find?_entries (s : Snapshot) :
    s.entries.find? (·.key == 7) = (if s.stack.isEmpty then none else some (stackEntry s.stack)) ∧
    s.entries.find? (·.key == 8) = (if s.fault.isEmpty then none else some (textEntry 8 s.fault)) ∧
    s.entries.find? (·.key == 9) = (if s.code.isEmpty then none else some (codeEntry s.code)) := by
  simp [entries, List.find?_append, find?_optional, stackEntry, codeEntry, textEntry, numberEntry]

theorem ofItem?_mapItem {s : Snapshot} (small : ∀ e ∈ s.entries, e.key < 10) :
    ofItem? (mapItem s.entries) = some s := by
  have number (n : Int) : (bare? (numberItem n)).any isNull = false := by
    simp [bare?_numberItem, isNull_numberItem]
  have runId : field (pairsOf s.entries) 1 "" text? = some s.runId :=
    field_of_find 1 false rfl rfl (text?_textItem s.runId) nofun
  have state : field (pairsOf s.entries) 2 "" text? = some s.state :=
    field_of_find 2 false rfl rfl (text?_textItem s.state) nofun
  have ip : field (pairsOf s.entries) 3 0 int64? = some s.ip :=
    field_of_find 3 false rfl (number _) (int64?_numberItem s.ip) nofun
  have faultIp : field (pairsOf s.entries) 4 0 int64? = some s.faultIp :=
    field_of_find 4 false rfl (number _) (int64?_numberItem s.faultIp) nofun
  have opcode : field (pairsOf s.entries) 5 0 int32? = some s.opcode :=
    field_of_find 5 false rfl (number _) (int32?_numberItem s.opcode) nofun
  have steps : field (pairsOf s.entries) 6 0 uint64? = some s.steps :=
    field_of_find 6 false rfl (number s.steps.toNat) (uint64?_numberItem s.steps) nofun
  obtain ⟨found_stack, found_fault, found_code⟩ := s.find?_entries
  have stack : field (pairsOf s.entries) 7 [] (fun item => (array? item).bind (·.mapM slot?)) =
      some s.stack := by
    refine field_of_find 7 _ found_stack rfl ?_ fun h => (List.isEmpty_iff.mp h).symm
    change (s.stack.map _).mapM slot? = _
    rw [mapM_map_eq_some fun slot _ => slot?_mapItem slot, List.map_id']
  have fault : field (pairsOf s.entries) 8 "" text? = some s.fault :=
    field_of_find 8 _ found_fault rfl (text?_textItem s.fault)
      fun h => (String.isEmpty_iff.mp h).symm
  have code : field (pairsOf s.entries) 9 [] (fun item => (array? item).bind (·.mapM cell?)) =
      some s.code := by
    refine field_of_find 9 _ found_code rfl ?_ fun h => (List.isEmpty_iff.mp h).symm
    change (s.code.map _).mapM cell? = _
    rw [mapM_map_eq_some fun c _ => cell?_numberItem c, List.map_id']
  simp [ofItem?, pairs?_mapItem small, runId, state, ip, faultIp, opcode, steps, stack, fault, code]

theorem decode?_encode {s : Snapshot} (h : s.Portable) : decode? s.encode = some s := by
  have small : ∀ e ∈ s.entries, e.key < 10 := fun e he => (entries_readable h 0 e he).key_lt
  have item := ofBytes?_encode_append h []
  rw [List.append_nil, if_pos rfl] at item
  rw [decode?, item, Option.bind_some, ofItem?_mapItem small]

theorem decode?_encode_append {s : Snapshot} (h : s.Portable) {rest : Bytes} (more : rest ≠ []) :
    decode? (s.encode ++ rest) = none := by
  rw [decode?, ofBytes?_encode_append h, if_neg more]
  rfl

end Snapshot

namespace Engine

variable {s : Setup} {e : Engine}

theorem WellFormed.snapshot_places (h : WellFormed s e) (short : e.code.size < 2 ^ 63) :
    e.snapshot.ip.toInt = e.ip ∧ e.snapshot.faultIp.toInt = e.faultIp := by
  have ip_le := h.ip_le
  refine ⟨Int64.toInt_ofNat_of_lt (by omega), ?_⟩
  have bounds : -2 ^ 63 ≤ e.faultIp ∧ e.faultIp < 2 ^ 63 := by
    by_cases none : e.faultIp = -1
    · omega
    · have := h.faultIp_mem none
      omega
  exact Int64.toInt_ofInt_of_le bounds.1 bounds.2

end Engine

namespace Snapshot

/-- What is written of a snapshot is read back as that snapshot, and so the snapshot of
every engine tells after a journey what it told before. -/
theorem snapshots_survive_the_wire :
    (∀ s : Snapshot, s.Portable → decode? s.encode = some s) ∧
    ∀ (setup : Engine.Setup) (e : Engine), Engine.Reachable setup e → e.snapshot.Portable →
      ∃ s, decode? e.snapshot.encode = some s ∧ s.runId = e.runId ∧ s.state = e.status.name ∧
        s.ip.toInt = e.ip ∧ s.faultIp.toInt = e.faultIp ∧ s.opcode = e.current.getD (-1) ∧
        s.steps = e.steps ∧ s.code = e.code.toList ∧
        s.fault = e.status.fault?.elim "" Fault.message ∧
        s.stack = e.stack.values.map fun v => ⟨v.kind.name, v.text⟩ := by
  refine ⟨fun s h => decode?_encode h, ?_⟩
  intro setup e reachable portable
  have short : e.code.size < 2 ^ 63 := by
    have : e.code.size ≤ 131072 := portable.code_le
    omega
  have places := (Engine.reachable_wellFormed reachable).snapshot_places short
  exact ⟨e.snapshot, decode?_encode portable, rfl, rfl, places.1, places.2, rfl, rfl, rfl, rfl, rfl⟩

/-- Numbers at the ends of their ranges, and cells of all widths. -/
def extremes : Snapshot where
  runId := "0b5a"
  state := "faulted"
  ip := Int64.minValue
  faultIp := Int64.maxValue
  opcode := Int32.minValue
  steps := 18446744073709551615
  stack := [⟨"String", "\"é\""⟩, ⟨"", ""⟩]
  code := [0, 23, 24, -24, -25, 256, 65536, Int32.minValue]

theorem extremes_survive_the_wire :
    extremes.Portable ∧ decode? extremes.encode = some extremes ∧
    ∃ e, Engine.Reachable Engine.nestedFailure e ∧ e.snapshot.Portable ∧
      ∃ s, decode? e.snapshot.encode = some s ∧ s.state = "faulted" ∧ s.faultIp.toInt = 0 ∧
        s.stack = [⟨"Integer", "1"⟩] := by
  have portable : extremes.Portable := by decide
  have failed : ((Engine.create Engine.nestedFailure).calls Engine.afterNestedFailure).toOption.map
      (fun p => decide (p.2.snapshot.Portable ∧ p.2.status.name = "faulted" ∧ p.2.faultIp = 0 ∧
        p.2.stack.values.map (fun v => (⟨v.kind.name, v.text⟩ : SlotSnapshot)) =
          [⟨"Integer", "1"⟩])) = some true := by decide +kernel
  obtain ⟨wire, engines⟩ := snapshots_survive_the_wire
  refine ⟨portable, wire extremes portable, ?_⟩
  cases hcalls : (Engine.create Engine.nestedFailure).calls Engine.afterNestedFailure with
  | error a => simp [hcalls, Except.toOption] at failed
  | ok p =>
    obtain ⟨replies, e⟩ := p
    have reachable : Engine.Reachable Engine.nestedFailure e := ⟨_, replies, hcalls⟩
    simp only [hcalls, Except.toOption, Option.map_some, Option.some.injEq,
      decide_eq_true_eq] at failed
    obtain ⟨fits, faulted, place, shown⟩ := failed
    obtain ⟨s, hs, _, state, _, faultIp, _, _, _, _, stack⟩ :=
      engines Engine.nestedFailure e reachable fits
    exact ⟨e, reachable, fits, s, hs, state.trans faulted, faultIp.trans place, stack.trans shown⟩

end Snapshot
end StackMachine
