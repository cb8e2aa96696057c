import StackMachine.Text.Utf8
/-! Reading the UTF-8 of a text gives back its characters, with no byte left over, and
bytes that are read as a text are the UTF-8 of that text. -/
namespace StackMachine.Text

theorem toList_loop (bytes : ByteArray) (i : Nat) (seen : List UInt8) :
    ByteArray.toList.loop bytes i seen = seen.reverse ++ bytes.data.toList.drop i := by
  fun_induction ByteArray.toList.loop bytes i seen with
  | case1 i seen inside ih =>
    have hlt : i < bytes.data.toList.length := by simpa using inside
    have hget : bytes.get! i = bytes.data.toList[i] := by
      rw [Array.getElem_toList]
      exact getElem!_pos bytes.data i inside
    rw [ih, List.drop_eq_getElem_cons hlt, hget]
    simp
  | case2 i seen outside =>
    rw [List.drop_eq_nil_of_le (by simpa using Nat.le_of_not_lt outside), List.append_nil]

theorem utf8_eq_flatMap (s : String) : utf8 s = s.toList.flatMap String.utf8EncodeChar := by
  have hloop : utf8 s = s.toByteArray.data.toList := by
    unfold utf8 ByteArray.toList
    exact toList_loop s.toByteArray 0 []
  rw [hloop, ← String.utf8Encode_toList, List.utf8Encode, List.toList_data_toByteArray]

theorem firstChar?_encode (c : Char) (rest : List UInt8) :
    firstChar? (String.utf8EncodeChar c ++ rest) = some c := by
  have hlength : (String.utf8EncodeChar c).length ≤ 4 := by
    rw [String.length_utf8EncodeChar]
    exact c.utf8Size_le_four
  unfold firstChar?
  rw [List.take_append, List.take_of_length_le hlength, List.toByteArray_append]
  exact ByteArray.utf8DecodeChar?_utf8EncodeChar_append

theorem drop_of_encode {b : UInt8} {more rest : List UInt8} {c : Char}
    (h : String.utf8EncodeChar c ++ rest = b :: more) : more.drop (c.utf8Size - 1) = rest := by
  have hsize := c.utf8Size_pos
  obtain ⟨n, hn⟩ : ∃ n, c.utf8Size = n + 1 := ⟨c.utf8Size - 1, by omega⟩
  have hdrop : (String.utf8EncodeChar c ++ rest).drop c.utf8Size = rest := by
    rw [← String.length_utf8EncodeChar, List.drop_left]
  rw [h, hn, List.drop_succ_cons] at hdrop
  rw [hn, Nat.add_sub_cancel, hdrop]

theorem scan_encode (c : Char) (rest : List UInt8) :
    scan (String.utf8EncodeChar c ++ rest) = .char c :: scan rest := by
  have hfirst := firstChar?_encode c rest
  cases hbytes : String.utf8EncodeChar c ++ rest with
  | nil => exact absurd (List.append_eq_nil_iff.mp hbytes).1 String.utf8EncodeChar_ne_nil
  | cons b more =>
    rw [hbytes] at hfirst
    rw [scan, hfirst]
    simp only [drop_of_encode hbytes]

theorem scan_utf8 (s : String) : scan (utf8 s) = s.toList.map .char := by
  rw [utf8_eq_flatMap]
  induction s.toList with
  | nil => simp [scan]
  | cons c chars ih => rw [List.flatMap_cons, scan_encode, ih, List.map_cons]

theorem repairEach_utf8 (s : String) : repairEach (utf8 s) = s.toList := by
  simp [repairEach, scan_utf8, Function.comp_def]

theorem length_utf8 (s : String) : (utf8 s).length = s.utf8ByteSize := by
  unfold utf8 ByteArray.toList
  rw [toList_loop]
  simp

theorem isValid_utf8 (s : String) : isValid (utf8 s) = true := by
  simp [isValid, scan_utf8]

theorem decode?_utf8 (s : String) : decode? (utf8 s) = some s := by
  rw [decode?, if_pos (isValid_utf8 s), repairEach_utf8, String.ofList_toList]

theorem utf8_inj {s t : String} : utf8 s = utf8 t ↔ s = t := by
  refine ⟨fun h => ?_, congrArg utf8⟩
  rw [← Option.some.injEq, ← decode?_utf8 s, h, decode?_utf8 t]

theorem exists_of_firstChar? {bytes : List UInt8} {c : Char} (h : firstChar? bytes = some c) :
    ∃ rest, bytes = String.utf8EncodeChar c ++ rest := by
  obtain ⟨more, hmore⟩ := ByteArray.exists_of_utf8DecodeChar?_eq_some h
  have htake : bytes.take 4 = String.utf8EncodeChar c ++ more.data.toList := by
    have := congrArg (fun b => b.data.toList) hmore
    simpa using this
  refine ⟨more.data.toList ++ bytes.drop 4, ?_⟩
  rw [← List.append_assoc, ← htake, List.take_append_drop]

theorem flatMap_repairEach (bytes : List UInt8) (valid : isValid bytes = true) :
    (repairEach bytes).flatMap String.utf8EncodeChar = bytes := by
  induction hlength : bytes.length using Nat.strongRecOn generalizing bytes with
  | ind n shorter =>
    cases bytes with
    | nil => simp [repairEach, scan]
    | cons b rest =>
      cases hfirst : firstChar? (b :: rest) with
      | none => simp [isValid, scan, hfirst] at valid
      | some c =>
        obtain ⟨behind, hbytes⟩ := exists_of_firstChar? hfirst
        have hlt : behind.length < n := by
          have hsize := c.utf8Size_pos
          rw [← hlength, hbytes, List.length_append, String.length_utf8EncodeChar]
          omega
        rw [hbytes] at valid ⊢
        simp only [isValid, repairEach, scan_encode, List.all_cons, Bool.true_and, List.map_cons,
          List.flatMap_cons] at valid ⊢
        rw [← repairEach, shorter _ hlt behind valid rfl]

theorem utf8_of_decode? {bytes : List UInt8} {s : String} (h : decode? bytes = some s) :
    utf8 s = bytes := by
  unfold decode? at h
  split at h
  next valid =>
    cases h
    rw [utf8_eq_flatMap, String.toList_ofList, flatMap_repairEach bytes valid]
  next => cases h

theorem utf8_append (s t : String) : utf8 (s ++ t) = utf8 s ++ utf8 t := by
  simp [utf8_eq_flatMap]

end StackMachine.Text
