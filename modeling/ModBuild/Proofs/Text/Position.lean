import ModBuild.Proofs.Text.Lines

/-!
# Bytes and lines of a text

A place in a text is the number of bytes before it. The line it lies on starts behind the last line
feed before it (`lineStart_append`), and a reader of lines finds there what stands at the place
(`exists_line_at`).
-/

namespace ModBuild.Text

set_option autoImplicit false

@[simp] theorem byteCount_nil : byteCount [] = 0 := rfl

@[simp] theorem byteCount_cons (c : Char) (cs : List Char) :
    byteCount (c :: cs) = c.utf8Size + byteCount cs := rfl

@[simp] theorem byteCount_append (a b : List Char) :
    byteCount (a ++ b) = byteCount a + byteCount b := by
  induction a with
  | nil => simp
  | cons c a ih => simp [ih, Nat.add_assoc]

theorem byteCount_pos {cs : List Char} (h : cs ≠ []) : 0 < byteCount cs := by
  obtain ⟨c, cs, rfl⟩ := List.exists_cons_of_ne_nil h
  have := c.utf8Size_pos
  rw [byteCount_cons]
  omega

theorem byteCount_eq_size (cs : List Char) : byteCount cs = cs.utf8Encode.size := by
  induction cs with
  | nil => rfl
  | cons c cs ih =>
    rw [byteCount_cons, List.utf8Encode_cons, ByteArray.size_append, ih, List.utf8Encode_singleton,
      List.size_toByteArray, String.length_utf8EncodeChar]

theorem byteCount_toList (s : String) : byteCount s.toList = s.utf8ByteSize := by
  have hs := byteCount_eq_size s.toList
  rwa [← String.toByteArray_ofList, String.ofList_toList] at hs

theorem extract_toUTF8 {text : String} {before part after : List Char}
    (h : text.toList = before ++ part ++ after) :
    text.toUTF8.extract (byteCount before) (byteCount before + byteCount part) =
      (String.ofList part).toUTF8 := by
  have htext : text = String.ofList (before ++ part ++ after) := by
    rw [← h, String.ofList_toList]
  simp only [String.toUTF8_eq_toByteArray, htext, String.toByteArray_ofList,
    List.utf8Encode_append, byteCount_eq_size]
  rw [ByteArray.extract_append, ByteArray.extract_append_eq_right rfl rfl, ByteArray.size_append,
    Nat.sub_self, Nat.sub_eq_zero_of_le (Nat.le_add_right _ _), ByteArray.extract_same,
    ByteArray.append_empty]

theorem takeBytes?_append (a b : List Char) : takeBytes? (byteCount a) (a ++ b) = some a := by
  induction a with
  | nil => cases b <;> rfl
  | cons c a ih =>
    have := c.utf8Size_pos
    rw [List.cons_append, byteCount_cons, takeBytes?, if_neg (by omega), if_pos (by omega),
      Nat.add_sub_cancel_left, ih, Option.map_some]

/-- The byte at which a line starts, behind the lines before it; lines are counted from one. -/
def lineStart (cs : List Char) (line : Nat) : Nat :=
  byteCount (((split '\n' cs).take (line - 1)).flatMap (· ++ ['\n']))

theorem length_split (sep : Char) (cs : List Char) : (split sep cs).length = cs.count sep + 1 := by
  induction cs with
  | nil => rfl
  | cons c cs ih =>
    by_cases hc : c = sep
    · simp [split, hc, ih]
    · obtain ⟨part, parts, hs⟩ := List.exists_cons_of_ne_nil (split_ne_nil sep cs)
      rw [hs] at ih
      simp only [split, if_neg hc, hs]
      simpa [List.count_cons_of_ne hc] using ih

theorem flatMap_split (cs : List Char) : (split '\n' cs).flatMap (· ++ ['\n']) = cs ++ ['\n'] := by
  induction cs with
  | nil => rfl
  | cons c cs ih =>
    by_cases hc : c = '\n'
    · simp [split, hc, ih]
    · obtain ⟨part, parts, hs⟩ := List.exists_cons_of_ne_nil (split_ne_nil '\n' cs)
      rw [hs] at ih
      simpa [split, if_neg hc, hs] using ih

theorem count_lastLine (cs : List Char) : (lastLine cs).count '\n' = 0 :=
  List.count_eq_zero.mpr (not_mem_lastLine cs)

/-- The line of a place starts as many bytes before the place as the open line has. -/
theorem lineStart_append (before after : List Char) :
    lineStart (before ++ after) (before.count '\n' + 1) + byteCount (lastLine before) =
      byteCount before := by
  have hcount := count_lastLine before
  rcases eq_lastLine_or before with hb | ⟨above, hb⟩ <;>
    generalize lastLine before = last at hb hcount ⊢ <;> subst hb
  · simp [lineStart, hcount]
  · have htake : (split '\n' (above ++ '\n' :: last ++ after)).take (above.count '\n' + 1) =
        split '\n' above := by
      rw [List.append_assoc, List.cons_append, split_append_sep,
        List.take_left' (length_split '\n' above)]
    have hsize : '\n'.utf8Size = 1 := rfl
    simp only [lineStart, Nat.add_sub_cancel, List.count_append, List.count_cons_self, hcount,
      Nat.zero_add, htake, flatMap_split, byteCount_append, byteCount_cons, byteCount_nil, hsize]
    omega

/-- A reader of lines keeps the start of a line, unless it ends in a carriage return. -/
theorem exists_head?_lines {m : List Char} (rest : List Char) (hno : '\n' ∉ m) (hne : m ≠ [])
    (hlast : m.getLast? ≠ some '\r') : ∃ tail, (lines (m ++ rest)).head? = some (m ++ tail) := by
  by_cases hr : '\n' ∈ rest
  · obtain ⟨r, rest, rfl, hnor⟩ := List.eq_append_cons_of_mem hr
    have hlines := lines_append_returns [] rest (r := m ++ r) (by simp [hno, hnor])
    have hkept : ∃ tail, dropReturn (m ++ r) = m ++ tail := by
      unfold dropReturn
      split
      · next hreturn =>
        have hrne : r ≠ [] := by
          rintro rfl
          exact hlast (by simpa using hreturn)
        exact ⟨r.dropLast, List.dropLast_append_of_ne_nil hrne⟩
      · exact ⟨r, rfl⟩
    obtain ⟨tail, htail⟩ := hkept
    refine ⟨tail, ?_⟩
    rw [← htail, ← List.append_assoc]
    simpa [split, lastLine] using congrArg List.head? hlines
  · have hlines := lines_append_of_not_mem [] (r := m ++ rest) (by simp [hno, hr]) (by simp [hne])
    exact ⟨rest, by simpa [split, lastLine] using congrArg List.head? hlines⟩

theorem exists_line_at {part : List Char} (before after : List Char) (hno : '\n' ∉ part)
    (hne : part ≠ []) (hlast : part.getLast? ≠ some '\r') :
    ∃ tail, (lines (before ++ part ++ after))[before.count '\n']? =
      some (lastLine before ++ part ++ tail) := by
  have hcount := count_lastLine before
  have hnolast := not_mem_lastLine before
  obtain ⟨tail, htail⟩ := exists_head?_lines (m := lastLine before ++ part) after
    (by simp [hno, hnolast]) (by simp [hne])
    (by rwa [List.getLast?_append_of_ne_nil _ hne])
  refine ⟨tail, ?_⟩
  rcases eq_lastLine_or before with hb | ⟨above, hb⟩ <;>
    generalize lastLine before = last at hb hcount htail ⊢ <;> subst hb
  · rw [hcount, ← List.head?_eq_getElem?, htail]
  · have hindex : (above ++ '\n' :: last).count '\n' =
        ((split '\n' above).map dropReturn).length := by
      simp [length_split, hcount]
    rw [List.append_assoc, List.append_assoc, List.cons_append, lines_append_break, hindex,
      List.getElem?_append_right (Nat.le_refl _), Nat.sub_self, ← List.head?_eq_getElem?,
      ← List.append_assoc, htail]

end ModBuild.Text
