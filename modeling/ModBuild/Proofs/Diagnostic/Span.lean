import ModBuild.Diagnostic.Span
import ModBuild.Proofs.Text.Position

/-!
# Spans as places of a text

Line and column of a span give back the byte at which it starts (`offsetIn_afterText`), and a place
further on in the text has a later line, or the same line and a later column (`before_of_append`). So
the places of a text are ordered as their bytes are.
-/

namespace ModBuild.Span

set_option autoImplicit false

variable {file text : String} {before part after : List Char} {start start' stop stop' : Nat}

/-- The byte that line and column point at. -/
def offsetIn (s : Span) (text : String) : Nat :=
  Text.lineStart text.toList s.line + (s.column - 1)

theorem offsetIn_afterText (file : String) (length : Nat) (h : text.toList = before ++ after) :
    (afterText file before length).offsetIn text = Text.byteCount before := by
  rw [← Text.lineStart_append before after, offsetIn, h]
  rfl

theorem ofBytes_eq_afterText (file : String) (stop : Nat) (h : text.toList = before ++ after) :
    ofBytes file text (Text.byteCount before) stop =
      afterText file before (max (stop - Text.byteCount before) 1) := by
  have hstart :
      min (Text.byteCount before) (Text.byteCount text.toList) = Text.byteCount before := by
    rw [h, Text.byteCount_append]
    omega
  simp only [ofBytes, hstart]
  rw [h, Text.takeBytes?_append, Option.getD_some]

theorem ofBytes_part (file : String) (h : text.toList = before ++ part ++ after) (hne : part ≠ []) :
    ofBytes file text (Text.byteCount before) (Text.byteCount before + Text.byteCount part) =
      afterText file before (Text.byteCount part) := by
  have hpos := Text.byteCount_pos hne
  have hlength : max (Text.byteCount before + Text.byteCount part - Text.byteCount before) 1 =
      Text.byteCount part := by omega
  rw [List.append_assoc] at h
  rw [ofBytes_eq_afterText file _ h, hlength]

/-- On an earlier line, or further left on the same line. -/
def Before (s t : Span) : Prop := s.line < t.line ∨ s.line = t.line ∧ s.column < t.column

theorem Before.irrefl {s t : Span} (hline : s.line = t.line) (hcolumn : s.column = t.column) :
    ¬ s.Before t := by
  unfold Before
  omega

theorem Before.asymm {s t : Span} (h : s.Before t) : ¬ t.Before s := by
  unfold Before at h ⊢
  omega

/-- What stands between two places moves the later one down, or to the right when it has no break. -/
theorem before_of_append (file : String) (before : List Char) (m n : Nat) (hne : part ≠ []) :
    (afterText file before m).Before (afterText file (before ++ part) n) := by
  by_cases hbreak : '\n' ∈ part
  · left
    have hcount := List.count_pos_iff.mpr hbreak
    simp only [afterText, List.count_append]
    omega
  · right
    have hpos := Text.byteCount_pos hne
    have hcount := List.count_eq_zero.mpr hbreak
    simp only [afterText, List.count_append, Text.lastLine_append_of_not_mem before hbreak,
      Text.byteCount_append]
    omega

/-- The line of the span exists, and between its start and the byte there is no line feed. -/
structure Locates (s : Span) (text : String) (start : Nat) : Prop where
  counted : 0 < s.line ∧ 0 < s.column
  exists_line : s.line ≤ (Text.split '\n' text.toList).length
  offset : Text.lineStart text.toList s.line + (s.column - 1) = start
  same_line : ∃ above row after, text.toList = above ++ row ++ after ∧
    Text.byteCount above = Text.lineStart text.toList s.line ∧
    Text.byteCount (above ++ row) = start ∧ '\n' ∉ row

theorem locates_afterText (file : String) (length : Nat) (h : text.toList = before ++ after) :
    (afterText file before length).Locates text (Text.byteCount before) := by
  refine ⟨⟨Nat.succ_pos _, Nat.succ_pos _⟩, ?_, offsetIn_afterText file length h, ?_⟩
  · rw [Text.length_split, h, List.count_append]
    exact Nat.succ_le_succ (Nat.le_add_right _ _)
  · obtain ⟨above, habove⟩ : Text.lastLine before <:+ before := by
      refine ⟨_, Text.take_lastLine before⟩
    refine ⟨above, Text.lastLine before, after, ?_, ?_, ?_, Text.not_mem_lastLine before⟩
    · rw [habove, h]
    · have hstart := Text.lineStart_append before after
      have hsize := congrArg Text.byteCount habove
      rw [Text.byteCount_append] at hsize
      change _ = Text.lineStart text.toList (before.count '\n' + 1)
      rw [h]
      omega
    · rw [habove]

/-- A byte at which a character starts, or at which the text ends, has the characters before it. -/
theorem exists_before_of_isValid (h : String.Pos.Raw.IsValid text ⟨start⟩) :
    ∃ before after, text.toList = before ++ after ∧ Text.byteCount before = start := by
  obtain ⟨first, rest, rfl, hstart⟩ := String.Pos.Raw.isValid_iff_exists_append.mp h
  refine ⟨first.toList, rest.toList, String.toList_append, ?_⟩
  rw [Text.byteCount_toList]
  exact (congrArg String.Pos.Raw.byteIdx hstart).symm

theorem before_of_lt (h : String.Pos.Raw.IsValid text ⟨start⟩)
    (h' : String.Pos.Raw.IsValid text ⟨start'⟩) (hlt : start < start') :
    (ofBytes file text start stop).Before (ofBytes file text start' stop') := by
  obtain ⟨before, after, htext, rfl⟩ := exists_before_of_isValid h
  obtain ⟨before', after', htext', rfl⟩ := exists_before_of_isValid h'
  rcases List.append_eq_append_iff.mp (htext.symm.trans htext') with
    ⟨part, rfl, -⟩ | ⟨part, rfl, -⟩
  · have hne : part ≠ [] := by
      rintro rfl
      rw [List.append_nil] at hlt
      exact Nat.lt_irrefl _ hlt
    rw [ofBytes_eq_afterText file stop htext, ofBytes_eq_afterText file stop' htext']
    exact before_of_append file before _ _ hne
  · rw [Text.byteCount_append] at hlt
    omega

theorem before_iff (h : String.Pos.Raw.IsValid text ⟨start⟩)
    (h' : String.Pos.Raw.IsValid text ⟨start'⟩) :
    (ofBytes file text start stop).Before (ofBytes file text start' stop') ↔ start < start' := by
  refine ⟨fun hbefore => ?_, before_of_lt h h'⟩
  rcases Nat.lt_trichotomy start start' with hlt | rfl | hgt
  · exact hlt
  · exact absurd hbefore (Before.irrefl rfl rfl)
  · exact absurd (before_of_lt h' h hgt) hbefore.asymm

/-- The bytes of a text and their places are ordered alike: line and column lead back to the byte, and
a byte is before another one exactly when its place is. Behind the end every byte has the place of
the end, and a span is as long as its range, but never empty. -/
theorem ofBytes_place (file text : String) :
    (∀ start stop, String.Pos.Raw.IsValid text ⟨start⟩ →
      (ofBytes file text start stop).Locates text start) ∧
    (∀ start stop start' stop', String.Pos.Raw.IsValid text ⟨start⟩ →
      String.Pos.Raw.IsValid text ⟨start'⟩ →
        (start < start' ↔
          (ofBytes file text start stop).Before (ofBytes file text start' stop'))) ∧
    (∀ start stop, text.utf8ByteSize < start →
      (ofBytes file text start stop).line = (ofBytes file text text.utf8ByteSize stop).line ∧
        (ofBytes file text start stop).column =
          (ofBytes file text text.utf8ByteSize stop).column) ∧
    ∀ start stop, (ofBytes file text start stop).length = max (stop - start) 1 := by
  refine ⟨fun start stop h => ?_, fun start stop start' stop' h h' => (before_iff h h').symm,
    fun start stop hend => ?_, fun start stop => rfl⟩
  · obtain ⟨before, after, htext, rfl⟩ := exists_before_of_isValid h
    rw [ofBytes_eq_afterText file stop htext]
    exact locates_afterText file _ htext
  · have hstart : min start (Text.byteCount text.toList) =
        min text.utf8ByteSize (Text.byteCount text.toList) := by
      rw [Text.byteCount_toList]
      omega
    unfold ofBytes
    simp only [hstart]
    exact ⟨rfl, rfl⟩

/-- The second line is empty, and the third one starts right behind it. -/
theorem ofBytes_place_empty_line :
    let text := "é\n\nx"
    String.Pos.Raw.IsValid text ⟨3⟩ ∧ String.Pos.Raw.IsValid text ⟨4⟩ ∧ text.utf8ByteSize < 9 ∧
      ofBytes "a.lua" text 3 4 = ⟨"a.lua", 2, 1, 1⟩ ∧ (ofBytes "a.lua" text 3 4).Locates text 3 ∧
      (ofBytes "a.lua" text 3 4).Before (ofBytes "a.lua" text 4 6) ∧
      (ofBytes "a.lua" text 9 6).line = (ofBytes "a.lua" text text.utf8ByteSize 6).line := by
  intro text
  have hempty : String.Pos.Raw.IsValid text ⟨3⟩ :=
    String.Pos.Raw.isValid_iff_exists_append.mpr ⟨"é\n", "\nx", rfl, rfl⟩
  have hlast : String.Pos.Raw.IsValid text ⟨4⟩ :=
    String.Pos.Raw.isValid_iff_exists_append.mpr ⟨"é\n\n", "x", rfl, rfl⟩
  have hend : text.utf8ByteSize < 9 := by decide
  obtain ⟨hlocates, horder, hbehind, -⟩ := ofBytes_place "a.lua" text
  exact ⟨hempty, hlast, hend, by decide, hlocates 3 4 hempty,
    (horder 3 4 4 6 hempty hlast).mp (by decide), (hbehind 9 6 hend).1⟩

end ModBuild.Span
