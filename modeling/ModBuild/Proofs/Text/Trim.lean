import ModBuild.Proofs.Text.Lines

/-!
# Texts without blanks at their ends

Trimming leaves a text that neither starts nor ends with a blank, and it leaves such a text alone.
Trimmed texts stay trimmed when they are joined by a separator, because the ends of the whole are ends
of its first and last parts. A trimmed text ends with the last line that is not blank
(`trimEnd_lastFullLine?`).
-/

namespace ModBuild.Text

set_option autoImplicit false

variable {cs : List Char}

/-- The text neither starts nor ends with a blank. -/
structure Trimmed (cs : List Char) : Prop where
  start : ∀ c ∈ cs.head?, isBlank c = false
  ending : ∀ c ∈ cs.getLast?, isBlank c = false

theorem trimmed_nil : Trimmed [] := ⟨by simp, by simp⟩

theorem trim_prefix_trimStart (cs : List Char) : trim cs <+: trimStart cs :=
  List.rdropWhile_prefix isBlank _

theorem trim_subset (cs : List Char) : trim cs ⊆ cs :=
  fun _ hc => (List.dropWhile_suffix isBlank).subset ((trim_prefix_trimStart cs).subset hc)

theorem trimmed_trim (cs : List Char) : Trimmed (trim cs) := by
  constructor
  · intro c hc
    obtain ⟨rest, hrest⟩ := trim_prefix_trimStart cs
    have hstart : (cs.dropWhile isBlank).head? = some c := by
      rw [← trimStart, ← hrest, List.head?_append, Option.mem_def.mp hc]
      rfl
    have hnot := List.head?_dropWhile_not isBlank cs
    rw [hstart] at hnot
    exact hnot
  · intro c hc
    exact getLast?_dropEndWhile hc

theorem Trimmed.trim_eq (h : Trimmed cs) : trim cs = cs := by
  have hstart : trimStart cs = cs := by
    cases cs with
    | nil => rfl
    | cons c cs =>
      have hc : isBlank c = false := h.start c rfl
      rw [trimStart, List.dropWhile_cons_of_neg (by simp [hc])]
  rw [trim, hstart]
  cases cs using List.reverseRecOn with
  | nil => rfl
  | append_singleton cs c _ =>
    have hc : isBlank c = false := h.ending c (by simp)
    exact List.rdropWhile_concat_neg isBlank cs c (by simp [hc])

/-- Blanks alone. -/
def Blank (cs : List Char) : Prop := ∀ c ∈ cs, isBlank c = true

instance (cs : List Char) : Decidable (Blank cs) := List.decidableBAll _ cs

section
variable {a b : List Char}

theorem blank_nil : Blank [] := by simp [Blank]

theorem Blank.append (ha : Blank a) (hb : Blank b) : Blank (a ++ b) := by
  intro c hc
  exact (List.mem_append.mp hc).elim (ha c) (hb c)

theorem blank_takeWhile (cs : List Char) : Blank (cs.takeWhile isBlank) :=
  fun _ hc => List.mem_takeWhile_imp hc

theorem trimStart_eq_nil_iff : trimStart cs = [] ↔ Blank cs := List.dropWhile_eq_nil_iff

theorem trimStart_blank_append (ha : Blank a) (b : List Char) : trimStart (a ++ b) = trimStart b :=
  List.dropWhile_append_of_pos ha

theorem trimStart_append (ha : ¬ Blank a) (b : List Char) :
    trimStart (a ++ b) = trimStart a ++ b := by
  have hne : trimStart a ≠ [] := fun h => ha (trimStart_eq_nil_iff.mp h)
  have hempty : (a.dropWhile isBlank).isEmpty = false := List.isEmpty_eq_false_iff.mpr hne
  rw [trimStart, List.dropWhile_append, hempty]
  rfl

theorem dropEndWhile_append_of_pos {p : Char → Bool} (hb : ∀ c ∈ b, p c = true) (a : List Char) :
    dropEndWhile p (a ++ b) = dropEndWhile p a := by
  have hrev : ∀ c ∈ b.reverse, p c = true := fun c hc => hb c (List.mem_reverse.mp hc)
  rw [dropEndWhile, List.reverse_append, List.dropWhile_append_of_pos hrev, dropEndWhile]

theorem dropEndWhile_append_of_getLast? {p : Char → Bool} (ha : ∀ c ∈ a.getLast?, p c = false)
    (b : List Char) : dropEndWhile p (a ++ b) = a ++ dropEndWhile p b := by
  have hself : a.rdropWhile p = a :=
    List.rdropWhile_eq_self_iff.mpr fun hne => by simp [ha _ (List.getLast?_eq_some_getLast hne)]
  change (a ++ b).rdropWhile p = a ++ b.rdropWhile p
  induction b using List.reverseRecOn with
  | nil => rw [List.append_nil, hself, List.rdropWhile_nil, List.append_nil]
  | append_singleton b c ih =>
    rw [← List.append_assoc]
    by_cases hc : p c = true
    · rw [List.rdropWhile_concat_pos _ _ _ hc, List.rdropWhile_concat_pos _ _ _ hc, ih]
    · rw [List.rdropWhile_concat_neg _ _ _ hc, List.rdropWhile_concat_neg _ _ _ hc,
        List.append_assoc]

theorem trimEnd_eq_nil_iff : trimEnd cs = [] ↔ Blank cs := List.rdropWhile_eq_nil_iff

theorem exists_trimEnd_append (cs : List Char) : ∃ blanks, Blank blanks ∧ trimEnd cs ++ blanks = cs :=
  ⟨cs.rtakeWhile isBlank, fun _ hc => List.mem_rtakeWhile_imp hc, dropEndWhile_append isBlank cs⟩

theorem blank_of_trimEnd (h : Blank (trimEnd cs)) : Blank cs := by
  obtain ⟨blanks, hblanks, hcs⟩ := exists_trimEnd_append cs
  rw [← hcs]
  exact h.append hblanks

theorem trim_blank_append (ha : Blank a) (b : List Char) : trim (a ++ b) = trim b := by
  rw [trim, trimStart_blank_append ha, trim]

theorem trim_append_blank (hb : Blank b) (a : List Char) : trim (a ++ b) = trim a := by
  by_cases ha : Blank a
  · rw [trim, trim, trimStart_eq_nil_iff.mpr (ha.append hb), trimStart_eq_nil_iff.mpr ha]
  · rw [trim, trimStart_append ha, trimEnd, dropEndWhile_append_of_pos hb]
    rfl

theorem takeWhile_dropWhile_blank (ha : Blank a) {c : Char} (hc : isBlank c = false) (r : List Char) :
    (a ++ c :: r).takeWhile isBlank = a ∧ (a ++ c :: r).dropWhile isBlank = c :: r := by
  have hneg : ¬ isBlank c = true := by simp [hc]
  constructor
  · rw [List.takeWhile_append_of_pos ha, List.takeWhile_cons_of_neg hneg, List.append_nil]
  · rw [List.dropWhile_append_of_pos ha, List.dropWhile_cons_of_neg hneg]

end

/-- `core` is the text without the blanks at its ends. -/
structure Strips (cs core : List Char) : Prop where
  trimmed : Trimmed core
  around : ∃ a b, Blank a ∧ Blank b ∧ cs = a ++ core ++ b

theorem strips_iff {core : List Char} : Strips cs core ↔ trim cs = core := by
  constructor
  · rintro ⟨htrimmed, a, b, ha, hb, rfl⟩
    rw [trim_append_blank hb, trim_blank_append ha, htrimmed.trim_eq]
  · rintro rfl
    obtain ⟨b, hb, hend⟩ := exists_trimEnd_append (trimStart cs)
    refine ⟨trimmed_trim cs, cs.takeWhile isBlank, b, blank_takeWhile cs, hb, ?_⟩
    calc cs
      _ = cs.takeWhile isBlank ++ trimStart cs := List.takeWhile_append_dropWhile.symm
      _ = cs.takeWhile isBlank ++ (trim cs ++ b) := by rw [← hend, trim]
      _ = cs.takeWhile isBlank ++ trim cs ++ b := (List.append_assoc _ _ _).symm

/-- `kept` is a text without its longest ending of characters that satisfy `p`. -/
structure CutEnd (p : Char → Bool) (cs kept : List Char) : Prop where
  rest : ∃ ending, cs = kept ++ ending ∧ ∀ c ∈ ending, p c = true
  last : ∀ c ∈ kept.getLast?, p c = false

theorem cutEnd_dropEndWhile (p : Char → Bool) (cs : List Char) : CutEnd p cs (dropEndWhile p cs) := by
  refine ⟨⟨cs.rtakeWhile p, ?_, fun c hc => List.mem_rtakeWhile_imp hc⟩, fun c hc => ?_⟩
  · exact (dropEndWhile_append p cs).symm
  · exact getLast?_dropEndWhile hc

section
variable {line : List Char}

/-- The last line that is not blank, as it is written. -/
def lastFullLine? (cs : List Char) : Option (List Char) :=
  (lines cs).reverse.find? fun line => !line.all isBlank

theorem lastFullLine?_eq_some_iff :
    lastFullLine? cs = some line ↔
      ¬Blank line ∧ ∃ above below, lines cs = above ++ line :: below ∧ ∀ l ∈ below, Blank l := by
  have hfull : ∀ l : List Char, (!l.all isBlank) = true ↔ ¬Blank l := by simp [Blank]
  rw [lastFullLine?, List.find?_eq_some_iff_append, hfull]
  refine and_congr_right fun _ => ?_
  constructor
  · rintro ⟨below, above, hlines, hbelow⟩
    refine ⟨above.reverse, below.reverse, by simpa using congrArg List.reverse hlines, ?_⟩
    intro l hl
    simpa [Blank] using hbelow l (List.mem_reverse.mp hl)
  · rintro ⟨above, below, hlines, hbelow⟩
    refine ⟨below.reverse, above.reverse, by simp [hlines], ?_⟩
    intro l hl
    simpa [Blank] using hbelow l (List.mem_reverse.mp hl)

theorem lastFullLine?_of_getLast? (h : (lines cs).getLast? = some line) (hline : ¬Blank line) :
    lastFullLine? cs = some line := by
  obtain ⟨above, habove⟩ := List.getLast?_eq_some_iff.mp h
  exact lastFullLine?_eq_some_iff.mpr ⟨hline, above, [], habove, List.forall_mem_nil _⟩

theorem lastLine_trimEnd (h : ¬Blank cs) :
    ∃ c, (lastLine (trimEnd cs)).getLast? = some c ∧ isBlank c = false := by
  have hne : trimEnd cs ≠ [] := mt trimEnd_eq_nil_iff.mp h
  have hlast := List.getLast?_eq_some_getLast hne
  have hkept : isBlank ((trimEnd cs).getLast hne) = false := getLast?_dropEndWhile hlast
  refine ⟨_, ?_, hkept⟩
  rw [getLast?_lastLine, hlast]
  rw [hlast]
  intro hbreak
  rw [Option.some.inj hbreak] at hkept
  exact absurd hkept (by decide)

/-- The last full line is the last line of the trimmed text and the blanks that were trimmed from
it. -/
theorem exists_lastFullLine? (h : ¬Blank cs) :
    ∃ blanks, Blank blanks ∧ lastFullLine? cs = some (lastLine (trimEnd cs) ++ blanks) := by
  obtain ⟨c, hlast, hc⟩ := lastLine_trimEnd h
  obtain ⟨ending, hending, hcs⟩ := exists_trimEnd_append cs
  generalize trimEnd cs = body at hcs hlast ⊢
  subst hcs
  have hfull : ∀ r, ¬Blank (lastLine body ++ r) := by
    intro r hr
    have hblank := hr c (List.mem_append_left r (List.mem_of_getLast? hlast))
    rw [hc] at hblank
    cases hblank
  by_cases hbreak : '\n' ∈ ending
  · obtain ⟨r, rest, rfl, hr⟩ := List.eq_append_cons_of_mem hbreak
    have hreturn : (lastLine body).getLast? ≠ some '\r' := by
      rw [hlast]
      rintro ⟨⟩
      exact absurd hc (by decide)
    refine ⟨dropReturn r, fun c hc => hending c ?_, lastFullLine?_eq_some_iff.mpr
      ⟨hfull _, (split '\n' body).dropLast.map dropReturn, lines rest, ?_, ?_⟩⟩
    · exact List.mem_append_left _ ((Text.dropReturn_prefix r).subset hc)
    · rw [← List.append_assoc, lines_append_returns body rest hr, dropReturn_append hreturn]
    · intro l hl c hc
      exact hending c (by simp [subset_of_mem_lines hl hc])
  · refine ⟨ending, hending, lastFullLine?_eq_some_iff.mpr
      ⟨hfull _, (split '\n' body).dropLast.map dropReturn, [], ?_, List.forall_mem_nil _⟩⟩
    exact lines_append_of_not_mem body hbreak fun he => hfull ending (he ▸ blank_nil)

theorem trimEnd_lastFullLine? (h : lastFullLine? cs = some line) :
    trimEnd line = lastLine (trimEnd cs) := by
  obtain ⟨hline, above, below, hlines, -⟩ := lastFullLine?_eq_some_iff.mp h
  have hfull : ¬Blank cs := by
    intro hblank
    have hmem : line ∈ lines cs := by simp [hlines]
    exact hline fun c hc => hblank c (subset_of_mem_lines hmem hc)
  obtain ⟨blanks, hblanks, hlast⟩ := exists_lastFullLine? hfull
  rw [h] at hlast
  obtain rfl := Option.some.inj hlast
  obtain ⟨c, hc, hkept⟩ := lastLine_trimEnd hfull
  have hnone : dropEndWhile isBlank blanks = [] := trimEnd_eq_nil_iff.mpr hblanks
  rw [trimEnd, dropEndWhile_append_of_getLast? (by simp [hc, hkept]), hnone, List.append_nil]

end

theorem Trimmed.append {a b : List Char} (ha : Trimmed a) (hb : Trimmed b) (hane : a ≠ [])
    (hbne : b ≠ []) (sep : List Char) : Trimmed (a ++ sep ++ b) := by
  constructor
  · rw [List.append_assoc, List.head?_append_of_ne_nil a hane]
    exact ha.start
  · rw [List.getLast?_append_of_ne_nil _ hbne]
    exact hb.ending

theorem trimmed_joinWith {parts : List (List Char)} (h : ∀ part ∈ parts, Trimmed part ∧ part ≠ [])
    (sep : List Char) : Trimmed (joinWith sep parts) ∧ (parts ≠ [] → joinWith sep parts ≠ []) := by
  induction parts with
  | nil => exact ⟨trimmed_nil, fun hne => absurd rfl hne⟩
  | cons part parts ih =>
    obtain ⟨hpart, hne⟩ := h part List.mem_cons_self
    obtain ⟨hrest, hrestne⟩ := ih fun q hq => h q (List.mem_cons_of_mem part hq)
    cases parts with
    | nil => exact ⟨hpart, fun _ => hne⟩
    | cons next parts =>
      rw [joinWith_cons_cons]
      refine ⟨hpart.append hrest hne (hrestne (List.cons_ne_nil next parts)) sep, fun _ => ?_⟩
      rw [List.append_assoc]
      exact List.append_ne_nil_of_left_ne_nil hne _

end ModBuild.Text
