import ModBuild.Proofs.Declarations.Naming

/-!
# Modules that the exported file declares

Scope folders are dropped from the names of modules where these are declared and where they are
used, line by line. A file that declares every module it uses still does so afterwards, except for
the names that the renaming does not reach (`LeftBehind`).
-/

namespace ModBuild.Declarations

set_option autoImplicit false

/-- The ways to mention a module. -/
inductive Mention
  | declaration
  | source
  | type
  deriving DecidableEq, Repr

namespace Mention

def opening : Mention → String
  | declaration => "declare module \""
  | source => "from \""
  | type => "import(\""

def closing : Mention → String
  | type => "\")"
  | _ => "\""

/-- The opening without its quote. -/
def word (m : Mention) : List Char := m.opening.toList.dropLast

/-- What follows the closing quote. -/
def rest (m : Mention) : List Char := m.closing.toList.tail

end Mention

/-- The text mentions the module `r`; a name ends at the next quote and does not leave its line. -/
structure Names (m : Mention) (r text : List Char) : Prop where
  no_quote : '"' ∉ r
  no_break : '\n' ∉ r
  stands : m.opening.toList ++ r ++ m.closing.toList <:+: text

def Declares (r text : List Char) : Prop := Names .declaration r text

def Uses (r text : List Char) : Prop := Names .source r text ∨ Names .type r text

/-- The texts together declare every module that they use. -/
def Closed (texts : List (List Char)) : Prop :=
  ∀ r, (∃ text ∈ texts, Uses r text) → ∃ text ∈ texts, Declares r text

/-- What the compiler declares and what is written by hand. -/
def sources (generated : String) (handwritten : List (String × String)) : List (List Char) :=
  generated.toList :: handwritten.map fun file => file.2.toList

def sourceLines (generated : String) (handwritten : List (String × String)) : List (List Char) :=
  (sources generated handwritten).flatMap Text.lines

/-- Names of the exported file that are not renamed with the modules they mean. -/
inductive LeftBehind (generated : String) (handwritten : List (String × String)) (r : List Char) :
    Prop
  /-- Folders are not dropped from the modules of types. -/
  | type {line t : List Char} : line ∈ sourceLines generated handwritten → Names .type r line →
      Scope.Contains r t → LeftBehind generated handwritten r
  /-- On a line only one source loses its folder. -/
  | source {line t : List Char} : line ∈ sourceLines generated handwritten → Names .source r line →
      Scope.Contains r t → Doubled "from \"" line → LeftBehind generated handwritten r
  /-- On a line only one declaration loses its folder. -/
  | declaration {line r' : List Char} : line ∈ sourceLines generated handwritten →
      Names .declaration r' line → Scope.Contains r' r → Doubled "declare module \"" line →
      LeftBehind generated handwritten r
  /-- The quote that ends the module of a type is the one of an opening. -/
  | opens {line : List Char} {opening : String} : line ∈ sourceLines generated handwritten →
      Names .type r (dropScopes line) → opening ∈ openings → opening.toList <:+ r ++ ['"'] →
      LeftBehind generated handwritten r
  /-- The path of a file mentions the name. -/
  | banner {file : String × String} : file ∈ handwritten →
      Uses r (dropScopes (banner file.1).toList) → LeftBehind generated handwritten r

/-- The name that a mention at the start of the text has. -/
def nameAtStart? (m : Mention) (text : List Char) : Option (List Char) :=
  let r := (text.drop m.opening.toList.length).takeWhile fun c => c ≠ '"' && c ≠ '\n'
  if (m.opening.toList ++ r ++ m.closing.toList).isPrefixOf text then some r else none

def names (m : Mention) (text : List Char) : List (List Char) :=
  text.tails.filterMap (nameAtStart? m)

section
variable {m : Mention} {r text line : List Char}

theorem Mention.toList_opening (m : Mention) : m.opening.toList = m.word ++ ['"'] := by
  cases m <;> decide

theorem Mention.toList_closing (m : Mention) : m.closing.toList = '"' :: m.rest := by
  cases m <;> decide

theorem Mention.not_mem_word (m : Mention) : '"' ∉ m.word ∧ '/' ∉ m.word := by
  cases m <;> decide

theorem Mention.quote_not_mem_rest (m : Mention) : '"' ∉ m.rest := by
  cases m <;> decide

theorem nameAtStart?_eq_some_iff : nameAtStart? m text = some r ↔
    '"' ∉ r ∧ '\n' ∉ r ∧ m.opening.toList ++ r ++ m.closing.toList <+: text := by
  unfold nameAtStart?
  dsimp only
  constructor
  · intro h
    split at h
    · next hprefix =>
      cases h
      refine ⟨fun hq => ?_, fun hn => ?_, List.isPrefixOf_iff_prefix.mp hprefix⟩
      · simpa using List.mem_takeWhile_imp hq
      · simpa using List.mem_takeWhile_imp hn
    · cases h
  · rintro ⟨hq, hn, after, rfl⟩
    have hr : ((m.opening.toList ++ r ++ m.closing.toList ++ after).drop
        m.opening.toList.length).takeWhile (fun c => c ≠ '"' && c ≠ '\n') = r := by
      rw [List.append_assoc, List.append_assoc, List.drop_left, List.takeWhile_append_of_pos,
        m.toList_closing]
      · simp
      · exact fun c hc => by simp [ne_of_mem_of_not_mem hc hq, ne_of_mem_of_not_mem hc hn]
    rw [hr, if_pos (List.isPrefixOf_iff_prefix.mpr (List.prefix_append _ after))]

theorem mem_names_iff : r ∈ names m text ↔ Names m r text := by
  simp only [names, List.mem_filterMap, List.mem_tails, nameAtStart?_eq_some_iff]
  constructor
  · rintro ⟨rest, hrest, hq, hn, h⟩
    exact ⟨hq, hn, h.isInfix.trans hrest.isInfix⟩
  · rintro ⟨hq, hn, h⟩
    obtain ⟨rest, hprefix, hrest⟩ := List.infix_iff_prefix_suffix.mp h
    exact ⟨rest, hrest, hq, hn, hprefix⟩

instance : Decidable (Names m r text) :=
  decidable_of_iff ((names m text).any fun name => name = r) (by simp [mem_names_iff])

instance : Decidable (Declares r text) := inferInstanceAs (Decidable (Names _ _ _))

instance : Decidable (Uses r text) := inferInstanceAs (Decidable (_ ∨ _))

instance (texts : List (List Char)) : Decidable (Closed texts) :=
  decidable_of_iff
    ((texts.flatMap fun text => names .source text ++ names .type text).all fun r =>
      (texts.flatMap (names .declaration)).any fun name => name = r)
    (by
      simp only [List.all_eq_true, List.any_eq_true, decide_eq_true_eq, exists_eq_right]
      simp [Closed, Uses, Declares, mem_names_iff])

theorem Names.iff_stands :
    Names m r text ↔ '"' ∉ r ∧ '\n' ∉ r ∧ Stands m.word m.rest r text := by
  have hwritten :
      m.opening.toList ++ r ++ m.closing.toList = m.word ++ '"' :: r ++ '"' :: m.rest := by
    rw [m.toList_opening, m.toList_closing]
    simp
  rw [Stands, ← hwritten]
  exact ⟨fun ⟨hq, hn, h⟩ => ⟨hq, hn, h⟩, fun ⟨hq, hn, h⟩ => ⟨hq, hn, h⟩⟩

theorem Mention.on_line (m : Mention) (hr : '\n' ∉ r) :
    '\n' ∉ m.opening.toList ++ r ++ m.closing.toList ∧
      m.opening.toList ++ r ++ m.closing.toList ≠ [] ∧
      (m.opening.toList ++ r ++ m.closing.toList).getLast? ≠ some '\r' := by
  have hopening : '\n' ∉ m.opening.toList := by cases m <;> decide
  have hclosing : '\n' ∉ m.closing.toList := by cases m <;> decide
  have hne : m.closing.toList ≠ [] := by cases m <;> decide
  refine ⟨by simp [hopening, hr, hclosing], List.append_ne_nil_of_right_ne_nil _ hne, ?_⟩
  rw [List.getLast?_append_of_ne_nil _ hne]
  cases m <;> decide

theorem Names.lines_iff : Names m r text ↔ ∃ line ∈ Text.lines text, Names m r line := by
  constructor
  · rintro ⟨hq, hr, h⟩
    obtain ⟨hno, hne, hlast⟩ := m.on_line hr
    obtain ⟨line, hline, h⟩ := (Text.infix_lines_iff hno hne hlast).mp h
    exact ⟨line, hline, hq, hr, h⟩
  · rintro ⟨line, hline, hq, hr, h⟩
    obtain ⟨hno, hne, hlast⟩ := m.on_line hr
    exact ⟨hq, hr, (Text.infix_lines_iff hno hne hlast).mpr ⟨line, hline, h⟩⟩

theorem Names.written_iff {ls : List (List Char)} :
    Names m r (ls.flatMap fun line => line ++ ['\r', '\n']) ↔ ∃ line ∈ ls, Names m r line := by
  constructor
  · rintro ⟨hq, hr, h⟩
    obtain ⟨hno, hne, hlast⟩ := m.on_line hr
    obtain ⟨line, hline, h⟩ := (Text.infix_written_iff hno hne hlast).mp h
    exact ⟨line, hline, hq, hr, h⟩
  · rintro ⟨line, hline, hq, hr, h⟩
    obtain ⟨hno, hne, hlast⟩ := m.on_line hr
    exact ⟨hq, hr, (Text.infix_written_iff hno hne hlast).mpr ⟨line, hline, h⟩⟩

theorem Names.quote_mem (h : Names m r text) : '"' ∈ text := by
  refine h.stands.subset ?_
  rw [m.toList_opening]
  simp

end

section
variable {r line : List Char}

theorem wordsApart {m m' : Mention} (h : m ≠ m') : WordsApart m.word m'.word := by
  cases m <;> cases m' <;> first | exact absurd rfl h | decide

/-- A declared module loses its folder, or it stays and its folder is not the only one on the
line. -/
theorem Names.declaration_drop_cases (h : Names .declaration r line) :
    (∃ t, Scope.Contains r t ∧ Names .declaration t (dropScopes line)) ∨
    (Names .declaration r (dropScopes line) ∧
      ∀ t, Scope.Contains r t → Doubled "declare module \"" line) := by
  obtain ⟨hq, hn, hstands⟩ := Names.iff_stands.mp h
  have hsource := Mention.not_mem_word .source
  have hdeclaration := Mention.not_mem_word .declaration
  have hkeep : ∀ {t : List Char}, '"' ∉ t →
      Stands (Mention.word .declaration) [] t (dropScopeAfter "declare module \"" line) →
      Stands (Mention.word .declaration) [] t (dropScopes line) := fun ht hs =>
    (stands_dropScopeAfter_iff (Mention.toList_opening .source) hsource.1 hdeclaration.1
      hdeclaration.2 (wordsApart (by decide)) ht).mpr hs
  have hcases := hstands.drop_cases (Mention.toList_opening .declaration) hdeclaration.1
    hdeclaration.2 hq
  rcases hcases with ⟨t, hcontains, hs⟩ | ⟨hs, hdoubled⟩
  · have hqt : '"' ∉ t := mt hcontains.quote_mem_iff.mpr hq
    have hnt : '\n' ∉ t := mt hcontains.break_mem_iff.mpr hn
    exact Or.inl ⟨t, hcontains, Names.iff_stands.mpr ⟨hqt, hnt, hkeep hqt hs⟩⟩
  · exact Or.inr ⟨Names.iff_stands.mpr ⟨hq, hn, hkeep hq hs⟩, hdoubled⟩

/-- A source had its folder before, or it stood there and its folder is not the only one on the
line. -/
theorem Names.source_cases_of_drop (h : Names .source r (dropScopes line)) :
    (∃ r', Scope.Contains r' r ∧ Names .source r' line) ∨
    (Names .source r line ∧ ∀ t, Scope.Contains r t → Doubled "from \"" line) := by
  obtain ⟨hq, hn, hstands⟩ := Names.iff_stands.mp h
  have hsource := Mention.not_mem_word .source
  have hdeclaration := Mention.not_mem_word .declaration
  have hbefore : ∀ {t : List Char}, '"' ∉ t →
      Stands (Mention.word .source) [] t (dropScopeAfter "declare module \"" line) →
      Stands (Mention.word .source) [] t line := fun ht =>
    (stands_dropScopeAfter_iff (Mention.toList_opening .declaration) hdeclaration.1 hsource.1
      hsource.2 (wordsApart (by decide)) ht).mp
  rcases hstands.cases_of_drop (Mention.toList_opening .source) hsource.1 hsource.2 hq with
    ⟨r', hcontains, hs⟩ | ⟨hs, htwice⟩
  · have hqr : '"' ∉ r' := mt hcontains.quote_mem_iff.mp hq
    have hnr : '\n' ∉ r' := mt hcontains.break_mem_iff.mp hn
    exact Or.inl ⟨r', hcontains, Names.iff_stands.mpr ⟨hqr, hnr, hbefore hqr hs⟩⟩
  · refine Or.inr ⟨Names.iff_stands.mpr ⟨hq, hn, hbefore hq hs⟩, fun t ht => ?_⟩
    exact doubled_of_twice (Mention.toList_opening .source) hsource.2
      ((htwice t ht).of_drop (Mention.toList_opening .declaration) hdeclaration.1 hsource.2
        (wordsApart (by decide)))

/-- The module of a type is named as before, unless its closing quote is the one of an opening. -/
theorem Names.type_of_drop (h : Names .type r (dropScopes line)) :
    Names .type r line ∨ ∃ opening ∈ openings, opening.toList <:+ r ++ ['"'] := by
  obtain ⟨hq, hn, hstands⟩ := Names.iff_stands.mp h
  have htype := Mention.not_mem_word .type
  have hrest := Mention.quote_not_mem_rest .type
  have hopens : ∀ {m : Mention}, m.word <:+ r → m.opening.toList <:+ r ++ ['"'] := by
    rintro m ⟨before, rfl⟩
    exact ⟨before, by rw [m.toList_opening, List.append_assoc]⟩
  rcases hstands.of_drop_of_apart (Mention.toList_opening .source) (Mention.not_mem_word .source).1
    htype.1 htype.2 (wordsApart (by decide)) hrest hq with hs | hword
  · rcases hs.of_drop_of_apart (Mention.toList_opening .declaration)
      (Mention.not_mem_word .declaration).1 htype.1 htype.2 (wordsApart (by decide)) hrest hq with
      hs | hword
    · exact Or.inl (Names.iff_stands.mpr ⟨hq, hn, hs⟩)
    · exact Or.inr ⟨_, List.mem_cons_self, hopens hword⟩
  · exact Or.inr ⟨_, List.mem_cons_of_mem _ List.mem_cons_self, hopens hword⟩

end

section
variable {generated : String} {handwritten : List (String × String)} {out : String}
variable {m : Mention} {r line : List Char}

/-- The text of the exported file. -/
def fileText (generated : String) (handwritten : List (String × String)) : List Char :=
  ((fileLines (keptLines generated) handwritten).map dropScopes).flatMap fun line =>
    line ++ ['\r', '\n']

theorem toList_out (hout : aggregate? generated handwritten = some out) :
    out.toList = fileText generated handwritten := by
  unfold aggregate? at hout
  dsimp only at hout
  split at hout
  · cases hout
  · rw [Option.some.injEq] at hout
    rw [← hout, String.toList_ofList, fileText, List.flatMap_map]

theorem names_out_iff (hout : aggregate? generated handwritten = some out) :
    Names m r out.toList ↔
      ∃ line ∈ fileLines (keptLines generated) handwritten, Names m r (dropScopes line) := by
  rw [toList_out hout, fileText, Names.written_iff]
  simp

theorem mem_sourceLines_or_banner (h : line ∈ fileLines (keptLines generated) handwritten)
    (hquote : '"' ∈ dropScopes line) :
    line ∈ sourceLines generated handwritten ∨
      ∃ file ∈ handwritten, line = (banner file.1).toList := by
  have hheader : line ≠ fileHeader.toList ∧ line ≠ [] := by
    constructor <;> rintro rfl <;> exact absurd hquote (by decide +kernel)
  simp only [fileLines, keptLines, List.cons_append, List.mem_cons, List.mem_append,
    List.mem_filter, List.mem_flatMap, hheader.1, hheader.2, false_or] at h
  rcases h with h | ⟨file, hfile, hbanner | hline⟩
  · exact Or.inl (List.mem_append_left _ h.1)
  · exact Or.inr ⟨file, hfile, hbanner⟩
  · exact Or.inl (List.mem_flatMap.mpr
      ⟨file.2.toList, List.mem_cons_of_mem _ (List.mem_map.mpr ⟨file, hfile, rfl⟩), hline⟩)

theorem mem_fileLines (hmodules : ∀ line ∈ Text.lines generated.toList, isEmptyModule line = false)
    (h : line ∈ sourceLines generated handwritten) (hne : line ≠ []) :
    line ∈ fileLines (keptLines generated) handwritten := by
  obtain ⟨text, htext, hline⟩ := List.mem_flatMap.mp h
  rcases List.mem_cons.mp htext with rfl | hfile
  · have hkept : line ∈ keptLines generated :=
      List.mem_filter.mpr ⟨hline, by simp [hne, hmodules line hline]⟩
    simp [fileLines, hkept]
  · obtain ⟨file, hmem, rfl⟩ := List.mem_map.mp hfile
    simp only [fileLines, List.cons_append, List.mem_cons, List.mem_append]
    exact Or.inr (Or.inr (Or.inr (Or.inr
      (List.mem_flatMap.mpr ⟨file, hmem, List.mem_cons_of_mem _ hline⟩))))

theorem names_sources_iff :
    (∃ text ∈ sources generated handwritten, Names m r text) ↔
      ∃ line ∈ sourceLines generated handwritten, Names m r line := by
  constructor
  · rintro ⟨text, htext, h⟩
    obtain ⟨line, hline, h⟩ := Names.lines_iff.mp h
    exact ⟨line, List.mem_flatMap.mpr ⟨text, htext, hline⟩, h⟩
  · rintro ⟨line, hline, h⟩
    obtain ⟨text, htext, hline⟩ := List.mem_flatMap.mp hline
    exact ⟨text, htext, Names.lines_iff.mpr ⟨line, hline, h⟩⟩

variable (hmodules : ∀ line ∈ Text.lines generated.toList, isEmptyModule line = false)
variable (hclosed : Closed (sources generated handwritten))
variable (hout : aggregate? generated handwritten = some out)
include hmodules hclosed hout

/-- The module of a use is declared by the file without its folder, or its declaration is left
behind. -/
theorem declares_cases (hline : line ∈ sourceLines generated handwritten) (huse : Uses r line) :
    (∃ t, Scope.Contains r t ∧ Declares t out.toList) ∨
    (Declares r out.toList ∧ ∀ t, Scope.Contains r t → LeftBehind generated handwritten t) := by
  obtain ⟨line', hline', hdeclared⟩ : ∃ line' ∈ sourceLines generated handwritten,
      Names .declaration r line' := by
    refine names_sources_iff.mp (hclosed r ?_)
    rcases huse with h | h
    · obtain ⟨text, htext, h⟩ := names_sources_iff.mpr ⟨line, hline, h⟩
      exact ⟨text, htext, Or.inl h⟩
    · obtain ⟨text, htext, h⟩ := names_sources_iff.mpr ⟨line, hline, h⟩
      exact ⟨text, htext, Or.inr h⟩
  have hfile := mem_fileLines hmodules hline' (List.ne_nil_of_mem hdeclared.quote_mem)
  rcases hdeclared.declaration_drop_cases with ⟨t, hcontains, h⟩ | ⟨h, hdoubled⟩
  · exact Or.inl ⟨t, hcontains, (names_out_iff hout).mpr ⟨line', hfile, h⟩⟩
  · exact Or.inr ⟨(names_out_iff hout).mpr ⟨line', hfile, h⟩,
      fun t ht => .declaration hline' hdeclared ht (hdoubled t ht)⟩

theorem declares_of_not_contains (hline : line ∈ sourceLines generated handwritten)
    (huse : Uses r line) (hplain : ∀ t, ¬ Scope.Contains r t) : Declares r out.toList := by
  rcases declares_cases hmodules hclosed hout hline huse with ⟨t, hcontains, -⟩ | ⟨h, -⟩
  · exact absurd hcontains (hplain t)
  · exact h

theorem declares_or_leftBehind_of_source (hline : line ∈ sourceLines generated handwritten)
    (h : Names .source r (dropScopes line)) :
    Declares r out.toList ∨ LeftBehind generated handwritten r := by
  rcases h.source_cases_of_drop with ⟨r', hcontains, h⟩ | ⟨h, hdoubled⟩
  · rcases declares_cases hmodules hclosed hout hline (Or.inl h) with ⟨t, ht, h⟩ | ⟨-, hleft⟩
    · exact Or.inl (ht.unique hcontains ▸ h)
    · exact Or.inr (hleft r hcontains)
  · by_cases hfolder : ∃ t, Scope.Contains r t
    · obtain ⟨t, ht⟩ := hfolder
      exact Or.inr (.source hline h ht (hdoubled t ht))
    · exact Or.inl (declares_of_not_contains hmodules hclosed hout hline (Or.inl h)
        (not_exists.mp hfolder))

theorem declares_or_leftBehind_of_type (hline : line ∈ sourceLines generated handwritten)
    (h : Names .type r (dropScopes line)) :
    Declares r out.toList ∨ LeftBehind generated handwritten r := by
  rcases h.type_of_drop with hbefore | ⟨opening, hopening, hsuffix⟩
  · by_cases hfolder : ∃ t, Scope.Contains r t
    · obtain ⟨t, ht⟩ := hfolder
      exact Or.inr (.type hline hbefore ht)
    · exact Or.inl (declares_of_not_contains hmodules hclosed hout hline (Or.inr hbefore)
        (not_exists.mp hfolder))
  · exact Or.inr (.opens hline h hopening hsuffix)

end

/-- The exported file declares the modules that it uses, if the sources do, except for the names
that are left behind. -/
theorem declares_or_leftBehind {generated : String} {handwritten : List (String × String)}
    (hmodules : ∀ line ∈ Text.lines generated.toList, isEmptyModule line = false)
    (hclosed : Closed (sources generated handwritten)) {out : String}
    (hout : aggregate? generated handwritten = some out) {r : List Char}
    (huse : Uses r out.toList) : Declares r out.toList ∨ LeftBehind generated handwritten r := by
  obtain ⟨line, hfile, huse⟩ : ∃ line ∈ fileLines (keptLines generated) handwritten,
      Uses r (dropScopes line) := by
    rcases huse with h | h
    · obtain ⟨line, hline, h⟩ := (names_out_iff hout).mp h
      exact ⟨line, hline, Or.inl h⟩
    · obtain ⟨line, hline, h⟩ := (names_out_iff hout).mp h
      exact ⟨line, hline, Or.inr h⟩
  have hquote : '"' ∈ dropScopes line := huse.elim Names.quote_mem Names.quote_mem
  rcases mem_sourceLines_or_banner hfile hquote with hline | ⟨file, hmem, rfl⟩
  · rcases huse with h | h
    · exact declares_or_leftBehind_of_source hmodules hclosed hout hline h
    · exact declares_or_leftBehind_of_type hmodules hclosed hout hline h
  · exact Or.inr (.banner hmem huse)

/-- A module of the compiler that uses one written by hand. -/
theorem declares_or_leftBehind_handwritten :
    ∃ out : String, Uses "Foo".toList out.toList ∧
      (Declares "Foo".toList out.toList ∨ LeftBehind
        "declare module \"shared/Items\" \x7b\n  import \x7b Foo \x7d from \"client/Foo\";\n\x7d\n"
        [("src/client/Foo.d.ts", "declare module \"client/Foo\" \x7b\n\x7d")] "Foo".toList) := by
  obtain ⟨out, hout⟩ : ∃ out, aggregate?
      "declare module \"shared/Items\" \x7b\n  import \x7b Foo \x7d from \"client/Foo\";\n\x7d\n"
      [("src/client/Foo.d.ts", "declare module \"client/Foo\" \x7b\n\x7d")] = some out := ⟨_, rfl⟩
  have huse : Uses "Foo".toList out.toList := by
    rw [toList_out hout]
    decide +kernel
  exact ⟨out, huse, declares_or_leftBehind (by decide +kernel) (by decide +kernel) hout huse⟩

/-- The sources declare every module that they use, and the exported file does not. -/
def Reopens (generated : String) (handwritten : List (String × String)) : Prop :=
  (∀ line ∈ Text.lines generated.toList, isEmptyModule line = false) ∧
    Closed (sources generated handwritten) ∧
    ∃ out : String, aggregate? generated handwritten = some out ∧ ¬ Closed [out.toList]

instance (generated : String) (handwritten : List (String × String)) :
    Decidable (Reopens generated handwritten) :=
  decidable_of_iff
    ((∀ line ∈ Text.lines generated.toList, isEmptyModule line = false) ∧
      Closed (sources generated handwritten) ∧ (aggregate? generated handwritten).isSome ∧
      ¬ Closed [fileText generated handwritten])
    (and_congr_right fun _ => and_congr_right fun _ => by
      rw [Option.isSome_iff_exists, ← exists_and_right]
      exact exists_congr fun out => and_congr_right fun hout => by rw [toList_out hout])

/-- Each way to be left behind opens a closed text: the module of a type, two sources on a line, two
declarations on a line, a name that ends where an opening does, and the path of a file. -/
theorem reopens_of_each_way :
    Reopens "declare module \"shared/A\" \x7b\n\x7d\nexport const a: import(\"shared/A\").T;" [] ∧
    Reopens "declare module \"client/A\" \x7b\n\x7d\ndeclare module \"shared/B\" \x7b\n\x7d
export * from \"client/A\"; export * from \"shared/B\";" [] ∧
    Reopens "declare module \"client/A\" \x7b\x7d declare module \"shared/B\" \x7b\x7d
export * from \"shared/B\";" [] ∧
    Reopens "import(\"x from \"client/)" [] ∧
    Reopens "" [("src/client/from \"x\".d.ts", "")] := by
  decide +kernel

end ModBuild.Declarations
