import ModBuild.Proofs.Rebinding.Binding
import ModBuild.Proofs.Text.Needle
import ModBuild.Proofs.Text.Trim

/-!
# The form of a declaration

`Declared line` takes a line apart as a declaration: keyword, names between commas, equals sign and
initializer. A scanned declaration comes from such a form (`exists_declared`), and a line of this form
is scanned unless its initializer is blank (`Declared.ofLine?_eq`). Blanks behind a line change
nothing but the initializer (`ofLine?_append_blank`).

What an initializer reads is not treated here.
-/

namespace ModBuild.Rebinding

set_option autoImplicit false

open Text (Blank)

/-- A name of the script language. -/
def IsName (cs : List Char) : Prop :=
  ∃ c rest, cs = c :: rest ∧ Text.isNameStart c = true ∧ ∀ x ∈ rest, Text.isNameChar x = true

/-- Names as they are written, with commas between them and blanks around the commas. -/
inductive NameList : List (List Char) → List Char → Prop
  | single {name : List Char} : IsName name → NameList [name] name
  | comma {name before after cs : List Char} {names : List (List Char)} :
      IsName name → Blank before → Blank after → NameList names cs →
      NameList (name :: names) (name ++ before ++ ',' :: after ++ cs)

/-- The parts of a line that declares locals. -/
structure Declared (line : List Char) where
  gap : List Char
  names : List (List Char)
  written : List Char
  blanks : List Char
  initializer : List Char
  line_eq : line = "local".toList ++ gap ++ written ++ blanks ++ '=' :: initializer
  gap_ne : gap ≠ []
  gap_blank : Blank gap
  names_written : NameList names written
  blanks_blank : Blank blanks
  initializer_ne : initializer ≠ []

theorem isNameChar_of_isNameStart {c : Char} (h : Text.isNameStart c = true) :
    Text.isNameChar c = true := by
  simp only [Text.isNameStart, Bool.or_eq_true] at h
  simp only [Text.isNameChar, Char.isAlphanum, Bool.or_eq_true]
  exact h.imp_left Or.inl

theorem toNat_of_isNameChar {c : Char} (h : Text.isNameChar c = true) :
    48 ≤ c.toNat ∧ c.toNat ≤ 122 := by
  unfold Text.isNameChar Char.isAlphanum Char.isAlpha Char.isUpper Char.isLower Char.isDigit at h
  simp only [Bool.or_eq_true, Bool.and_eq_true, decide_eq_true_eq, ge_iff_le,
    UInt32.le_iff_toNat_le] at h
  have hval : c.val.toNat = c.toNat := rfl
  rcases h with h | rfl
  · rw [hval] at h
    simp at h
    omega
  · decide

theorem not_isBlank_of_isNameChar {c : Char} (h : Text.isNameChar c = true) :
    Text.isBlank c = false := by
  obtain ⟨hlower, hupper⟩ := toNat_of_isNameChar h
  rw [Bool.eq_false_iff]
  intro hblank
  simp only [Text.isBlank, Bool.or_eq_true, Bool.and_eq_true, decide_eq_true_eq] at hblank
  omega

theorem not_isNameChar_of_isBlank {c : Char} (h : Text.isBlank c = true) :
    Text.isNameChar c = false := by
  rw [Bool.eq_false_iff]
  intro hname
  rw [not_isBlank_of_isNameChar hname] at h
  cases h

namespace IsName

variable {name : List Char}

theorem isNameChar (h : IsName name) : ∀ c ∈ name, Text.isNameChar c = true := by
  obtain ⟨c, rest, rfl, hc, hrest⟩ := h
  intro x hx
  rcases List.mem_cons.mp hx with rfl | hx
  · exact isNameChar_of_isNameStart hc
  · exact hrest x hx

theorem not_blank (h : IsName name) : ∀ c ∈ name, Text.isBlank c = false :=
  fun c hc => not_isBlank_of_isNameChar (h.isNameChar c hc)

theorem trim (h : IsName name) : Text.trim name = name := by
  apply Text.Trimmed.trim_eq
  constructor
  · intro c hc
    exact h.not_blank c (List.mem_of_mem_head? hc)
  · intro c hc
    exact h.not_blank c (List.mem_of_getLast? hc)

theorem not_mem (h : IsName name) {c : Char} (hc : Text.isNameChar c = false) : c ∉ name := by
  intro hm
  rw [h.isNameChar c hm] at hc
  cases hc

theorem takeName?_append (h : IsName name) {rest : List Char}
    (hrest : ∀ c ∈ rest.head?, Text.isNameChar c = false) :
    Declaration.takeName? (name ++ rest) = some (name, rest) := by
  obtain ⟨c, cs, rfl, hc, hcs⟩ := h
  have hstop : rest.takeWhile Text.isNameChar = [] ∧ rest.dropWhile Text.isNameChar = rest := by
    cases rest with
    | nil => exact ⟨rfl, rfl⟩
    | cons x rest =>
      have hx : ¬ Text.isNameChar x = true := by simp [hrest x rfl]
      exact ⟨List.takeWhile_cons_of_neg hx, List.dropWhile_cons_of_neg hx⟩
  rw [List.cons_append, Declaration.takeName?, if_pos hc, List.takeWhile_append_of_pos hcs,
    List.dropWhile_append_of_pos hcs, hstop.1, hstop.2, List.append_nil]

end IsName

theorem isName_of_takeName? {cs name rest : List Char}
    (h : Declaration.takeName? cs = some (name, rest)) : IsName name ∧ cs = name ++ rest := by
  cases cs with
  | nil => cases h
  | cons c cs =>
    rw [Declaration.takeName?] at h
    split at h
    · next hc =>
      cases h
      refine ⟨⟨c, _, rfl, hc, fun x hx => List.mem_takeWhile_imp hx⟩, ?_⟩
      rw [List.cons_append, List.takeWhile_append_dropWhile]
    · cases h

section
variable {cs after name rest : List Char}

theorem takeMoreNames_comma (h : cs.dropWhile Text.isBlank = ',' :: after)
    (h' : Declaration.takeName? (after.dropWhile Text.isBlank) = some (name, rest)) :
    Declaration.takeMoreNames cs =
      (cs.takeWhile Text.isBlank ++ ',' :: after.takeWhile Text.isBlank ++ name ++
        (Declaration.takeMoreNames rest).1, (Declaration.takeMoreNames rest).2) := by
  rw [Declaration.takeMoreNames.eq_def]
  split
  · next heq =>
    cases h.symm.trans heq
    split <;> simp_all
  · next hne => exact absurd h (hne after)

theorem takeMoreNames_end (h : (cs.dropWhile Text.isBlank).head? ≠ some ',') :
    Declaration.takeMoreNames cs = ([], cs) := by
  rw [Declaration.takeMoreNames.eq_def]
  split
  · next heq => exact absurd (by rw [heq]; rfl) h
  · rfl

end

/-- What is taken behind a name continues the list of names, and nothing is lost. -/
theorem takeMoreNames_spec (cs : List Char) {name : List Char} (hn : IsName name) :
    (∃ names, NameList names (name ++ (Declaration.takeMoreNames cs).1)) ∧
      (Declaration.takeMoreNames cs).1 ++ (Declaration.takeMoreNames cs).2 = cs := by
  have hstop : ∃ names, NameList names (name ++ []) := by
    rw [List.append_nil]
    exact ⟨[name], .single hn⟩
  fun_induction Declaration.takeMoreNames cs generalizing name with
  | case1 cs blanks after hcs gap next rest hnext more =>
    rename_i ih
    obtain ⟨hnextName, hafter⟩ := isName_of_takeName? hnext
    obtain ⟨⟨names, hnames⟩, hrest⟩ := ih hnextName ⟨[next], by simpa using .single hnextName⟩
    refine ⟨⟨name :: names, ?_⟩, ?_⟩
    · simpa using NameList.comma hn (Text.blank_takeWhile cs) (Text.blank_takeWhile after) hnames
    · calc blanks ++ ',' :: gap ++ next ++ more.1 ++ more.2
          = blanks ++ ',' :: (gap ++ (next ++ (more.1 ++ more.2))) := by simp
        _ = blanks ++ ',' :: after := by
            rw [hrest, ← hafter, List.takeWhile_append_dropWhile]
        _ = cs := by rw [← hcs, List.takeWhile_append_dropWhile]
  | case2 cs => exact ⟨hstop, rfl⟩
  | case3 cs => exact ⟨hstop, rfl⟩

namespace NameList

variable {names : List (List Char)} {written : List Char}

theorem exists_cons (h : NameList names written) :
    ∃ c cs, written = c :: cs ∧ Text.isNameChar c = true := by
  have hfirst : ∀ {name : List Char}, IsName name → ∀ more, ∃ c cs, name ++ more = c :: cs ∧
      Text.isNameChar c = true := by
    rintro name ⟨c, rest, rfl, hc, _⟩ more
    exact ⟨c, rest ++ more, rfl, isNameChar_of_isNameStart hc⟩
  cases h with
  | single hn =>
    have hname := hfirst hn []
    rwa [List.append_nil] at hname
  | @comma name before after cs names hn _ _ _ =>
    have hname := hfirst hn (before ++ ',' :: after ++ cs)
    simpa using hname

theorem take (h : NameList names written) {blanks : List Char} (hb : Blank blanks)
    (value : List Char) : ∃ first more, written = first ++ more ∧
      Declaration.takeName? (written ++ (blanks ++ '=' :: value)) =
        some (first, more ++ (blanks ++ '=' :: value)) ∧
      Declaration.takeMoreNames (more ++ (blanks ++ '=' :: value)) =
        (more, blanks ++ '=' :: value) := by
  have hhead : ∀ {gap : List Char} {x : Char}, Blank gap → Text.isNameChar x = false →
      ∀ tail, ∀ c ∈ (gap ++ x :: tail).head?, Text.isNameChar c = false := by
    intro gap x hgap hx tail c hc
    cases gap with
    | nil =>
      cases hc
      exact hx
    | cons y gap =>
      cases hc
      exact not_isNameChar_of_isBlank (hgap c List.mem_cons_self)
  induction h with
  | @single name hn =>
    refine ⟨name, [], by simp, hn.takeName?_append (hhead hb (by decide) value), ?_⟩
    have hdrop := (Text.takeWhile_dropWhile_blank hb (c := '=') (by decide) value).2
    rw [List.nil_append, takeMoreNames_end (by simp [hdrop])]
  | @comma name before after cs names hn hbefore hafter hcs ih =>
    obtain ⟨first, more, hwritten, hfirst, hmore⟩ := ih
    obtain ⟨x, xs, hx, hxname⟩ := hcs.exists_cons
    have htail : name ++ before ++ ',' :: after ++ cs ++ (blanks ++ '=' :: value) =
        name ++ (before ++ ',' :: (after ++ (cs ++ (blanks ++ '=' :: value)))) := by simp
    refine ⟨name, before ++ ',' :: after ++ cs, by simp, ?_, ?_⟩
    · rw [htail, hn.takeName?_append (hhead hbefore (by decide) _)]
      simp
    · have hcomma := Text.takeWhile_dropWhile_blank hbefore (c := ',') (by decide)
        (after ++ (cs ++ (blanks ++ '=' :: value)))
      have hnext := Text.takeWhile_dropWhile_blank hafter (not_isBlank_of_isNameChar hxname)
        (xs ++ (blanks ++ '=' :: value))
      rw [← List.cons_append, ← hx] at hnext
      have hname : Declaration.takeName?
          ((after ++ (cs ++ (blanks ++ '=' :: value))).dropWhile Text.isBlank) =
          some (first, more ++ (blanks ++ '=' :: value)) := by
        rw [hnext.2, hfirst]
      have hall := takeMoreNames_comma hcomma.2 hname
      rw [hcomma.1, hnext.1, hmore] at hall
      simpa [hwritten] using hall

theorem map_trim_split (h : NameList names written) :
    (Text.split ',' written).map Text.trim = names := by
  induction h with
  | @single name hn =>
    rw [Text.split_of_not_mem (hn.not_mem (by decide)), List.map_singleton, hn.trim]
  | @comma name before after cs names hn hbefore hafter hcs ih =>
    have hno : ∀ {gap : List Char}, Blank gap → ',' ∉ gap := fun hgap hm =>
      absurd (hgap ',' hm) (by decide)
    have hfirst : ',' ∉ name ++ before := by
      simp [hn.not_mem (c := ',') (by decide), hno hbefore]
    obtain ⟨part, parts, hsplit, hwhole⟩ := Text.exists_split_of_append (hno hafter) cs
    rw [hsplit, List.map_cons] at ih
    rw [List.append_assoc (name ++ before), List.cons_append, Text.split_append_sep,
      Text.split_of_not_mem hfirst, hwhole, List.singleton_append, List.map_cons, List.map_cons,
      Text.trim_append_blank hbefore, hn.trim, Text.trim_blank_append hafter, ih]

end NameList

namespace Declared

variable {line : List Char} (d : Declared line)

/-- The text behind the keyword and the blanks after it. -/
def rest : List Char := d.written ++ d.blanks ++ '=' :: d.initializer

theorem line_eq_rest : line = "local".toList ++ (d.gap ++ d.rest) := by
  simpa [rest] using d.line_eq

theorem trimStart_gap_rest : Text.trimStart (d.gap ++ d.rest) = d.rest := by
  obtain ⟨c, cs, hw, hc⟩ := d.names_written.exists_cons
  have hblank := not_isBlank_of_isNameChar hc
  rw [Text.trimStart_blank_append d.gap_blank, rest, hw, Text.trimStart]
  exact List.dropWhile_cons_of_neg (by simp [hblank])

theorem trimStart_drop : Text.trimStart (line.drop Declaration.keyword.length) = d.rest := by
  have hdrop : line.drop Declaration.keyword.length = d.gap ++ d.rest := by
    conv_lhs => rw [d.line_eq_rest]
    exact List.drop_left
  rw [hdrop, d.trimStart_gap_rest]

theorem rest_eq : d.rest = d.written ++ (d.blanks ++ '=' :: d.initializer) :=
  List.append_assoc _ _ _

theorem unique (d' : Declared line) : d = d' := by
  have hrest : d.rest = d'.rest := d.trimStart_drop.symm.trans d'.trimStart_drop
  have hgap : d.gap = d'.gap := by
    have hline := d.line_eq_rest.symm.trans d'.line_eq_rest
    rw [hrest] at hline
    exact List.append_cancel_right (List.append_cancel_left hline)
  obtain ⟨first, more, hwritten, hfirst, hmore⟩ :=
    d.names_written.take d.blanks_blank d.initializer
  obtain ⟨first', more', hwritten', hfirst', hmore'⟩ :=
    d'.names_written.take d'.blanks_blank d'.initializer
  rw [← rest_eq, hrest, rest_eq, hfirst'] at hfirst
  obtain ⟨rfl, htail⟩ := Prod.mk.inj (Option.some.inj hfirst)
  rw [← htail, hmore'] at hmore
  obtain ⟨rfl, hvalue⟩ := Prod.mk.inj hmore
  have hsame : d.written = d'.written := hwritten.trans hwritten'.symm
  have hnames : d.names = d'.names := by
    rw [← d.names_written.map_trim_split, ← d'.names_written.map_trim_split, hsame]
  have hrun := Text.takeWhile_dropWhile_blank d.blanks_blank (c := '=') (by decide) d.initializer
  have hrun' := Text.takeWhile_dropWhile_blank d'.blanks_blank (c := '=') (by decide) d'.initializer
  rw [← hvalue, hrun'.1, hrun'.2] at hrun
  have hinitializer : d.initializer = d'.initializer := (List.cons.inj hrun.2).2.symm
  cases d
  cases d'
  simp only [Declared.mk.injEq]
  exact ⟨hgap, hnames, hsame, hrun.1.symm, hinitializer⟩

/-- A line that is a declaration is scanned as one, unless its initializer is blank. -/
theorem ofLine?_eq : Declaration.ofLine? line =
    if (Text.trimStart d.initializer).isEmpty then none
    else some ⟨d.written, Text.trimStart d.initializer⟩ := by
  have hcut : Text.cut? Declaration.keyword line = some ([], d.gap ++ d.rest) := by
    conv_lhs => rw [d.line_eq_rest]
    exact Text.cut?_self_append (by decide) _
  have hgap : (d.gap ++ d.rest).head?.any Text.isBlank = true := by
    obtain ⟨c, gap, hgap⟩ := List.exists_cons_of_ne_nil d.gap_ne
    have hblank := d.gap_blank
    rw [hgap] at hblank ⊢
    exact hblank c List.mem_cons_self
  have hdrop : (d.gap ++ d.rest).dropWhile Text.isBlank =
      d.written ++ (d.blanks ++ '=' :: d.initializer) := by
    rw [← d.rest_eq]
    exact d.trimStart_gap_rest
  obtain ⟨first, more, hwritten, hfirst, hmore⟩ :=
    d.names_written.take d.blanks_blank d.initializer
  have heq := (Text.takeWhile_dropWhile_blank d.blanks_blank (c := '=') (by decide) d.initializer).2
  rw [Declaration.ofLine?]
  simp only [hcut, hgap, if_true, hdrop, hfirst, hmore, heq]
  rw [hwritten]
  rfl

theorem nameList_eq : Declaration.nameList ⟨d.written, Text.trimStart d.initializer⟩ = d.names :=
  d.names_written.map_trim_split

end Declared

theorem scan_of_ofLine? {line : List Char} {s : Declaration} (h : Declaration.ofLine? line = some s) :
    ∃ rest name afterName value, line = Declaration.keyword ++ rest ∧
      (∃ c ∈ rest.head?, Text.isBlank c = true) ∧
      Declaration.takeName? (Text.trimStart rest) = some (name, afterName) ∧
      Text.trimStart (Declaration.takeMoreNames afterName).2 = '=' :: value ∧
      Text.trimStart value ≠ [] ∧
      s = ⟨name ++ (Declaration.takeMoreNames afterName).1, Text.trimStart value⟩ := by
  unfold Declaration.ofLine? at h
  dsimp only at h
  split at h
  · next rest hcut =>
    have hline : line = Declaration.keyword ++ rest := by simpa using Text.eq_of_cut? hcut
    split at h
    · next hgap =>
      split at h
      · next name afterName hname =>
        split at h
        · next value hvalue =>
          split at h
          · cases h
          · next hne =>
            cases h
            have hstart : ∃ c ∈ rest.head?, Text.isBlank c = true := by
              cases rest with
              | nil => cases hgap
              | cons c rest => exact ⟨c, rfl, hgap⟩
            exact ⟨rest, name, afterName, value, hline, hstart, hname, hvalue,
              fun hnil => hne (List.isEmpty_iff.mpr hnil), rfl⟩
        · cases h
      · cases h
    · cases h
  · cases h

theorem exists_declared {line : List Char} {s : Declaration} (h : Declaration.ofLine? line = some s) :
    ∃ d : Declared line, s = ⟨d.written, Text.trimStart d.initializer⟩ ∧ s.initializer ≠ [] := by
  obtain ⟨rest, name, afterName, value, hline, ⟨c, hc, hblank⟩, hname, hvalue, hne, rfl⟩ :=
    scan_of_ofLine? h
  obtain ⟨hn, hrest⟩ := isName_of_takeName? hname
  obtain ⟨⟨names, hnames⟩, hmore⟩ := takeMoreNames_spec afterName hn
  have hgap : rest.takeWhile Text.isBlank ++ Text.trimStart rest = rest :=
    List.takeWhile_append_dropWhile
  have htail := List.takeWhile_append_dropWhile (p := Text.isBlank)
    (l := (Declaration.takeMoreNames afterName).2)
  change _ ++ Text.trimStart _ = _ at htail
  rw [hvalue] at htail
  refine ⟨{
    gap := rest.takeWhile Text.isBlank
    names := names
    written := name ++ (Declaration.takeMoreNames afterName).1
    blanks := (Declaration.takeMoreNames afterName).2.takeWhile Text.isBlank
    initializer := value
    line_eq := ?_
    gap_ne := ?_
    gap_blank := Text.blank_takeWhile rest
    names_written := hnames
    blanks_blank := Text.blank_takeWhile _
    initializer_ne := ?_ }, rfl, hne⟩
  · have hparts : rest = rest.takeWhile Text.isBlank ++ (name ++
        ((Declaration.takeMoreNames afterName).1 ++
          ((Declaration.takeMoreNames afterName).2.takeWhile Text.isBlank ++ '=' :: value))) := by
      rw [htail, hmore, ← hrest, hgap]
    conv_lhs => rw [hline, hparts]
    simp [Declaration.keyword]
  · obtain ⟨rest, rfl⟩ := List.head?_eq_some_iff.mp hc
    rw [List.takeWhile_cons_of_pos hblank]
    exact List.cons_ne_nil _ _
  · rintro rfl
    exact hne rfl

section
variable {line r : List Char}

/-- The parts of a line that differs in its initializer. -/
def Declared.withInitializer (d : Declared line) {line' value : List Char}
    (h : line' = "local".toList ++ d.gap ++ d.written ++ d.blanks ++ '=' :: value)
    (hne : value ≠ []) : Declared line' where
  gap := d.gap
  names := d.names
  written := d.written
  blanks := d.blanks
  initializer := value
  line_eq := h
  gap_ne := d.gap_ne
  gap_blank := d.gap_blank
  names_written := d.names_written
  blanks_blank := d.blanks_blank
  initializer_ne := hne

/-- Text behind a line belongs to its initializer. -/
def Declared.append (d : Declared line) (r : List Char) : Declared (line ++ r) :=
  have hline : line ++ r = "local".toList ++ d.gap ++ d.written ++ d.blanks ++
      '=' :: (d.initializer ++ r) := by
    conv_lhs => rw [d.line_eq]
    simp
  d.withInitializer hline (List.append_ne_nil_of_left_ne_nil d.initializer_ne r)

theorem exists_declared_of_append (hr : Blank r) (d : Declared (line ++ r))
    (hne : ¬ Blank d.initializer) : ∃ d' : Declared line, d.initializer = d'.initializer ++ r := by
  have hequals : '=' ∉ r := fun hm => absurd (hr '=' hm) (by decide)
  have hsuffix : r <:+ "local".toList ++ d.gap ++ d.written ++ d.blanks ++ '=' :: d.initializer :=
    ⟨line, d.line_eq⟩
  obtain ⟨value, hvalue⟩ := (Text.suffix_append_cons_iff hequals).mp hsuffix
  have hline : line = "local".toList ++ d.gap ++ d.written ++ d.blanks ++ '=' :: value := by
    have hwhole : line ++ r =
        "local".toList ++ d.gap ++ d.written ++ d.blanks ++ '=' :: value ++ r := by
      refine d.line_eq.trans ?_
      rw [← hvalue]
      simp
    exact List.append_cancel_right hwhole
  have hvalue_ne : value ≠ [] := by
    rintro rfl
    rw [List.nil_append] at hvalue
    exact hne (hvalue ▸ hr)
  exact ⟨d.withInitializer hline hvalue_ne, hvalue.symm⟩

theorem ofLine?_append_blank (hr : Blank r) (line : List Char) :
    Declaration.ofLine? (line ++ r) =
      (Declaration.ofLine? line).map fun s => ⟨s.names, s.initializer ++ r⟩ := by
  have hscan : ∀ d : Declared line, ¬ Blank d.initializer →
      Declaration.ofLine? line = some ⟨d.written, Text.trimStart d.initializer⟩ := by
    intro d hne
    have hempty : (Text.trimStart d.initializer).isEmpty = false :=
      List.isEmpty_eq_false_iff.mpr fun h => hne (Text.trimStart_eq_nil_iff.mp h)
    rw [d.ofLine?_eq, hempty]
    rfl
  cases h : Declaration.ofLine? line with
  | some s =>
    obtain ⟨d, rfl, hne⟩ := exists_declared h
    have hblank : ¬ Blank d.initializer := fun hb => hne (Text.trimStart_eq_nil_iff.mpr hb)
    have htrim : Text.trimStart (d.append r).initializer = Text.trimStart d.initializer ++ r :=
      Text.trimStart_append hblank r
    rw [(d.append r).ofLine?_eq, htrim, if_neg (by simp [hne])]
    rfl
  | none =>
    cases h' : Declaration.ofLine? (line ++ r) with
    | none => rfl
    | some s =>
      obtain ⟨d, rfl, hne⟩ := exists_declared h'
      have hblank : ¬ Blank d.initializer := fun hb => hne (Text.trimStart_eq_nil_iff.mpr hb)
      obtain ⟨d', hd'⟩ := exists_declared_of_append hr d hblank
      rw [hscan d' fun hb => hblank (hd' ▸ hb.append hr)] at h
      cases h

end

end ModBuild.Rebinding
