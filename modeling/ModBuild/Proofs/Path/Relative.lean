import Mathlib.Data.List.DropRight
import ModBuild.Proofs.Path.Components
import ModBuild.Proofs.Text.Cut

/-!
# Paths taken apart and put together

A path is known by its parts: the first part says whether it starts at a root, and every part that is
not trivial adds a component. From this follows what the operations that rewrite the parts do to the
components. A path seen from a folder above it keeps the components below that folder
(`exists_relativeTo?`), a new extension changes the last component alone
(`components_withExtension`), and a parent lacks the last component (`exists_parent?`).
-/

namespace ModBuild.FilePath

set_option autoImplicit false

open SlashPath Component

variable {p base above : FilePath} {ps : List (List Char)} {cs : List Component}

/-- What the first part adds when it names nothing. -/
def headComponents : List (List Char) → List Component
  | [] => []
  | first :: rest =>
    if first = ['.'] then [.current] else if first = [] ∧ rest ≠ [] then [.root] else []

theorem headComponents_of_not_isTrivial {first : List Char} {rest : List (List Char)}
    (h : isTrivial first = false) : headComponents (first :: rest) = [] := by
  simp only [isTrivial, Bool.or_eq_false_iff, List.isEmpty_eq_false_iff, decide_eq_false_iff_not] at h
  rw [headComponents, if_neg h.2, if_neg fun hroot => h.1 hroot.1]

/-- The first part counts with the knowledge that more follows, not with what follows. -/
theorem headComponents_append_cons {a b : List Char} (init rest : List (List Char))
    (ha : isTrivial a = false) (hb : isTrivial b = false) :
    headComponents (init ++ a :: rest) = headComponents (init ++ [b]) := by
  cases init with
  | nil =>
    rw [List.nil_append, List.nil_append, headComponents_of_not_isTrivial ha,
      headComponents_of_not_isTrivial hb]
  | cons first init => simp [headComponents]

theorem exists_parts (p : FilePath) : ∃ first rest, p.parts = first :: rest :=
  List.exists_cons_of_ne_nil (Text.split_ne_nil '/' p.text.toList)

theorem isAbsolute_iff {first : List Char} {rest : List (List Char)} (h : p.parts = first :: rest) :
    p.isAbsolute = true ↔ first = [] ∧ rest ≠ [] := by
  unfold parts at h
  unfold isAbsolute
  cases htext : p.text.toList with
  | nil =>
    rw [htext, Text.split] at h
    cases h
    simp
  | cons d text =>
    obtain ⟨part, others, hsplit⟩ := List.exists_cons_of_ne_nil (Text.split_ne_nil '/' text)
    rw [htext, Text.split, hsplit] at h
    by_cases hd : d = '/'
    · rw [if_pos hd] at h
      cases h
      simp [hd]
    · rw [if_neg hd] at h
      cases h
      simp [hd]

theorem components_eq (p : FilePath) :
    p.components = headComponents p.parts ++ p.parts.filterMap ofPart? := by
  obtain ⟨first, rest, hparts⟩ := p.exists_parts
  have habsolute := isAbsolute_iff hparts
  rw [components, hparts, headComponents, List.head?_cons]
  by_cases hroot : first = [] ∧ rest ≠ []
  · simp [habsolute.mpr hroot, hroot]
  · rw [if_neg (mt habsolute.mp hroot), if_neg hroot]
    simp only [Option.some.injEq]
    split <;> rfl

theorem not_mem_of_mem_parts : ∀ part ∈ p.parts, '/' ∉ part :=
  fun _ h => Text.not_mem_of_mem_split h

theorem components_eq_nil_iff : p.components = [] ↔ p.text = "" := by
  constructor
  · intro h
    obtain ⟨first, rest, hparts⟩ := p.exists_parts
    rw [components_eq, hparts, List.append_eq_nil_iff] at h
    obtain ⟨hhead, hbody⟩ := h
    have htrivial : isTrivial first = true := by
      by_contra hfirst
      rw [List.filterMap_cons_some (ofPart?_of_not_isTrivial (by simpa using hfirst))] at hbody
      cases hbody
    rw [headComponents] at hhead
    split at hhead
    · cases hhead
    · next hdot =>
      split at hhead
      · cases hhead
      · next hroot =>
        obtain rfl : first = [] := by simpa [isTrivial, hdot] using htrivial
        obtain rfl : rest = [] := by simpa using hroot
        have htext := Text.joinWith_split '/' p.text.toList
        unfold parts at hparts
        rw [hparts] at htext
        exact String.toList_eq_nil_iff.mp htext.symm
  · intro h
    rw [show p = ⟨""⟩ from congrArg FilePath.mk h]
    decide

theorem components_join_ne_nil (p : FilePath) {rel : String} (h : rel ≠ "") :
    (p.join rel).components ≠ [] := by
  rw [Ne, components_eq_nil_iff]
  unfold join
  split
  · exact h
  · split
    · simp [h]
    · simp

theorem components_ofParts (h : ∀ part ∈ ps, '/' ∉ part) :
    (ofParts ps).components = headComponents ps ++ ps.filterMap ofPart? := by
  cases ps with
  | nil => rfl
  | cons part ps =>
    have hparts : (ofParts (part :: ps)).parts = part :: ps := by
      rw [parts, ofParts, String.toList_ofList]
      exact Text.split_joinWith (by simp) h
    rw [components_eq, hparts]

theorem filterMap_dropWhile_isTrivial (ps : List (List Char)) :
    (ps.dropWhile isTrivial).filterMap ofPart? = ps.filterMap ofPart? := by
  induction ps with
  | nil => rfl
  | cons part ps ih =>
    cases h : isTrivial part with
    | true => rw [List.dropWhile_cons_of_pos h, List.filterMap_cons_none (ofPart?_of_isTrivial h), ih]
    | false => rw [List.dropWhile_cons_of_neg (by simp [h])]

theorem filterMap_dropTrivialEnd (ps : List (List Char)) :
    (dropTrivialEnd ps).filterMap ofPart? = ps.filterMap ofPart? := by
  rw [dropTrivialEnd, List.filterMap_reverse, filterMap_dropWhile_isTrivial, List.filterMap_reverse,
    List.reverse_reverse]

theorem dropTrivialEnd_isPrefix (ps : List (List Char)) : dropTrivialEnd ps <+: ps :=
  List.rdropWhile_prefix _ _

/-- Either every part is trivial, or the parts end in one that is not and trivial ones behind it. -/
theorem dropTrivialEnd_cases (ps : List (List Char)) :
    (dropTrivialEnd ps = [] ∧ ps.filterMap ofPart? = []) ∨
      ∃ init last rest, dropTrivialEnd ps = init ++ [last] ∧ ps = init ++ last :: rest ∧
        isTrivial last = false := by
  obtain ⟨rest, hrest⟩ := dropTrivialEnd_isPrefix ps
  cases h : dropTrivialEnd ps using List.reverseRecOn with
  | nil => exact Or.inl ⟨rfl, by rw [← filterMap_dropTrivialEnd, h, List.filterMap_nil]⟩
  | append_singleton init last _ =>
    have hall : ps = init ++ last :: rest := by
      rw [← hrest, h, List.append_assoc, List.singleton_append]
    refine Or.inr ⟨init, last, rest, rfl, hall, ?_⟩
    have hkept : ps.rdropWhile isTrivial = init ++ [last] := h
    have hlast := List.rdropWhile_last_not isTrivial ps (by rw [hkept]; simp)
    simpa [hkept] using hlast

theorem name_not_mem_headComponents (text : String) (ps : List (List Char)) :
    .name text ∉ headComponents ps := by
  unfold headComponents
  split
  · simp
  · split
    · simp
    · split <;> simp

theorem length_headComponents_le (ps : List (List Char)) : (headComponents ps).length ≤ 1 := by
  unfold headComponents
  split
  · simp
  · split
    · simp
    · split <;> simp

theorem headComponents_of_isPrefix {qs : List (List Char)} (h : ps <+: qs)
    (hqs : headComponents qs = []) : headComponents ps = [] := by
  obtain ⟨rest, rfl⟩ := h
  cases ps with
  | nil => rfl
  | cons first ps =>
    simp only [headComponents, List.cons_append] at hqs ⊢
    split at hqs
    · cases hqs
    · next hdot =>
      split at hqs
      · cases hqs
      · next hroot =>
        rw [if_neg hdot, if_neg fun h => hroot ⟨h.1, by simp [h.2]⟩]

/-- The head is the first part when that one names nothing, and then it is `/` or `.`. -/
theorem head_cases (p : FilePath) :
    (p.head = (none, p.parts) ∧ headComponents p.parts = []) ∨
      ∃ first rest, p.head = (some first, rest) ∧ p.parts = first :: rest ∧
        (first = [] ∧ rest ≠ [] ∨ first = ['.']) := by
  obtain ⟨first, rest, hparts⟩ := p.exists_parts
  have habsolute := isAbsolute_iff hparts
  rw [head, hparts, headComponents]
  dsimp only
  by_cases hroot : first = [] ∧ rest ≠ []
  · obtain ⟨rfl, hrest⟩ := hroot
    exact Or.inr ⟨[], rest, if_pos (habsolute.mpr ⟨rfl, hrest⟩), rfl, Or.inl ⟨rfl, hrest⟩⟩
  rw [if_neg (mt habsolute.mp hroot), if_neg hroot]
  by_cases hdot : first = ['.']
  · exact Or.inr ⟨first, rest, if_pos hdot, rfl, Or.inr hdot⟩
  · exact Or.inl ⟨if_neg hdot, if_neg hdot⟩

/-- What a head adds to the components. -/
def ofHead? : Option (List Char) → List Component
  | none => []
  | some [] => [.root]
  | some (_ :: _) => [.current]

theorem components_of_head {first : List Char} {rest : List (List Char)}
    (h : first = [] ∧ rest ≠ [] ∨ first = ['.']) :
    headComponents (first :: rest) ++ (first :: rest).filterMap ofPart? =
      ofHead? (some first) ++ rest.filterMap ofPart? := by
  rcases h with ⟨rfl, hrest⟩ | rfl
  · rw [headComponents, if_neg (by simp), if_pos ⟨rfl, hrest⟩]
    rfl
  · rfl

theorem components_eq_head (p : FilePath) :
    p.components = ofHead? p.head.1 ++ p.head.2.filterMap ofPart? := by
  rcases p.head_cases with ⟨hhead, hnone⟩ | ⟨first, rest, hhead, hparts, hfirst⟩
  · rw [hhead, components_eq, hnone]
    rfl
  · rw [hhead, components_eq, hparts, components_of_head hfirst]

theorem components_ofHead (hps : ps <+: p.head.2) :
    (ofHead p.head.1 ps).components = ofHead? p.head.1 ++ ps.filterMap ofPart? := by
  rcases p.head_cases with ⟨hhead, hroot⟩ | ⟨part, below, hhead, hparts, hpart⟩
  · rw [hhead] at hps ⊢
    have hslash : ∀ part ∈ ps, '/' ∉ part := fun q hq => not_mem_of_mem_parts q (hps.subset hq)
    rw [ofHead, components_ofParts hslash, headComponents_of_isPrefix hps hroot]
    rfl
  rw [hhead] at hps ⊢
  cases ps with
  | nil =>
    rcases hpart with ⟨rfl, -⟩ | rfl
    · change (ofHead (some []) []).components = [.root]
      decide
    · change (ofHead (some ['.']) []).components = [.current]
      decide
  | cons next ps =>
    have hslash : ∀ q ∈ part :: next :: ps, '/' ∉ q := by
      intro q hq
      apply not_mem_of_mem_parts (p := p)
      rw [hparts]
      exact List.cons_subset_cons part hps.subset hq
    have hwritten : ofHead (some part) (next :: ps) = ofParts (part :: next :: ps) := by
      cases part <;> rfl
    rw [hwritten, components_ofParts hslash, components_of_head]
    exact hpart.imp (fun h => ⟨h.1, by simp⟩) id

/-- When a list of components ends in a name, that name is the last part that is not trivial. -/
theorem exists_init_of_name {lead : List Component} {body : List (List Char)} {text : String}
    (hlead : .name text ∉ lead) (h : lead ++ body.filterMap ofPart? = cs ++ [.name text]) :
    ∃ init rest, dropTrivialEnd body = init ++ [text.toList] ∧ body = init ++ text.toList :: rest ∧
      isTrivial text.toList = false ∧ cs = lead ++ init.filterMap ofPart? := by
  rcases dropTrivialEnd_cases body with ⟨-, hnone⟩ | ⟨init, last, rest, hdrop, hbody, hlast⟩
  · rw [hnone, List.append_nil] at h
    exact absurd (h ▸ List.mem_append_right cs List.mem_cons_self) hlead
  · rw [← filterMap_dropTrivialEnd, hdrop, List.filterMap_append,
      List.filterMap_cons_some (ofPart?_of_not_isTrivial hlast), List.filterMap_nil,
      ← List.append_assoc] at h
    obtain ⟨hinit, hname⟩ := List.append_inj' h rfl
    obtain rfl : last = text.toList := by
      unfold ofSegment at hname
      split at hname
      · cases hname
      · cases hname
        exact (String.toList_ofList).symm
    exact ⟨init, rest, hdrop, hbody, hlast, hinit.symm⟩

theorem eq_parent_or_name_of_mem_parts {c : Component} (h : c ∈ p.parts.filterMap ofPart?) :
    c = .parent ∨ ∃ n, IsName n ∧ c = .name n := by
  obtain ⟨part, hpart, hof⟩ := List.mem_filterMap.mp h
  exact ofPart?_eq_some (not_mem_of_mem_parts part hpart) hof

theorem isName_of_mem_components {n : String} (h : .name n ∈ p.components) : IsName n := by
  rw [components_eq, List.mem_append] at h
  rcases h with hhead | hbody
  · exact absurd hhead (name_not_mem_headComponents n p.parts)
  · rcases eq_parent_or_name_of_mem_parts hbody with hparent | ⟨n', hn', hname⟩
    · cases hparent
    · cases hname
      exact hn'

theorem exists_names_below (hlead : above.components ≠ [])
    (h : p.components = above.components ++ cs) (hdots : .parent ∉ cs) :
    ∃ names : List String, (∀ n ∈ names, IsName n) ∧ cs = names.map .name := by
  have hbody : ∀ c ∈ cs, c ∈ p.parts.filterMap ofPart? := by
    intro c hc
    obtain ⟨first, rest, hfirst⟩ := List.exists_cons_of_ne_nil hlead
    rw [components_eq, hfirst, List.cons_append] at h
    have htail : c ∈ (headComponents p.parts ++ p.parts.filterMap ofPart?).tail := by
      rw [h]
      exact List.mem_append_right rest hc
    cases hhead : headComponents p.parts with
    | nil => exact List.mem_of_mem_tail (by simpa [hhead] using htail)
    | cons lead others =>
      have hlength := length_headComponents_le p.parts
      obtain rfl : others = [] := by simpa [hhead] using hlength
      simpa [hhead] using htail
  have hname : ∀ c ∈ cs, ∃ n, IsName n ∧ Component.name n = c := by
    intro c hc
    rcases eq_parent_or_name_of_mem_parts (hbody c hc) with rfl | ⟨n, hn, rfl⟩
    · exact absurd hc hdots
    · exact ⟨n, hn, rfl⟩
  clear h hdots hbody
  induction cs with
  | nil => exact ⟨[], by simp, rfl⟩
  | cons c cs ih =>
    obtain ⟨n, hn, rfl⟩ := hname c List.mem_cons_self
    obtain ⟨names, hnames, rfl⟩ := ih fun c hc => hname c (List.mem_cons_of_mem _ hc)
    exact ⟨n :: names, List.forall_mem_cons.mpr ⟨hn, hnames⟩, rfl⟩

theorem fileName?_of_components {text : String} (h : p.components = cs ++ [.name text]) :
    p.fileName? = some text := by
  rw [fileName?, h, List.getLast?_concat]

theorem fileName?_of_same {q : FilePath} (h : p.Same q) : p.fileName? = q.fileName? := by
  rw [fileName?, h, fileName?]

theorem exists_components_of_fileName? {text : String} (h : p.fileName? = some text) :
    ∃ cs, p.components = cs ++ [.name text] := by
  unfold fileName? at h
  split at h
  · next hlast =>
    cases h
    exact List.getLast?_eq_some_iff.mp hlast
  · cases h

theorem cutExtension_append {name extension : List Char} (hname : name ≠ [])
    (hextension : '.' ∉ extension) :
    cutExtension (name ++ '.' :: extension) = (name, some extension) := by
  have hreverse : (name ++ '.' :: extension).reverse = extension.reverse ++ '.' :: name.reverse := by
    simp
  have hcut : Text.cut? ['.'] (name ++ '.' :: extension).reverse =
      some (extension.reverse, name.reverse) := by
    rw [hreverse]
    exact Text.cut?_singleton_append (by simpa using hextension)
  rw [cutExtension, hcut]
  simp [hname]

theorem cutExtension_ne_nil {name : List Char} (h : name ≠ []) : (cutExtension name).1 ≠ [] := by
  unfold cutExtension
  split
  · split
    · exact h
    · next hstem => simpa using hstem
  · exact h

theorem cutExtension_eq_some {name stem extension : List Char}
    (h : cutExtension name = (stem, some extension)) : name = stem ++ '.' :: extension := by
  unfold cutExtension at h
  split at h
  · next a b hcut =>
    split at h
    · cases h
    · cases h
      have hname := congrArg List.reverse (Text.eq_of_cut? hcut)
      simpa using hname
  · cases h

theorem cutExtension_fst_subset (name : List Char) : (cutExtension name).1 ⊆ name := by
  rcases hcut : cutExtension name with ⟨stem, extension⟩
  cases extension with
  | some extension =>
    rw [cutExtension_eq_some hcut]
    exact List.subset_append_left stem _
  | none =>
    unfold cutExtension at hcut
    split at hcut
    · split at hcut <;> cases hcut
      exact List.Subset.refl name
    · cases hcut
      exact List.Subset.refl name

theorem isName_of_extension {name : List Char} {extension : String} (hname : name ≠ [])
    (hslash : '/' ∉ name) (hslash' : '/' ∉ extension.toList) (hextension : extension ≠ "") :
    IsName (.ofList ((cutExtension name).1 ++ '.' :: extension.toList)) := by
  obtain ⟨c, stem, hstem⟩ := List.exists_cons_of_ne_nil (cutExtension_ne_nil hname)
  obtain ⟨e, extension', he⟩ :=
    List.exists_cons_of_ne_nil fun he => hextension (String.toList_eq_nil_iff.mp he)
  refine ⟨⟨?_, ?_, ?_⟩, ?_⟩
  · have hstemslash : '/' ∉ (cutExtension name).1 :=
      fun hmem => hslash (cutExtension_fst_subset _ hmem)
    simpa [hstemslash] using hslash'
  · intro heq
    simpa [hstem] using congrArg String.toList heq
  · intro heq
    simpa [hstem, he] using congrArg List.length (congrArg String.toList heq)
  · intro heq
    have hlength := congrArg List.length (congrArg String.toList heq)
    simp [hstem, he] at hlength
    omega

theorem components_withExtension {text extension : String} (h : p.components = cs ++ [.name text])
    (hslash : '/' ∉ extension.toList) (hextension : extension ≠ "") :
    (p.withExtension extension).components =
      cs ++ [.name (.ofList ((cutExtension text.toList).1 ++ '.' :: extension.toList))] := by
  obtain ⟨init, rest, hdrop, hparts, htext, rfl⟩ :=
    exists_init_of_name (name_not_mem_headComponents _ p.parts) (p.components_eq ▸ h)
  have hname := isName_of_extension (fun he => by simp [he, isTrivial] at htext)
    (not_mem_of_mem_parts _ (hparts ▸ List.mem_append_right init List.mem_cons_self)) hslash hextension
  generalize hwritten : String.ofList ((cutExtension text.toList).1 ++ '.' :: extension.toList) =
    written at hname
  have hlist : (cutExtension text.toList).1 ++ '.' :: extension.toList = written.toList := by
    rw [← hwritten, String.toList_ofList]
  have hparts' : p.withExtension extension = ofParts (init ++ [written.toList]) := by
    simp only [withExtension, fileName?_of_components h, hdrop, List.reverse_append,
      List.reverse_singleton, List.singleton_append, List.reverse_reverse, hlist]
  have hsplit : ∀ q ∈ init ++ [written.toList], '/' ∉ q := by
    intro q hq
    rcases List.mem_append.mp hq with hq | hq
    · exact not_mem_of_mem_parts (p := p) q (hparts ▸ List.mem_append_left _ hq)
    · rw [List.mem_singleton.mp hq]
      exact hname.1.1
  rw [hparts', components_ofParts hsplit,
    ← headComponents_append_cons init rest htext (isTrivial_eq_false_of_isSegment hname.1), ← hparts,
    List.filterMap_append, List.filterMap_cons_some (ofPart?_toList hname.1), List.filterMap_nil,
    hname.ofSegment, List.append_assoc]

theorem exists_parent? {text : String} (h : p.components = cs ++ [.name text]) :
    ∃ above, p.parent? = some above ∧ above.components = cs := by
  have hlead : .name text ∉ ofHead? p.head.1 := by
    cases hfirst : p.head.1 with
    | none => simp [ofHead?]
    | some first => cases first <;> simp [ofHead?]
  obtain ⟨init, rest, hdrop, hbody, -, rfl⟩ :=
    exists_init_of_name hlead (p.components_eq_head ▸ h)
  have hstart : dropTrivialEnd init <+: p.head.2 := by
    rw [hbody]
    exact (dropTrivialEnd_isPrefix init).trans (List.prefix_append init _)
  refine ⟨ofHead p.head.1 (dropTrivialEnd init), by simp [parent?, hdrop], ?_⟩
  rw [components_ofHead hstart, filterMap_dropTrivialEnd]

theorem exists_component_of_parent? (h : p.parent? = some above) :
    ∃ c, p.components = above.components ++ [c] := by
  unfold parent? at h
  rw [components_eq_head]
  rcases dropTrivialEnd_cases p.head.2 with ⟨hdrop, hnone⟩ | ⟨init, last, rest, hdrop, hbody, hlast⟩
  · rw [hnone]
    dsimp only at h
    rw [hdrop] at h
    split at h
    · next hcons => cases hcons
    · next hfirst =>
      cases h
      exact ⟨.current, by rw [hfirst, components_eq_nil_iff.mpr rfl]; rfl⟩
    · cases h
  · have hstart : dropTrivialEnd init <+: p.head.2 := by
      rw [hbody]
      exact (dropTrivialEnd_isPrefix init).trans (List.prefix_append init _)
    have habove : above = ofHead p.head.1 (dropTrivialEnd init) := by
      simpa [hdrop] using h.symm
    refine ⟨.ofSegment (.ofList last), ?_⟩
    rw [habove, components_ofHead hstart, filterMap_dropTrivialEnd, ← filterMap_dropTrivialEnd p.head.2,
      hdrop, List.filterMap_append, List.filterMap_cons_some (ofPart?_of_not_isTrivial hlast),
      List.filterMap_nil, List.append_assoc]

theorem filterMap_dropComponents (n : Nat) (ps : List (List Char)) :
    (dropComponents n ps).filterMap ofPart? = (ps.filterMap ofPart?).drop n := by
  induction ps generalizing n with
  | nil => cases n <;> rfl
  | cons part ps ih =>
    cases n with
    | zero => rw [dropComponents, List.drop_zero]
    | succ n =>
      rw [dropComponents]
      split
      · next htrivial => rw [ih, List.filterMap_cons_none (ofPart?_of_isTrivial htrivial)]
      · next htrivial =>
        rw [ih, List.filterMap_cons_some (ofPart?_of_not_isTrivial (by simpa using htrivial)),
          List.drop_succ_cons]

theorem dropComponents_subset (n : Nat) (ps : List (List Char)) : dropComponents n ps ⊆ ps := by
  induction ps generalizing n with
  | nil => cases n <;> simp [dropComponents]
  | cons part ps ih =>
    cases n with
    | zero => simp [dropComponents]
    | succ n =>
      rw [dropComponents]
      split
      · exact List.subset_cons_of_subset part (ih (n + 1))
      · exact List.subset_cons_of_subset part (ih n)

theorem ofText_ofParts (h : ∀ part ∈ ps, '/' ∉ part) :
    ofText (ofParts ps).text.toList = ps.filterMap ofPart? := by
  rw [ofText, ofParts, String.toList_ofList]
  cases ps with
  | nil => rfl
  | cons part ps => rw [Text.split_joinWith (by simp) h]

theorem head?_ofParts (h : ∀ part ∈ ps, '/' ∉ part)
    (hne : ∀ first, ps.head? = some first → first ≠ []) :
    (ofParts ps).text.toList.head? ≠ some '/' := by
  rw [ofParts, String.toList_ofList]
  intro hroot
  cases ps with
  | nil => cases hroot
  | cons first ps =>
    obtain ⟨c, cs, rfl⟩ := List.exists_cons_of_ne_nil (hne first rfl)
    have hc : c = '/' := by
      cases ps with
      | nil => simpa [Text.joinWith] using hroot
      | cons next ps => simpa [Text.joinWith] using hroot
    exact h (c :: cs) List.mem_cons_self (hc ▸ List.mem_cons_self)

theorem ofParts_dropComponents (n : Nat) (h : ∀ part ∈ ps, '/' ∉ part) :
    let r := ofParts (dropTrivialEnd ((dropComponents n ps).dropWhile isTrivial))
    r.text.toList.head? ≠ some '/' ∧ ofText r.text.toList = (ps.filterMap ofPart?).drop n := by
  intro r
  have hstart := dropTrivialEnd_isPrefix ((dropComponents n ps).dropWhile isTrivial)
  have hslash : ∀ part ∈ dropTrivialEnd ((dropComponents n ps).dropWhile isTrivial), '/' ∉ part :=
    fun part hpart => h part (dropComponents_subset n ps
      ((List.dropWhile_subset _) (hstart.subset hpart)))
  refine ⟨head?_ofParts hslash ?_, ?_⟩
  · rintro first hfirst rfl
    have hhead := List.head?_dropWhile_not isTrivial (dropComponents n ps)
    obtain ⟨rest, hrest⟩ := hstart
    rw [← hrest, List.head?_append, hfirst] at hhead
    cases hhead
  · rw [ofText_ofParts hslash, filterMap_dropTrivialEnd, filterMap_dropWhile_isTrivial,
      filterMap_dropComponents]

theorem exists_relativeTo? (hne : base.components ≠ []) (h : p.components = base.components ++ cs) :
    ∃ r, base.relativeTo? p = some r ∧ r.text.toList.head? ≠ some '/' ∧
      ofText r.text.toList = cs := by
  obtain ⟨c, others, hbase⟩ := List.exists_cons_of_ne_nil hne
  have hstart : base.components.isPrefixOf p.components = true :=
    List.isPrefixOf_iff_prefix.mpr ⟨cs, h.symm⟩
  have hlength : base.components.length = others.length + 1 := by rw [hbase, List.length_cons]
  have hdrop : p.components.drop (others.length + 1) = cs := by rw [h, ← hlength, List.drop_left]
  rw [components_eq_head] at hdrop
  unfold relativeTo?
  rw [if_pos hstart, hlength]
  rcases p.head_cases with ⟨hhead, -⟩ | ⟨first, rest, hhead, hparts, hfirst⟩
  · rw [hhead] at hdrop ⊢
    obtain ⟨hrelative, htext⟩ :=
      ofParts_dropComponents (others.length + 1) (not_mem_of_mem_parts (p := p))
    exact ⟨_, rfl, hrelative, htext.trans hdrop⟩
  · rw [hhead] at hdrop ⊢
    have hslash : ∀ part ∈ rest, '/' ∉ part := fun part hpart =>
      not_mem_of_mem_parts (p := p) part (hparts ▸ List.mem_cons_of_mem first hpart)
    obtain ⟨hrelative, htext⟩ := ofParts_dropComponents others.length hslash
    refine ⟨_, rfl, hrelative, htext.trans ?_⟩
    rw [← hdrop]
    rcases hfirst with ⟨rfl, -⟩ | rfl
    · rfl
    · rfl

theorem dropWhile_dropComponents_append {n : Nat} (h : (ps.filterMap ofPart?).length = n)
    (rest : List (List Char)) :
    (dropComponents n (ps ++ rest)).dropWhile isTrivial = rest.dropWhile isTrivial := by
  induction ps generalizing n with
  | nil =>
    obtain rfl : n = 0 := h.symm
    rw [List.nil_append, dropComponents]
  | cons part ps ih =>
    cases htrivial : isTrivial part with
    | true =>
      rw [List.filterMap_cons_none (ofPart?_of_isTrivial htrivial)] at h
      cases n with
      | zero =>
        have hrest := ih h
        rw [dropComponents] at hrest ⊢
        rw [List.cons_append, List.dropWhile_cons_of_pos htrivial, hrest]
      | succ n => rw [List.cons_append, dropComponents, if_pos htrivial, ih h]
    | false =>
      rw [List.filterMap_cons_some (ofPart?_of_not_isTrivial htrivial)] at h
      obtain rfl := h.symm
      rw [List.length_cons, List.cons_append, dropComponents, if_neg (by simp [htrivial]), ih rfl]

theorem dropTrivialEnd_of_not_isTrivial (h : ∀ part ∈ ps, isTrivial part = false) :
    dropTrivialEnd ps = ps := by
  cases ps using List.reverseRecOn with
  | nil => rfl
  | append_singleton ps last _ =>
    have hlast := h last (List.mem_append_right ps List.mem_cons_self)
    exact List.rdropWhile_concat_neg _ _ _ (by simp [hlast])

theorem exists_parts_foldl_join {names : List String} (hbase : base.text ≠ "") (hne : names ≠ [])
    (h : ∀ n ∈ names, IsSegment n) :
    ∃ first init, (names.foldl join base).parts = first :: (init ++ names.map String.toList) := by
  obtain ⟨n, others, rfl⟩ := List.exists_cons_of_ne_nil hne
  have hrelative := head?_ofSegments (h n List.mem_cons_self) others
  rw [foldl_join_eq_join base hne h]
  rcases toList_join base hrelative with ⟨hempty, -⟩ | ⟨cs, -, hjoin⟩
  · exact absurd (String.toList_eq_nil_iff.mp hempty) hbase
  · obtain ⟨first, init, hsplit⟩ := List.exists_cons_of_ne_nil (Text.split_ne_nil '/' cs)
    refine ⟨first, init, ?_⟩
    have hslash : ∀ part ∈ (n :: others).map String.toList, '/' ∉ part := by
      intro part hpart
      obtain ⟨m, hm, rfl⟩ := List.mem_map.mp hpart
      exact (h m hm).1
    rw [parts, hjoin, Text.split_append_sep, hsplit, toList_ofSegments,
      Text.split_joinWith (by simp) hslash, List.cons_append]

/-- What is joined below a folder is seen from there as it was written. -/
theorem relativeTo?_foldl_join {names : List String} (hbase : base.text ≠ "") (hne : names ≠ [])
    (h : ∀ n ∈ names, IsName n) :
    base.relativeTo? (names.foldl join base) = some ⟨ofSegments names⟩ := by
  have hsegments : ∀ n ∈ names, IsSegment n := fun n hn => (h n hn).1
  have hcomponents := base.components_foldl_join hsegments
  have hstart : base.components.isPrefixOf (names.foldl join base).components = true :=
    List.isPrefixOf_iff_prefix.mpr ⟨_, hcomponents.symm⟩
  have hplain : ∀ part ∈ names.map String.toList, isTrivial part = false := by
    intro part hpart
    obtain ⟨n, hn, rfl⟩ := List.mem_map.mp hpart
    exact isTrivial_eq_false_of_isSegment (hsegments n hn)
  have hnames : (names.map String.toList).filterMap ofPart? = names.map ofSegment := by
    rw [List.filterMap_map]
    refine List.filterMap_eq_map_iff_forall_eq_some.mpr fun n hn => ?_
    exact ofPart?_toList (hsegments n hn)
  have hleft : ∀ n init, (init.filterMap ofPart?).length = n →
      ofParts (dropTrivialEnd ((dropComponents n (init ++ names.map String.toList)).dropWhile
        isTrivial)) = ⟨ofSegments names⟩ := by
    intro n init hlength
    have hdrop : (names.map String.toList).dropWhile isTrivial = names.map String.toList := by
      obtain ⟨m, others, rfl⟩ := List.exists_cons_of_ne_nil hne
      rw [List.map_cons, List.dropWhile_cons_of_neg]
      simp [hplain m.toList (by simp)]
    rw [dropWhile_dropComponents_append hlength, hdrop, dropTrivialEnd_of_not_isTrivial hplain,
      ofParts, ← toList_ofSegments, String.ofList_toList]
  obtain ⟨first, init, hparts⟩ := exists_parts_foldl_join hbase hne hsegments
  obtain ⟨c, others, hlead⟩ := List.exists_cons_of_ne_nil (mt components_eq_nil_iff.mp hbase)
  have hlength : base.components.length = others.length + 1 := by rw [hlead, List.length_cons]
  rw [components_eq_head] at hcomponents
  unfold relativeTo?
  rw [if_pos hstart, hlength]
  rcases (names.foldl join base).head_cases with ⟨hhead, -⟩ | ⟨first', rest, hhead, hparts', -⟩
  · rw [hhead] at hcomponents ⊢
    dsimp only at hcomponents ⊢
    rw [hparts, ← List.cons_append] at hcomponents ⊢
    rw [List.filterMap_append, hnames, ← List.append_assoc,
      List.append_cancel_right_eq] at hcomponents
    refine congrArg some (hleft _ _ ?_)
    rw [← hlength, ← hcomponents]
    rfl
  · obtain ⟨rfl, rfl⟩ := List.cons.inj (hparts'.symm.trans hparts)
    rw [hhead] at hcomponents ⊢
    dsimp only at hcomponents ⊢
    rw [List.filterMap_append, hnames, ← List.append_assoc,
      List.append_cancel_right_eq] at hcomponents
    have hone : (ofHead? (some first')).length = 1 := by cases first' <;> rfl
    refine congrArg some (hleft _ _ ?_)
    rw [← hcomponents, List.length_append] at hlength
    omega

end ModBuild.FilePath
