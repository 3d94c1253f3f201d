import ModBuild.Manifest
import ModBuild.Proofs.Text.Cut
import ModBuild.Proofs.Text.Trim

/-!
# Manifests read back

What is read from a manifest is trimmed and lies on one line, a key has no `=`, and entries with foreign
keys have none of the known ones. Nothing else is needed for a manifest to be read back from what is
written of it, so a copied manifest means the same as the original.
-/

namespace ModBuild.Manifest

set_option autoImplicit false

open Text (Trimmed)

variable {m : Manifest} {content file key : String} {es : List Entry} {e : Entry}

theorem mem_knownKeys : "id" ∈ knownKeys ∧ "name" ∈ knownKeys ∧ "poster" ∈ knownKeys ∧
    "description" ∈ knownKeys ∧ "url" ∈ knownKeys ∧ "require" ∈ knownKeys := by decide

namespace Entry

def line (e : Entry) : List Char := e.key ++ '=' :: e.value

def named (key : String) (value : List Char) : Entry := ⟨key.toList, value⟩

/-- An entry that is kept without being interpreted. -/
def ofPair (e : String × String) : Entry := ⟨e.1.toList, e.2.toList⟩

/-- The entry can be read from a line. -/
structure Legible (e : Entry) : Prop where
  key : Trimmed e.key
  value : Trimmed e.value
  separator : '=' ∉ e.key
  unbroken : '\n' ∉ e.line

theorem ofLine?_line (h : e.Legible) : ofLine? e.line = some e := by
  rw [ofLine?, line, Text.cut?_singleton_append h.separator, Option.map_some, h.key.trim_eq,
    h.value.trim_eq]

theorem legible_of_ofLine? {cs : List Char} (hcs : '\n' ∉ cs) (h : ofLine? cs = some e) : e.Legible := by
  obtain ⟨⟨before, after⟩, hcut, rfl⟩ := Option.map_eq_some_iff.mp h
  have htext := Text.eq_of_cut? hcut
  refine ⟨Text.trimmed_trim before, Text.trimmed_trim after, ?_, ?_⟩
  · exact fun hm => Text.not_mem_of_cut?_singleton hcut (Text.trim_subset before hm)
  · simp only [line, List.mem_append, List.mem_cons, not_or]
    refine ⟨fun hm => ?_, by decide, fun hm => ?_⟩
    · exact hcs (htext ▸ by simp [Text.trim_subset before hm])
    · exact hcs (htext ▸ by simp [Text.trim_subset after hm])

theorem legible_of_mem_entries (h : e ∈ entries content) : e.Legible := by
  obtain ⟨cs, hline, hentry⟩ := List.mem_filterMap.mp h
  exact legible_of_ofLine? (Text.not_mem_of_mem_lines hline) hentry

theorem value_named (key : String) (value : List Char) : (named key value).value = value := rfl

section Known

variable (hkey : key ∈ knownKeys) (value : List Char)
include hkey

theorem legible_named (hvalue : Trimmed value) (hbreak : '\n' ∉ value) : (named key value).Legible := by
  have hall : ∀ key ∈ knownKeys, Text.trim key.toList = key.toList ∧ '=' ∉ key.toList ∧
      '\n' ∉ key.toList := by decide
  obtain ⟨htrim, hseparator, hkeybreak⟩ := hall key hkey
  refine ⟨?_, hvalue, hseparator, ?_⟩
  · rw [named, ← htrim]
    exact Text.trimmed_trim key.toList
  · rw [line, List.mem_append, List.mem_cons, not_or, not_or]
    exact ⟨hkeybreak, by decide, hbreak⟩

theorem hasKey_named (other : String) : (named key value).hasKey other = decide (key = other) := by
  have hall : ∀ key ∈ knownKeys, Text.lower key.toList = key.toList := by decide
  rw [hasKey, named, decide_eq_decide, hall key hkey, String.toList_inj]

theorem isKnown_named : (named key value).isKnown = true :=
  List.any_eq_true.mpr ⟨key, hkey, by rw [hasKey_named hkey, decide_eq_true rfl]⟩

theorem hasKey_eq_false (h : e.isKnown = false) : e.hasKey key = false := by
  rw [isKnown, List.any_eq_false] at h
  exact Bool.eq_false_iff.mpr (h key hkey)

end Known

end Entry

/-- The entries that are written of a manifest. -/
def written (m : Manifest) : List Entry :=
  [.named "name" m.name.toList, .named "poster" m.poster.toList, .named "id" m.id.toList,
    .named "description" m.description.toList] ++
    (m.url.map fun url => Entry.named "url" url.toList).toList ++
    (if m.require.isEmpty then []
      else [.named "require" (Text.joinWith [','] (m.require.map String.toList))]) ++
    m.extra.map .ofPair

theorem map_toList_lines (m : Manifest) : m.lines.map String.toList = (written m).map Entry.line := by
  have hrequire : (",".intercalate m.require).toList =
      Text.joinWith [','] (m.require.map String.toList) := by
    rw [String.toList_intercalate, Text.joinWith_eq_intercalate]
    rfl
  unfold lines written
  simp only [List.map_append, List.map_cons, List.map_nil, List.map_map]
  congr 1
  · congr 1
    · congr 1
      · simp [Entry.line, Entry.named]
      · cases m.url <;> simp [Entry.line, Entry.named]
    · split <;> simp [Entry.line, Entry.named, hrequire]
  · exact List.map_congr_left fun e _ => by simp [Entry.line, Entry.ofPair]

theorem toList_text (m : Manifest) :
    m.text.toList = Text.joinWith ['\r', '\n'] ((written m).map Entry.line) := by
  rw [text, String.toList_intercalate, ← map_toList_lines, Text.joinWith_eq_intercalate]
  rfl

theorem entries_text (h : ∀ e ∈ written m, e.Legible) : entries m.text = written m := by
  have hlines : Text.lines m.text.toList = (written m).map Entry.line := by
    rw [toList_text]
    refine Text.lines_joinWith fun cs hcs => ?_
    obtain ⟨e, he, rfl⟩ := List.mem_map.mp hcs
    exact ⟨(h e he).unbroken, by simp [Entry.line]⟩
  have hread : ∀ e ∈ written m, (Entry.ofLine? ∘ Entry.line) e = some e :=
    fun e he => Entry.ofLine?_line (h e he)
  rw [entries, hlines, List.filterMap_map, List.filterMap_congr hread, List.filterMap_some]

theorem value?_nil (key : String) : value? [] key = none := rfl

theorem value?_append (a b : List Entry) (key : String) :
    value? (a ++ b) key = (value? b key).or (value? a key) := by
  rw [value?, List.reverse_append, List.find?_append, Option.map_or]
  rfl

theorem value?_cons (e : Entry) (es : List Entry) (key : String) :
    value? (e :: es) key = (value? es key).or (if e.hasKey key then some e.value else none) := by
  rw [← List.singleton_append, value?_append]
  congr 1
  rw [value?, List.reverse_singleton, List.find?_singleton]
  split <;> rfl

theorem value?_eq_none (h : ∀ e ∈ es, e.hasKey key = false) : value? es key = none := by
  rw [value?, Option.map_eq_none_iff, List.find?_eq_none]
  intro e he
  simp [h e (List.mem_reverse.mp he)]

theorem exists_of_value? {value : List Char} (h : value? es key = some value) :
    ∃ e ∈ es, e.value = value := by
  obtain ⟨e, hfind, hvalue⟩ := Option.map_eq_some_iff.mp h
  exact ⟨e, List.mem_reverse.mp (List.mem_of_find?_eq_some hfind), hvalue⟩

theorem item_of_mem_listItems {value : List Char} {item : String} (h : item ∈ listItems value) :
    Trimmed item.toList ∧ item.toList ⊆ value ∧ item ≠ "" ∧ ',' ∉ item.toList := by
  obtain ⟨cs, hcs, rfl⟩ := List.mem_map.mp h
  obtain ⟨hmem, hne⟩ := List.mem_filter.mp hcs
  obtain ⟨part, hpart, rfl⟩ := List.mem_map.mp hmem
  rw [String.toList_ofList]
  refine ⟨Text.trimmed_trim part, fun c hc => ?_, ?_, fun hm => ?_⟩
  · exact Text.subset_of_mem_split hpart (Text.trim_subset part hc)
  · simpa using hne
  · exact Text.not_mem_of_mem_split hpart (Text.trim_subset part hm)

/-- Items that were read from a list are read again from the list that is written of them. -/
theorem listItems_joinWith {items : List String} (hne : items ≠ [])
    (h : ∀ item ∈ items, Trimmed item.toList ∧ item ≠ "" ∧ ',' ∉ item.toList) :
    listItems (Text.joinWith [','] (items.map String.toList)) = items := by
  have hsplit : Text.split ',' (Text.joinWith [','] (items.map String.toList)) =
      items.map String.toList := by
    refine Text.split_joinWith (by simpa using hne) fun cs hcs => ?_
    obtain ⟨item, hitem, rfl⟩ := List.mem_map.mp hcs
    exact (h item hitem).2.2
  have htrim : (items.map String.toList).map Text.trim = items.map String.toList := by
    rw [List.map_map]
    exact List.map_congr_left fun item hitem => (h item hitem).1.trim_eq
  have hfilter : (items.map String.toList).filter (fun cs => !cs.isEmpty) = items.map String.toList := by
    refine List.filter_eq_self.mpr fun cs hcs => ?_
    obtain ⟨item, hitem, rfl⟩ := List.mem_map.mp hcs
    simpa using (h item hitem).2.1
  rw [listItems, hsplit, htrim, hfilter, List.map_map]
  simp

/-- A text that an entry can have as its value. -/
def IsValue (text : String) : Prop := Trimmed text.toList ∧ '\n' ∉ text.toList

/-- A manifest as it is read from a file. -/
structure Readable (m : Manifest) : Prop where
  required : m.id ≠ "" ∧ m.name ≠ "" ∧ m.poster ≠ "" ∧ m.description ≠ ""
  isValue : ∀ text ∈ [m.id, m.name, m.poster, m.description] ++ m.url.toList ++ m.require, IsValue text
  item : ∀ item ∈ m.require, item ≠ "" ∧ ',' ∉ item.toList
  foreign : ∀ e ∈ m.extra, (Entry.ofPair e).Legible ∧ (Entry.ofPair e).isKnown = false

theorem isValue_of_legible (h : ∀ e ∈ es, e.Legible) (key : String) :
    IsValue (.ofList ((value? es key).getD [])) := by
  rw [IsValue, String.toList_ofList]
  cases hvalue : value? es key with
  | none => exact ⟨Text.trimmed_nil, List.not_mem_nil⟩
  | some value =>
    obtain ⟨e, he, rfl⟩ := exists_of_value? hvalue
    exact ⟨(h e he).value, fun hm => (h e he).unbroken (List.mem_append_right _ (List.mem_cons_of_mem _ hm))⟩

theorem missing_eq_nil_iff :
    missing es = [] ↔ ∀ key ∈ requiredKeys, String.ofList ((value? es key).getD []) ≠ "" := by
  rw [missing, List.filter_eq_nil_iff]
  simp

theorem parse_ok_iff :
    parse content file = .ok m ↔ missing (entries content) = [] ∧ ofEntries (entries content) = m := by
  unfold parse
  dsimp only
  cases missing (entries content) with
  | nil => simp
  | cons key keys => simp

theorem readable_ofEntries (h : ∀ e ∈ es, e.Legible) (hmissing : missing es = []) :
    Readable (ofEntries es) := by
  have hvalue := isValue_of_legible h
  have hrequire : ∀ item ∈ (ofEntries es).require, ∃ value, value? es "require" = some value ∧
      item ∈ listItems value := by
    intro item hitem
    change item ∈ ((value? es "require").map listItems).getD [] at hitem
    cases hfind : value? es "require" with
    | none => simp [hfind] at hitem
    | some value =>
      rw [hfind] at hitem
      exact ⟨value, rfl, hitem⟩
  rw [missing_eq_nil_iff] at hmissing
  constructor
  case required =>
    exact ⟨hmissing "id" (by decide), hmissing "name" (by decide), hmissing "poster" (by decide),
      hmissing "description" (by decide)⟩
  case isValue =>
    simp only [List.forall_mem_append, List.forall_mem_cons, List.not_mem_nil, false_implies,
      implies_true, and_true]
    refine ⟨⟨⟨hvalue "id", hvalue "name", hvalue "poster", hvalue "description"⟩, ?_⟩, ?_⟩
    · intro url hurl
      obtain ⟨value, hfind, rfl⟩ := Option.map_eq_some_iff.mp (Option.mem_toList.mp hurl)
      have hread := hvalue "url"
      rwa [hfind] at hread
    · intro item hitem
      obtain ⟨value, hfind, hmem⟩ := hrequire item hitem
      have hread := hvalue "require"
      rw [hfind, Option.getD_some, IsValue, String.toList_ofList] at hread
      obtain ⟨htrimmed, hsub, -, -⟩ := item_of_mem_listItems hmem
      exact ⟨htrimmed, fun hbreak => hread.2 (hsub hbreak)⟩
  case item =>
    intro item hitem
    obtain ⟨value, -, hmem⟩ := hrequire item hitem
    exact (item_of_mem_listItems hmem).2.2
  case foreign =>
    intro pair hpair
    obtain ⟨e, he, rfl⟩ := List.mem_map.mp hpair
    obtain ⟨hmem, hknown⟩ := List.mem_filter.mp he
    have hpair : Entry.ofPair (.ofList e.key, .ofList e.value) = e := by
      rw [Entry.ofPair, String.toList_ofList, String.toList_ofList]
    rw [hpair]
    exact ⟨h e hmem, by simpa using hknown⟩

theorem legible_written (h : Readable m) : ∀ e ∈ written m, e.Legible := by
  have hvalue := h.isValue
  have hnamed : ∀ key ∈ knownKeys, ∀ text, IsValue text → (Entry.named key text.toList).Legible :=
    fun key hkey text htext => Entry.legible_named hkey _ htext.1 htext.2
  simp only [List.forall_mem_append, List.forall_mem_cons, List.not_mem_nil, false_implies,
    implies_true, and_true] at hvalue
  obtain ⟨⟨⟨hid, hname, hposter, hdescription⟩, hurl⟩, hrequire⟩ := hvalue
  simp only [written, List.forall_mem_append, List.forall_mem_cons, List.not_mem_nil, false_implies,
    implies_true, and_true]
  refine ⟨⟨⟨⟨?_, ?_, ?_, ?_⟩, ?_⟩, ?_⟩, ?_⟩
  · exact hnamed "name" (by decide) m.name hname
  · exact hnamed "poster" (by decide) m.poster hposter
  · exact hnamed "id" (by decide) m.id hid
  · exact hnamed "description" (by decide) m.description hdescription
  · intro e he
    obtain ⟨url, hmem, rfl⟩ := Option.map_eq_some_iff.mp (Option.mem_toList.mp he)
    exact hnamed "url" (by decide) url (hurl url (Option.mem_toList.mpr hmem))
  · split
    · exact fun e he => absurd he List.not_mem_nil
    · rintro e he
      rw [List.mem_singleton] at he
      subst he
      refine Entry.legible_named (by decide) _ ?_ fun hbreak => ?_
      · refine (Text.trimmed_joinWith (fun part hpart => ?_) [',']).1
        obtain ⟨item, hitem, rfl⟩ := List.mem_map.mp hpart
        exact ⟨(hrequire item hitem).1, by simpa using (h.item item hitem).1⟩
      · rcases Text.mem_joinWith hbreak with hsep | ⟨part, hpart, hmem⟩
        · exact absurd hsep (by decide)
        · obtain ⟨item, hitem, rfl⟩ := List.mem_map.mp hpart
          exact (hrequire item hitem).2 hmem
  · intro e he
    obtain ⟨pair, hpair, rfl⟩ := List.mem_map.mp he
    exact (h.foreign pair hpair).1

section Written

variable (h : Readable m)
include h

theorem value?_extra {key : String} (hkey : key ∈ knownKeys) :
    value? (m.extra.map .ofPair) key = none := by
  refine value?_eq_none fun e he => ?_
  obtain ⟨pair, hpair, rfl⟩ := List.mem_map.mp he
  exact Entry.hasKey_eq_false hkey (h.foreign pair hpair).2

theorem value?_written :
    value? (written m) "id" = some m.id.toList ∧ value? (written m) "name" = some m.name.toList ∧
      value? (written m) "poster" = some m.poster.toList ∧
      value? (written m) "description" = some m.description.toList ∧
      value? (written m) "url" = m.url.map String.toList ∧
      value? (written m) "require" =
        if m.require.isEmpty then none else some (Text.joinWith [','] (m.require.map String.toList)) := by
  simp only [written, value?_append]
  cases m.url <;> cases m.require.isEmpty <;>
    simp [value?_cons, value?_nil, value?_extra h, Entry.hasKey_named, mem_knownKeys, Entry.value_named]

theorem foreign_written : (written m).filter (fun e => !e.isKnown) = m.extra.map .ofPair := by
  have hkept : (m.extra.map Entry.ofPair).filter (fun e => !e.isKnown) = m.extra.map .ofPair := by
    refine List.filter_eq_self.mpr fun e he => ?_
    obtain ⟨pair, hpair, rfl⟩ := List.mem_map.mp he
    rw [(h.foreign pair hpair).2]
    rfl
  rw [written, List.filter_append, hkept]
  cases m.url <;> cases m.require.isEmpty <;> simp [Entry.isKnown_named, mem_knownKeys]

theorem ofEntries_written : ofEntries (written m) = m := by
  obtain ⟨hid, hname, hposter, hdescription, hurl, hrequire⟩ := value?_written h
  have hitems : ((value? (written m) "require").map listItems).getD [] = m.require := by
    rw [hrequire]
    split
    case isTrue hempty => exact (List.isEmpty_iff.mp hempty).symm
    case isFalse hempty =>
      refine listItems_joinWith (fun hnil => hempty (by rw [hnil]; rfl)) fun item hitem => ?_
      exact ⟨(h.isValue item (List.mem_append_right _ hitem)).1, h.item item hitem⟩
  unfold ofEntries
  dsimp only
  rw [hid, hname, hposter, hdescription, hurl, hitems, foreign_written h]
  cases m
  simp [Function.comp_def, Entry.ofPair]

theorem missing_written : missing (written m) = [] := by
  obtain ⟨hid, hname, hposter, hdescription, -, -⟩ := value?_written h
  obtain ⟨hidne, hnamene, hposterne, hdescriptionne⟩ := h.required
  rw [missing_eq_nil_iff]
  simp [requiredKeys, hid, hname, hposter, hdescription, hidne, hnamene, hposterne, hdescriptionne]

end Written

theorem parse_text (h : parse content file = .ok m) (copy : String) : parse m.text copy = .ok m := by
  obtain ⟨hmissing, rfl⟩ := parse_ok_iff.mp h
  have hread := readable_ofEntries (fun e => Entry.legible_of_mem_entries) hmissing
  rw [parse_ok_iff, entries_text (legible_written hread)]
  exact ⟨missing_written hread, ofEntries_written hread⟩

/-- The last `name` counts, the line without a separator is dropped, and `Pack` is kept twice. -/
theorem parse_text_mixed :
    let content := "ID = Mod\r\nname=Old\n no separator \nNAME=New \r\nPoster=p.png\nPack=a=b\n" ++
      "description=x = y\nurl=\nrequire= A ,, B,\nPack= a=b \n=nameless"
    let m : Manifest := ⟨"Mod", "New", "p.png", "x = y", some "", ["A", "B"],
      [("Pack", "a=b"), ("Pack", "a=b"), ("", "nameless")]⟩
    parse content "mod.info" = .ok m ∧ parse m.text "copy" = .ok m := by
  intro content m
  have hread : parse content "mod.info" = .ok m := parse_ok_iff.mpr (by decide +kernel)
  exact ⟨hread, parse_text hread "copy"⟩

end ModBuild.Manifest
