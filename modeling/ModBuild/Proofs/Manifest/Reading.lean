import Mathlib.Data.List.Forall2
import Mathlib.Data.List.Perm.Subperm
import ModBuild.Proofs.Manifest.RoundTrip

/-!
# What the lines of a manifest say

A manifest is read line by line. A line has a key and a value when it has a separator, and of the lines
with one key the last one counts, also when it takes a value back by leaving it empty
(`lastGives_concat_iff`). The fields that the lines lack are reported all at once, and when they lack
none the manifest is what they say (`parse_says_iff`).
-/

namespace ModBuild.Manifest

set_option autoImplicit false

open Text (Strips)

variable {ls : List (List Char)} {line value : List Char} {content file key : String} {e : Entry}
  {m : Manifest}

/-- The line has a separator, and the entry is what stands around the first one. -/
def Entry.Spells (e : Entry) (line : List Char) : Prop :=
  ∃ before after, line = before ++ '=' :: after ∧ '=' ∉ before ∧ Strips before e.key ∧
    Strips after e.value

/-- The line gives a value to the key, in whatever case the key is written. -/
def Gives (key : String) (value line : List Char) : Prop :=
  ∃ e : Entry, e.Spells line ∧ Text.lower e.key = key.toList ∧ e.value = value

/-- No line has the key. -/
def Silent (ls : List (List Char)) (key : String) : Prop := ∀ line ∈ ls, ∀ value, ¬Gives key value line

/-- Of the lines with the key, the last one gives it the value. -/
def LastGives (ls : List (List Char)) (key : String) (value : List Char) : Prop :=
  ∃ above line below, ls = above ++ line :: below ∧ Gives key value line ∧ Silent below key

/-- No line has the key, or the last one that has it leaves it empty. -/
def Lacks (ls : List (List Char)) (key : String) : Prop := Silent ls key ∨ LastGives ls key []

/-- The fields are those that the lines lack, in a fixed order. -/
structure Misses (ls : List (List Char)) (fields : List String) : Prop where
  sublist : fields.Sublist ["id", "name", "poster", "description"]
  mem_iff : ∀ key ∈ ["id", "name", "poster", "description"], key ∈ fields ↔ Lacks ls key

/-- The value lists the items between commas; blanks around them do not count, nor do empty ones. -/
def Lists (value : List Char) (items : List String) : Prop :=
  ∃ parts cores, value = Text.joinWith [','] parts ∧ parts ≠ [] ∧ (∀ part ∈ parts, ',' ∉ part) ∧
    List.Forall₂ Strips parts cores ∧ items = (cores.filter (· ≠ [])).map String.ofList

/-- The entries with other keys, line by line. -/
inductive Foreign : List (List Char) → List (String × String) → Prop
  | nil : Foreign [] []
  | entry {line : List Char} {ls : List (List Char)} {e : String × String}
      {es : List (String × String)} : (Entry.ofPair e).Spells line →
      Text.lower e.1.toList ∉ knownKeys.map String.toList → Foreign ls es → Foreign (line :: ls) (e :: es)
  | skip {line : List Char} {ls : List (List Char)} {es : List (String × String)} :
      (∀ e : Entry, e.Spells line → Text.lower e.key ∈ knownKeys.map String.toList) →
      Foreign ls es → Foreign (line :: ls) es

/-- The manifest is what the lines say. -/
structure Says (ls : List (List Char)) (m : Manifest) : Prop where
  id : LastGives ls "id" m.id.toList
  name : LastGives ls "name" m.name.toList
  poster : LastGives ls "poster" m.poster.toList
  description : LastGives ls "description" m.description.toList
  url : (∃ url, m.url = some url ∧ LastGives ls "url" url.toList) ∨ m.url = none ∧ Silent ls "url"
  require : (∃ value, LastGives ls "require" value ∧ Lists value m.require) ∨
    m.require = [] ∧ Silent ls "require"
  extra : Foreign ls m.extra

theorem Entry.ofLine?_eq_some_iff : Entry.ofLine? line = some e ↔ e.Spells line := by
  constructor
  · intro h
    obtain ⟨⟨before, after⟩, hcut, rfl⟩ := Option.map_eq_some_iff.mp h
    refine ⟨before, after, ?_, Text.not_mem_of_cut?_singleton hcut, ?_, ?_⟩
    · rw [Text.eq_of_cut? hcut, List.append_assoc, List.singleton_append]
    · exact Text.strips_iff.mpr rfl
    · exact Text.strips_iff.mpr rfl
  · rintro ⟨before, after, rfl, hbefore, hkey, hvalue⟩
    rw [Entry.ofLine?, Text.cut?_singleton_append hbefore, Option.map_some, Text.strips_iff.mp hkey,
      Text.strips_iff.mp hvalue]

theorem Entry.Spells.unique {e' : Entry} (h : e.Spells line) (h' : e'.Spells line) : e = e' := by
  rw [← Entry.ofLine?_eq_some_iff] at h h'
  exact Option.some.inj (h.symm.trans h')

theorem gives_iff (h : e.Spells line) : Gives key value line ↔ e.hasKey key = true ∧ e.value = value := by
  rw [Entry.hasKey, decide_eq_true_eq]
  constructor
  · rintro ⟨e', h', hkey, hvalue⟩
    obtain rfl := h.unique h'
    exact ⟨hkey, hvalue⟩
  · rintro ⟨hkey, hvalue⟩
    exact ⟨e, h, hkey, hvalue⟩

/-- One more line takes the key over, or leaves it as it was. -/
theorem lastGives_concat_iff :
    LastGives (ls ++ [line]) key value ↔
      Gives key value line ∨ (∀ v, ¬Gives key v line) ∧ LastGives ls key value := by
  constructor
  · rintro ⟨above, last, below, hls, hgives, hsilent⟩
    cases below using List.reverseRecOn with
    | nil =>
      obtain ⟨-, hline⟩ := List.append_inj' hls rfl
      cases hline
      exact Or.inl hgives
    | append_singleton below final _ =>
      rw [← List.cons_append, ← List.append_assoc] at hls
      obtain ⟨rfl, hline⟩ := List.append_inj' hls rfl
      cases hline
      refine Or.inr ⟨hsilent line (by simp), above, last, below, rfl, hgives, ?_⟩
      exact fun l hl => hsilent l (List.mem_append_left _ hl)
  · rintro (hgives | ⟨hline, above, last, below, rfl, hgives, hsilent⟩)
    · exact ⟨ls, line, [], rfl, hgives, fun l hl => nomatch hl⟩
    · refine ⟨above, last, below ++ [line], by simp, hgives, ?_⟩
      exact List.forall_mem_append.mpr ⟨hsilent, List.forall_mem_singleton.mpr hline⟩

theorem value?_concat (es : List Entry) (e : Entry) (key : String) :
    value? (es ++ [e]) key = if e.hasKey key then some e.value else value? es key := by
  rw [value?_append, value?_cons, value?_nil, Option.none_or]
  split
  · rfl
  · rfl

/-- The value that counts is the one that the last line with the key gives. -/
theorem value?_eq_some_iff :
    value? (ls.filterMap Entry.ofLine?) key = some value ↔ LastGives ls key value := by
  induction ls using List.reverseRecOn with
  | nil =>
    rw [List.filterMap_nil, value?_nil]
    refine iff_of_false (fun h => nomatch h) ?_
    rintro ⟨above, line, below, hls, -⟩
    exact List.append_ne_nil_of_right_ne_nil above (List.cons_ne_nil line below) hls.symm
  | append_singleton ls line ih =>
    rw [List.filterMap_append, lastGives_concat_iff, ← ih]
    cases hline : Entry.ofLine? line with
    | none =>
      have hno : ∀ v, ¬Gives key v line := by
        rintro v ⟨e, he, -⟩
        rw [← Entry.ofLine?_eq_some_iff, hline] at he
        cases he
      simp [hline, hno]
    | some e =>
      have hgives (v : List Char) : Gives key v line ↔ e.hasKey key = true ∧ e.value = v :=
        gives_iff (Entry.ofLine?_eq_some_iff.mp hline)
      rw [List.filterMap_cons_some hline, List.filterMap_nil, value?_concat]
      by_cases hkey : e.hasKey key = true
      · simp [hgives, hkey]
      · simp [hgives, hkey]

theorem value?_eq_none_iff_silent :
    value? (ls.filterMap Entry.ofLine?) key = none ↔ Silent ls key := by
  rw [value?, Option.map_eq_none_iff, List.find?_eq_none]
  constructor
  · rintro h line hline v ⟨e, he, hkey, -⟩
    have hmem : e ∈ ls.filterMap Entry.ofLine? :=
      List.mem_filterMap.mpr ⟨line, hline, Entry.ofLine?_eq_some_iff.mpr he⟩
    exact h e (List.mem_reverse.mpr hmem) (decide_eq_true hkey)
  · intro h e he hkey
    obtain ⟨line, hline, hentry⟩ := List.mem_filterMap.mp (List.mem_reverse.mp he)
    exact h line hline e.value ⟨e, Entry.ofLine?_eq_some_iff.mp hentry, of_decide_eq_true hkey, rfl⟩

theorem lacks_iff :
    Lacks ls key ↔ (value? (ls.filterMap Entry.ofLine?) key).getD [] = [] := by
  rw [Lacks, ← value?_eq_none_iff_silent, ← value?_eq_some_iff]
  cases value? (ls.filterMap Entry.ofLine?) key with
  | none => simp
  | some value => simp

theorem mem_missing_iff :
    key ∈ missing (ls.filterMap Entry.ofLine?) ↔ key ∈ requiredKeys ∧ Lacks ls key := by
  rw [missing, List.mem_filter, List.isEmpty_iff, lacks_iff]

theorem misses_iff {fields : List String} :
    Misses ls fields ↔ missing (ls.filterMap Entry.ofLine?) = fields := by
  constructor
  · rintro ⟨hsublist, hiff⟩
    have hfields : ∀ key ∈ fields, Lacks ls key :=
      fun key hkey => (hiff key (hsublist.subset hkey)).mp hkey
    have hsub : fields.Sublist (missing (ls.filterMap Entry.ofLine?)) := by
      have hself := List.filter_eq_self.mpr fun key hkey =>
        List.isEmpty_iff.mpr (lacks_iff.mp (hfields key hkey))
      rw [missing, ← hself]
      exact hsublist.filter _
    have hnodup : requiredKeys.Nodup := by decide
    have hsubset : missing (ls.filterMap Entry.ofLine?) ⊆ fields := by
      intro key hkey
      obtain ⟨hrequired, hlacks⟩ := mem_missing_iff.mp hkey
      exact (hiff key hrequired).mpr hlacks
    have hlength := (List.subperm_of_subset (hnodup.filter _) hsubset).length_le
    exact (hsub.eq_of_length_le hlength).symm
  · rintro rfl
    exact ⟨List.filter_sublist, fun key hkey => mem_missing_iff.trans (and_iff_right hkey)⟩

theorem forall₂_strips_iff {parts cores : List (List Char)} :
    List.Forall₂ Strips parts cores ↔ parts.map Text.trim = cores := by
  rw [← List.forall₂_eq_eq_eq, List.forall₂_map_left_iff]
  constructor
  · exact List.Forall₂.imp fun _ _ => Text.strips_iff.mp
  · exact List.Forall₂.imp fun _ _ => Text.strips_iff.mpr

theorem lists_iff {items : List String} : Lists value items ↔ listItems value = items := by
  have hfilter : ∀ cores : List (List Char),
      cores.filter (fun core => !core.isEmpty) = cores.filter (· ≠ []) := by
    intro cores
    refine List.filter_congr fun core _ => ?_
    cases core <;> rfl
  rw [listItems, hfilter]
  constructor
  · rintro ⟨parts, cores, rfl, hne, hparts, hcores, rfl⟩
    rw [Text.split_joinWith hne hparts, forall₂_strips_iff.mp hcores]
  · rintro rfl
    exact ⟨Text.split ',' value, _, (Text.joinWith_split ',' value).symm, Text.split_ne_nil ',' value,
      fun part hpart => Text.not_mem_of_mem_split hpart, forall₂_strips_iff.mpr rfl, rfl⟩

theorem Entry.isKnown_iff : e.isKnown = true ↔ Text.lower e.key ∈ knownKeys.map String.toList := by
  rw [Entry.isKnown, List.any_eq_true, List.mem_map]
  refine exists_congr fun key => and_congr_right fun _ => ?_
  rw [Entry.hasKey, decide_eq_true_eq]
  exact eq_comm

theorem extra_ofEntries (es : List Entry) : (ofEntries es).extra.map Entry.ofPair =
    es.filter fun e => !e.isKnown := by
  rw [ofEntries, List.map_map]
  simp [Function.comp_def, Entry.ofPair]

theorem ofPair_injective : Function.Injective Entry.ofPair := by
  rintro ⟨k, v⟩ ⟨k', v'⟩ h
  obtain ⟨hkey, hvalue⟩ := Entry.mk.inj h
  exact Prod.ext (String.toList_inj.mp hkey) (String.toList_inj.mp hvalue)

theorem foreign_iff {es : List (String × String)} :
    Foreign ls es ↔ (ofEntries (ls.filterMap Entry.ofLine?)).extra = es := by
  rw [← ofPair_injective.list_map.eq_iff, extra_ofEntries]
  constructor
  · intro h
    induction h with
    | nil => rfl
    | @entry line ls e es hspells hforeign _ ih =>
      rw [List.filterMap_cons_some (Entry.ofLine?_eq_some_iff.mpr hspells), List.filter_cons_of_pos, ih,
        List.map_cons]
      rw [Bool.not_eq_true', Bool.eq_false_iff, Ne, Entry.isKnown_iff]
      simpa [Entry.ofPair] using hforeign
    | @skip line ls es hskip _ ih =>
      cases hline : Entry.ofLine? line with
      | none => rw [List.filterMap_cons_none hline, ih]
      | some e =>
        have hknown := Entry.isKnown_iff.mpr (hskip e (Entry.ofLine?_eq_some_iff.mp hline))
        rw [List.filterMap_cons_some hline, List.filter_cons_of_neg (by simp [hknown]), ih]
  · intro h
    induction ls generalizing es with
    | nil =>
      obtain rfl : es = [] := by simpa using h.symm
      exact .nil
    | cons line ls ih =>
      cases hline : Entry.ofLine? line with
      | none =>
        rw [List.filterMap_cons_none hline] at h
        refine .skip (fun e he => ?_) (ih h)
        rw [← Entry.ofLine?_eq_some_iff, hline] at he
        cases he
      | some e =>
        have hspells := Entry.ofLine?_eq_some_iff.mp hline
        rw [List.filterMap_cons_some hline] at h
        by_cases hknown : e.isKnown = true
        · rw [List.filter_cons_of_neg (by simp [hknown])] at h
          refine .skip (fun e' he' => ?_) (ih h)
          rw [← hspells.unique he']
          exact Entry.isKnown_iff.mp hknown
        · rw [List.filter_cons_of_pos (by simpa using hknown)] at h
          obtain ⟨pair, es, rfl, hpair, hrest⟩ := List.map_eq_cons_iff.mp h.symm
          rw [Entry.isKnown_iff, ← hpair] at hknown
          refine .entry (hpair ▸ hspells) ?_ (ih hrest.symm)
          simpa [Entry.ofPair] using hknown

theorem text_iff (text : String) (h : ¬Lacks ls key) :
    LastGives ls key text.toList ↔
      String.ofList ((value? (ls.filterMap Entry.ofLine?) key).getD []) = text := by
  rw [lacks_iff] at h
  rw [← value?_eq_some_iff]
  cases hvalue : value? (ls.filterMap Entry.ofLine?) key with
  | none => simp [hvalue] at h
  | some value =>
    rw [Option.some.injEq, Option.getD_some, ← String.toList_inj, String.toList_ofList]

theorem url_iff {url : Option String} :
    ((∃ text, url = some text ∧ LastGives ls "url" text.toList) ∨ url = none ∧ Silent ls "url") ↔
      (value? (ls.filterMap Entry.ofLine?) "url").map String.ofList = url := by
  simp only [← value?_eq_some_iff, ← value?_eq_none_iff_silent]
  cases value? (ls.filterMap Entry.ofLine?) "url" with
  | none => cases url <;> simp
  | some value =>
    cases url with
    | none => simp
    | some text =>
      rw [Option.map_some, Option.some.injEq, ← String.toList_inj, String.toList_ofList]
      simp

theorem require_iff {items : List String} :
    ((∃ value, LastGives ls "require" value ∧ Lists value items) ∨
        items = [] ∧ Silent ls "require") ↔
      ((value? (ls.filterMap Entry.ofLine?) "require").map listItems).getD [] = items := by
  simp only [← value?_eq_some_iff, ← value?_eq_none_iff_silent, lists_iff]
  cases value? (ls.filterMap Entry.ofLine?) "require" with
  | none => simp [eq_comm]
  | some value => simp

theorem says_iff (h : ∀ key ∈ requiredKeys, ¬Lacks ls key) :
    Says ls m ↔ ofEntries (ls.filterMap Entry.ofLine?) = m := by
  have htext := fun (key : String) (hkey : key ∈ requiredKeys) (text : String) =>
    text_iff text (h key hkey)
  have hid := htext "id" (by decide)
  have hname := htext "name" (by decide)
  have hposter := htext "poster" (by decide)
  have hdescription := htext "description" (by decide)
  constructor
  · intro hs
    have hextra := foreign_iff.mp hs.extra
    unfold ofEntries at hextra ⊢
    dsimp only at hextra ⊢
    rw [(hid _).mp hs.id, (hname _).mp hs.name, (hposter _).mp hs.poster,
      (hdescription _).mp hs.description, url_iff.mp hs.url, require_iff.mp hs.require, hextra]
  · rintro rfl
    exact ⟨(hid _).mpr rfl, (hname _).mpr rfl, (hposter _).mpr rfl, (hdescription _).mpr rfl,
      url_iff.mpr rfl, require_iff.mpr rfl, foreign_iff.mpr rfl⟩

theorem missing_eq_nil_iff_forall :
    missing (ls.filterMap Entry.ofLine?) = [] ↔ ∀ key ∈ requiredKeys, ¬Lacks ls key := by
  rw [List.eq_nil_iff_forall_not_mem]
  simp only [mem_missing_iff, not_and]

theorem parse_error_iff {err : MissingFields} :
    parse content file = .error err ↔
      err.file = file ∧ err.fields ≠ [] ∧ missing (entries content) = err.fields := by
  unfold parse
  dsimp only
  obtain ⟨name, fields⟩ := err
  cases missing (entries content) with
  | nil =>
    refine iff_of_false (fun h => nomatch h) ?_
    rintro ⟨-, hne, rfl⟩
    exact hne rfl
  | cons key keys =>
    constructor
    · intro h
      cases h
      exact ⟨rfl, List.cons_ne_nil key keys, rfl⟩
    · rintro ⟨rfl, -, rfl⟩
      rfl

/-- Reading fails when the lines lack a field, and then it names all those that they lack; otherwise the
manifest is the one that the lines describe. -/
theorem parse_says_iff (content file : String) :
    let ls := Text.lines content.toList
    ((∃ err, parse content file = .error err) ↔
        ∃ key ∈ ["id", "name", "poster", "description"], Lacks ls key) ∧
      (∀ err, parse content file = .error err ↔
        err.file = file ∧ err.fields ≠ [] ∧ Misses ls err.fields) ∧
      ∀ m, parse content file = .ok m ↔
        (∀ key ∈ ["id", "name", "poster", "description"], ¬Lacks ls key) ∧ Says ls m := by
  intro ls
  have hentries : entries content = ls.filterMap Entry.ofLine? := rfl
  have hnone : missing (ls.filterMap Entry.ofLine?) = [] ↔ ∀ key ∈ requiredKeys, ¬Lacks ls key :=
    missing_eq_nil_iff_forall
  refine ⟨?_, fun err => ?_, fun m => ?_⟩
  · simp only [parse_error_iff, hentries]
    constructor
    · rintro ⟨err, -, hne, hmissing⟩
      by_contra hno
      rw [hnone.mpr fun key hkey hlacks => hno ⟨key, hkey, hlacks⟩] at hmissing
      exact hne hmissing.symm
    · rintro ⟨key, hkey, hlacks⟩
      refine ⟨⟨file, missing (ls.filterMap Entry.ofLine?)⟩, rfl, ?_, rfl⟩
      exact fun hmissing => hnone.mp hmissing key hkey hlacks
  · rw [parse_error_iff, hentries, misses_iff]
  · rw [parse_ok_iff, hentries, hnone]
    exact and_congr_right fun hall => (says_iff hall).symm

/-- The last line takes the id back. -/
example : parse "id=M\nname=N\nposter=p.png\ndescription=D\n ID = " "mod.info" =
    .error ⟨"mod.info", ["id"]⟩ := by decide +kernel

end ModBuild.Manifest
