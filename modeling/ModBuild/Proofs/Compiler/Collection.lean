import ModBuild.Compiler.Basic
import ModBuild.Proofs.Disk.Walk
import ModBuild.Proofs.Path.Normalize

/-!
# Units collected from a folder

A compiler hands back a folder of files. Each file becomes one unit, named by the names that lead to
it, and the units are in the order of these names. A file that holds no text spoils the whole batch;
the first one in order is reported (`collect_below`).
-/

namespace ModBuild.CompiledUnit

set_option autoImplicit false

open Component (IsName)
open Disk (Precedes)
open SlashPath (ofSegments)

variable {d : Disk} {dir : FilePath} {names : List String} {content : ByteArray} {text : String}

/-- The names lead from the folder to a file. -/
def IsFile (d : Disk) (dir : FilePath) (names : List String) : Prop :=
  ∃ content, d.get? (d.target dir ++ names) = some (.file content)

/-- The names lead from the folder to a file with a text. -/
def HoldsText (d : Disk) (dir : FilePath) (names : List String) : Prop :=
  ∃ text : String, d.get? (d.target dir ++ names) = some (.file text.toUTF8)

/-- The unit that is made of the file to which the names lead. -/
structure Stands (d : Disk) (dir : FilePath) (names : List String) (u : CompiledUnit) : Prop where
  path : u.path = ofSegments names
  segments : Text.split '/' u.path.toList = names.map String.toList ∧
    ∀ n ∈ names, n ≠ "" ∧ n ≠ "." ∧ n ≠ ".."
  text : d.get? (d.target dir ++ names) = some (.file u.text.toUTF8)
  scope : ∃ first rest, names = first :: rest ∧ u.scope = Scope.ofFolder first

theorem scope_of_path {u : CompiledUnit} {first : String} {rest : List String}
    (h : u.path = ofSegments (first :: rest))
    (hnames : ∀ n ∈ first :: rest, SlashPath.IsSegment n) : u.scope = Scope.ofFolder first := by
  rw [scope, Scope.classify, h, SlashPath.segments_ofSegments hnames]

theorem stands_of_text (hne : names ≠ []) (hnames : ∀ n ∈ names, IsName n)
    (hback : ∀ n ∈ names, '\\' ∉ n.toList)
    (htext : d.get? (d.target dir ++ names) = some (.file text.toUTF8)) :
    Stands d dir names (ofPath (ofSegments names) text) := by
  have hsegments : ∀ n ∈ names, SlashPath.IsSegment n := fun n hn => (hnames n hn).1
  have hpath : (ofPath (ofSegments names) text).path = ofSegments names :=
    SlashPath.normalize_ofSegments hsegments hback
  have hslash : ∀ part ∈ names.map String.toList, '/' ∉ part := by
    intro part hpart
    obtain ⟨n, hn, rfl⟩ := List.mem_map.mp hpart
    exact (hsegments n hn).1
  refine ⟨hpath, ⟨?_, fun n hn => ?_⟩, htext, ?_⟩
  · rw [hpath, SlashPath.toList_ofSegments, Text.split_joinWith (by simpa using hne) hslash]
  · obtain ⟨⟨-, hempty, hdot⟩, hdots⟩ := hnames n hn
    exact ⟨hempty, hdot, hdots⟩
  · obtain ⟨first, rest, rfl⟩ := List.exists_cons_of_ne_nil hne
    exact ⟨first, rest, rfl, scope_of_path hpath hsegments⟩

/-- What becomes of one visit of the walk. -/
def ofVisit (d : Disk) (dir : FilePath) : Disk.Visit → Except CompilerError CompiledUnit
  | .error (p, fault) => .error (.unreadable p (.unlisted p.text fault.message))
  | .ok p =>
    match d.readText p with
    | .ok text => .ok (.ofPath ((dir.relativeTo? p).getD p).text text)
    | .error fault => .error (.unreadable p fault)

theorem collect_of_isFolder (h : d.isFolder dir = true) :
    collect d dir = (d.walkFolder Disk.maxDepth dir).mapM (ofVisit d dir) := by
  obtain ⟨l, hlocate, hfolder⟩ := Disk.isFolder_iff.mp h
  have hthere : d.isThere dir = true := Disk.isThere_iff.mpr ⟨l, _, hlocate, hfolder⟩
  have hwalk : d.walk dir = d.walkFolder Disk.maxDepth dir := by
    refine if_neg fun hfile => ?_
    obtain ⟨l', content, hlocate', hfile⟩ := Disk.isFile_iff.mp hfile
    cases hlocate.symm.trans hlocate'
    cases hfolder.symm.trans hfile
  unfold collect
  rw [if_pos hthere, hwalk]
  rfl

section
variable (hreach : d.Reachable dir) (hdir : dir.text ≠ "") (hne : names ≠ [])
variable (hnames : ∀ n ∈ names, IsName n)
include hreach hnames

theorem ofVisit_of_not_text (hfile : d.get? (d.target dir ++ names) = some (.file content))
    (hcontent : String.fromUTF8? content = none) :
    ofVisit d dir (.ok (names.foldl FilePath.join dir)) =
      .error (.unreadable (names.foldl FilePath.join dir) .notText) := by
  have hread := Disk.read_of_get? (hreach.locate hnames hfile) hfile
  have hfault : d.readText (names.foldl FilePath.join dir) = .error .notText := by
    unfold Disk.readText
    rw [hread]
    simp only [bind, Except.bind, hcontent]
  unfold ofVisit
  simp only [hfault]

include hdir hne

theorem ofVisit_of_text (htext : d.get? (d.target dir ++ names) = some (.file text.toUTF8)) :
    ofVisit d dir (.ok (names.foldl FilePath.join dir)) = .ok (ofPath (ofSegments names) text) := by
  have hread := Disk.readText_eq_ok_iff.mpr
    (Disk.read_of_get? (hreach.locate hnames htext) htext)
  unfold ofVisit
  simp only [hread, FilePath.relativeTo?_foldl_join hdir hne hnames, Option.getD_some]

end

theorem holdsText_or (h : IsFile d dir names) :
    HoldsText d dir names ∨ ¬HoldsText d dir names ∧
      ∃ content, d.get? (d.target dir ++ names) = some (.file content) ∧
        String.fromUTF8? content = none := by
  obtain ⟨content, hfile⟩ := h
  cases htext : String.fromUTF8? content with
  | some text => exact Or.inl ⟨text, Disk.fromUTF8?_eq_some_iff.mp htext ▸ hfile⟩
  | none =>
    refine Or.inr ⟨?_, content, hfile, htext⟩
    rintro ⟨text, hholds⟩
    cases hfile.symm.trans hholds
    rw [Disk.fromUTF8?_eq_some_iff.mpr rfl] at htext
    cases htext

/-- The first element without a property. -/
theorem exists_first_not {α : Type} {P : α → Prop} {xs : List α} (h : ∃ x ∈ xs, ¬P x) :
    ∃ before x after, xs = before ++ x :: after ∧ ¬P x ∧ ∀ y ∈ before, P y := by
  classical
  obtain ⟨x, hx, hno⟩ := h
  have hsome : (xs.find? fun x => decide ¬P x).isSome = true :=
    List.find?_isSome.mpr ⟨x, hx, decide_eq_true hno⟩
  obtain ⟨first, hfirst⟩ := Option.isSome_iff_exists.mp hsome
  obtain ⟨hp, before, after, rfl, hbefore⟩ := List.find?_eq_some_iff_append.mp hfirst
  exact ⟨before, first, after, rfl, of_decide_eq_true hp, fun y hy => by simpa using hbefore y hy⟩

theorem mem_of_precedes {before after : List (List String)} {earlier : List String}
    (hsorted : (before ++ names :: after).Pairwise Precedes)
    (hmem : earlier ∈ before ++ names :: after) (hlt : Precedes earlier names) : earlier ∈ before := by
  rcases List.mem_append.mp hmem with hbefore | hlater
  · exact hbefore
  · have hrest := (List.pairwise_append.mp hsorted).2.1
    rcases List.mem_cons.mp hlater with rfl | hafter
    · exact absurd hlt (List.lt_irrefl _)
    · exact absurd (List.rel_of_pairwise_cons hrest hafter) (List.lt_asymm hlt)

/-- The walk meets the files below a folder in order, and the batch is made of its visits. -/
theorem exists_names_of_collect (htree : d.IsTree) (hnamed : d.Named) (hdistinct : d.Distinct)
    (hfolder : d.isFolder dir = true) (hreach : d.Reachable dir) :
    ∃ found : List (List String), found.Pairwise Precedes ∧
      (∀ names, names ∈ found ↔ IsFile d dir names) ∧ (∀ names ∈ found, names ≠ []) ∧
      collect d dir = found.mapM fun names => ofVisit d dir (.ok (names.foldl FilePath.join dir)) := by
  obtain ⟨l, hlocate, hentry⟩ := Disk.isFolder_iff.mp hfolder
  obtain rfl := Disk.locate_eq_target hlocate
  have hlisted : ∀ v ∈ d.walkFolder Disk.maxDepth dir, ∃ path, v = .ok path :=
    Disk.listed_of_reachable hnamed hreach hentry (Nat.le_add_right _ _)
  obtain ⟨found, hsorted, hfound, hwalk⟩ :=
    Disk.exists_names_of_walkFolder hnamed hlisted htree hdistinct
  refine ⟨found, hsorted, fun names => ?_, fun names hn => ((hfound names).mp hn).1, ?_⟩
  · refine (hfound names).trans ⟨fun h => h.2, fun h => ⟨?_, h⟩⟩
    rintro rfl
    obtain ⟨content, hfile⟩ := h
    rw [List.append_nil, hentry] at hfile
    cases hfile
  · rw [collect_of_isFolder hfolder, hwalk, List.mapM_map]
    rfl

/-- The files below a folder are collected in order. When each of them holds a text there is one unit
for each; otherwise the first one without a text is reported. No folder gives no units. -/
theorem collect_below (d : Disk) (dir : FilePath) (htree : d.IsTree) (hnamed : d.Named)
    (hdistinct : d.Distinct) :
    (d.isThere dir = false → collect d dir = .ok []) ∧
    (d.isFolder dir = true → d.Reachable dir →
      (∀ names, IsFile d dir names → ∀ n ∈ names, '\\' ∉ n.toList) →
      ∃ found : List (List String), found.Pairwise Precedes ∧
        (∀ names, names ∈ found ↔ IsFile d dir names) ∧
        ((∀ names ∈ found, HoldsText d dir names) →
          ∃ units, collect d dir = .ok units ∧ List.Forall₂ (Stands d dir) found units) ∧
        ((∃ names ∈ found, ¬HoldsText d dir names) →
          ∃ names ∈ found, ¬HoldsText d dir names ∧
            (∀ earlier ∈ found, Precedes earlier names → HoldsText d dir earlier) ∧
            collect d dir = .error (.unreadable (names.foldl FilePath.join dir) .notText))) := by
  refine ⟨fun hgone => by rw [collect, hgone]; rfl, fun hfolder hreach hback => ?_⟩
  obtain ⟨found, hsorted, hmem, hne, hcollect⟩ :=
    exists_names_of_collect htree hnamed hdistinct hfolder hreach
  obtain ⟨l, hlocate, -⟩ := Disk.isFolder_iff.mp hfolder
  have hdir : dir.text ≠ "" := Disk.text_ne_of_locate hlocate
  have hnames : ∀ names ∈ found, ∀ n ∈ names, IsName n := by
    intro names hn
    obtain ⟨content, hfile⟩ := (hmem names).mp hn
    exact hnamed.isName_of_get? hfile
  have hvisit : ∀ names ∈ found, HoldsText d dir names → ∃ u,
      ofVisit d dir (.ok (names.foldl FilePath.join dir)) = .ok u ∧ Stands d dir names u := by
    rintro names hn ⟨text, htext⟩
    exact ⟨_, ofVisit_of_text hreach hdir (hne names hn) (hnames names hn) htext,
      stands_of_text (hne names hn) (hnames names hn) (hback names ((hmem names).mp hn)) htext⟩
  refine ⟨found, hsorted, hmem, fun hall => ?_, fun hbad => ?_⟩
  · rw [hcollect]
    exact exists_mapM_eq_ok fun names hn => hvisit names hn (hall names hn)
  · obtain ⟨before, names, after, rfl, hno, hbefore⟩ := exists_first_not hbad
    have hn : names ∈ before ++ names :: after := List.mem_append_right before List.mem_cons_self
    refine ⟨names, hn, hno, fun earlier hearlier hlt => ?_, ?_⟩
    · exact hbefore earlier (mem_of_precedes hsorted hearlier hlt)
    · obtain ⟨content, hfile, hcontent⟩ :=
        (holdsText_or ((hmem names).mp hn)).resolve_left hno |>.2
      rw [hcollect]
      exact mapM_eq_error
        (fun x hx => (hvisit x (List.mem_append_left _ hx) (hbefore x hx)).imp fun u hu => hu.1)
        (ofVisit_of_not_text hreach (hnames names hn) hfile hcontent)

/-- The folder `client` comes before the file `client.lua`, and a file of one byte `FF` has no text. -/
theorem collect_below_output :
    let d (content : ByteArray) : Disk := { entries := [(["o", "client.lua"], .file content),
      (["o", "client", "Main.lua"], .file "x".toUTF8), (["o", "client"], .folder), (["o"], .folder)] }
    (∃ found units, found.Pairwise Precedes ∧ ["client", "Main.lua"] ∈ found ∧
      ["client.lua"] ∈ found ∧ collect (d "y".toUTF8) ⟨"/o"⟩ = .ok units ∧
      List.Forall₂ (Stands (d "y".toUTF8) ⟨"/o"⟩) found units) ∧
    ∃ names, ¬HoldsText (d ⟨#[0xff]⟩) ⟨"/o"⟩ names ∧
      collect (d ⟨#[0xff]⟩) ⟨"/o"⟩ =
        .error (.unreadable (names.foldl FilePath.join ⟨"/o"⟩) .notText) := by
  intro d
  have hback : ∀ content names, IsFile (d content) ⟨"/o"⟩ names → ∀ n ∈ names, '\\' ∉ n.toList := by
    rintro content names ⟨content', hfile⟩ n hn
    have hmem := Disk.mem_entries_of_get? (List.cons_ne_nil _ _) hfile
    have hall : ∀ l ∈ [["o", "client.lua"], ["o", "client", "Main.lua"], ["o", "client"], ["o"]],
        ∀ n ∈ l, '\\' ∉ n.toList := by decide
    exact hall _ (List.mem_map_of_mem (f := (·.1)) hmem) n (List.mem_cons_of_mem _ hn)
  have hreach : ∀ content ∈ ["y".toUTF8, ⟨#[0xff]⟩], (d content).Reachable ⟨"/o"⟩ := by
    intro content hcontent
    refine Disk.reachable_of_entries ?_ ?_ <;> revert content <;> decide +kernel
  have hcontents : ∀ x ∈ (d "y".toUTF8).entries,
      x.2 = .folder ∨ ∃ text ∈ ["x", "y"], x.2 = .file text.toUTF8 := by decide +kernel
  constructor
  · obtain ⟨-, hbelow⟩ := collect_below (d "y".toUTF8) ⟨"/o"⟩ (by decide +kernel) (by decide +kernel)
      (by decide +kernel)
    obtain ⟨found, hsorted, hmem, htexts, -⟩ := hbelow (by decide +kernel)
      (hreach _ List.mem_cons_self) (hback _)
    obtain ⟨units, hcollect, hunits⟩ := htexts fun names hn => by
      obtain ⟨content', hfile⟩ := (hmem names).mp hn
      rcases hcontents _ (Disk.mem_entries_of_get? (List.cons_ne_nil _ _) hfile) with
        hfolder | ⟨text, -, htext⟩
      · cases hfolder
      · cases htext
        exact ⟨text, hfile⟩
    exact ⟨found, units, hsorted, (hmem _).mpr ⟨"x".toUTF8, by decide +kernel⟩,
      (hmem _).mpr ⟨"y".toUTF8, by decide +kernel⟩, hcollect, hunits⟩
  · obtain ⟨-, hbelow⟩ := collect_below (d ⟨#[0xff]⟩) ⟨"/o"⟩ (by decide +kernel) (by decide +kernel)
      (by decide +kernel)
    obtain ⟨found, -, hmem, -, hfails⟩ := hbelow (by decide +kernel)
      (hreach _ (List.mem_cons_of_mem _ List.mem_cons_self)) (hback _)
    have hgarbled : ¬HoldsText (d ⟨#[0xff]⟩) ⟨"/o"⟩ ["client.lua"] := by
      rintro ⟨text, htext⟩
      have hbytes : (d ⟨#[0xff]⟩).get? ["o", "client.lua"] = some (.file ⟨#[0xff]⟩) := by
        decide +kernel
      have hcontent : ⟨#[0xff]⟩ = text.toUTF8 :=
        Entry.file.inj (Option.some.inj (hbytes.symm.trans htext))
      have hdecoded : String.fromUTF8? ⟨#[0xff]⟩ = none := by decide +kernel
      cases hdecoded.symm.trans (Disk.fromUTF8?_eq_some_iff.mpr hcontent)
    obtain ⟨names, hn, hno, -, hcollect⟩ := hfails ⟨["client.lua"], (hmem _).mpr
      ⟨⟨#[0xff]⟩, by decide +kernel⟩, hgarbled⟩
    exact ⟨names, hno, hcollect⟩

end ModBuild.CompiledUnit
