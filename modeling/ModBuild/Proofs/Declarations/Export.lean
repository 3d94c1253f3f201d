import ModBuild.Declarations
import ModBuild.Proofs.Disk.Walk
import ModBuild.Proofs.Pass.Folder
import ModBuild.Proofs.Session.Calls

/-!
# Export of the declarations

The declaration files are collected before anything is written, each file below the scope folders
once (`collects_of_handwritten`). The export then changes the exported file and nothing else, and it
changes nothing when there is nothing to write from (`exportFile_disk`).
-/

namespace ModBuild.Declarations

set_option autoImplicit false

open Component (IsName)

variable {d : Disk} {p : Project} {s : Scope} {names : List String}
variable {files : List (String × String)}

/-- The names lead from a folder to a declaration file. -/
structure IsDeclaration (d : Disk) (dir : FilePath) (names : List String) : Prop where
  folder : d.isFolder dir = true
  file : ∃ content, d.get? (d.target dir ++ names) = some (.file content)
  name : ∃ name ∈ names.getLast?, ".d.ts".toList <:+ Text.lower name.toList

/-- The file that the names lead to from the folder of a scope. -/
def location (d : Disk) (p : Project) (x : Scope × List String) : Location :=
  d.target (p.scopeSource x.1) ++ x.2

/-- A file as it is read: its text, and its path as seen from the project. -/
structure Reads (d : Disk) (p : Project) (x : Scope × List String) (file : String × String) : Prop where
  text : d.get? (location d p x) = some (.file file.2.toUTF8)
  path : file.1 =
    let path := x.2.foldl FilePath.join (p.scopeSource x.1)
    SlashPath.normalize ((p.root.relativeTo? path).getD path).text

/-- The declaration files of a scope folder, each once. -/
structure CollectsIn (d : Disk) (p : Project) (s : Scope) (found : List (List String))
    (files : List (String × String)) : Prop where
  all : ∀ names, names ∈ found ↔ IsDeclaration d (p.scopeSource s) names
  nodup : found.Nodup
  read : List.Forall₂ (fun names => Reads d p (s, names)) found files

theorem isDeclarationFile_iff (dir : FilePath) (hnames : ∀ n ∈ names, IsName n) (hne : names ≠ []) :
    isDeclarationFile (names.foldl FilePath.join dir) = true ↔
      ∃ name ∈ names.getLast?, ".d.ts".toList <:+ Text.lower name.toList := by
  have hcomponents := dir.components_foldl_join fun n hn => (hnames n hn).1
  rw [List.map_congr_left fun n hn => (hnames n hn).ofSegment] at hcomponents
  cases names using List.reverseRecOn with
  | nil => exact absurd rfl hne
  | append_singleton init n _ =>
    rw [List.map_append, ← List.append_assoc] at hcomponents
    rw [isDeclarationFile, FilePath.fileName?_of_components hcomponents, List.isSuffixOf_iff_suffix]
    simp

theorem exists_path_of_readVisit {dir : FilePath} {v : Disk.Visit} {file : String × String}
    (h : readVisit d p dir v = .ok file) : ∃ path, v = .ok path := by
  cases v with
  | ok path => exact ⟨path, rfl⟩
  | error e => cases h

theorem reads_of_readVisit {file : String × String} (hnames : ∀ n ∈ names, IsName n)
    (h : readVisit d p (p.scopeSource s) (.ok (names.foldl FilePath.join (p.scopeSource s))) =
      .ok file) : Reads d p (s, names) file := by
  unfold readVisit at h
  dsimp only at h
  split at h
  · next text htext =>
    cases h
    have hread := (Disk.read_eq_ok_iff.mp (Disk.readText_eq_ok_iff.mp htext)).2
    rw [Disk.target_foldl_join d _ (fun n hn => (hnames n hn).1)
      fun hdots => (hnames _ hdots).2 rfl] at hread
    exact ⟨hread, rfl⟩
  · cases h

section
variable (htree : d.IsTree) (hnamed : d.Named) (hdistinct : d.Distinct)
include htree hnamed hdistinct

theorem exists_found_of_handwrittenIn (h : handwrittenIn d p s = .ok files) :
    ∃ found, CollectsIn d p s found files := by
  unfold handwrittenIn at h
  dsimp only at h
  split at h
  · next hfolder =>
    have hread := forall₂_of_mapM_eq_ok h
    have hwalk : d.walk (p.scopeSource s) = d.walkFolder Disk.maxDepth (p.scopeSource s) := by
      refine if_neg fun hfile => ?_
      obtain ⟨l, hl, hentry⟩ := Disk.isFolder_iff.mp hfolder
      obtain ⟨l', content, hl', hentry'⟩ := Disk.isFile_iff.mp hfile
      cases hl.symm.trans hl'
      cases hentry.symm.trans hentry'
    rw [hwalk] at hread
    have hwanted := ((List.forall₂_and_left _ _).mp
      (hread.imp fun v file hv => ⟨exists_path_of_readVisit hv, hv⟩)).1
    have hlisted : ∀ v ∈ d.walkFolder Disk.maxDepth (p.scopeSource s), ∃ path, v = .ok path := by
      intro v hv
      cases v with
      | ok path => exact ⟨path, rfl⟩
      | error e => exact hwanted _ (List.mem_filter.mpr ⟨hv, rfl⟩)
    obtain ⟨found, hsorted, hfound, hvisits⟩ :=
      Disk.exists_names_of_walkFolder hnamed hlisted htree hdistinct
    have hnodup := Disk.nodup_of_precedes hsorted
    have hnames : ∀ names ∈ found, ∀ n ∈ names, IsName n := by
      intro names hmem
      obtain ⟨-, content, hfile⟩ := (hfound names).mp hmem
      exact hnamed.isName_of_get? hfile
    rw [hvisits, List.filter_map, List.forall₂_map_left_iff] at hread
    refine ⟨found.filter fun names =>
      isDeclarationFile (names.foldl FilePath.join (p.scopeSource s)), ?_, hnodup.filter _, ?_⟩
    · intro names
      rw [List.mem_filter]
      constructor
      · rintro ⟨hmem, hname⟩
        obtain ⟨hne, hfile⟩ := (hfound names).mp hmem
        exact ⟨hfolder, hfile, (isDeclarationFile_iff _ (hnames names hmem) hne).mp hname⟩
      · rintro ⟨-, hfile, hname⟩
        have hne : names ≠ [] := by
          rintro rfl
          obtain ⟨name, hlast, -⟩ := hname
          cases hlast
        have hmem := (hfound names).mpr ⟨hne, hfile⟩
        exact ⟨hmem, (isDeclarationFile_iff _ (hnames names hmem) hne).mpr hname⟩
    · have hkept := (List.forall₂_and_left _ _).mpr
        ⟨fun names hmem => hnames names (List.mem_of_mem_filter hmem), hread⟩
      exact hkept.imp fun names file h => reads_of_readVisit h.1 h.2
  · next hfolder =>
    cases h
    exact ⟨[], fun names => iff_of_false List.not_mem_nil fun h => hfolder h.folder, .nil, .nil⟩

end

/-- The declaration files of all scope folders, each once, in the order of the scopes. -/
structure Collects (d : Disk) (p : Project) (found : List (Scope × List String))
    (files : List (String × String)) : Prop where
  all : ∀ s names, (s, names) ∈ found ↔
    s ∈ [Scope.client, .server, .shared] ∧ IsDeclaration d (p.scopeSource s) names
  once : (found.map (location d p)).Nodup
  order : ∃ client server shared : List (List String), found =
    client.map (Scope.client, ·) ++ server.map (Scope.server, ·) ++ shared.map (Scope.shared, ·)
  read : List.Forall₂ (Reads d p) found files

theorem location_eq {folder : String} (hs : s.folder? = some folder) :
    location d p (s, names) = d.target p.srcDir ++ folder :: names := by
  have hcomponents : (p.scopeSource s).components = p.srcDir.components ++ [folder].map .name :=
    Project.components_scopeSource hs
  rw [location, Disk.target_of_names hcomponents, List.append_assoc, List.singleton_append]

theorem eq_of_location_eq {x y : Scope × List String} (hx : x.1 ∈ Scope.owners)
    (hy : y.1 ∈ Scope.owners) (h : location d p x = location d p y) : x = y := by
  obtain ⟨s, names⟩ := x
  obtain ⟨s', names'⟩ := y
  obtain ⟨folder, hs⟩ := Scope.exists_folder_of_owner hx
  obtain ⟨folder', hs'⟩ := Scope.exists_folder_of_owner hy
  rw [location_eq hs, location_eq hs', List.append_cancel_left_eq, List.cons.injEq] at h
  obtain ⟨rfl, rfl⟩ := h
  have hfolder : ∀ a ∈ Scope.owners, ∀ b ∈ Scope.owners, a.folder? = b.folder? → a = b := by decide
  rw [hfolder s hx s' hy (hs.trans hs'.symm)]

section
variable (htree : d.IsTree) (hnamed : d.Named) (hdistinct : d.Distinct)
include htree hnamed hdistinct

theorem collects_of_handwritten (h : handwritten d p = .ok files) :
    ∃ found, Collects d p found files := by
  obtain ⟨parts, hparts, hfiles⟩ := bind_eq_ok_iff.mp h
  cases hfiles
  have hread := forall₂_of_mapM_eq_ok hparts
  rcases hread with _ | ⟨hclient, _ | ⟨hserver, _ | ⟨hshared, hnil⟩⟩⟩
  cases hnil
  obtain ⟨client, hclient⟩ := exists_found_of_handwrittenIn htree hnamed hdistinct hclient
  obtain ⟨server, hserver⟩ := exists_found_of_handwrittenIn htree hnamed hdistinct hserver
  obtain ⟨shared, hshared⟩ := exists_found_of_handwrittenIn htree hnamed hdistinct hshared
  have hall : ∀ s names, (s, names) ∈ client.map (Scope.client, ·) ++
      server.map (Scope.server, ·) ++ shared.map (Scope.shared, ·) ↔
        s ∈ [Scope.client, .server, .shared] ∧ IsDeclaration d (p.scopeSource s) names := by
    intro s names
    cases s <;> simp [hclient.all, hserver.all, hshared.all]
  refine ⟨_, hall, List.Nodup.map_on ?_ ?_, ⟨client, server, shared, rfl⟩, ?_⟩
  · intro x hx y hy
    exact eq_of_location_eq ((hall x.1 x.2).mp hx).1 ((hall y.1 y.2).mp hy).1
  · have hpair : ∀ s : Scope, Function.Injective (fun names : List String => (s, names)) :=
      fun s _ _ h => (Prod.mk.inj h).2
    rw [List.nodup_append, List.nodup_append]
    refine ⟨⟨hclient.nodup.map (hpair _), hserver.nodup.map (hpair _), by simp⟩,
      hshared.nodup.map (hpair _), ?_⟩
    rintro x hx y hy rfl
    obtain ⟨names, -, rfl⟩ := List.mem_map.mp hy
    simp at hx
  · have hclient' := List.forall₂_map_left_iff.mpr hclient.read
    have hserver' := List.forall₂_map_left_iff.mpr hserver.read
    have hshared' := List.forall₂_map_left_iff.mpr hshared.read
    simpa using List.rel_append (List.rel_append hclient' hserver') hshared'

end

section
variable {compiler : Compiler} {σ : Session} {generated : String}
variable (hcompiler : ∀ request d, (compiler.declarations request d).2 = d)
include hcompiler

theorem exportFile_of_compiler_error {e : CompilerError}
    (h : (compiler.declarations (Builder.request p true) σ.disk).1 = .error e) :
    (exportFile p compiler σ).1 = .error (.declarations e) ∧
      (exportFile p compiler σ).2.disk = σ.disk := by
  unfold exportFile
  simp only [Task.status, run_bind, Task.record_apply, Task.disk_apply, Task.change_apply, hcompiler, h]
  exact ⟨rfl, rfl⟩

theorem exportFile_of_handwritten_error (f : Failure)
    (hgenerated : (compiler.declarations (Builder.request p true) σ.disk).1 = .ok generated)
    (h : handwritten σ.disk p = .error f) :
    (exportFile p compiler σ).1 = .error f ∧ (exportFile p compiler σ).2.disk = σ.disk := by
  unfold exportFile
  simp only [Task.status, run_bind, Task.record_apply, Task.disk_apply, Task.change_apply,
    Task.look_apply, hcompiler, hgenerated, Except.mapError, h, and_self]

section
variable {r : Option FilePath} {σ' : Session} (hrun : exportFile p compiler σ = (.ok r, σ'))
include hrun

/-- An export that succeeded has collected what the compiler declares and what is written by hand. -/
theorem exists_collected : ∃ generated files,
    (compiler.declarations (Builder.request p true) σ.disk).1 = .ok generated ∧
      handwritten σ.disk p = .ok files := by
  have hr : (exportFile p compiler σ).1 = .ok r := by rw [hrun]
  cases hdeclared : (compiler.declarations (Builder.request p true) σ.disk).1 with
  | error e => cases hr.symm.trans (exportFile_of_compiler_error hcompiler hdeclared).1
  | ok generated =>
    cases hfiles : handwritten σ.disk p with
    | error f => cases hr.symm.trans (exportFile_of_handwritten_error hcompiler f hdeclared hfiles).1
    | ok files => exact ⟨generated, files, rfl, rfl⟩

variable (hgenerated : (compiler.declarations (Builder.request p true) σ.disk).1 = .ok generated)
variable (hfiles : handwritten σ.disk p = .ok files)
include hgenerated hfiles

theorem exportFile_of_nothing (htree : σ.disk.IsTree) (h : aggregate? generated files = none) :
    r = none ∧ σ'.disk.isThere p.declarationFile = false ∧
      ∀ l, l ≠ σ.disk.target p.declarationFile → σ'.disk.get? l = σ.disk.get? l := by
  unfold exportFile at hrun
  simp only [Task.status, run_bind, Task.record_apply, Task.disk_apply, Task.change_apply,
    Task.look_apply, hcompiler, hgenerated, Except.mapError, hfiles, h] at hrun
  split at hrun
  · obtain ⟨⟨⟩, τ, hremove, hreturn⟩ := run_bind_ok_iff.mp hrun
    obtain ⟨d', hremoved, rfl⟩ := Task.change_ok_iff.mp hremove
    cases hreturn
    exact ⟨rfl, Change.removeFile_ok htree hremoved⟩
  · next hthere =>
    cases hrun
    exact ⟨rfl, by simpa using hthere, fun l _ => rfl⟩

theorem exportFile_of_text {text : String} (h : aggregate? generated files = some text) :
    r = some p.declarationFile ∧ σ'.disk.readText p.declarationFile = .ok text ∧
      σ.disk.Writes {p.declarationFile} σ'.disk := by
  have hwrite {τ : Session} (hmade : σ.disk.Writes ∅ τ.disk) (hrest : (do
      Task.change (Failure.write p.declarationFile) (Change.writeText p.declarationFile text)
      pure (some p.declarationFile) : Task Failure (Option FilePath)) τ = (.ok r, σ')) :
      r = some p.declarationFile ∧ σ'.disk.readText p.declarationFile = .ok text ∧
        σ.disk.Writes {p.declarationFile} σ'.disk := by
    obtain ⟨⟨⟩, τ', hwrite, hreturn⟩ := run_bind_ok_iff.mp hrest
    obtain ⟨d', hwritten, rfl⟩ := Task.change_ok_iff.mp hwrite
    cases hreturn
    obtain ⟨hlocate, hfile⟩ := Change.write_ok hwritten
    exact ⟨rfl, Disk.readText_eq_ok_iff.mpr (Disk.read_of_get? hlocate hfile),
      (hmade.mono (Set.empty_subset _)).trans ((Change.respects_write _ _).of_run hwritten)⟩
  unfold exportFile at hrun
  simp only [Task.status, run_bind, Task.record_apply, Task.disk_apply, Task.change_apply,
    Task.look_apply, hcompiler, hgenerated, Except.mapError, hfiles, h] at hrun
  cases hparent : p.declarationFile.parent? with
  | none =>
    rw [hparent] at hrun
    refine hwrite ?_ hrun
    exact .refl ∅ σ.disk
  | some above =>
    rw [hparent] at hrun
    obtain ⟨⟨⟩, τ, hmake, hrest⟩ := run_bind_ok_iff.mp hrun
    obtain ⟨d', hmade, rfl⟩ := Task.change_ok_iff.mp hmake
    exact hwrite ((Change.respects_makeFolders above).of_run hmade) hrest

end

end

/-- The export leaves the disk as it was when the compiler fails or the files cannot be collected. When
there is nothing to export, the exported file is gone and all the rest is as it was. Otherwise the
file holds what was collected, and all other files are as they were. -/
theorem exportFile_disk (p : Project) (compiler : Compiler) (σ : Session) (htree : σ.disk.IsTree)
    (hnamed : σ.disk.Named) (hdistinct : σ.disk.Distinct)
    (hcompiler : ∀ request d, (compiler.declarations request d).2 = d) :
    let declared := (compiler.declarations (Builder.request p true) σ.disk).1
    let result := (exportFile p compiler σ).1
    let after := (exportFile p compiler σ).2.disk
    (∀ e, declared = .error e → result = .error (.declarations e) ∧ after = σ.disk) ∧
    (∀ generated f, declared = .ok generated → handwritten σ.disk p = .error f →
      result = .error f ∧ after = σ.disk) ∧
    (result = .ok none → after.isThere p.declarationFile = false ∧
      ∀ l, l ≠ σ.disk.target p.declarationFile → after.get? l = σ.disk.get? l) ∧
    ∀ file, result = .ok (some file) → file = p.declarationFile ∧
      (∃ generated found files text, declared = .ok generated ∧
        handwritten σ.disk p = .ok files ∧ Collects σ.disk p found files ∧
        aggregate? generated files = some text ∧ after.readText file = .ok text) ∧
      ∀ l, l ≠ σ.disk.target file → ∀ content,
        after.get? l = some (.file content) ↔ σ.disk.get? l = some (.file content) := by
  intro declared result after
  have hrun {r : Option FilePath} (h : result = .ok r) :
      exportFile p compiler σ = (.ok r, (exportFile p compiler σ).2) := Prod.ext h rfl
  refine ⟨fun e => exportFile_of_compiler_error hcompiler,
    fun generated f => exportFile_of_handwritten_error hcompiler f, fun hnone => ?_,
    fun file hsome => ?_⟩
  · obtain ⟨generated, files, hdeclared, hfiles⟩ := exists_collected hcompiler (hrun hnone)
    cases htext : aggregate? generated files with
    | none => exact (exportFile_of_nothing hcompiler (hrun hnone) hdeclared hfiles htree htext).2
    | some text => cases (exportFile_of_text hcompiler (hrun hnone) hdeclared hfiles htext).1
  · obtain ⟨generated, files, hdeclared, hfiles⟩ := exists_collected hcompiler (hrun hsome)
    cases htext : aggregate? generated files with
    | none => cases (exportFile_of_nothing hcompiler (hrun hsome) hdeclared hfiles htree htext).1
    | some text =>
      obtain ⟨hr, hread, hwrites⟩ := exportFile_of_text hcompiler (hrun hsome) hdeclared hfiles htext
      cases hr
      obtain ⟨found, hfound⟩ := collects_of_handwritten htree hnamed hdistinct hfiles
      refine ⟨rfl, ⟨generated, found, files, text, hdeclared, hfiles, hfound, htext, hread⟩,
        fun l hl => hwrites.file l fun q hq => ?_⟩
      rw [Set.mem_singleton_iff.mp hq]
      exact hl

/-- An old file is removed when the compiler declares nothing. -/
theorem exportFile_disk_stale :
    let p : Project := ⟨⟨"/p"⟩, { id := "Mod", name := "Mod", poster := "", description := "" }, {}⟩
    let compiler : Compiler := ⟨fun _ => pure [], fun _ => pure ""⟩
    let σ : Session := { disk := {
      entries := [(["p"], .folder), (["p", "dist"], .folder),
        (["p", "dist", "Mod.d.ts"], .file "old".toUTF8), (["p", "dist", "keep"], .file "kept".toUTF8)] } }
    σ.disk.isThere p.declarationFile = true ∧
      (exportFile p compiler σ).2.disk.isThere p.declarationFile = false ∧
      (exportFile p compiler σ).2.disk.get? ["p", "dist", "keep"] = some (.file "kept".toUTF8) := by
  intro p compiler σ
  have hall := exportFile_disk p compiler σ (by decide) (by decide) (by decide) fun _ _ => rfl
  have hnone := eq_ok_of_toOption (x := (exportFile p compiler σ).1) (a := none) (by decide +kernel)
  obtain ⟨hgone, hkept⟩ := hall.2.2.1 hnone
  exact ⟨by decide, hgone, hkept _ (by decide)⟩

end ModBuild.Declarations
