import ModBuild.Proofs.Pass.Folder
import ModBuild.Watch.Plan

/-!
# The mirror

The mirror sends a path to the same place below the target of the first mirrored folder that holds
it, and no two paths to one place. Whether a path is a sentinel or an entry marker depends on its
components alone, like everything else that planning asks of it.
-/

namespace ModBuild.Watch

set_option autoImplicit false

open Component MirroredFolder SlashPath

variable {p : Project} {q t : FilePath} {f : MirroredFolder} {cs : List Component}

theorem roots_ofProject (p : Project) :
    (Mirror.ofProject p).roots = p.mirroredFolders.map fun f => (f.source, f.target p.layout) := by
  rw [Mirror.ofProject, Project.mirroredFolders, List.map_append, List.map_map, List.map_map]
  refine congrArg₂ (· ++ ·) (List.map_congr_left fun s hs => ?_) rfl
  rw [Function.comp_apply, target_ofScope hs]
  rfl

theorem mapRoot?_of_below (root : FilePath × FilePath) (hbase : root.1.components ≠ [])
    (htarget : root.2.text.toList ≠ []) (hq : q.components = root.1.components ++ cs) :
    ∃ t, Mirror.mapRoot? root q = some t ∧ t.components = root.2.components ++ cs := by
  obtain ⟨r, hr, hrelative, htext⟩ := FilePath.exists_relativeTo? hbase hq
  rw [Mirror.mapRoot?, hr, Option.map_some]
  refine ⟨_, rfl, ?_⟩
  split
  · next hempty =>
    rw [hempty] at htext
    rw [← htext]
    exact (List.append_nil _).symm
  · rw [FilePath.components_join_of_relative htarget hrelative, htext]

theorem mapRoot?_of_outside {root : FilePath × FilePath}
    (h : ¬root.1.components <+: q.components) : Mirror.mapRoot? root q = none := by
  rw [Mirror.mapRoot?, FilePath.relativeTo?, if_neg (mt List.isPrefixOf_iff_prefix.mp h)]
  rfl

theorem mapRoot?_of_not_holds (h : f.holds q = false) :
    Mirror.mapRoot? (f.source, f.target p.layout) q = none := by
  apply mapRoot?_of_outside
  rintro ⟨cs, hcs⟩
  rw [holds_iff.mpr ⟨cs, hcs.symm⟩] at h
  cases h

theorem target?_eq_none (h : p.mirroredFolders.find? (·.holds q) = none) :
    (Mirror.ofProject p).target? q = none := by
  rw [Mirror.target?, roots_ofProject, List.findSome?_eq_none_iff]
  intro root hroot
  obtain ⟨f, hf, rfl⟩ := List.mem_map.mp hroot
  exact mapRoot?_of_not_holds (by simpa using List.find?_eq_none.mp h f hf)

/-- The first mirrored folder that holds a path decides about its target. -/
theorem exists_target? (hp : p.settings.FoldersNamed)
    (h : p.mirroredFolders.find? (·.holds q) = some f) :
    ∃ t cs, (Mirror.ofProject p).target? q = some t ∧ q.components = f.source.components ++ cs ∧
      t.components = (f.target p.layout).components ++ cs := by
  obtain ⟨hholds, before, after, hfolders, hbefore⟩ := List.find?_eq_some_iff_append.mp h
  have hf : f ∈ p.mirroredFolders := List.mem_of_find?_eq_some h
  obtain ⟨cs, hcs⟩ := holds_iff.mp hholds
  obtain ⟨t, ht, htarget⟩ := mapRoot?_of_below (f.source, f.target p.layout)
    (source_components_ne_nil hp hf) (target_text_ne hf p.layout) hcs
  refine ⟨t, cs, ?_, hcs, htarget⟩
  rw [Mirror.target?, roots_ofProject, hfolders, List.map_append, List.map_cons,
    List.findSome?_append, List.findSome?_eq_none_iff.mpr, Option.none_or, List.findSome?_cons, ht]
  intro root hroot
  obtain ⟨g, hg, rfl⟩ := List.mem_map.mp hroot
  exact mapRoot?_of_not_holds (by simpa using hbefore g hg)

theorem exists_folder_of_target? (hp : p.settings.FoldersNamed)
    (h : (Mirror.ofProject p).target? q = some t) :
    ∃ f cs, p.mirroredFolders.find? (·.holds q) = some f ∧
      q.components = f.source.components ++ cs ∧
      t.components = (f.target p.layout).components ++ cs := by
  cases hfind : p.mirroredFolders.find? (·.holds q) with
  | none =>
    rw [target?_eq_none hfind] at h
    cases h
  | some f =>
    obtain ⟨t', cs, ht', hq, htarget⟩ := exists_target? hp hfind
    rw [h] at ht'
    cases ht'
    exact ⟨f, cs, rfl, hq, htarget⟩

/-- Two paths have one target exactly when they are one path. The same folder is the first to hold
both, since the targets of two folders have nothing in common. -/
theorem target?_same_iff {q' t' : FilePath} (hp : p.settings.FoldersNamed)
    (h : (Mirror.ofProject p).target? q = some t) (h' : (Mirror.ofProject p).target? q' = some t') :
    t.Same t' ↔ q.Same q' := by
  obtain ⟨f, cs, hfind, hq, ht⟩ := exists_folder_of_target? hp h
  obtain ⟨g, cs', hfind', hq', ht'⟩ := exists_folder_of_target? hp h'
  have hsame : f = g → (t.Same t' ↔ q.Same q') := by
    rintro rfl
    rw [FilePath.Same, FilePath.Same, hq, hq', ht, ht', List.append_cancel_left_eq,
      List.append_cancel_left_eq]
  constructor
  · intro htarget
    have hbelow : (f.target p.layout).components ++ cs = (g.target p.layout).components ++ cs' := by
      rw [← ht, ← ht', htarget]
    have hfolder := eq_of_target_append (List.mem_of_find?_eq_some hfind)
      (List.mem_of_find?_eq_some hfind') hbelow
    exact (hsame hfolder).mp htarget
  · intro hpath
    have hholds : (fun f : MirroredFolder => f.holds q) = fun f => f.holds q' := by
      funext f
      rw [holds, holds, hpath]
    rw [hholds, hfind', Option.some.injEq] at hfind
    exact (hsame hfind.symm).mpr hpath

/-- Models and textures come from one folder inside that of the client, and sounds from the whole
source folder. -/
theorem target?_same_iff_nested :
    let p : Project := ⟨⟨"/p"⟩, { id := "M", name := "N", poster := "p.png", description := "D" },
      { modelsDir := "src/client/models", texturesDir := "src/client/models", soundDir := "src",
        runtimeLibraries := [] }⟩
    let m := Mirror.ofProject p
    p.settings.FoldersNamed ∧
      ∃ t t' t'', m.target? ⟨"/p/src/client/models/a.fbx"⟩ = some t ∧
        m.target? ⟨"//p/src/./client/models//a.fbx/"⟩ = some t' ∧
        m.target? ⟨"/p/src/models/a.fbx"⟩ = some t'' ∧ t.Same t' ∧ ¬t.Same t'' := by
  intro p m
  have hp : p.settings.FoldersNamed := by decide
  obtain ⟨t, ht⟩ : ∃ t, m.target? ⟨"/p/src/client/models/a.fbx"⟩ = some t :=
    Option.isSome_iff_exists.mp (by decide +kernel)
  obtain ⟨t', ht'⟩ : ∃ t, m.target? ⟨"//p/src/./client/models//a.fbx/"⟩ = some t :=
    Option.isSome_iff_exists.mp (by decide +kernel)
  obtain ⟨t'', ht''⟩ : ∃ t, m.target? ⟨"/p/src/models/a.fbx"⟩ = some t :=
    Option.isSome_iff_exists.mp (by decide +kernel)
  refine ⟨hp, t, t', t'', ht, ht', ht'', (target?_same_iff hp ht ht').mpr (by decide +kernel), ?_⟩
  exact mt (target?_same_iff hp ht ht'').mp (by decide +kernel)

theorem exists_name_of_isSentinel (h : (Mirror.ofProject p).isSentinel q = true) :
    ∃ n, q.components = p.srcDir.components ++ [.name n] ∧
      Text.lower n.toList ∈ Mirror.sentinels.map String.toList := by
  have hbase : p.srcDir.components ≠ [] := by simp [p.components_srcDir]
  have hsrc : (Mirror.ofProject p).srcDir = p.srcDir := rfl
  rw [Mirror.isSentinel, hsrc] at h
  by_cases hbelow : p.srcDir.components <+: q.components
  · obtain ⟨cs, hcs⟩ := hbelow
    obtain ⟨r, hr, -, htext⟩ := FilePath.exists_relativeTo? hbase hcs.symm
    rw [hr] at h
    dsimp only at h
    have hlower : Text.lower r.text.toList ∈ Mirror.sentinels.map String.toList := by
      obtain ⟨name, hname, hmatch⟩ := List.any_eq_true.mp h
      exact List.mem_map.mpr ⟨name, hname, (of_decide_eq_true hmatch).symm⟩
    have hall : ∀ part ∈ Mirror.sentinels.map String.toList, '/' ∉ part ∧
        part ≠ Text.lower [] ∧ part ≠ Text.lower ['.'] ∧ part ≠ Text.lower ['.', '.'] := by decide
    obtain ⟨hslash, hempty, hdot, hdots⟩ := hall _ hlower
    have hslash' : '/' ∉ r.text.toList := fun hm => hslash (List.mem_map.mpr ⟨'/', hm, rfl⟩)
    have hname : ofPart? r.text.toList = some (.name r.text) := by
      have htrivial : isTrivial r.text.toList = false := by
        simp only [isTrivial, Bool.or_eq_false_iff, List.isEmpty_eq_false_iff,
          decide_eq_false_iff_not]
        exact ⟨fun he => hempty (congrArg Text.lower he), fun he => hdot (congrArg Text.lower he)⟩
      rw [ofPart?_of_not_isTrivial htrivial, String.ofList_toList, ofSegment_of_ne]
      exact fun he => hdots (congrArg (fun text => Text.lower text.toList) he)
    refine ⟨r.text, ?_, hlower⟩
    rw [← hcs, ← htext, ofText, Text.split_of_not_mem hslash', List.filterMap_cons_some hname,
      List.filterMap_nil]
  · rw [FilePath.relativeTo?, if_neg (mt List.isPrefixOf_iff_prefix.mp hbelow)] at h
    cases h

theorem components_marker {s : Scope} {folder : String} (hs : s.folder? = some folder) :
    ((p.scopeSource s).join EntryMarker.fileName).components =
      p.srcDir.components ++ [.name folder, .name EntryMarker.fileName] := by
  have hname : IsName EntryMarker.fileName := by decide
  rw [FilePath.components_join _ hname.1, hname.ofSegment, Project.components_scopeSource hs,
    List.append_assoc, List.singleton_append]

theorem isEntryMarker_iff :
    (Mirror.ofProject p).isEntryMarker q = true ↔
      ∃ s ∈ Scope.owners, q.Same ((p.scopeSource s).join EntryMarker.fileName) := by
  rw [Mirror.isEntryMarker, Bool.and_eq_true, decide_eq_true_eq, List.any_eq_true]
  have hsrc : (Mirror.ofProject p).srcDir = p.srcDir := rfl
  constructor
  · rintro ⟨hname, s, hs, habove⟩
    obtain ⟨folder, hfolder⟩ := Scope.exists_folder_of_owner hs
    obtain ⟨cs, hcs⟩ := FilePath.exists_components_of_fileName? hname
    obtain ⟨above, hparent, hcomponents⟩ := FilePath.exists_parent? hcs
    rw [hparent] at habove
    have hsame : above.components = (p.scopeSource s).components := of_decide_eq_true habove
    refine ⟨s, hs, ?_⟩
    rw [FilePath.Same, hcs, ← hcomponents, hsame, components_marker hfolder,
      Project.components_scopeSource hfolder, List.append_assoc, List.singleton_append]
  · rintro ⟨s, hs, hq⟩
    obtain ⟨folder, hfolder⟩ := Scope.exists_folder_of_owner hs
    rw [FilePath.Same, components_marker hfolder, List.append_cons] at hq
    obtain ⟨above, hparent, hcomponents⟩ := FilePath.exists_parent? hq
    refine ⟨FilePath.fileName?_of_components hq, s, hs, ?_⟩
    rw [hparent]
    apply decide_eq_true
    rw [FilePath.Same, hcomponents, hsrc, ← Project.components_scopeSource hfolder]
    rfl

/-- What an event may ask for. All but a rebuild comes from the target of its path. -/
inductive MayAsk (m : Mirror) (e : FileEvent) : Action → Prop
  | ignore : MayAsk m e .ignore
  | rebuild : MayAsk m e .rebuild
  | copy {target : FilePath} : isDeclaration e.path = false → isSource e.path = false →
      m.target? e.path = some target → MayAsk m e (.copy e.path target)
  | remove {target : FilePath} : m.target? e.path = some target → MayAsk m e (.remove target)
  | removeLua {target : FilePath} : m.target? e.path = some target →
      MayAsk m e (.remove (target.withExtension "lua"))
  | makeFolder {target : FilePath} : m.target? e.path = some target → MayAsk m e (.makeFolder target)

variable {m : Mirror} {e : FileEvent}

theorem mayAsk_planAdded (m : Mirror) (e : FileEvent) : MayAsk m e (planAdded m e.path) := by
  unfold planAdded
  split
  · exact .ignore
  next hdeclaration =>
  split
  · exact .rebuild
  next hsource =>
  split
  · next htarget => exact .copy (Bool.eq_false_iff.mpr hdeclaration) (Bool.eq_false_iff.mpr hsource) htarget
  · exact .ignore

theorem mayAsk_planRemoved (m : Mirror) (e : FileEvent) : MayAsk m e (planRemoved m e.path) := by
  unfold planRemoved
  split
  · exact .ignore
  split
  · next htarget =>
    split
    · exact .removeLua htarget
    · exact .remove htarget
  · exact .ignore

theorem mayAsk_of_target? {wrap : FilePath → Action}
    (h : ∀ target, m.target? e.path = some target → MayAsk m e (wrap target)) :
    MayAsk m e (((m.target? e.path).map wrap).getD .ignore) := by
  cases htarget : m.target? e.path with
  | none => exact .ignore
  | some target => exact h target htarget

theorem mayAsk_plan (m : Mirror) (e : FileEvent) : MayAsk m e (plan m e) := by
  rw [plan.eq_def]
  split
  · exact .ignore
  cases e with
  | added q => exact mayAsk_planAdded m (.added q)
  | changed q => exact mayAsk_planAdded m (.changed q)
  | removed q => exact mayAsk_planRemoved m (.removed q)
  | folderAdded q => exact mayAsk_of_target? fun _ => .makeFolder
  | folderRemoved q => exact mayAsk_of_target? fun _ => .remove

theorem plan_eq_planAdded {q : FilePath} (he : e ∈ [FileEvent.added q, .changed q])
    (hsentinel : m.isSentinel q = false) (hmarker : m.isEntryMarker q = false) :
    plan m e = planAdded m q := by
  have hignored : ¬(m.isSentinel q || m.isEntryMarker q) = true := by simp [hsentinel, hmarker]
  rcases List.mem_pair.mp he with rfl | rfl
  · rw [plan, FileEvent.path, if_neg hignored]
  · rw [plan, FileEvent.path, if_neg hignored]

theorem lowerName_of_components {text : String} (h : q.components = cs ++ [.name text]) :
    lowerName q = Text.lower text.toList := by
  rw [lowerName, FilePath.fileName?_of_components h, Option.getD_some]

theorem isSentinel_of_source (h : ".ts".toList <:+ lowerName q) :
    (Mirror.ofProject p).isSentinel q = false := by
  rw [Bool.eq_false_iff]
  intro hsentinel
  obtain ⟨n, hq, hn⟩ := exists_name_of_isSentinel hsentinel
  have hall : ∀ name ∈ Mirror.sentinels.map String.toList, ¬".ts".toList <:+ name := by decide
  rw [lowerName_of_components hq] at h
  exact hall _ hn h

end ModBuild.Watch
