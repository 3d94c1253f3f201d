import ModBuild.Proofs.Watch.Mirror

/-!
# The Lua file of a removed source

The mirror sends a path below a source folder to the path with the same components below the folder
of its scope. For a source that is the path of its Lua file only as long as the layout keeps the unit
at the segments of its path: the mirror knows nothing of the rules for bundles and external modules.
-/

namespace ModBuild

set_option autoImplicit false

open SlashPath

variable {p : Project} {s : Scope} {folder rel : String} {q : FilePath} {cs : List Component}

namespace Watch

theorem target?_of_below (hs : s.folder? = some folder)
    (hq : q.components = p.srcDir.components ++ .name folder :: cs) :
    ∃ t, (Mirror.ofProject p).target? q = some t ∧
      t.components = p.layout.luaRoot.components ++ .name folder :: cs := by
  obtain ⟨hsegment, hdots⟩ := Scope.isSegment_of_folder hs
  have hdir := Layout.scopeDir_of_folder (l := p.layout) hs
  obtain ⟨t, ht, htarget⟩ := mapRoot?_of_below (q := q) (p.scopeSource s, p.layout.scopeDir s)
    (by simp [Project.components_scopeSource hs]) (hdir ▸ Scope.text_join_ne _ hs)
    (by rw [Project.components_scopeSource hs, List.append_assoc, List.singleton_append, hq])
  have hother : ∀ (s' : Scope) (folder' : String), s'.folder? = some folder' → folder' ≠ folder →
      Mirror.mapRoot? (p.scopeSource s', p.layout.scopeDir s') q = none := by
    intro s' folder' hs' hne
    apply mapRoot?_of_outside
    rw [hq, Project.components_scopeSource hs', List.prefix_append_right_inj]
    rintro ⟨rest, hrest⟩
    exact hne (Component.name.inj (List.cons.inj hrest).1)
  refine ⟨t, ?_, ?_⟩
  · unfold Mirror.target? Mirror.ofProject Scope.owners
    rw [List.findSome?_append]
    cases s with
    | client => simp [ht]
    | server =>
      cases hs
      simp [hother .client _ rfl (by decide), ht]
    | shared =>
      cases hs
      simp [hother .client _ rfl (by decide), hother .server _ rfl (by decide), ht]
    | none => cases hs
  · rw [htarget, hdir, FilePath.components_join _ hsegment, Component.ofSegment_of_ne hdots,
      List.append_assoc, List.singleton_append]

theorem isSentinel_eq_false (hcs : cs ≠ [])
    (hq : q.components = p.srcDir.components ++ .name folder :: cs) :
    (Mirror.ofProject p).isSentinel q = false := by
  rw [Bool.eq_false_iff]
  intro hsentinel
  obtain ⟨n, hn, -⟩ := exists_name_of_isSentinel hsentinel
  rw [hq, List.append_cancel_left_eq] at hn
  exact hcs (List.cons.inj hn).2

theorem isEntryMarker_eq_false {parts : List String}
    (hq : q.components = p.srcDir.components ++ .name folder :: parts.map Component.ofSegment)
    (hparts : parts ≠ [EntryMarker.fileName]) : (Mirror.ofProject p).isEntryMarker q = false := by
  rw [Bool.eq_false_iff]
  intro hmarker
  obtain ⟨s, hs, hsame⟩ := isEntryMarker_iff.mp hmarker
  obtain ⟨folder', hfolder⟩ := Scope.exists_folder_of_owner hs
  rw [FilePath.Same, hq, components_marker hfolder, List.append_cancel_left_eq] at hsame
  apply hparts
  exact List.map_injective_iff.mpr Component.ofSegment_injective (List.cons.inj hsame).2

theorem lowerName_of_fileName? {name : String} (h : q.fileName? = some (name ++ ".ts")) :
    lowerName q = Text.lower name.toList ++ ".ts".toList := by
  rw [lowerName, h, Option.getD_some, String.toList_append, Text.lower, List.map_append]
  rfl

theorem isDeclaration_eq_false {name : String} (h : q.fileName? = some (name ++ ".ts"))
    (hname : ¬".d".toList <:+ Text.lower name.toList) : isDeclaration q = false := by
  rw [isDeclaration, lowerName_of_fileName? h, Bool.eq_false_iff]
  intro hsuffix
  obtain ⟨rest, hrest⟩ := List.isSuffixOf_iff_suffix.mp hsuffix
  have hending : ".d.ts".toList = ".d".toList ++ ".ts".toList := rfl
  rw [hending, ← List.append_assoc] at hrest
  exact hname ⟨rest, List.append_cancel_right hrest⟩

theorem isSource_eq_true {name : String} (h : q.fileName? = some (name ++ ".ts"))
    (hname : ¬".d".toList <:+ Text.lower name.toList) : isSource q = true := by
  rw [isSource, isDeclaration_eq_false h hname, lowerName_of_fileName? h, Bool.not_false,
    Bool.and_true]
  exact List.isSuffixOf_iff_suffix.mpr (List.suffix_append _ _)

theorem ofSegment_source (name : String) :
    Component.ofSegment (name ++ ".ts") = .name (name ++ ".ts") := by
  apply Component.ofSegment_of_ne
  intro heq
  have hlast := congrArg (·.toList.getLast?) heq
  simp at hlast

theorem components_lua {t : FilePath} {name : String} (hname : name ≠ "")
    (ht : t.components = cs ++ [.name (name ++ ".ts")]) :
    (t.withExtension "lua").components = cs ++ [Component.ofSegment (name ++ ".lua")] := by
  have hstem : FilePath.cutExtension (name ++ ".ts").toList = (name.toList, some ['t', 's']) := by
    rw [String.toList_append]
    exact FilePath.cutExtension_append (fun he => hname (String.toList_eq_nil_iff.mp he)) (by decide)
  have hlua : String.ofList (name.toList ++ '.' :: "lua".toList) = name ++ ".lua" := by
    apply String.toList_injective
    simp
  have hdots : name ++ ".lua" ≠ ".." := by
    intro heq
    have hlast := congrArg (·.toList.getLast?) heq
    simp at hlast
  rw [FilePath.components_withExtension ht (by decide) (by decide), hstem, hlua,
    Component.ofSegment_of_ne hdots]

/-- What a removed source takes with it: the file with the components of the source below the folder
of its scope, but for the extension. -/
theorem plan_removed_source (hs : s.folder? = some folder) (hrel : rel.toList.head? ≠ some '/')
    (hname : lastName rel ≠ "")
    (hdeclaration : ¬".d".toList <:+ Text.lower (lastName rel).toList)
    (hmarker : segments (rel ++ ".ts") ≠ [EntryMarker.fileName])
    (hq : q.Same ((p.scopeSource s).join (rel ++ ".ts"))) :
    ∃ target, plan (.ofProject p) (.removed q) = .remove target ∧
      target.Same ((p.layout.scopeDir s).join (rel ++ ".lua")) := by
  obtain ⟨above, hsegments⟩ := exists_segments_append rel
  have hsegment : IsSegment (lastName rel ++ ".lua") :=
    isSegment_lastName_append hname (by decide) (by decide)
  have hts := hsegments ".ts" (isSegment_lastName_append hname (by decide) (by decide))
  have hbelow : q.components = p.srcDir.components ++
      .name folder :: (segments (rel ++ ".ts")).map Component.ofSegment := by
    rw [hq, Project.scopeSource_of_folder hs,
      Scope.components_join _ hs (head?_append_ne_slash hrel (by decide))]
  obtain ⟨t, ht, htarget⟩ := target?_of_below hs hbelow
  have hsplit : ∀ cs : List Component,
      cs ++ .name folder :: (segments (rel ++ ".ts")).map Component.ofSegment =
        cs ++ .name folder :: above.map Component.ofSegment ++ [.name (lastName rel ++ ".ts")] := by
    intro cs
    simp [hts, ofSegment_source]
  have hfile := FilePath.fileName?_of_components (hbelow.trans (hsplit _))
  refine ⟨t.withExtension "lua", ?_, ?_⟩
  · rw [plan, FileEvent.path, isSentinel_eq_false (by simp [hts]) hbelow,
      isEntryMarker_eq_false hbelow hmarker]
    simp [planRemoved, isDeclaration_eq_false hfile hdeclaration, isSource_eq_true hfile hdeclaration,
      ht]
  · rw [FilePath.Same, components_lua hname (htarget.trans (hsplit _)),
      Layout.scopeDir_of_folder hs, Scope.components_join _ hs (head?_append_ne_slash hrel (by decide)),
      hsegments ".lua" hsegment]
    simp

/-- A removed source takes a file with it that has its name below the folder of its scope, and this
is the place of its unit unless the layout moves the unit: as the bundle, or because its path goes
through the folder of external modules. -/
theorem removed_target_iff (hs : s.folder? = some folder) (hrel : rel.toList.head? ≠ some '/')
    (hback : '\\' ∉ rel.toList) (hname : lastName rel ≠ "")
    (hdeclaration : ¬".d".toList <:+ Text.lower (lastName rel).toList)
    (hmarker : segments (rel ++ ".ts") ≠ [EntryMarker.fileName])
    (hq : q.Same ((p.scopeSource s).join (rel ++ ".ts"))) :
    ∃ target, plan (.ofProject p) (.removed q) = .remove target ∧
      target.Same ((p.layout.scopeDir s).join (rel ++ ".lua")) ∧
      (target.Same (p.layout.place (folder ++ "/" ++ rel ++ ".lua")).path ↔
        if lastName rel = "lualib_bundle" then
          folder = "shared" ∧ segments (rel ++ ".lua") = ["lualib_bundle.lua"]
        else
          p.settings.externalModuleDir ∈ folder :: segments (rel ++ ".lua") →
            folder = "shared" ∧ p.settings.externalModuleDir = "shared") := by
  obtain ⟨target, hplan, htarget⟩ := plan_removed_source hs hrel hname hdeclaration hmarker hq
  refine ⟨target, hplan, htarget, ?_⟩
  obtain ⟨above, hsegments⟩ := exists_segments_append rel
  have hlua := hsegments ".lua" (isSegment_lastName_append hname (by decide) (by decide))
  have hbundle : (folder :: segments (rel ++ ".lua")).getLast? = some Layout.bundleName ↔
      lastName rel = "lualib_bundle" := by
    have hname : Layout.bundleName = "lualib_bundle" ++ ".lua" := by decide
    rw [hlua, ← List.cons_append, List.getLast?_concat, Option.some.injEq, hname,
      String.append_left_inj]
  have hback' : '\\' ∉ (rel ++ ".lua").toList := by simpa using hback
  rw [FilePath.Same, htarget, ← FilePath.Same, String.append_assoc,
    Layout.same_place_of_scope_iff hs (head?_append_ne_slash hrel (by decide)) hback',
    Layout.placedParts_eq_self_iff]
  by_cases hlast : lastName rel = "lualib_bundle"
  · rw [if_pos (hbundle.mpr hlast), if_pos hlast, List.cons_eq_cons]
    rfl
  · rw [if_neg (mt hbundle.mp hlast), if_neg hlast, List.head?_cons, Option.some.injEq]
    exact imp_congr Iff.rfl and_comm

theorem removed_target_nested :
    let p : Project :=
      ⟨⟨"/proj"⟩, { id := "MyFirst", name := "N", poster := "p.png", description := "D" }, {}⟩
    let q : FilePath := ⟨"/proj/src/shared/util/Strings.ts"⟩
    q.Same ((p.scopeSource .shared).join ("util/Strings" ++ ".ts")) ∧
      lastName "util/Strings" = "Strings" ∧
      segments ("util/Strings" ++ ".ts") ≠ [EntryMarker.fileName] ∧
      ∃ target, plan (.ofProject p) (.removed q) = .remove target ∧
        target.Same (p.layout.place "shared/util/Strings.lua").path := by
  intro p q
  have hname : lastName "util/Strings" = "Strings" := by decide
  have hmarker : segments ("util/Strings" ++ ".ts") ≠ [EntryMarker.fileName] := by decide
  have hq : q.Same ((p.scopeSource .shared).join ("util/Strings" ++ ".ts")) := by decide +kernel
  have hdeclared : "shared" ++ "/" ++ "util/Strings" ++ ".lua" = "shared/util/Strings.lua" := by decide
  have hs : Scope.shared.folder? = some "shared" := rfl
  obtain ⟨target, hplan, -, hplace⟩ := removed_target_iff hs (by decide) (by decide)
    (hname ▸ by decide) (hname ▸ by decide) hmarker hq
  rw [hdeclared] at hplace
  exact ⟨hq, hname, hmarker, target, hplan, hplace.mpr (by decide +kernel)⟩

/-- A removed source of a module below the external folder takes a file with it that no pass has
written and leaves the Lua file of the module. -/
theorem removed_target_misses_external :
    let p : Project :=
      ⟨⟨"/proj"⟩, { id := "MyFirst", name := "N", poster := "p.png", description := "D" }, {}⟩
    let q : FilePath := ⟨"/proj/src/client/node_modules/x.ts"⟩
    let target : FilePath := ⟨"/proj/dist/MyFirst/media/lua/client/node_modules/x.lua"⟩
    q = (p.scopeSource .client).join "node_modules/x.ts" ∧
      (Mirror.ofProject p).isEntryMarker q = false ∧
      plan (.ofProject p) (.removed q) = .remove target ∧
      (p.layout.place "client/node_modules/x.lua").path =
        ⟨"/proj/dist/MyFirst/media/lua/shared/x.lua"⟩ ∧
      ¬target.Same (p.layout.place "client/node_modules/x.lua").path := by
  decide +kernel

end Watch

end ModBuild
