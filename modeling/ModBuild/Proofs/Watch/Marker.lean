import ModBuild.Proofs.Disk.Run
import ModBuild.Proofs.Watch.Mirror

/-!
# Entry markers while watching

A pass writes its entry markers into the folders that are watched. No event on one of them asks for
anything, so a pass never leads to the next one. Every other source asks for a rebuild, also one with
the name of a marker that stands somewhere else.
-/

namespace ModBuild

set_option autoImplicit false

namespace EntryMarker

variable {src path : FilePath} {placed paths : List FilePath} {scopes : List Scope} {d d' : Disk}

theorem placeNext_ok {s : Scope} (h : placeNext src placed s d = (.ok paths, d')) :
    paths = placed ∨ paths = placed ++ [(src.join (s.folder?.getD "")).join fileName] := by
  unfold placeNext at h
  dsimp only at h
  split at h
  · cases h
    exact Or.inl rfl
  · split at h
    · cases h
      exact Or.inr rfl
    · cases h

theorem mem_of_place_ok (h : scopes.foldlM (placeNext src) placed d = (.ok paths, d'))
    (hpath : path ∈ paths) :
    path ∈ placed ∨ ∃ s ∈ scopes, path = (src.join (s.folder?.getD "")).join fileName := by
  induction scopes generalizing placed d with
  | nil =>
    cases h
    exact Or.inl hpath
  | cons s scopes ih =>
    rw [List.foldlM_cons, Change.bind_ok_iff] at h
    obtain ⟨next, d₁, hnext, hrest⟩ := h
    rcases ih hrest with hmem | ⟨s', hs', heq⟩
    · rcases placeNext_ok hnext with rfl | rfl
      · exact Or.inl hmem
      · rcases List.mem_append.mp hmem with hmem | hnew
        · exact Or.inl hmem
        · exact Or.inr ⟨s, List.mem_cons_self, List.mem_singleton.mp hnew⟩
    · exact Or.inr ⟨s', List.mem_cons_of_mem s hs', heq⟩

end EntryMarker

namespace Watch

variable {p : Project} {q : FilePath}

theorem plan_of_marker {e : FileEvent} {s : Scope} (hs : s ∈ Scope.owners)
    (hq : e.path.Same ((p.scopeSource s).join EntryMarker.fileName)) :
    plan (.ofProject p) e = .ignore := by
  rw [plan.eq_def, isEntryMarker_iff.mpr ⟨s, hs, hq⟩, Bool.or_true, if_pos rfl]

theorem plan_of_source {e : FileEvent} (he : e ∈ [FileEvent.added q, .changed q])
    (hsource : ".ts".toList <:+ lowerName q) (hdeclaration : ¬".d.ts".toList <:+ lowerName q)
    (hmarker : (Mirror.ofProject p).isEntryMarker q = false) :
    plan (.ofProject p) e = .rebuild := by
  have hd : isDeclaration q = false := by
    rw [isDeclaration, Bool.eq_false_iff]
    exact fun h => hdeclaration (List.isSuffixOf_iff_suffix.mp h)
  have hs : isSource q = true := by
    rw [isSource, hd, Bool.not_false, Bool.and_true]
    exact List.isSuffixOf_iff_suffix.mpr hsource
  rw [plan_eq_planAdded he (isSentinel_of_source hsource) hmarker, planAdded, hd,
    if_neg Bool.false_ne_true, hs, if_pos rfl]

theorem exists_folder_iff_exists_scope :
    (∃ folder ∈ ["client", "server", "shared"], q.Same ((p.srcDir.join folder).join "_.ts")) ↔
      ∃ s ∈ Scope.owners, q.Same ((p.scopeSource s).join EntryMarker.fileName) := by
  have hfolders : ["client", "server", "shared"] = Scope.owners.map fun s => s.folder?.getD "" := rfl
  rw [hfolders]
  constructor
  · rintro ⟨folder, hfolder, hq⟩
    obtain ⟨s, hs, rfl⟩ := List.mem_map.mp hfolder
    exact ⟨s, hs, hq⟩
  · rintro ⟨s, hs, hq⟩
    exact ⟨_, List.mem_map_of_mem hs, hq⟩

/-- Nothing happens on any event on a marker that was placed, in all the folders or in the first of
them only because a later one failed. Among the sources that are added or changed the markers are the
only ones that do not ask for a rebuild. -/
theorem ignored_iff_marker (p : Project) :
    (∀ scopes, scopes <+: Scope.owners → ∀ d placed d',
      scopes.foldlM (EntryMarker.placeNext p.srcDir) [] d = (.ok placed, d') →
        ∀ path ∈ placed, ∀ e : FileEvent, e.path.Same path → plan (.ofProject p) e = .ignore) ∧
      ∀ q, ".ts".toList <:+ lowerName q → ¬".d.ts".toList <:+ lowerName q →
        ∀ e ∈ [FileEvent.added q, .changed q], plan (.ofProject p) e =
          if ∃ folder ∈ ["client", "server", "shared"], q.Same ((p.srcDir.join folder).join "_.ts")
          then .ignore else .rebuild := by
  constructor
  · intro scopes hscopes d placed d' hplace path hpath e he
    rcases EntryMarker.mem_of_place_ok hplace hpath with hnone | ⟨s, hs, rfl⟩
    · cases hnone
    · exact plan_of_marker (hscopes.subset hs) he
  · intro q hsource hdeclaration e he
    split
    · next hmarker =>
      obtain ⟨s, hs, hq⟩ := exists_folder_iff_exists_scope.mp hmarker
      have hpath : e.path = q := by
        rcases List.mem_pair.mp he with rfl | rfl <;> rfl
      exact plan_of_marker hs (hpath ▸ hq)
    · next hmarker =>
      apply plan_of_source he hsource hdeclaration
      rw [Bool.eq_false_iff, Ne, isEntryMarker_iff, ← exists_folder_iff_exists_scope]
      exact hmarker

/-- The marker of one folder, spelled in another way, and a source of the same name below it. -/
theorem ignored_iff_marker_client :
    let p : Project :=
      ⟨⟨"/p"⟩, { id := "M", name := "N", poster := "p.png", description := "D" }, {}⟩
    let d : Disk :=
      { entries := [(["p"], .folder), (["p", "src"], .folder), (["p", "src", "client"], .folder)] }
    let marker : FilePath := ⟨"/p/src/client/_.ts"⟩
    let q : FilePath := ⟨"/p/src/client/ui/_.ts"⟩
    (EntryMarker.place p.srcDir d).1.toOption = some [marker] ∧
      plan (.ofProject p) (.removed ⟨"/p/src/./client//_.ts"⟩) = .ignore ∧
      ".ts".toList <:+ lowerName q ∧ ¬".d.ts".toList <:+ lowerName q ∧
      plan (.ofProject p) (.added q) = .rebuild := by
  intro p d marker q
  have hplaced : (EntryMarker.place p.srcDir d).1.toOption = some [marker] := by decide +kernel
  have hplace : Scope.owners.foldlM (EntryMarker.placeNext p.srcDir) [] d =
      (.ok [marker], (EntryMarker.place p.srcDir d).2) :=
    Prod.ext (eq_ok_of_toOption hplaced) rfl
  have hsource : ".ts".toList <:+ lowerName q := by decide +kernel
  have hdeclaration : ¬".d.ts".toList <:+ lowerName q := by decide +kernel
  have hother : ¬∃ folder ∈ ["client", "server", "shared"],
      q.Same ((p.srcDir.join folder).join "_.ts") := by decide +kernel
  obtain ⟨hmarkers, hsources⟩ := ignored_iff_marker p
  refine ⟨hplaced, ?_, hsource, hdeclaration, ?_⟩
  · exact hmarkers _ (List.prefix_refl _) d _ _ hplace marker List.mem_cons_self (.removed _)
      (by decide +kernel)
  · rw [hsources q hsource hdeclaration _ List.mem_cons_self, if_neg hother]

end Watch

end ModBuild
