import ModBuild.Pass.EntryMarker
import ModBuild.Proofs.Disk.Tree

/-!
# Entry markers leave no trace

On a disk that is a tree the markers stand at locations that were free, none below another one. They
are put on the disk one after the other and taken away in the same order, and what is left is the disk
as it was. The same holds when a marker cannot be placed. In between no folder of a scope is without a
marker or something else of that name.
-/

namespace ModBuild

set_option autoImplicit false

namespace Disk

variable {d : Disk} {l m : Location} {ls : List Location}

/-- With an empty file at each location. -/
def marked (d : Disk) (ls : List Location) : Disk := ls.foldl (fun d l => d.put l (.file .empty)) d

theorem workingDir_marked (d : Disk) (ls : List Location) : (d.marked ls).workingDir = d.workingDir := by
  induction ls generalizing d with
  | nil => rfl
  | cons l ls ih => exact ih (d.put l (.file .empty))

theorem refused_marked (d : Disk) (ls : List Location) : (d.marked ls).refused = d.refused := by
  induction ls generalizing d with
  | nil => rfl
  | cons l ls ih => exact ih (d.put l (.file .empty))

theorem get?_marked (h : ∀ l ∈ ls, l ≠ []) :
    (d.marked ls).get? m = if m ∈ ls then some (.file .empty) else d.get? m := by
  induction ls generalizing d with
  | nil => rfl
  | cons l ls ih =>
    obtain ⟨hl, hls⟩ := List.forall_mem_cons.mp h
    rw [marked, List.foldl_cons, ← marked, ih hls, get?_put hl]
    by_cases hm : m ∈ ls
    · rw [if_pos hm, if_pos (List.mem_cons_of_mem l hm)]
    · by_cases heq : m = l
      · rw [if_neg hm, if_pos heq, if_pos (heq ▸ List.mem_cons_self)]
      · have hnot : m ∉ l :: ls := by simp [heq, hm]
        rw [if_neg hm, if_neg heq, if_neg hnot]

theorem erase_put_comm {e : Entry} (h : ¬l <+: m) : (d.put m e).erase l = (d.erase l).put m e := by
  have hm : l.isPrefixOf m = false := by
    rw [Bool.eq_false_iff, Ne, List.isPrefixOf_iff_prefix]
    exact h
  unfold erase put
  dsimp only
  rw [List.filter_cons_of_pos (by simp [hm]), List.filter_comm]

theorem erase_marked (h : ∀ m ∈ ls, ¬l <+: m) : (d.marked ls).erase l = (d.erase l).marked ls := by
  induction ls generalizing d with
  | nil => rfl
  | cons m ls ih =>
    obtain ⟨hm, hls⟩ := List.forall_mem_cons.mp h
    rw [marked, List.foldl_cons, ← marked, ih hls, erase_put_comm hm]
    rfl

end Disk

namespace EntryMarker

variable {d : Disk} {src path : FilePath} {ps next : List FilePath} {scopes : List Scope} {s : Scope}

/-- Markers that can be placed on a disk one after the other. -/
structure Fit (d : Disk) (ps : List FilePath) : Prop where
  free : ∀ p ∈ ps, d.CanWrite p ∧ d.get? (d.target p) = none
  apart : (ps.map d.target).Pairwise fun l m => ¬l <+: m

/-- The disk with the markers on it. -/
def placed (d : Disk) (ps : List FilePath) : Disk := d.marked (ps.map d.target)

namespace Fit

theorem nil (d : Disk) : Fit d [] := ⟨List.forall_mem_nil _, List.Pairwise.nil⟩

theorem get?_placed (h : Fit d ps) (m : Location) :
    (placed d ps).get? m = if m ∈ ps.map d.target then some (.file .empty) else d.get? m := by
  refine Disk.get?_marked fun l hl => ?_
  obtain ⟨p, hp, rfl⟩ := List.mem_map.mp hl
  exact (h.free p hp).1.target_ne_nil

theorem folder_iff (h : Fit d ps) (m : Location) :
    (placed d ps).get? m = some .folder ↔ d.get? m = some .folder := by
  rw [h.get?_placed]
  split
  · next hmem =>
    obtain ⟨p, hp, rfl⟩ := List.mem_map.mp hmem
    rw [(h.free p hp).2]
    exact iff_of_false (fun h => by cases h) fun h => by cases h
  · exact Iff.rfl

theorem get?_placed_of_some (h : Fit d ps) {m : Location} {e : Entry} (hm : d.get? m = some e) :
    (placed d ps).get? m = some e := by
  rw [h.get?_placed, if_neg, hm]
  intro hmem
  obtain ⟨p, hp, rfl⟩ := List.mem_map.mp hmem
  rw [(h.free p hp).2] at hm
  cases hm

theorem isFolder_placed (h : Fit d ps) (p : FilePath) : (placed d ps).isFolder p = d.isFolder p := by
  have hdir : (placed d ps).workingDir = d.workingDir := Disk.workingDir_marked d _
  rw [Bool.eq_iff_iff, Disk.isFolder_iff, Disk.isFolder_iff]
  refine exists_congr fun l => and_congr ⟨fun hl => ?_, fun hl => ?_⟩ (h.folder_iff l)
  · exact Disk.locate_of_folders hdir.symm (fun m => (h.folder_iff m).mp) hl
  · exact Disk.locate_of_folders hdir (fun m => (h.folder_iff m).mpr) hl

theorem canWrite_iff (h : Fit d ps) (p : FilePath) : (placed d ps).CanWrite p ↔ d.CanWrite p := by
  have hdir : (placed d ps).workingDir = d.workingDir := Disk.workingDir_marked d _
  unfold Disk.CanWrite
  rw [placed, Disk.refused_marked, ← placed]
  simp only [ne_eq, h.folder_iff]
  constructor
  · rintro ⟨l, name, hslot, hrest⟩
    exact ⟨l, name, Disk.slot_of_folders hdir.symm (fun m => (h.folder_iff m).mp) hslot, hrest⟩
  · rintro ⟨l, name, hslot, hrest⟩
    exact ⟨l, name, Disk.slot_of_folders hdir (fun m => (h.folder_iff m).mpr) hslot, hrest⟩

theorem target_placed (d : Disk) (ps : List FilePath) (p : FilePath) :
    (placed d ps).target p = d.target p :=
  Disk.target_of_workingDir (Disk.workingDir_marked d _) p

/-- A new marker does not lie below the others, because its folder was there before them. -/
theorem snoc (h : Fit d ps) (htree : d.IsTree) (hwrite : (placed d ps).CanWrite path)
    (hfree : (placed d ps).get? (d.target path) = none) : Fit d (ps ++ [path]) := by
  have hbase := (h.canWrite_iff path).mp hwrite
  rw [h.get?_placed, ite_eq_iff] at hfree
  obtain ⟨hnew, hnone⟩ : d.target path ∉ ps.map d.target ∧ d.get? (d.target path) = none := by
    rcases hfree with ⟨-, hfile⟩ | hfree
    · cases hfile
    · exact hfree
  constructor
  · rw [List.forall_mem_append, List.forall_mem_singleton]
    exact ⟨h.free, hbase, hnone⟩
  · rw [List.map_append, List.pairwise_append]
    refine ⟨h.apart, List.pairwise_singleton _ _, fun l hl m hm hprefix => ?_⟩
    rw [List.map_singleton, List.mem_singleton] at hm
    subst hm
    obtain ⟨p, hp, rfl⟩ := List.mem_map.mp hl
    obtain ⟨below, hbelow⟩ := hprefix
    cases below using List.reverseRecOn with
    | nil =>
      rw [List.append_nil] at hbelow
      exact hnew (hbelow ▸ hl)
    | append_singleton below n _ =>
      have hparent := hbase.parent
      rw [← hbelow, ← List.append_assoc, List.dropLast_concat,
        htree.get?_append_eq_none (h.free p hp).2] at hparent
      cases hparent

theorem tail (h : Fit d (path :: ps)) : Fit d ps :=
  ⟨fun p hp => h.free p (List.mem_cons_of_mem path hp), h.apart.of_cons⟩

end Fit

/-- Taking the markers away restores the disk. -/
theorem lift_placed (h : Fit d ps) (htree : d.IsTree) : lift ps (placed d ps) = (.ok (), d) := by
  induction ps with
  | nil => rfl
  | cons p ps ih =>
    obtain ⟨hwrite, hfree⟩ := h.free p List.mem_cons_self
    have hfile : (placed d (p :: ps)).get? (d.target p) = some (.file .empty) := by
      rw [h.get?_placed, if_pos (by simp)]
    rw [← Fit.target_placed d (p :: ps)] at hfile
    have hremove := Change.removeFile_of_canWrite ((h.canWrite_iff p).mpr hwrite) hfile
    have herase : (placed d (p :: ps)).erase (d.target p) = placed d ps := by
      rw [placed, List.map_cons, Disk.marked, List.foldl_cons, ← Disk.marked,
        Disk.erase_marked (List.pairwise_cons.mp h.apart).1, htree.erase_put hfree, ← placed]
    rw [Fit.target_placed, herase] at hremove
    unfold lift
    rw [hremove]
    exact ih h.tail

/-- If the folder of the scope is there, it has an entry of the name of a marker. -/
def Entered (src : FilePath) (s : Scope) (d : Disk) : Prop :=
  d.isFolder (src.join (s.folder?.getD "")) = true →
    d.isThere ((src.join (s.folder?.getD "")).join fileName) = true

/-- From the markers `ps`, `next` goes on until the folders of `scopes` have an entry. -/
structure Serves (d : Disk) (src : FilePath) (scopes : List Scope) (ps next : List FilePath) : Prop where
  fit : Fit d next
  grows : (placed d ps).Grows (placed d next)
  entered : ∀ s ∈ scopes, Entered src s (placed d next)

theorem Entered.grows (h : Entered src s (placed d ps)) (hps : Fit d ps) (hnext : Fit d next)
    (hgrows : (placed d ps).Grows (placed d next)) : Entered src s (placed d next) := by
  intro hfolder
  rw [hnext.isFolder_placed, ← hps.isFolder_placed] at hfolder
  exact hgrows.isThere (h hfolder)

theorem Serves.cons {between : List FilePath} (h : Serves d src [s] ps between)
    (hrest : Serves d src scopes between next) : Serves d src (s :: scopes) ps next where
  fit := hrest.fit
  grows := h.grows.trans hrest.grows
  entered := List.forall_mem_cons.mpr
    ⟨(h.entered s List.mem_cons_self).grows h.fit hrest.fit hrest.grows, hrest.entered⟩

theorem placed_snoc (d : Disk) (ps : List FilePath) (p : FilePath) :
    placed d (ps ++ [p]) = (placed d ps).put (d.target p) (.file .empty) := by
  rw [placed, placed, Disk.marked, Disk.marked, List.map_append, List.foldl_append]
  rfl

/-- One more marker, placed where nothing was. -/
theorem Fit.serves_snoc (h : Fit d ps) (htree : d.IsTree)
    (hpath : (src.join (s.folder?.getD "")).join fileName = path) (hcan : (placed d ps).CanWrite path)
    (hfree : (placed d ps).isThere path = false) : Serves d src [s] ps (ps ++ [path]) := by
  have hlocate := hcan.locate
  have hne := hcan.target_ne_nil
  have hgrows : (placed d ps).Grows (placed d (ps ++ [path])) := by
    have hwrite := Change.grows_write path .empty (placed d ps)
    rwa [Change.write_of_canWrite hcan, Fit.target_placed, ← placed_snoc] at hwrite
  have hnone := Disk.get?_of_not_isThere hlocate hfree
  rw [Fit.target_placed] at hlocate hne hnone
  refine ⟨h.snoc htree hcan hnone, hgrows, List.forall_mem_singleton.mpr fun _ => ?_⟩
  rw [hpath, Disk.isThere_iff]
  refine ⟨d.target path, .file .empty, hgrows.locate hlocate, ?_⟩
  rw [placed_snoc, Disk.get?_put hne, if_pos rfl]

theorem placeNext_cases (src : FilePath) (s : Scope) (h : Fit d ps) (htree : d.IsTree) :
    (∃ path fault, placeNext src ps s (placed d ps) = (.error (.marker path fault), d)) ∨
      ∃ next, Serves d src [s] ps next ∧
        placeNext src ps s (placed d ps) = (.ok next, placed d next) := by
  unfold placeNext
  dsimp only
  split
  · next hskip =>
    rw [Bool.or_eq_true, Bool.not_eq_true'] at hskip
    refine Or.inr ⟨ps, ⟨h, .refl _, List.forall_mem_singleton.mpr fun hfolder => ?_⟩, rfl⟩
    rcases hskip with hmissing | hentry
    · rw [hmissing] at hfolder
      cases hfolder
    · exact hentry
  · next hplace =>
    rw [Bool.or_eq_true, not_or, Bool.not_eq_true (Disk.isThere _ _)] at hplace
    generalize hpath : (src.join (s.folder?.getD "")).join fileName = path at hplace ⊢
    rcases Change.write_cases path .empty (placed d ps) with ⟨fault, hwrite⟩ | ⟨hcan, hwrite⟩
    · rw [hwrite]
      dsimp only
      rw [lift_placed h htree]
      exact Or.inl ⟨path, fault, rfl⟩
    · refine Or.inr ⟨ps ++ [path], h.serves_snoc htree hpath hcan hplace.2, ?_⟩
      rw [hwrite, Fit.target_placed, ← placed_snoc]

/-- The induction is on the folders that are left, the markers placed before them being given. -/
theorem foldlM_placeNext_cases (src : FilePath) (scopes : List Scope) (h : Fit d ps) (htree : d.IsTree) :
    (∃ path fault, scopes.foldlM (placeNext src) ps (placed d ps) = (.error (.marker path fault), d)) ∨
      ∃ next, Serves d src scopes ps next ∧
        scopes.foldlM (placeNext src) ps (placed d ps) = (.ok next, placed d next) := by
  induction scopes generalizing ps with
  | nil => exact Or.inr ⟨ps, ⟨h, .refl _, List.forall_mem_nil _⟩, rfl⟩
  | cons s scopes ih =>
    rw [List.foldlM_cons, run_bind]
    rcases placeNext_cases src s h htree with ⟨path, fault, hnext⟩ | ⟨next, hserves, hnext⟩
    · rw [hnext]
      exact Or.inl ⟨path, fault, rfl⟩
    · rw [hnext]
      rcases ih hserves.fit with herror | ⟨last, hrest, hlast⟩
      · exact Or.inl herror
      · exact Or.inr ⟨last, hserves.cons hrest, hlast⟩

/-- Either all markers are placed, or one could not be and the disk is as it was. -/
theorem place_cases (src : FilePath) (htree : d.IsTree) :
    (∃ path fault, place src d = (.error (.marker path fault), d)) ∨
      ∃ ps, Serves d src Scope.owners [] ps ∧ place src d = (.ok ps, placed d ps) :=
  foldlM_placeNext_cases src Scope.owners (.nil d) htree

/-- Once the markers are placed every folder of a scope has an entry of that name, nothing that was
there has changed, and taking the markers away restores the disk. When one cannot be placed the disk
is as it was. -/
theorem place_restores (src : FilePath) (htree : d.IsTree) :
    (∀ ps d', place src d = (.ok ps, d') →
      (∀ folder ∈ ["client", "server", "shared"], d'.isFolder (src.join folder) = true →
        d'.isThere ((src.join folder).join "_.ts") = true) ∧
      (∀ l e, d.get? l = some e → d'.get? l = some e) ∧
      lift ps d' = (.ok (), d)) ∧
    ∀ f d', place src d = (.error f, d') → d' = d := by
  rcases place_cases src htree with ⟨path, fault, hplace⟩ | ⟨ps, hserves, hplace⟩
  · rw [hplace]
    refine ⟨fun ps d' h => (by cases h), fun f d' h => ?_⟩
    cases h
    rfl
  · rw [hplace]
    refine ⟨fun ps' d' h => ?_, fun f d' h => (by cases h)⟩
    cases h
    refine ⟨?_, fun l e => hserves.fit.get?_placed_of_some, lift_placed hserves.fit htree⟩
    have hfolders : ["client", "server", "shared"] = Scope.owners.map (·.folder?.getD "") := rfl
    rw [hfolders, List.forall_mem_map]
    exact hserves.entered

/-- The client and shared folders get a marker, next to a file of the user in the server folder. When
the shared folder refuses its marker, the client folder does not keep one either. -/
theorem place_restores_around_own_file :
    let d (refused : List (Location × Fault)) : Disk :=
      { entries := [(["src"], .folder), (["src", "client"], .folder), (["src", "server"], .folder),
          (["src", "server", "_.ts"], .file "own".toUTF8), (["src", "shared"], .folder)]
        refused := refused }
    let full := d [(["src", "shared", "_.ts"], .other "No space left on device")]
    let ps : List FilePath := [⟨"/src/client/_.ts"⟩, ⟨"/src/shared/_.ts"⟩]
    (d []).IsTree ∧ full.IsTree ∧
      (∃ d', place ⟨"/src"⟩ (d []) = (.ok ps, d') ∧
        d'.get? ["src", "server", "_.ts"] = some (.file "own".toUTF8) ∧ lift ps d' = (.ok (), d [])) ∧
      ∃ f, place ⟨"/src"⟩ full = (.error f, full) := by
  intro d full ps
  have htree : (d []).IsTree := by decide +kernel
  have hfull : full.IsTree := by decide +kernel
  have hown : (d []).get? ["src", "server", "_.ts"] = some (.file "own".toUTF8) := by decide +kernel
  have hplaced : (place ⟨"/src"⟩ (d [])).1.toOption = some ps := by decide +kernel
  have hrefused : (place ⟨"/src"⟩ full).1.toOption = none := by decide +kernel
  refine ⟨htree, hfull, ?_, ?_⟩
  · cases hrun : place ⟨"/src"⟩ (d []) with
    | mk result d' =>
      rw [hrun] at hplaced
      obtain rfl : result = .ok ps := eq_ok_of_toOption hplaced
      obtain ⟨-, hkeep, hlift⟩ := (place_restores ⟨"/src"⟩ htree).1 ps d' hrun
      exact ⟨d', rfl, hkeep _ _ hown, hlift⟩
  · cases hrun : place ⟨"/src"⟩ full with
    | mk result d' =>
      rw [hrun] at hrefused
      cases result with
      | ok ps => cases hrefused
      | error f =>
        obtain rfl := (place_restores ⟨"/src"⟩ hfull).2 f d' hrun
        exact ⟨f, rfl⟩

end EntryMarker

end ModBuild
