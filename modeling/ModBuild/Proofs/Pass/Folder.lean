import Mathlib.Data.List.Nodup
import ModBuild.Pass.Assets
import ModBuild.Proofs.Layout.Placement
import ModBuild.Proofs.Path.Relative
import ModBuild.Proofs.Settings.Folders

/-!
# Mirrored folders

A pass mirrors seven folders of a project below the media folder: those of the scopes, without their
sources, and those with assets. The folders come from the settings, so one may lie in another or be
the same; their targets never do.
-/

namespace ModBuild

set_option autoImplicit false

open Component SlashPath

variable {p : Project} {l : Layout} {q t : FilePath} {cs : List Component}

theorem Scope.exists_folder_of_owner {s : Scope} (hs : s ∈ Scope.owners) :
    ∃ folder, s.folder? = some folder := by
  cases s with
  | client => exact ⟨_, rfl⟩
  | server => exact ⟨_, rfl⟩
  | shared => exact ⟨_, rfl⟩
  | none => exact absurd hs (by decide)

namespace Project

variable {s : Scope} {folder : String}

theorem scopeSource_of_folder (hs : s.folder? = some folder) :
    p.scopeSource s = p.srcDir.join folder := by
  rw [scopeSource, hs, Option.getD_some]

theorem components_srcDir (p : Project) : p.srcDir.components = p.root.components ++ [.name "src"] :=
  p.root.components_join (by decide)

theorem components_scopeSource (hs : s.folder? = some folder) :
    (p.scopeSource s).components = p.srcDir.components ++ [.name folder] := by
  obtain ⟨hsegment, hdots⟩ := Scope.isSegment_of_folder hs
  rw [scopeSource_of_folder hs, FilePath.components_join _ hsegment, ofSegment_of_ne hdots]

end Project

structure MirroredFolder where
  source : FilePath
  /-- The names that lead from the media folder to the target. -/
  below : List String
  /-- Sources are left to the compiler. -/
  skipSources : Bool
  deriving DecidableEq, Repr

/-- The loose files of a scope. -/
def MirroredFolder.ofScope (p : Project) (s : Scope) : MirroredFolder :=
  ⟨p.scopeSource s, ["lua", s.folder?.getD ""], true⟩

def MirroredFolder.ofAssets (dir : FilePath × String) : MirroredFolder := ⟨dir.1, [dir.2], false⟩

/-- The folders that a pass mirrors, in their order. -/
def Project.mirroredFolders (p : Project) : List MirroredFolder :=
  Scope.owners.map (.ofScope p) ++ p.assetDirs.map .ofAssets

namespace MirroredFolder

variable {f g : MirroredFolder} {a b : List String}

def target (f : MirroredFolder) (l : Layout) : FilePath := f.below.foldl FilePath.join l.mediaDir

theorem target_ofScope {s : Scope} (hs : s ∈ Scope.owners) :
    (ofScope p s).target l = l.scopeDir s := by
  obtain ⟨folder, hfolder⟩ := Scope.exists_folder_of_owner hs
  rw [Layout.scopeDir_of_folder hfolder, ofScope, hfolder]
  rfl

/-- The path is that of the folder or of something in it. -/
def holds (f : MirroredFolder) (q : FilePath) : Bool := f.source.components.isPrefixOf q.components

/-- A file at `source` is one that the folder brings to `target`. -/
def Brings (f : MirroredFolder) (l : Layout) (source target : FilePath) : Prop :=
  (∃ names : List String, names ≠ [] ∧ (∀ n ∈ names, IsName n) ∧
    source.components = f.source.components ++ names.map .name ∧
    target.components = (f.target l).components ++ names.map .name) ∧
  ¬(f.skipSources = true ∧ Assets.isSource source = true)

theorem holds_iff : f.holds q = true ↔ ∃ cs, q.components = f.source.components ++ cs := by
  rw [holds, List.isPrefixOf_iff_prefix]
  exact exists_congr fun cs => eq_comm

theorem Brings.holds (h : f.Brings l q t) : f.holds q = true := by
  obtain ⟨⟨names, -, -, hsource, -⟩, -⟩ := h
  exact holds_iff.mpr ⟨_, hsource⟩

theorem ofScope_mem {s : Scope} (hs : s ∈ Scope.owners) : ofScope p s ∈ p.mirroredFolders :=
  List.mem_append_left _ (List.mem_map_of_mem hs)

theorem ofAssets_mem {dir : FilePath × String} (hdir : dir ∈ p.assetDirs) :
    ofAssets dir ∈ p.mirroredFolders := List.mem_append_right _ (List.mem_map_of_mem hdir)

theorem mem_mirroredFolders_iff : f ∈ p.mirroredFolders ↔
    (∃ s ∈ Scope.owners, ofScope p s = f) ∨ ∃ dir ∈ p.assetDirs, ofAssets dir = f := by
  rw [Project.mirroredFolders, List.mem_append, List.mem_map, List.mem_map]

/-- The names below the media folder, the same for every project. -/
def places : List (List String) :=
  [["lua", "client"], ["lua", "server"], ["lua", "shared"], ["models"], ["textures"], ["sound"],
    ["scripts"]]

theorem map_below (p : Project) : p.mirroredFolders.map below = places := rfl

theorem below_mem_places (hf : f ∈ p.mirroredFolders) : f.below ∈ places :=
  map_below p ▸ List.mem_map_of_mem hf

theorem isName_below (hf : f ∈ p.mirroredFolders) : ∀ n ∈ f.below, IsName n := by
  have hall : ∀ names ∈ places, ∀ n ∈ names, IsName n := by decide
  exact hall f.below (below_mem_places hf)

theorem below_ne_nil (hf : f ∈ p.mirroredFolders) : f.below ≠ [] := by
  have hall : ∀ names ∈ places, names ≠ [] := by decide
  exact hall f.below (below_mem_places hf)

theorem eq_of_below_prefix (hf : f ∈ p.mirroredFolders) (hg : g ∈ p.mirroredFolders)
    (h : f.below <+: g.below ∨ g.below <+: f.below) : f = g := by
  have hall : ∀ x ∈ places, ∀ y ∈ places, x <+: y → x = y := by decide
  have hbelow : f.below = g.below := by
    rcases h with hprefix | hprefix
    · exact hall _ (below_mem_places hf) _ (below_mem_places hg) hprefix
    · exact (hall _ (below_mem_places hg) _ (below_mem_places hf) hprefix).symm
  have hnodup : (p.mirroredFolders.map below).Nodup := map_below p ▸ (by decide : places.Nodup)
  exact List.inj_on_of_nodup_map hnodup hf hg hbelow

theorem eq_of_below_append (hf : f ∈ p.mirroredFolders) (hg : g ∈ p.mirroredFolders)
    (h : f.below ++ a = g.below ++ b) : f = g :=
  eq_of_below_prefix hf hg
    (List.prefix_or_prefix_of_prefix (List.prefix_append _ a) (h ▸ List.prefix_append _ b))

theorem components_target (hf : f ∈ p.mirroredFolders) (l : Layout) :
    (f.target l).components = l.mediaDir.components ++ f.below.map .name := by
  rw [target, FilePath.components_foldl_join _ fun n hn => (isName_below hf n hn).1,
    List.map_congr_left fun n hn => (isName_below hf n hn).ofSegment]

theorem eq_of_target_append {cs' : List Component} (hf : f ∈ p.mirroredFolders)
    (hg : g ∈ p.mirroredFolders)
    (h : (f.target l).components ++ cs = (g.target l).components ++ cs') : f = g := by
  rw [components_target hf, components_target hg, List.append_assoc, List.append_assoc,
    List.append_cancel_left_eq] at h
  have hprefix := List.prefix_or_prefix_of_prefix (List.prefix_append (f.below.map name) cs)
    (h ▸ List.prefix_append (g.below.map name) cs')
  have hname : Function.Injective name := fun _ _ => name.inj
  rw [List.prefix_map_iff_of_injective hname, List.prefix_map_iff_of_injective hname] at hprefix
  exact eq_of_below_prefix hf hg hprefix

theorem exists_components_target (hf : f ∈ p.mirroredFolders) (l : Layout) :
    ∃ above n, (f.target l).components = above ++ [.name n] := by
  have hne := below_ne_nil hf
  rw [components_target hf]
  generalize f.below = names at hne
  cases names using List.reverseRecOn with
  | nil => exact absurd rfl hne
  | append_singleton init n _ =>
    exact ⟨l.mediaDir.components ++ init.map .name, n, by rw [List.map_append, List.append_assoc]; rfl⟩

theorem target_text_ne (hf : f ∈ p.mirroredFolders) (l : Layout) :
    (f.target l).text.toList ≠ [] := by
  intro he
  have hempty := FilePath.components_eq_nil_iff.mpr (String.toList_eq_nil_iff.mp he)
  rw [components_target hf, List.append_eq_nil_iff, List.map_eq_nil_iff] at hempty
  exact below_ne_nil hf hempty.2

theorem source_components_ne_nil (hp : p.settings.FoldersNamed) (hf : f ∈ p.mirroredFolders) :
    f.source.components ≠ [] := by
  obtain ⟨hmodels, htextures, hsound, hscripts⟩ := hp
  rw [Project.mirroredFolders, List.mem_append] at hf
  rcases hf with hf | hf
  · obtain ⟨s, hs, rfl⟩ := List.mem_map.mp hf
    obtain ⟨folder, hfolder⟩ := Scope.exists_folder_of_owner hs
    have hsource : (ofScope p s).source = p.scopeSource s := rfl
    simp [hsource, Project.components_scopeSource hfolder]
  · simp only [Project.assetDirs, List.map_cons, List.map_nil, List.mem_cons, List.not_mem_nil,
      or_false] at hf
    rcases hf with rfl | rfl | rfl | rfl
    · exact FilePath.components_join_ne_nil _ hmodels
    · exact FilePath.components_join_ne_nil _ htextures
    · exact FilePath.components_join_ne_nil _ hsound
    · exact FilePath.components_join_ne_nil _ hscripts

variable {dir q' t' : FilePath} {n : String}

theorem isSource_of_same (h : q.Same q') : Assets.isSource q = Assets.isSource q' := by
  rw [Assets.isSource, Assets.isSource, FilePath.extension?, FilePath.extension?,
    FilePath.fileName?_of_same h]

theorem Brings.exists_name (h : f.Brings l q t) : ∃ above below n,
    q.components = above ++ [.name n] ∧ t.components = below ++ [.name n] := by
  obtain ⟨⟨names, hne, -, hsource, htarget⟩, -⟩ := h
  cases names using List.reverseRecOn with
  | nil => exact absurd rfl hne
  | append_singleton init n _ =>
    rw [List.map_append, ← List.append_assoc] at hsource htarget
    exact ⟨_, _, n, hsource, htarget⟩

theorem Brings.same (h : f.Brings l q t) (h' : f.Brings l q' t') (hq : q.Same q') : t.Same t' := by
  obtain ⟨⟨names, -, -, hsource, htarget⟩, -⟩ := h
  obtain ⟨⟨names', -, -, hsource', htarget'⟩, -⟩ := h'
  rw [FilePath.Same, hsource, hsource', List.append_cancel_left_eq] at hq
  rw [FilePath.Same, htarget, htarget', hq]

/-- The path is that of the folder or of something that a walk comes to below it. -/
def Reaches (f : MirroredFolder) (dir : FilePath) : Prop :=
  ∃ names : List String, (∀ n ∈ names, IsName n) ∧
    dir.components = f.source.components ++ names.map .name

theorem reaches_source (f : MirroredFolder) : f.Reaches f.source :=
  ⟨[], List.forall_mem_nil _, (List.append_nil _).symm⟩

theorem Reaches.join (h : f.Reaches dir) (hn : IsName n) : f.Reaches (dir.join n) := by
  obtain ⟨names, hnames, hdir⟩ := h
  refine ⟨names ++ [n], List.forall_mem_append.mpr ⟨hnames, List.forall_mem_singleton.mpr hn⟩, ?_⟩
  rw [dir.components_join hn.1, hn.ofSegment, hdir, List.map_append, List.append_assoc]
  rfl

/-- A walk takes what it finds to the same place below the target. -/
theorem Reaches.brings (hp : p.settings.FoldersNamed) (hf : f ∈ p.mirroredFolders)
    (h : f.Reaches dir) (hn : IsName n)
    (hskip : ¬(f.skipSources = true ∧ Assets.isSource (dir.join n) = true)) :
    f.Brings p.layout (dir.join n)
      ((f.target p.layout).join ((f.source.relativeTo? (dir.join n)).getD (dir.join n)).text) := by
  obtain ⟨names, hnames, hdir⟩ := h
  have hpath : (dir.join n).components = f.source.components ++ (names ++ [n]).map .name := by
    rw [dir.components_join hn.1, hn.ofSegment, hdir, List.map_append, List.append_assoc]
    rfl
  obtain ⟨r, hr, hrelative, htext⟩ :=
    FilePath.exists_relativeTo? (source_components_ne_nil hp hf) hpath
  refine ⟨⟨names ++ [n], by simp, ?_, hpath, ?_⟩, hskip⟩
  · exact List.forall_mem_append.mpr ⟨hnames, List.forall_mem_singleton.mpr hn⟩
  · rw [hr, Option.getD_some,
      FilePath.components_join_of_relative (target_text_ne hf p.layout) hrelative, htext]

end MirroredFolder

end ModBuild
