import ModBuild.Proofs.Pass.Mirroring
import ModBuild.Proofs.Watch.Mirror

/-!
# Copies of a pass and copies while watching

A pass copies a loose file through every mirrored folder that holds it and decides by folder what it
leaves to the compiler. Watching sees the first folder alone and decides by name. So whatever is
copied while watching is a copy that a pass makes too, but a pass makes copies that watching does not
keep up with.
-/

namespace ModBuild.Watch

set_option autoImplicit false

open Component MirroredFolder

variable {p : Project} {q t : FilePath} {f : MirroredFolder} {e : FileEvent} {s : Session}

theorem suffix_of_isSource (h : Assets.isSource q = true) : ".ts".toList <:+ lowerName q := by
  rw [Assets.isSource, decide_eq_true_eq, Option.map_eq_some_iff] at h
  obtain ⟨extension, hextension, hlower⟩ := h
  obtain ⟨name, hname, hcut⟩ := Option.bind_eq_some_iff.mp hextension
  obtain ⟨cs, hcs, rfl⟩ := Option.map_eq_some_iff.mp hcut
  rw [String.toList_ofList] at hlower
  rw [lowerName, hname, Option.getD_some, FilePath.cutExtension_eq_some (Prod.ext rfl hcs), Text.lower,
    List.map_append, List.map_cons]
  change _ <:+ _ ++ '.' :: Text.lower cs
  rw [hlower]
  exact List.suffix_append _ _

theorem loose_iff :
    ¬".ts".toList <:+ lowerName q ↔ isDeclaration q = false ∧ isSource q = false := by
  rw [← List.isSuffixOf_iff_suffix, Bool.not_eq_true]
  constructor
  · intro h
    refine ⟨?_, by rw [isSource, h, Bool.false_and]⟩
    rw [isDeclaration, Bool.eq_false_iff, Ne, List.isSuffixOf_iff_suffix]
    intro hsuffix
    have hts : ".ts".toList <:+ lowerName q := List.IsSuffix.trans ⟨['.', 'd'], rfl⟩ hsuffix
    rw [← List.isSuffixOf_iff_suffix, h] at hts
    cases hts
  · rintro ⟨hdeclaration, hsource⟩
    rwa [isSource, hdeclaration, Bool.not_false, Bool.and_true] at hsource

theorem not_isEntryMarker_of_loose (h : ¬".ts".toList <:+ lowerName q) :
    (Mirror.ofProject p).isEntryMarker q = false := by
  rw [Bool.eq_false_iff]
  intro hmarker
  rw [Mirror.isEntryMarker, Bool.and_eq_true, decide_eq_true_eq] at hmarker
  rw [lowerName, hmarker.1] at h
  exact h (by decide)

/-- What is planned for a loose file depends on its target alone. -/
theorem plan_loose (hname : ¬".ts".toList <:+ lowerName q)
    (hsentinel : (Mirror.ofProject p).isSentinel q = false)
    (ht : (Mirror.ofProject p).target? q = some t) :
    (∀ e ∈ [FileEvent.added q, .changed q], plan (.ofProject p) e = .copy q t) ∧
      plan (.ofProject p) (.removed q) = .remove t := by
  have hmarker := not_isEntryMarker_of_loose (p := p) hname
  obtain ⟨hd, hs⟩ := loose_iff.mp hname
  refine ⟨fun e he => ?_, ?_⟩
  · rw [plan_eq_planAdded he hsentinel hmarker, planAdded, hd, hs, ht]
    rfl
  · rw [plan, FileEvent.path, hsentinel, hmarker, planRemoved, hd, hs, ht]
    rfl

theorem loose_of_plan_copy (h : plan (.ofProject p) e = .copy q t) :
    q = e.path ∧ ¬".ts".toList <:+ lowerName q ∧ (Mirror.ofProject p).target? q = some t := by
  have hasks := mayAsk_plan (.ofProject p) e
  rw [h] at hasks
  cases hasks with
  | copy hdeclaration hsource htarget => exact ⟨rfl, loose_iff.mpr ⟨hdeclaration, hsource⟩, htarget⟩

theorem plan_removed_ok (h : plan (.ofProject p) (.removed q) = .remove t) :
    (Mirror.ofProject p).isSentinel q = false ∧ isDeclaration q = false ∧
      ∃ target, (Mirror.ofProject p).target? q = some target ∧
        t = if isSource q then target.withExtension "lua" else target := by
  rw [plan, FileEvent.path] at h
  split at h
  · cases h
  next hignored =>
  unfold planRemoved at h
  split at h
  · cases h
  next hdeclaration =>
  split at h
  · next target htarget =>
    cases h
    rw [Bool.or_eq_true, not_or] at hignored
    exact ⟨Bool.eq_false_iff.mpr hignored.1, Bool.eq_false_iff.mpr hdeclaration, target, htarget, rfl⟩
  · cases h

theorem not_same_lua {a : List Component} {n last : String} {above : List Component}
    (hn : t.components = a ++ [.name n]) (hlast : ".ts".toList <:+ Text.lower last.toList)
    (hq : q.components = above ++ [.name last]) : ¬(t.withExtension "lua").Same q := by
  intro hsame
  rw [FilePath.Same, FilePath.components_withExtension hn (by decide) (by decide), hq] at hsame
  obtain ⟨-, hname⟩ := List.append_inj' hsame rfl
  obtain rfl := Component.name.inj (List.cons.inj hname).1
  obtain ⟨rest, hrest⟩ := hlast
  have hchar := congrArg List.getLast? hrest
  simp [Text.lower] at hchar

/-- When the removal of a mirrored file takes its copy away, the file is loose. -/
theorem loose_of_removed (hp : p.settings.FoldersNamed) (hbrings : f.Brings p.layout q t) {t' : FilePath}
    (h : plan (.ofProject p) (.removed q) = .remove t') (hsame : t'.Same t) :
    ¬".ts".toList <:+ lowerName q := by
  obtain ⟨-, hdeclaration, target, htarget, rfl⟩ := plan_removed_ok h
  cases hsource : isSource q with
  | false => exact loose_iff.mpr ⟨hdeclaration, hsource⟩
  | true =>
    rw [hsource, if_pos rfl] at hsame
    obtain ⟨above, below, n, hq, ht⟩ := hbrings.exists_name
    obtain ⟨g, cs, hfind, hqg, htg⟩ := exists_folder_of_target? hp htarget
    obtain ⟨a, m, ha⟩ : ∃ a m, target.components = a ++ [.name m] := by
      cases cs using List.reverseRecOn with
      | nil =>
        obtain ⟨a, m, ha⟩ := exists_components_target (List.mem_of_find?_eq_some hfind) p.layout
        exact ⟨a, m, by rw [htg, ha, List.append_nil]⟩
      | append_singleton init c _ =>
        rw [hq, ← List.append_assoc] at hqg
        obtain ⟨-, hc⟩ := List.append_inj' hqg rfl
        exact ⟨_, n, by rw [htg, ← hc, List.append_assoc]⟩
    intro hname
    rw [lowerName_of_components hq] at hname
    exact not_same_lua ha hname ht hsame

/-- A copy made while watching is one that every pass makes whose copies succeed, as long as it finds
the file in the mirrored folder. -/
theorem copied_by_pass (hp : p.settings.FoldersNamed) (hplan : plan (.ofProject p) e = .copy q t)
    (hdots : .parent ∉ q.components)
    (hroot : ∀ f ∈ p.mirroredFolders, ¬q.Same f.source) :
    ∃ f ∈ p.mirroredFolders, f.Brings p.layout q t ∧
      ∀ s r s', s.disk.isFile q = true → s.disk.isFolder f.source = true →
        Builder.copyAll p s = (.ok r, s') →
          ∃ c ∈ Assets.mirrored p s, c.1.Same q ∧ c.2.Same t := by
  obtain ⟨-, hloose, htarget⟩ := loose_of_plan_copy hplan
  obtain ⟨f, cs, hfind, hq, ht⟩ := exists_folder_of_target? hp htarget
  have hf : f ∈ p.mirroredFolders := List.mem_of_find?_eq_some hfind
  obtain ⟨names, hnames, rfl⟩ := FilePath.exists_names_below (source_components_ne_nil hp hf) hq
    fun hm => hdots (hq ▸ List.mem_append_right _ hm)
  have hne : names ≠ [] := by
    rintro rfl
    exact hroot f hf (hq.trans (List.append_nil _))
  have hbrings : f.Brings p.layout q t :=
    ⟨⟨names, hne, hnames, hq, ht⟩, fun hskip => hloose (suffix_of_isSource hskip.2)⟩
  exact ⟨f, hf, hbrings, fun s r s' hfile hsource hrun =>
    Assets.exists_mem_mirrored hp hf hbrings hfile hsource hrun⟩

theorem copied_by_pass_loose :
    let p : Project := ⟨⟨"/p"⟩, { id := "M", name := "N", poster := "p.png", description := "D" },
      { runtimeLibraries := [] }⟩
    let s : Session :=
      { disk := { entries := [(["p"], .folder), (["p", "src"], .folder), (["p", "src", "client"], .folder),
          (["p", "src", "client", "a.lua"], .file .empty)] } }
    let q : FilePath := ⟨"/p/src/client/a.lua"⟩
    let t : FilePath := ⟨"/p/dist/M/media/lua/client/a.lua"⟩
    p.settings.FoldersNamed ∧ plan (.ofProject p) (.added q) = .copy q t ∧ .parent ∉ q.components ∧
      (∀ f ∈ p.mirroredFolders, ¬q.Same f.source) ∧ s.disk.isFile q = true ∧
      (Builder.copyAll p s).1.toBool = true ∧ ∃ c ∈ Assets.mirrored p s, c.1.Same q ∧ c.2.Same t := by
  intro p s q t
  have hp : p.settings.FoldersNamed := by decide
  have hplan : plan (.ofProject p) (.added q) = .copy q t := by decide +kernel
  have hdots : .parent ∉ q.components := by decide +kernel
  have hroot : ∀ f ∈ p.mirroredFolders, ¬q.Same f.source := by decide +kernel
  have hfile : s.disk.isFile q = true := by decide +kernel
  have hok : (Builder.copyAll p s).1.toBool = true := by decide +kernel
  have hsource : ∀ f ∈ p.mirroredFolders, f.holds q = true → s.disk.isFolder f.source = true := by
    decide +kernel
  obtain ⟨r, s', hrun⟩ := exists_run_ok hok
  obtain ⟨f, hf, hbrings, hcopied⟩ := copied_by_pass hp hplan hdots hroot
  exact ⟨hp, hplan, hdots, hroot, hfile, hok,
    hcopied s r s' hfile (hsource f hf hbrings.holds) hrun⟩

/-- Watching keeps up with a copy of a pass exactly when the file is loose, is no sentinel and was
copied through the first folder that holds it. -/
theorem keeps_up_iff (hp : p.settings.FoldersNamed) (hs : s.disk.Named)
    (hcopied : (q, t) ∈ Assets.mirrored p s) :
    ((∀ e ∈ [FileEvent.added q, .changed q], plan (.ofProject p) e = .rebuild ∨
          ∃ t', plan (.ofProject p) e = .copy q t' ∧ t'.Same t) ∧
        ∃ t', plan (.ofProject p) (.removed q) = .remove t' ∧ t'.Same t) ↔
      ¬".ts".toList <:+ lowerName q ∧ (Mirror.ofProject p).isSentinel q = false ∧
        ∃ f, p.mirroredFolders.find? (·.holds q) = some f ∧ f.Brings p.layout q t := by
  obtain ⟨g, hg, hbrings⟩ := Assets.brings_of_mem_mirrored hp hs hcopied
  constructor
  · rintro ⟨-, t', hremoved, hsame⟩
    have hloose := loose_of_removed hp hbrings hremoved hsame
    obtain ⟨hsentinel, -, target, htarget, rfl⟩ := plan_removed_ok hremoved
    rw [(loose_iff.mp hloose).2, if_neg Bool.false_ne_true] at hsame
    obtain ⟨f, cs, hfind, -, ht⟩ := exists_folder_of_target? hp htarget
    obtain rfl : f = g := by
      obtain ⟨⟨names, -, -, -, ht'⟩, -⟩ := id hbrings
      rw [FilePath.Same, ht, ht'] at hsame
      exact eq_of_target_append (List.mem_of_find?_eq_some hfind) hg hsame
    exact ⟨hloose, hsentinel, f, hfind, hbrings⟩
  · rintro ⟨hloose, hsentinel, f, hfind, hfirst⟩
    obtain ⟨t', cs, htarget, hq, ht⟩ := exists_target? hp hfind
    obtain ⟨hadded, hremoved⟩ := plan_loose hloose hsentinel htarget
    have hsame : t'.Same t := by
      obtain ⟨⟨names, -, -, hq', ht'⟩, -⟩ := hfirst
      rw [hq, List.append_cancel_left_eq] at hq'
      rw [FilePath.Same, ht, hq', ht']
    exact ⟨fun e he => Or.inr ⟨t', hadded e he, hsame⟩, t', hremoved, hsame⟩

theorem keeps_up_iff_scripts :
    let p : Project := ⟨⟨"/p"⟩, { id := "M", name := "N", poster := "p.png", description := "D" },
      { runtimeLibraries := [] }⟩
    let s : Session :=
      { disk := { entries := [(["p"], .folder), (["p", "src"], .folder), (["p", "src", "scripts"], .folder),
          (["p", "src", "scripts", "a.txt"], .file .empty)] } }
    let q : FilePath := ⟨"/p/src/scripts/a.txt"⟩
    let t : FilePath := ⟨"/p/dist/M/media/scripts/a.txt"⟩
    p.settings.FoldersNamed ∧ s.disk.Named ∧ (q, t) ∈ Assets.mirrored p s ∧
      ∃ t', plan (.ofProject p) (.removed q) = .remove t' ∧ t'.Same t := by
  intro p s q t
  have hp : p.settings.FoldersNamed := by decide
  have hs : s.disk.Named := by decide
  have hcopied : (q, t) ∈ Assets.mirrored p s := by decide +kernel
  have hbrings : (MirroredFolder.ofAssets (⟨"/p/src/scripts"⟩, "scripts")).Brings p.layout q t :=
    ⟨⟨["a.txt"], by decide, by decide, by decide +kernel, by decide +kernel⟩, by decide⟩
  exact ⟨hp, hs, hcopied, ((keeps_up_iff hp hs hcopied).mpr
    ⟨by decide +kernel, by decide +kernel, _, by decide +kernel, hbrings⟩).2⟩

/-- A folder with assets is mirrored with everything in it, but a removed file that is named like a
source is taken for one: its copy stays, and a Lua file is removed in its place. -/
theorem removal_misses_odd_script :
    let p : Project :=
      ⟨⟨"/p"⟩, { id := "M", name := "N", poster := "p.png", description := "D" }, {}⟩
    let s : Session :=
      { disk := { entries := [(["p"], .folder), (["p", "src"], .folder), (["p", "src", "scripts"], .folder),
          (["p", "src", "scripts", "odd.ts"], .file .empty)] } }
    let q : FilePath := ⟨"/p/src/scripts/odd.ts"⟩
    let t : FilePath := ⟨"/p/dist/M/media/scripts/odd.ts"⟩
    (q, t) ∈ Assets.mirrored p s ∧
      plan (.ofProject p) (.removed q) = .remove ⟨"/p/dist/M/media/scripts/odd.lua"⟩ ∧
      ¬FilePath.Same ⟨"/p/dist/M/media/scripts/odd.lua"⟩ t := by
  decide +kernel

end ModBuild.Watch
