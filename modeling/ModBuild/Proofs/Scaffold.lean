import ModBuild.Proofs.Disk.Folders
import ModBuild.Proofs.Disk.Walk
import ModBuild.Proofs.Manifest.RoundTrip
import ModBuild.Proofs.Session.Disks
import ModBuild.Proofs.Settings.RoundTrip
import ModBuild.Scaffold

/-!
# Scaffolding keeps what is there

A new project loads with its defaults, and no file that was there before is written over, with one
exception. The check for a manifest comes before the source folders are made. When the path to the
project goes through a missing folder and back, the manifest behind it is only found once that folder
is there, and then it is written over (`init_keeps_files_iff`, `init_overwrites_manifest`).
-/

namespace ModBuild

set_option autoImplicit false

open Session (OnDisk)
open Disk (Writes Grows SameAt)

/-- Every file is as it was. -/
def Disk.KeepsFiles (d d' : Disk) : Prop :=
  ∀ l content, d.get? l = some (.file content) → d'.get? l = some (.file content)

namespace Disk.KeepsFiles

variable {d d' : Disk} {p : FilePath} {l : Location} {content : ByteArray}

instance : IsPreorder Disk KeepsFiles where
  refl _ _ _ := id
  trans _ _ _ h₁ h₂ l content hfile := h₂ l content (h₁ l content hfile)

theorem of_writes (h : Writes ∅ d d') : KeepsFiles d d' :=
  fun l content => (h.file l (fun _ hp => absurd hp (Set.notMem_empty _)) content).mpr

theorem put_file (hl : l ≠ []) (h : ∀ before, d.get? l = some (.file before) → before = content) :
    KeepsFiles d (d.put l (.file content)) := by
  intro m before hfile
  rw [get?_put hl]
  split
  · next heq => rw [h before (heq ▸ hfile)]
  · exact hfile

theorem of_write (h : d.isThere p = false) : KeepsFiles d (Change.write p content d).2 := by
  rcases Change.write_cases p content d with ⟨f, hrun⟩ | ⟨hwrite, hrun⟩
  · rw [hrun]
    exact refl_of KeepsFiles d
  · rw [hrun]
    refine put_file hwrite.target_ne_nil fun before hfile => ?_
    rw [get?_of_not_isThere hwrite.locate h] at hfile
    cases hfile

theorem read (h : KeepsFiles d d') (hgrows : Grows d d') (hread : d.read p = .ok content) :
    d'.read p = .ok content := by
  obtain ⟨hlocate, hfile⟩ := read_eq_ok_iff.mp hread
  exact read_of_get? (hgrows.locate hlocate) (h _ _ hfile)

end Disk.KeepsFiles

open Disk (KeepsFiles)

theorem Manifest.parse_initial (file : String) : parse initial.text file = .ok initial :=
  parse_ok_iff.mpr (by decide +kernel)

namespace Scaffold

variable {root p : FilePath} {s s' t : Session} {text : String}

abbrev manifestPath (root : FilePath) : FilePath := root.join Manifest.fileName

abbrev settingsPath (root : FilePath) : FilePath := root.join Settings.fileName

/-- Writes a file unless there is one. -/
def writeMissing (p : FilePath) (text : String) : Task Failure Unit := do
  if !(← Task.disk).isThere p then Task.change (.write p) (Change.writeText p text)

/-- What is done once the manifest is written. -/
def complete (root : FilePath) : Task Failure Unit := do
  writeMissing (settingsPath root) ({} : Settings).text
  writeMissing (root.join tsconfigName) tsconfig
  Task.record (.notice (welcome root))

section

variable {R : Disk → Disk → Prop} [IsPreorder Disk R]

theorem respects_makeSourceDirs
    (h : ∀ name ∈ sourceDirs, Respects R (Change.makeFolders ((root.join "src").join name))) :
    Respects (OnDisk R) (makeSourceDirs root) :=
  respects_forM fun name hname => Task.respects_change (h name hname) _

theorem respects_writeMissing
    (h : ∀ d : Disk, d.isThere p = false → R d (Change.write p text.toUTF8 d).2) :
    Respects (OnDisk R) (writeMissing p text) := by
  intro s
  unfold writeMissing
  rw [run_bind, Task.disk_apply]
  dsimp only
  split
  · next hgone =>
    rw [Task.change_apply]
    exact h s.disk (by simpa using hgone)
  · exact refl_of R s.disk

theorem respects_complete
    (h : ∀ p content (d : Disk), d.isThere p = false → R d (Change.write p content d).2) :
    Respects (OnDisk R) (complete root) :=
  (respects_writeMissing (h _ _)).bind fun _ =>
    (respects_writeMissing (h _ _)).bind fun _ => Task.respects_record _

end

theorem writes_makeSourceDirs (root : FilePath) : Respects (OnDisk (Writes ∅)) (makeSourceDirs root) :=
  respects_makeSourceDirs fun _ _ => Change.respects_makeFolders _

theorem grows_makeSourceDirs (root : FilePath) : Respects (OnDisk Grows) (makeSourceDirs root) :=
  respects_makeSourceDirs fun _ _ => Change.grows_makeFolders _

theorem keepsFiles_complete (root : FilePath) : Respects (OnDisk KeepsFiles) (complete root) :=
  respects_complete fun _ _ _ h => .of_write h

theorem grows_complete (root : FilePath) : Respects (OnDisk Grows) (complete root) :=
  respects_complete fun p content d _ => Change.grows_write p content d

theorem writeMissing_then (p : FilePath) (text : String) (next : Task Failure Unit) :
    (do
      if !(← Task.disk).isThere p then Task.change (.write p) (Change.writeText p text)
      next) = (do
      writeMissing p text
      next) := by
  unfold writeMissing
  rw [bind_assoc]
  refine bind_congr fun d => ?_
  split
  · rfl
  · rw [pure_bind]

theorem init_of_isThere (h : s.disk.isThere (manifestPath root) = true) :
    init root s = (.error (.manifestThere root), s) := by
  unfold init
  rw [run_bind, Task.disk_apply]
  dsimp only
  rw [if_pos h]
  rfl

theorem init_of_not_isThere (h : s.disk.isThere (manifestPath root) = false) :
    init root s = (do
      makeSourceDirs root
      Task.change (.write (manifestPath root))
        (Change.writeText (manifestPath root) Manifest.initial.text)
      complete root) s := by
  unfold init
  rw [run_bind, Task.disk_apply]
  dsimp only
  rw [if_neg (by rw [h]; decide)]
  unfold Manifest.save Settings.save complete
  rw [Task.change_adapt, Task.change_adapt]
  simp only [Function.id_comp, writeMissing_then]

/-- The session with the manifest of a new project. -/
def written (root : FilePath) (t : Session) : Session :=
  { t with disk :=
      t.disk.put (t.disk.target (manifestPath root)) (.file Manifest.initial.text.toUTF8) }

/-- Either the manifest is not written, or it was not seen before and everything else follows. -/
theorem init_cases (root : FilePath) (s : Session) :
    (∃ f t, init root s = (.error f, t) ∧ s.disk.Writes ∅ t.disk ∧
      (s.disk.isThere (manifestPath root) = false → ∀ t',
        makeSourceDirs root s = (.ok (), t') → ¬t'.disk.CanWrite (manifestPath root))) ∨
      ∃ t, s.disk.isThere (manifestPath root) = false ∧
        makeSourceDirs root s = (.ok (), t) ∧ t.disk.CanWrite (manifestPath root) ∧
          init root s = complete root (written root t) := by
  cases hthere : s.disk.isThere (manifestPath root) with
  | true => exact Or.inl ⟨_, s, init_of_isThere hthere, .refl ∅ s.disk, nofun⟩
  | false =>
    rw [init_of_not_isThere hthere, run_bind]
    rcases hmade : makeSourceDirs root s with ⟨f | _, t⟩
    · exact Or.inl ⟨f, t, rfl, (writes_makeSourceDirs root).of_run hmade, fun _ _ => nofun⟩
    · dsimp only
      rw [run_bind, Task.change_apply]
      rcases Change.write_cases (manifestPath root) Manifest.initial.text.toUTF8 t.disk with
        ⟨f, hrun⟩ | ⟨hwrite, hrun⟩
      · refine Or.inl ⟨.write (manifestPath root) f, t, ?_,
          (writes_makeSourceDirs root).of_run hmade, fun _ t' ht' hwrite => ?_⟩
        · rw [Change.writeText, hrun]
          rfl
        · cases ht'
          cases hrun.symm.trans (Change.write_of_canWrite hwrite _)
      · refine Or.inr ⟨t, rfl, rfl, hwrite, ?_⟩
        rw [Change.writeText, hrun]
        rfl

theorem isName_of_mem_sourceDirs {name : String} (h : name ∈ sourceDirs) : Component.IsName name := by
  have hall : ∀ name ∈ sourceDirs, Component.IsName name := by decide
  exact hall name h

theorem isFolder_of_makeSourceDirs_ok (h : makeSourceDirs root s = (.ok (), t)) {name : String}
    (hname : name ∈ sourceDirs) : t.disk.isFolder ((root.join "src").join name) = true := by
  obtain ⟨s₁, s₂, -, hturn, hafter⟩ := exists_turn_of_forM_ok (R := OnDisk Grows)
    (fun _ _ => Task.respects_change (Change.grows_makeFolders _) _) h hname
  obtain ⟨d, hmake, rfl⟩ := Task.change_ok_iff.mp hturn
  have hgrows : Grows d t.disk := hafter
  have hne : name ≠ "" := (isName_of_mem_sourceDirs hname).1.2.1
  exact hgrows.isFolder
    (Change.isFolder_of_makeFolders_ok (FilePath.components_join_ne_nil _ hne) hmake)

theorem sameAt_makeSourceDirs (hroot : root.Straight) :
    Respects (OnDisk (SameAt (settingsPath root))) (makeSourceDirs root) := by
  refine respects_makeSourceDirs fun name hname => ?_
  have hisName := isName_of_mem_sourceDirs hname
  refine Change.sameAt_makeFolders ((hroot.join (by decide)).join hisName) fun d habove => ?_
  rw [Disk.target_join (by decide), Disk.target_join hisName, Disk.target_join (by decide),
    List.append_assoc, List.prefix_append_right_inj, List.singleton_append, List.cons_prefix_cons]
    at habove
  exact absurd habove.1 (by decide)

section

variable (hwrite : t.disk.CanWrite (manifestPath root))
include hwrite

theorem grows_written : Grows t.disk (written root t).disk :=
  (Change.grows_write _ _).of_run (Change.write_of_canWrite hwrite _)

theorem get?_written (l : Location) :
    (written root t).disk.get? l =
      if l = t.disk.target (manifestPath root) then some (.file Manifest.initial.text.toUTF8)
      else t.disk.get? l := Disk.get?_put hwrite.target_ne_nil

theorem read_manifest_of_complete_ok (hrun : complete root (written root t) = (.ok (), s')) :
    s'.disk.read (manifestPath root) = .ok Manifest.initial.text.toUTF8 := by
  obtain ⟨hlocate, hfile⟩ := Change.write_ok
    (Change.write_of_canWrite hwrite Manifest.initial.text.toUTF8)
  exact ((keepsFiles_complete root).of_run hrun).read ((grows_complete root).of_run hrun)
    (Disk.read_of_get? hlocate hfile)

/-- On a straight path the source folders and the manifest do not bring settings into sight. -/
theorem not_isThere_settings (htree : s.disk.IsTree) (hroot : root.Straight)
    (hmade : makeSourceDirs root s = (.ok (), t)) (hgone : s.disk.isThere (settingsPath root) = false) :
    (written root t).disk.isThere (settingsPath root) = false := by
  rw [Bool.eq_false_iff, ne_eq, Disk.isThere_iff]
  rintro ⟨l, e, hlocate, he⟩
  obtain rfl := Disk.locate_eq_target hlocate
  have hmakes : OnDisk Grows s t := (grows_makeSourceDirs root).of_run hmade
  have hgrows : Grows s.disk (written root t).disk := Grows.trans hmakes (grows_written hwrite)
  rw [(grows_written hwrite).target] at he
  have hother : t.disk.target (settingsPath root) ≠ t.disk.target (manifestPath root) := by
    rw [Disk.target_join (by decide), Disk.target_join (by decide), Ne, List.append_cancel_left_eq]
    decide
  have hsame : OnDisk (SameAt (settingsPath root)) s t := (sameAt_makeSourceDirs hroot).of_run hmade
  have hbefore : s.disk.get? (s.disk.target (settingsPath root)) = some e := by
    rw [← hsame.same, ← Grows.target hmakes]
    rwa [get?_written hwrite, if_neg hother] at he
  have hstraight : (settingsPath root).Straight := hroot.join (by decide)
  rw [hgrows.target] at hlocate
  have hthere : s.disk.isThere (settingsPath root) = true :=
    Disk.isThere_iff.mpr ⟨_, e, Disk.locate_of_straight hgrows htree hstraight hlocate hbefore, hbefore⟩
  rw [hgone] at hthere
  cases hthere

end

theorem read_of_writeMissing_ok (hgone : s.disk.isThere p = false)
    (h : writeMissing p text s = (.ok (), s')) : s'.disk.read p = .ok text.toUTF8 := by
  unfold writeMissing at h
  rw [run_bind, Task.disk_apply] at h
  dsimp only at h
  rw [if_pos (by rw [hgone]; rfl)] at h
  obtain ⟨d, hwrite, rfl⟩ := Task.change_ok_iff.mp h
  obtain ⟨hlocate, hfile⟩ := Change.write_ok hwrite
  exact Disk.read_of_get? hlocate hfile

theorem read_settings_of_complete_ok (hgone : s.disk.isThere (settingsPath root) = false)
    (h : complete root s = (.ok (), s')) :
    s'.disk.read (settingsPath root) = .ok ({} : Settings).text.toUTF8 := by
  obtain ⟨_, s₁, hsettings, hrest⟩ := run_bind_ok_iff.mp h
  have hkeeps : OnDisk KeepsFiles s₁ s' := ((respects_writeMissing fun _ h => .of_write h).bind
    fun _ => Task.respects_record _).of_run hrest
  have hgrows : OnDisk Grows s₁ s' := ((respects_writeMissing fun d _ => Change.grows_write _ _ d).bind
    fun _ => Task.respects_record _).of_run hrest
  exact hkeeps.read hgrows (read_of_writeMissing_ok hgone hsettings)

theorem load_manifest (h : s.disk.read (manifestPath root) = .ok Manifest.initial.text.toUTF8) :
    Manifest.load s.disk (manifestPath root) = .ok .initial := by
  unfold Manifest.load
  rw [Disk.readText_eq_ok_iff.mpr h]
  dsimp only
  rw [Manifest.parse_initial]
  rfl

theorem load_settings (h : s.disk.read (settingsPath root) = .ok ({} : Settings).text.toUTF8) :
    Settings.load s.disk (settingsPath root) = .ok {} := by
  unfold Settings.load
  rw [if_pos (Disk.isThere_of_read h), Disk.readText_eq_ok_iff.mpr h]
  dsimp only
  rw [Settings.parse_text_of_valid Settings.valid_default]
  rfl

/-- A new project is complete. Its settings are the default ones unless there were settings before, and
it is not made anew. -/
structure Scaffolded (root : FilePath) (s s' : Session) : Prop where
  folders : ∀ name ∈ sourceDirs, s'.disk.isFolder ((root.join "src").join name) = true
  manifest : Manifest.load s'.disk (manifestPath root) = .ok .initial
  project : root.Straight → s.disk.isThere (settingsPath root) = false →
    Project.load s'.disk root = .ok ⟨root, .initial, {}⟩
  again : init root s' = (.error (.manifestThere root), s')

/-- The path leads to a manifest only once the source folders are made, and nothing keeps that file
from being written over. -/
structure Overwrites (root : FilePath) (s : Session) (content : ByteArray) : Prop where
  file : s.disk.get? (s.disk.target (manifestPath root)) = some (.file content)
  other : content ≠ Manifest.initial.text.toUTF8
  hidden : s.disk.isThere (manifestPath root) = false
  writable : ∃ t, makeSourceDirs root s = (.ok (), t) ∧ t.disk.CanWrite (manifestPath root)

theorem not_overwrites_of_straight {content : ByteArray} (htree : s.disk.IsTree) (h : root.Straight) :
    ¬Overwrites root s content := by
  rintro ⟨hfile, -, hhidden, t, hmade, hwrite⟩
  have hgrows : OnDisk Grows s t := (grows_makeSourceDirs root).of_run hmade
  have hlocate := hwrite.locate
  rw [Grows.target hgrows] at hlocate
  have hbefore := Disk.locate_of_straight hgrows htree (h.join (by decide)) hlocate hfile
  rw [Disk.isThere_iff.mpr ⟨_, _, hbefore, hfile⟩] at hhidden
  cases hhidden

/-- Only a file in the place of the manifest can be lost. -/
theorem keepsFiles_or_overwrites (root : FilePath) (s : Session) :
    (∀ l content, l ≠ s.disk.target (manifestPath root) → s.disk.get? l = some (.file content) →
      (init root s).2.disk.get? l = some (.file content)) ∧
    (s.disk.KeepsFiles (init root s).2.disk ↔ ∀ content, ¬Overwrites root s content) := by
  rcases init_cases root s with ⟨f, t, hrun, hwrites, hstops⟩ | ⟨t, hhidden, hmade, hwrite, hrun⟩
  · have hkeeps := KeepsFiles.of_writes hwrites
    rw [hrun]
    refine ⟨fun l content _ => hkeeps l content, iff_of_true hkeeps ?_⟩
    rintro content ⟨-, -, hhidden, t', hmade, hwrite⟩
    exact hstops hhidden t' hmade hwrite
  · have hwrites : s.disk.Writes ∅ t.disk := (writes_makeSourceDirs root).of_run hmade
    have hmakes := KeepsFiles.of_writes hwrites
    have hcompletes : KeepsFiles (written root t).disk (complete root (written root t)).2.disk :=
      keepsFiles_complete root (written root t)
    have hget (l : Location) : (written root t).disk.get? l =
        if l = s.disk.target (manifestPath root) then some (.file Manifest.initial.text.toUTF8)
        else t.disk.get? l := by
      rw [get?_written hwrite, hwrites.target]
    rw [hrun]
    refine ⟨fun l content hl hfile => hcompletes l content ?_, fun hkeeps content hlost => ?_,
      fun hsafe => ?_⟩
    · rw [hget, if_neg hl]
      exact hmakes l content hfile
    · have hnew := hcompletes _ _ ((hget _).trans (if_pos rfl))
      rw [hkeeps _ _ hlost.file] at hnew
      exact hlost.other (Entry.file.inj (Option.some.inj hnew))
    · have hputs : KeepsFiles t.disk (written root t).disk := by
        refine .put_file hwrite.target_ne_nil fun before hfile => ?_
        by_contra hother
        rw [hwrites.target] at hfile
        exact hsafe before ⟨(hwrites.file _ (fun _ hp => absurd hp (Set.notMem_empty _)) before).mp hfile,
          hother, hhidden, t, hmade, hwrite⟩
      exact trans_of KeepsFiles (trans_of KeepsFiles hmakes hputs) hcompletes

theorem load_initial (hmanifest : s.disk.read (manifestPath root) = .ok Manifest.initial.text.toUTF8)
    (hsettings : s.disk.read (settingsPath root) = .ok ({} : Settings).text.toUTF8) :
    Project.load s.disk root = .ok ⟨root, .initial, {}⟩ := by
  unfold Project.load
  rw [load_settings hsettings]
  dsimp only [bind, Except.bind]
  rw [if_pos (Disk.isThere_of_read hmanifest), load_manifest hmanifest]
  rfl

theorem scaffolded_of_ok (htree : s.disk.IsTree) (h : init root s = (.ok (), s')) :
    Scaffolded root s s' := by
  rcases init_cases root s with ⟨f, t, herror, -, -⟩ | ⟨t, -, hmade, hwrite, hcompletes⟩
  · cases h.symm.trans herror
  · have hcomplete := hcompletes.symm.trans h
    have hgrows : OnDisk Grows (written root t) s' := (grows_complete root).of_run hcomplete
    have hread := read_manifest_of_complete_ok hwrite hcomplete
    refine ⟨fun name hname => ?_, load_manifest hread, fun hroot hgone => ?_,
      init_of_isThere (Disk.isThere_of_read hread)⟩
    · exact Grows.isFolder hgrows
        ((grows_written hwrite).isFolder (isFolder_of_makeSourceDirs_ok hmade hname))
    · exact load_initial hread (read_settings_of_complete_ok
        (not_isThere_settings hwrite htree hroot hmade hgone) hcomplete)

/-- Every file but a hidden manifest is kept, whether a project is made or not, and no manifest is
hidden from a path that never steps to a parent. Where there is a manifest nothing happens. -/
theorem init_keeps_files_iff (root : FilePath) (s : Session) (htree : s.disk.IsTree) :
    (∀ l content, l ≠ s.disk.target (manifestPath root) → s.disk.get? l = some (.file content) →
      (init root s).2.disk.get? l = some (.file content)) ∧
    (s.disk.KeepsFiles (init root s).2.disk ↔ ∀ content, ¬Overwrites root s content) ∧
    (root.Straight → ∀ content, ¬Overwrites root s content) ∧
    (s.disk.isThere (manifestPath root) = true → init root s = (.error (.manifestThere root), s)) ∧
    ∀ s', init root s = (.ok (), s') → Scaffolded root s s' := by
  obtain ⟨hothers, hkeeps⟩ := keepsFiles_or_overwrites root s
  exact ⟨hothers, hkeeps, fun h content => not_overwrites_of_straight htree h, init_of_isThere,
    fun s' hrun => scaffolded_of_ok htree hrun⟩

/-- A project in a new folder beside the manifest of another one. -/
theorem init_keeps_files_iff_beside :
    let d : Disk :=
      { entries := [(["p"], .folder), (["p", "mod.info"], .file "id=Mine".toUTF8)] }
    d.IsTree ∧ FilePath.Straight ⟨"/p/a"⟩ ∧ ∃ s', init ⟨"/p/a"⟩ ⟨d, []⟩ = (.ok (), s') ∧
      d.KeepsFiles s'.disk ∧ Project.load s'.disk ⟨"/p/a"⟩ = .ok ⟨⟨"/p/a"⟩, .initial, {}⟩ := by
  intro d
  have htree : d.IsTree := by decide +kernel
  have hroot : FilePath.Straight ⟨"/p/a"⟩ := by decide +kernel
  obtain ⟨_, s', hrun⟩ := exists_run_ok (x := init ⟨"/p/a"⟩) (s := ⟨d, []⟩) (by decide +kernel)
  obtain ⟨-, hkeeps, hsafe, -, hmade⟩ := init_keeps_files_iff ⟨"/p/a"⟩ ⟨d, []⟩ htree
  have hfiles := hkeeps.mpr (hsafe hroot)
  rw [hrun] at hfiles
  exact ⟨htree, hroot, s', hrun, hfiles, (hmade s' hrun).project hroot (by decide +kernel)⟩

/-- The path goes through a folder that is missing and back. The manifest in the folder above is not
seen, and it is lost. -/
theorem init_overwrites_manifest :
    let d : Disk :=
      { entries := [(["p"], .folder), (["p", "mod.info"], .file "id=Mine".toUTF8)] }
    d.IsTree ∧ d.get? ["p", "mod.info"] = some (.file "id=Mine".toUTF8) ∧
      ∃ s', init ⟨"/p/new/.."⟩ ⟨d, []⟩ = (.ok (), s') ∧
        s'.disk.get? ["p", "mod.info"] = some (.file Manifest.initial.text.toUTF8) ∧
        ¬d.KeepsFiles s'.disk := by
  intro d
  have hbefore : d.get? ["p", "mod.info"] = some (.file "id=Mine".toUTF8) := by decide +kernel
  obtain ⟨hok, hafter⟩ : (init ⟨"/p/new/.."⟩ ⟨d, []⟩).1.toBool = true ∧
      (init ⟨"/p/new/.."⟩ ⟨d, []⟩).2.disk.get? ["p", "mod.info"] =
        some (.file Manifest.initial.text.toUTF8) := by decide +kernel
  obtain ⟨_, s', hrun⟩ := exists_run_ok hok
  rw [hrun] at hafter
  have hother : "id=Mine".toUTF8 ≠ Manifest.initial.text.toUTF8 := by decide +kernel
  refine ⟨by decide +kernel, hbefore, s', hrun, hafter, fun hkeeps => hother ?_⟩
  exact Entry.file.inj (Option.some.inj ((hkeeps _ _ hbefore).symm.trans hafter))

end Scaffold

end ModBuild
