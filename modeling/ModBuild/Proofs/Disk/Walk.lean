import Mathlib.Data.List.Nodup
import Mathlib.Data.String.Basic
import ModBuild.Proofs.Disk.Tree
import ModBuild.Proofs.Text.ByteOrder
import ModBuild.Proofs.Text.Position

/-!
# Walks

A walk that lists every folder comes to each file below its top once, by the names that lead there and
in their order (`exists_names_of_walkFolder`). A folder that it cannot list is among its visits, so no
file is passed over in silence. Every folder is listed when all that is below the top is found under
its path (`listed_of_reachable`).
-/

namespace ModBuild

set_option autoImplicit false

namespace Disk

variable {d : Disk} {l : Location} {dir path : FilePath} {names : List String} {depth : Nat}

theorem fromUTF8?_eq_some_iff {content : ByteArray} {text : String} :
    String.fromUTF8? content = some text ↔ content = text.toUTF8 := by
  unfold String.fromUTF8?
  split
  · exact ⟨fun h => by cases h; rfl, fun h => by subst h; rfl⟩
  · next hvalid =>
    refine iff_of_false (fun h => by cases h) ?_
    rintro rfl
    exact hvalid text.isValidUTF8

theorem readText_eq_ok_iff {text : String} :
    d.readText path = .ok text ↔ d.read path = .ok text.toUTF8 := by
  unfold readText
  rw [bind_eq_ok_iff]
  constructor
  · rintro ⟨content, hread, htext⟩
    split at htext
    · next text' htext' =>
      cases htext
      rw [hread, fromUTF8?_eq_some_iff.mp htext']
    · cases htext
  · intro hread
    exact ⟨_, hread, by rw [fromUTF8?_eq_some_iff.mpr rfl]⟩

theorem Named.isName_of_get? {e : Entry} (h : d.Named) (he : d.get? (l ++ names) = some e) :
    ∀ n ∈ names, Component.IsName n := by
  intro n hn
  have hne : l ++ names ≠ [] := List.append_ne_nil_of_right_ne_nil l (List.ne_nil_of_mem hn)
  exact h.2 _ (mem_entries_of_get? hne he) n (List.mem_append_right l hn)

/-- No location has two entries. -/
def Distinct (d : Disk) : Prop := (d.entries.map (·.1)).Nodup

instance (d : Disk) : Decidable d.Distinct := inferInstanceAs (Decidable (List.Nodup _))

theorem eq_append_of_getLast? {m : Location} {n : String} (hlast : m.getLast? = some n)
    (hl : m.dropLast = l) : m = l ++ [n] := by
  obtain ⟨above, rfl⟩ := List.getLast?_eq_some_iff.mp hlast
  rw [← hl, List.dropLast_concat]

theorem Distinct.nodup_names (h : d.Distinct) (l : Location) : (d.names l).Nodup := by
  rw [names, (List.mergeSort_perm _ _).nodup_iff, List.Nodup, List.pairwise_filterMap]
  refine (List.pairwise_map.mp h).imp fun {x y} hne n hx n' hy hsame => hne ?_
  subst hsame
  split at hx
  · next hlast =>
    split at hx
    · next hl =>
      cases hx
      split at hy
      · next hlast' =>
        split at hy
        · next hl' =>
          cases hy
          rw [eq_append_of_getLast? hlast hl, eq_append_of_getLast? hlast' hl']
        · cases hy
      · cases hy
    · cases hx
  · cases hx

/-- The names from a folder to the files below it, in the order of a walk. -/
def below (d : Disk) : Nat → Location → List (List String)
  | 0, _ => []
  | depth + 1, l =>
    (d.names l).flatMap fun name =>
      match d.get? (l ++ [name]) with
      | some .folder => (below d depth (l ++ [name])).map (name :: ·)
      | some (.file _) => [[name]]
      | none => []

theorem mem_below_iff (htree : d.IsTree) :
    names ∈ d.below depth l ↔
      names ≠ [] ∧ names.length ≤ depth ∧ ∃ content, d.get? (l ++ names) = some (.file content) := by
  induction depth generalizing l names with
  | zero => cases names <;> simp [below]
  | succ depth ih =>
    rw [below, List.mem_flatMap]
    constructor
    · rintro ⟨name, -, h⟩
      split at h
      · obtain ⟨rest, hrest, rfl⟩ := List.mem_map.mp h
        obtain ⟨-, hlength, hfile⟩ := ih.mp hrest
        rw [List.append_assoc, List.singleton_append] at hfile
        exact ⟨List.cons_ne_nil name rest, Nat.succ_le_succ hlength, hfile⟩
      · next content hcontent =>
        rw [List.mem_singleton.mp h]
        exact ⟨List.cons_ne_nil name [], by simp, content, hcontent⟩
      · cases h
    · rintro ⟨hne, hlength, content, hfile⟩
      obtain ⟨name, rest, rfl⟩ := List.exists_cons_of_ne_nil hne
      cases rest with
      | nil => exact ⟨name, mem_names_of_get? hfile, by simp [hfile]⟩
      | cons next rest =>
        rw [List.append_cons] at hfile
        have hfolder := htree.folder (List.cons_ne_nil next rest) hfile
        refine ⟨name, mem_names_of_get? hfolder, ?_⟩
        rw [hfolder]
        exact List.mem_map.mpr ⟨_, ih.mpr ⟨List.cons_ne_nil next rest,
          Nat.le_of_succ_le_succ hlength, content, hfile⟩, rfl⟩

/-- Ways are compared name by name, and names byte by byte. -/
def Precedes (a b : List String) : Prop := a.map Text.utf8 < b.map Text.utf8

theorem nodup_of_precedes {found : List (List String)} (h : found.Pairwise Precedes) :
    found.Nodup := by
  refine h.imp fun {a b} hlt => ?_
  rintro rfl
  exact List.lt_irrefl _ hlt

theorem Distinct.pairwise_names (h : d.Distinct) (l : Location) :
    (d.names l).Pairwise fun a b => Text.utf8 a < Text.utf8 b := by
  have hsorted : (d.names l).Pairwise fun a b => (!decide (b < a)) = true := by
    refine List.pairwise_mergeSort (fun a b c hab hbc => ?_) (fun a b => ?_) _
    · simp only [Bool.not_eq_true', decide_eq_false_iff_not, not_lt] at hab hbc ⊢
      exact hab.trans hbc
    · simpa [← not_lt] using le_total a b
  refine (hsorted.and (h.nodup_names l)).imp fun {a b} hab => Text.utf8_lt_utf8 ?_
  rw [Bool.not_eq_true', decide_eq_false_iff_not, not_lt] at hab
  exact lt_of_le_of_ne hab.1 hab.2

theorem Distinct.pairwise_below (h : d.Distinct) (depth : Nat) (l : Location) :
    (d.below depth l).Pairwise Precedes := by
  induction depth generalizing l with
  | zero => exact List.Pairwise.nil
  | succ depth ih =>
    have hhead : ∀ name names, (names ∈ match d.get? (l ++ [name]) with
        | some .folder => (d.below depth (l ++ [name])).map (name :: ·)
        | some (.file _) => [[name]]
        | none => []) → ∃ rest, names = name :: rest := by
      intro name names hnames
      split at hnames
      · obtain ⟨rest, -, rfl⟩ := List.mem_map.mp hnames
        exact ⟨rest, rfl⟩
      · exact ⟨[], List.mem_singleton.mp hnames⟩
      · cases hnames
    rw [below, List.pairwise_flatMap]
    constructor
    · intro name _
      split
      · refine List.pairwise_map.mpr ((ih _).imp fun hlt => ?_)
        exact List.cons_lt_cons_iff.mpr (Or.inr ⟨rfl, hlt⟩)
      · exact List.pairwise_singleton _ _
      · exact List.Pairwise.nil
    · refine (h.pairwise_names l).imp fun {first second} hlt a ha b hb => ?_
      obtain ⟨rest, rfl⟩ := hhead _ _ ha
      obtain ⟨rest', rfl⟩ := hhead _ _ hb
      exact List.cons_lt_cons_iff.mpr (Or.inl hlt)

theorem target_join {n : String} (h : Component.IsName n) (d : Disk) (dir : FilePath) :
    d.target (dir.join n) = d.target dir ++ [n] := by
  refine target_of_names ?_
  rw [dir.components_join h.1, h.ofSegment]
  rfl

section
variable (hnamed : d.Named) (hlisted : ∀ v ∈ d.walkFolder depth dir, ∃ path, v = .ok path)
include hnamed hlisted

/-- A walk that lists every folder comes to the files below by the names that lead there. -/
theorem walkFolder_eq :
    d.walkFolder depth dir =
      (d.below depth (d.target dir)).map fun names => .ok (names.foldl FilePath.join dir) := by
  induction depth generalizing dir with
  | zero =>
    obtain ⟨path, h⟩ := hlisted _ List.mem_cons_self
    cases h
  | succ depth ih =>
    rw [walkFolder] at hlisted ⊢
    split at hlisted
    · obtain ⟨path, h⟩ := hlisted _ List.mem_cons_self
      cases h
    · next l hl =>
      obtain rfl := locate_eq_target hl
      rw [below, List.map_flatMap]
      refine List.flatMap_congr fun name hname => ?_
      have hvisits := fun v hv => hlisted v (List.mem_flatMap.mpr ⟨name, hname, hv⟩)
      cases hentry : d.get? (d.target dir ++ [name]) with
      | none => rfl
      | some e =>
        cases e with
        | file content => rfl
        | folder =>
          rw [hentry] at hvisits
          dsimp only at hvisits ⊢
          rw [ih hvisits, target_join (hnamed.isName_of_mem_names hname), List.map_map]
          rfl

theorem length_le_of_walkFolder (htree : d.IsTree) {content : ByteArray} (hne : names ≠ [])
    (hfile : d.get? (d.target dir ++ names) = some (.file content)) : names.length ≤ depth := by
  induction depth generalizing dir names with
  | zero =>
    obtain ⟨path, h⟩ := hlisted _ List.mem_cons_self
    cases h
  | succ depth ih =>
    obtain ⟨name, rest, rfl⟩ := List.exists_cons_of_ne_nil hne
    cases rest with
    | nil => simp
    | cons next rest =>
      rw [List.append_cons] at hfile
      have hfolder := htree.folder (List.cons_ne_nil next rest) hfile
      have hname := mem_names_of_get? hfolder
      rw [← target_join (hnamed.isName_of_mem_names hname)] at hfile
      refine Nat.succ_le_succ (ih (fun v hv => hlisted v ?_) (List.cons_ne_nil next rest) hfile)
      rw [walkFolder]
      split
      · next f hf =>
        obtain ⟨path, h⟩ := hlisted (.error (dir, f)) (by rw [walkFolder, hf]; exact List.mem_cons_self)
        cases h
      · next l hl =>
        obtain rfl := locate_eq_target hl
        exact List.mem_flatMap.mpr ⟨name, hname, by rw [hfolder]; exact hv⟩

/-- A walk that lists every folder comes to each file below its top once, in order. -/
theorem exists_names_of_walkFolder (htree : d.IsTree) (hdistinct : d.Distinct) :
    ∃ found : List (List String), found.Pairwise Precedes ∧
      (∀ names, names ∈ found ↔
        names ≠ [] ∧ ∃ content, d.get? (d.target dir ++ names) = some (.file content)) ∧
      d.walkFolder depth dir = found.map fun names => .ok (names.foldl FilePath.join dir) := by
  refine ⟨_, hdistinct.pairwise_below depth (d.target dir), fun names => ?_,
    walkFolder_eq hnamed hlisted⟩
  rw [mem_below_iff htree]
  constructor
  · rintro ⟨hne, -, hfile⟩
    exact ⟨hne, hfile⟩
  · rintro ⟨hne, content, hfile⟩
    exact ⟨hne, length_le_of_walkFolder hnamed hlisted htree hne hfile, content, hfile⟩

end

/-- What is below the folder is found under its path, which the system takes for no reason amiss. -/
def Reachable (d : Disk) (dir : FilePath) : Prop :=
  ∀ names e, d.get? (d.target dir ++ names) = some e →
    d.isThere (names.foldl FilePath.join dir) = true

theorem Reachable.join {n : String} (h : d.Reachable dir) (hn : Component.IsName n) :
    d.Reachable (dir.join n) := by
  intro names e he
  rw [target_join hn, List.append_assoc, List.singleton_append] at he
  exact h (n :: names) e he

theorem Reachable.locate {e : Entry} (h : d.Reachable dir) (hnames : ∀ n ∈ names, Component.IsName n)
    (he : d.get? (d.target dir ++ names) = some e) :
    d.locate (names.foldl FilePath.join dir) = .ok (d.target dir ++ names) := by
  obtain ⟨l, _, hlocate, -⟩ := isThere_iff.mp (h names e he)
  rw [hlocate, locate_eq_target hlocate, target_foldl_join d dir (fun n hn => (hnames n hn).1)]
  exact fun hdots => (hnames _ hdots).2 rfl

theorem reachable_of_entries (hthere : d.isThere dir = true)
    (h : ∀ x ∈ d.entries, d.target dir <+: x.1 →
      d.isThere ((x.1.drop (d.target dir).length).foldl FilePath.join dir) = true) :
    d.Reachable dir := by
  intro names e he
  rcases eq_or_ne (d.target dir ++ names) [] with hroot | hne
  · rwa [(List.append_eq_nil_iff.mp hroot).2]
  · have hfound := h _ (mem_entries_of_get? hne he) (List.prefix_append _ _)
    rwa [List.drop_left] at hfound

theorem byteCount_lt_of_isThere (h : d.isThere path = true) :
    Text.byteCount path.text.toList < 4096 := by
  obtain ⟨l, _, hlocate, -⟩ := isThere_iff.mp h
  obtain ⟨k, parts, hstart, -⟩ := locate_eq_ok_iff.mp hlocate
  unfold start at hstart
  split at hstart
  · cases hstart
  split at hstart
  · cases hstart
  split at hstart
  · cases hstart
  · next hshort => exact Nat.lt_of_not_le hshort

theorem byteCount_join {n : String} (h : Component.IsName n) (p : FilePath) :
    Text.byteCount p.text.toList < Text.byteCount (p.join n).text.toList := by
  obtain ⟨c, cs, hcs, hc⟩ := h.1.exists_cons
  have hpos : 0 < Text.byteCount n.toList := Text.byteCount_pos (by simp [hcs])
  have hhead : n.toList.head? ≠ some '/' := by simpa [hcs] using hc
  rcases p.toList_join hhead with ⟨hp, hjoin⟩ | ⟨cs, hp | ⟨hp, -⟩, hjoin⟩ <;> rw [hp, hjoin] <;> simp <;> omega

/-- The depth of a walk is enough, because a path gets longer with every folder. -/
theorem listed_of_reachable (hnamed : d.Named) (h : d.Reachable dir)
    (hfolder : d.get? (d.target dir) = some .folder)
    (hdepth : 4096 ≤ depth + Text.byteCount dir.text.toList) :
    ∀ v ∈ d.walkFolder depth dir, ∃ path, v = .ok path := by
  induction depth generalizing dir with
  | zero =>
    have hthere := h [] .folder (by rwa [List.append_nil])
    have hshort := byteCount_lt_of_isThere hthere
    rw [List.foldl_nil] at hshort
    omega
  | succ depth ih =>
    have hlocate : d.locate dir = .ok (d.target dir) := by
      have hhere := h.locate (List.forall_mem_nil _) (by rwa [List.append_nil])
      rwa [List.foldl_nil, List.append_nil] at hhere
    intro v hv
    rw [walkFolder, hlocate] at hv
    obtain ⟨name, hname, hv⟩ := List.mem_flatMap.mp hv
    have hisName := hnamed.isName_of_mem_names hname
    split at hv
    · next hbelow =>
      have hlonger := byteCount_join hisName dir
      exact ih (h.join hisName) (by rwa [target_join hisName]) (by omega) v hv
    · exact ⟨_, List.mem_singleton.mp hv⟩
    · cases hv

end Disk

end ModBuild
