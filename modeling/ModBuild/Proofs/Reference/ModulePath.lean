import ModBuild.Proofs.Path.Normalize
import ModBuild.Proofs.Reference.Target

/-!
# Modules and their two names

A module has a declared path, under which the compiler hands back its text, and a dotted name, by
which other modules refer to it. Both are written from the same list of names. Read again, the path
gives the names as segments, and the dotted name gives the path without the scope folder.
-/

namespace ModBuild

set_option autoImplicit false

open SlashPath

/-- A name that the dots, slashes and quotes around it leave whole. -/
def IsModuleName (name : String) : Prop :=
  name ≠ "" ∧ ∀ c ∈ name.toList, c ≠ '.' ∧ c ≠ '/' ∧ c ≠ '\\' ∧ c ≠ '"'

/-- Over the characters of the name: `Char` itself is finite, and far too large to run through. -/
instance : DecidablePred IsModuleName := fun name =>
  @instDecidableAnd _ _ _ (List.decidableBAll _ name.toList)

/-- A module by the names on the way to it. It is in some folder of the source root. -/
structure ModulePath where
  top : String
  folders : List String
  name : String
  isName : ∀ part ∈ top :: (folders ++ [name]), IsModuleName part

namespace IsModuleName

variable {name : String}

theorem slash_not_mem (h : IsModuleName name) : '/' ∉ name.toList := fun hm => (h.2 _ hm).2.1 rfl

theorem backslash_not_mem (h : IsModuleName name) : '\\' ∉ name.toList :=
  fun hm => (h.2 _ hm).2.2.1 rfl

theorem isSegment (h : IsModuleName name) : IsSegment name := by
  refine ⟨h.slash_not_mem, h.1, ?_⟩
  rintro rfl
  exact (h.2 '.' (by simp)).1 rfl

theorem not_mem_file {c : Char} (h : c ∉ name.toList) (hc : c ∉ ".lua".toList) :
    c ∉ (name ++ ".lua").toList := by
  rw [String.toList_append, List.mem_append]
  exact fun hm => hm.elim h hc

theorem isSegment_file (h : IsModuleName name) : IsSegment (name ++ ".lua") := by
  refine ⟨not_mem_file h.slash_not_mem (by decide), ?_, ?_⟩
  · intro he
    simpa using congrArg String.length he
  · intro he
    have hlength := congrArg String.length he
    rw [String.length_append, show ".lua".length = 4 from rfl, show ".".length = 1 from rfl] at hlength
    omega

end IsModuleName

namespace ModulePath

/-- The names below the top folder. -/
def below (m : ModulePath) : List String := m.folders ++ [m.name]

/-- The dotted name by which the compiler refers to the module. -/
def dotted (m : ModulePath) : String := ".".intercalate (m.top :: m.below)

def file (m : ModulePath) : String := m.name ++ ".lua"

/-- The segments below the top folder of the path at which the module is declared. -/
def fileParts (m : ModulePath) : List String := m.folders ++ [m.file]

def declared (m : ModulePath) : String := ofSegments (m.top :: m.fileParts)

variable (m : ModulePath)

theorem isName_top : IsModuleName m.top := m.isName _ List.mem_cons_self

theorem isName_below : ∀ part ∈ m.below, IsModuleName part :=
  fun part h => m.isName part (List.mem_cons_of_mem m.top h)

theorem below_ne_nil : m.below ≠ [] := by simp [below]

theorem fileParts_ne_nil : m.fileParts ≠ [] := by simp [fileParts]

theorem forall_mem_fileParts {p : String → Prop} (hname : ∀ name, IsModuleName name → p name)
    (hfile : ∀ name, IsModuleName name → p (name ++ ".lua")) : ∀ part ∈ m.fileParts, p part := by
  intro part h
  rcases List.mem_append.mp h with h | h
  · exact hname part (m.isName_below part (List.mem_append_left _ h))
  · rw [List.mem_singleton.mp h]
    exact hfile m.name (m.isName_below m.name (by simp [below]))

theorem isSegment_fileParts : ∀ part ∈ m.fileParts, IsSegment part :=
  m.forall_mem_fileParts (fun _ h => h.isSegment) fun _ h => h.isSegment_file

theorem isSegment_parts : ∀ part ∈ m.top :: m.fileParts, IsSegment part :=
  List.forall_mem_cons.mpr ⟨m.isName_top.isSegment, m.isSegment_fileParts⟩

theorem backslash_not_mem_parts : ∀ part ∈ m.top :: m.fileParts, '\\' ∉ part.toList :=
  List.forall_mem_cons.mpr ⟨m.isName_top.backslash_not_mem,
    m.forall_mem_fileParts (fun _ h => h.backslash_not_mem)
      fun _ h => IsModuleName.not_mem_file h.backslash_not_mem (by decide)⟩

theorem segments_declared : segments (normalize m.declared) = m.top :: m.fileParts :=
  segments_normalize_ofSegments m.isSegment_parts m.backslash_not_mem_parts

theorem getLast?_fileParts (top : String) : (top :: m.fileParts).getLast? = some m.file := by
  rw [fileParts, ← List.cons_append, List.getLast?_concat]

theorem ofSegments_below : ofSegments m.below ++ ".lua" = ofSegments m.fileParts :=
  ofSegments_concat_append m.folders m.name ".lua"

theorem ofSegments_top_below :
    ofSegments (m.top :: m.below) ++ ".lua" = ofSegments (m.top :: m.fileParts) :=
  ofSegments_concat_append (m.top :: m.folders) m.name ".lua"

theorem toList_dotted :
    m.dotted.toList = Text.joinWith ['.'] ((m.top :: m.below).map String.toList) := by
  rw [dotted, String.toList_intercalate, Text.joinWith_eq_intercalate]
  rfl

theorem quote_not_mem_dotted : '"' ∉ m.dotted.toList := by
  rw [toList_dotted]
  intro h
  rcases Text.mem_joinWith h with h | ⟨cs, hcs, hquote⟩
  · exact absurd h (by decide)
  · obtain ⟨part, hpart, rfl⟩ := List.mem_map.mp hcs
    exact ((m.isName part hpart).2 _ hquote).2.2.2 rfl

theorem slashed_dotted :
    Reference.slashed m.dotted.toList = (ofSegments (m.top :: m.below)).toList := by
  have hkeep : ∀ cs ∈ (m.top :: m.below).map String.toList, ∀ c ∈ cs,
      (if c = '.' then '/' else c) = c := by
    intro cs hcs c hc
    obtain ⟨part, hpart, rfl⟩ := List.mem_map.mp hcs
    exact if_neg ((m.isName part hpart).2 c hc).1
  rw [Reference.slashed, toList_dotted, Text.map_joinWith hkeep, toList_ofSegments]
  rfl

theorem ofDotted_dotted :
    Reference.ofDotted m.dotted =
      ⟨m.dotted, Scope.ofFolder m.top,
        ofSegments (if Scope.ofFolder m.top = .none then m.top :: m.below else m.below)⟩ := by
  obtain ⟨next, rest, hbelow⟩ := List.exists_cons_of_ne_nil m.below_ne_nil
  have hslashed : Reference.slashed m.dotted.toList =
      m.top.toList ++ '/' :: (ofSegments m.below).toList := by
    rw [slashed_dotted, hbelow, ofSegments_cons_cons]
    simp
  have htop : '/' ∉ m.top.toList := m.isName_top.slash_not_mem
  rw [Reference.ofDotted_of_slashed hslashed htop, String.ofList_toList, ← hslashed, slashed_dotted]
  split
  · rw [String.ofList_toList]
  · rw [String.ofList_toList]

end ModulePath

end ModBuild
