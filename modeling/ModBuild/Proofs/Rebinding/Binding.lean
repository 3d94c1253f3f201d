import Mathlib.Data.List.Basic
import ModBuild.Rebinding.Plan

/-!
# The bindings of a module

A binding comes from one line, and says everything about it: `Binding.ofLine?_eq_some_iff`. The
bindings of a module are those of its lines, in order.
-/

namespace ModBuild.Rebinding

set_option autoImplicit false

theorem Declaration.keyword_prefix {line : List Char} {d : Declaration}
    (h : Declaration.ofLine? line = some d) : ∃ rest, line = Declaration.keyword ++ rest := by
  unfold Declaration.ofLine? at h
  split at h
  · next rest hcut => exact ⟨rest, by simpa using Text.eq_of_cut? hcut⟩
  · cases h

theorem Binding.ofLine?_eq_some_iff {t : Template} {n : Nat} {line : List Char} {b : Binding} :
    Binding.ofLine? t n line = some b ↔
      ∃ d member, Declaration.ofLine? line = some d ∧ t.bridge.toList ∉ d.nameList ∧
        memberAfter? t.bridge.toList none d.initializer = some member ∧
        b = ⟨.ofList d.names, .ofList member, .ofList (assignmentOf line), n⟩ := by
  unfold Binding.ofLine?
  constructor
  · intro h
    split at h
    · next d hd =>
      split at h
      · cases h
      · next hn =>
        obtain ⟨member, hm, rfl⟩ := Option.map_eq_some_iff.mp h
        exact ⟨d, member, hd, hn, hm, rfl⟩
    · cases h
  · rintro ⟨d, member, hd, hn, hm, rfl⟩
    simp only [hd, if_neg hn, hm, Option.map_some]

namespace Plan

theorem mem_bindings_iff {t : Template} {text : String} {b : Binding} :
    b ∈ (analyze t text).bindings ↔ ∃ i line, (Text.lines text.toList)[i]? = some line ∧
      Binding.ofLine? t (i + 1) line = some b := by
  unfold analyze
  simp only [List.mem_filterMap, Prod.exists, List.mk_mem_zipIdx_iff_getElem?]
  constructor
  · rintro ⟨line, i, hl, hb⟩
    exact ⟨i, line, hl, hb⟩
  · rintro ⟨i, line, hl, hb⟩
    exact ⟨line, i, hl, hb⟩

theorem bindings_pairwise (t : Template) (text : String) :
    (analyze t text).bindings.Pairwise fun a b => a.line < b.line := by
  have hindex : (Text.lines text.toList).zipIdx.Pairwise fun x y => x.2 < y.2 := by
    rw [← List.pairwise_map (f := Prod.snd) (R := (· < ·)), List.zipIdx_map_snd]
    exact List.pairwise_lt_range'
  refine List.Pairwise.filterMap _ ?_ hindex
  rintro ⟨x, i⟩ ⟨y, j⟩ hij a ha b hb
  obtain ⟨_, _, _, _, _, rfl⟩ := Binding.ofLine?_eq_some_iff.mp ha
  obtain ⟨_, _, _, _, _, rfl⟩ := Binding.ofLine?_eq_some_iff.mp hb
  exact Nat.add_lt_add_right hij 1

end Plan

end ModBuild.Rebinding
