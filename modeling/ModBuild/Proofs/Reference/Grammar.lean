import ModBuild.Proofs.Reference.Target
import ModBuild.Reference.Rewriting

/-!
# The grammar of a text with references

`Factors ps cs` says, without any scan, that the pieces `ps` make up the text `cs`. The pieces are
read off the text in exactly one way, and rewriting puts for every call the one the game
understands and keeps every other piece.

This module does NOT treat the warnings of a rewriting.
-/

namespace ModBuild.Piece

set_option autoImplicit false

/-- A text factored into pieces from left to right. A run of plain text is as long as it can be. -/
inductive Factors : List Piece → List Char → Prop
  | done : Factors [] []
  | plain {t cs : List Char} {ps : List Piece} : t ≠ [] → ¬ opening <:+: t →
      (∀ t', ps.head? ≠ some (plain t')) → Factors ps cs → Factors (plain t :: ps) (t ++ cs)
  | call {p cs : List Char} {ps : List Piece} : '"' ∉ p → Factors ps cs →
      Factors (call p :: ps) (opening ++ p ++ ['"', ')'] ++ cs)
  | inexact {p cs : List Char} {ps : List Piece} : '"' ∉ p → cs.head? ≠ some ')' → Factors ps cs →
      Factors (inexact p :: ps) (opening ++ p ++ ['"'] ++ cs)
  | unfinished {r : List Char} : '"' ∉ r → Factors [unfinished r] (opening ++ r)

theorem opening_eq : opening = "require(".toList ++ ['"'] := rfl

theorem cut?_opening_append {t r : List Char} (h : ¬ opening <:+: t) :
    Text.cut? opening (t ++ opening ++ r) = some (t, r) := by
  rw [opening_eq] at h ⊢
  rw [List.append_assoc]
  exact Text.cut?_append (by decide) h

theorem cut?_opening_self (r : List Char) :
    Text.cut? opening (opening ++ r) = some ([], r) :=
  cut?_opening_append (t := []) (by decide)

section
variable {cs before after target rest : List Char}

theorem pieces_of_plain (h : Text.cut? opening cs = none) : pieces cs = plain? cs := by
  rw [pieces.eq_def]
  split
  · rfl
  · simp_all

theorem pieces_of_unfinished (h : Text.cut? opening cs = some (before, after))
    (h' : Text.cut? ['"'] after = none) : pieces cs = plain? before ++ [unfinished after] := by
  rw [pieces.eq_def]
  split
  · simp_all
  · next heq =>
    cases h.symm.trans heq
    split <;> simp_all

theorem pieces_of_call (h : Text.cut? opening cs = some (before, after))
    (h' : Text.cut? ['"'] after = some (target, ')' :: rest)) :
    pieces cs = plain? before ++ call target :: pieces rest := by
  rw [pieces.eq_def]
  split
  · simp_all
  · next heq =>
    cases h.symm.trans heq
    split <;> simp_all

theorem pieces_of_inexact (h : Text.cut? opening cs = some (before, after))
    (h' : Text.cut? ['"'] after = some (target, rest)) (hr : rest.head? ≠ some ')') :
    pieces cs = plain? before ++ inexact target :: pieces rest := by
  rw [pieces.eq_def]
  split
  · simp_all
  · next heq =>
    cases h.symm.trans heq
    split
    · simp_all
    · next heq' =>
      cases h'.symm.trans heq'
      exact absurd rfl hr
    · next heq' =>
      cases h'.symm.trans heq'
      rfl

end

theorem pieces_plain_append {t cs : List Char} (ht : t ≠ []) (hn : ¬ opening <:+: t)
    (hcs : cs = [] ∨ ∃ r, cs = opening ++ r) : pieces (t ++ cs) = plain t :: pieces cs := by
  have hp : plain? t = [plain t] := by simp [plain?, ht]
  rcases hcs with rfl | ⟨r, rfl⟩
  · have hc : Text.cut? opening t = none := (Text.cut?_eq_none_iff (by decide)).mpr hn
    rw [List.append_nil, pieces_of_plain hc, pieces_of_plain rfl, hp]
    rfl
  · have ho := cut?_opening_append (r := r) hn
    have hs := cut?_opening_self r
    rw [← List.append_assoc]
    rcases hq : Text.cut? ['"'] r with _ | ⟨p, rest⟩
    · rw [pieces_of_unfinished ho hq, pieces_of_unfinished hs hq, hp]
      rfl
    · by_cases hr : rest.head? = some ')'
      · obtain ⟨rest, rfl⟩ : ∃ rest', rest = ')' :: rest' := by
          cases rest <;> simp_all
        rw [pieces_of_call ho hq, pieces_of_call hs hq, hp]
        rfl
      · rw [pieces_of_inexact ho hq hr, pieces_of_inexact hs hq hr, hp]
        rfl

theorem Factors.starts {ps : List Piece} {cs : List Char} (h : Factors ps cs)
    (hp : ∀ t, ps.head? ≠ some (Piece.plain t)) : cs = [] ∨ ∃ r, cs = opening ++ r := by
  cases h with
  | done => exact Or.inl rfl
  | @plain t _ _ _ _ _ _ => exact absurd rfl (hp t)
  | call _ _ => exact Or.inr ⟨_, by simp only [List.append_assoc]; rfl⟩
  | inexact _ _ _ => exact Or.inr ⟨_, by simp only [List.append_assoc]; rfl⟩
  | unfinished _ => exact Or.inr ⟨_, rfl⟩

/-- The scan finds every factoring, hence there is at most one. -/
theorem pieces_of_factors {ps : List Piece} {cs : List Char} (h : Factors ps cs) :
    pieces cs = ps := by
  induction h with
  | done => exact pieces_of_plain rfl
  | plain ht hn hp hps ih => rw [pieces_plain_append ht hn (hps.starts hp), ih]
  | @call p cs ps hp _ ih =>
    have ho := cut?_opening_self (p ++ '"' :: ')' :: cs)
    have hc := pieces_of_call ho (Text.cut?_singleton_append hp)
    simpa [plain?, ih] using hc
  | @inexact p cs ps hp hr _ ih =>
    have ho := cut?_opening_self (p ++ '"' :: cs)
    have hc := pieces_of_inexact ho (Text.cut?_singleton_append hp) hr
    simpa [plain?, ih] using hc
  | unfinished hr =>
    have hc := pieces_of_unfinished (cut?_opening_self _) (Text.cut?_singleton_eq_none_iff.mpr hr)
    simpa [plain?] using hc

theorem Factors.plain?_append {t cs : List Char} {ps : List Piece} (hn : ¬ opening <:+: t)
    (hp : ∀ t', ps.head? ≠ some (Piece.plain t')) (h : Factors ps cs) :
    Factors (plain? t ++ ps) (t ++ cs) := by
  by_cases ht : t = []
  · subst t
    simpa [plain?] using h
  · simpa [plain?, ht] using Factors.plain ht hn hp h

theorem factors_pieces (cs : List Char) : Factors (pieces cs) cs := by
  fun_induction pieces cs with
  | case1 cs h =>
    have hn : ¬ opening <:+: cs := (Text.cut?_eq_none_iff (by decide)).mp h
    simpa using Factors.done.plain?_append hn (by simp)
  | case2 cs before after h h' =>
    have hn := Text.not_infix_of_cut? (by decide) h
    have hf := Factors.unfinished (Text.cut?_singleton_eq_none_iff.mp h')
    simpa [Text.eq_of_cut? h] using hf.plain?_append hn (by simp)
  | case3 cs before after h target rest h' ih =>
    have hn := Text.not_infix_of_cut? (by decide) h
    have hf := Factors.call (Text.not_mem_of_cut?_singleton h') ih
    simpa [Text.eq_of_cut? h, Text.eq_of_cut? h'] using hf.plain?_append hn (by simp)
  | case4 cs before after h target rest hne h' ih =>
    have hn := Text.not_infix_of_cut? (by decide) h
    have hr : rest.head? ≠ some ')' := by
      cases rest with
      | nil => simp
      | cons c rest =>
        intro hc
        cases hc
        exact hne rest rfl
    have hf := Factors.inexact (Text.not_mem_of_cut?_singleton h') hr ih
    simpa [Text.eq_of_cut? h, Text.eq_of_cut? h'] using hf.plain?_append hn (by simp)

theorem factors_iff {ps : List Piece} {cs : List Char} : Factors ps cs ↔ pieces cs = ps :=
  ⟨pieces_of_factors, fun h => h ▸ factors_pieces cs⟩

/-- What stands for a piece in the rewritten text: only a call changes. -/
def standIn : Piece → List Char
  | call target => "require('".toList ++ Reference.gamePath target ++ "')".toList
  | piece => piece.source

theorem rewritten_eq_standIn (p : Piece) : p.rewritten = p.standIn := by
  cases p with
  | call target =>
    have h := Reference.toList_call_ofDotted (.ofList target)
    have ht : (String.ofList target).toList = target := String.toList_ofList
    rw [ht] at h
    exact h
  | plain text => rfl
  | inexact target => rfl
  | unfinished rest => rfl

/-- Every text is factored into pieces in one way, and the rewritten text has the same pieces with
a new call for each call. -/
theorem rewrite_text_factored (owner : Scope) (text file : String) :
    ∃ ps, Factors ps text.toList ∧ (∀ qs, Factors qs text.toList → qs = ps) ∧
      (Reference.rewrite owner text file).text.toList = ps.flatMap standIn := by
  refine ⟨pieces text.toList, factors_iff.mpr rfl, ?_, ?_⟩
  · intro qs hqs
    exact (factors_iff.mp hqs).symm
  · have heq : rewritten = standIn := funext rewritten_eq_standIn
    simp [Reference.rewrite, heq]

end ModBuild.Piece

namespace ModBuild.Reference

set_option autoImplicit false

theorem toList_text_rewrite (owner : Scope) {text : String} (file : String) {ps : List Piece}
    (h : Piece.Factors ps text.toList) :
    (rewrite owner text file).text.toList = ps.flatMap Piece.standIn := by
  have heq : Piece.rewritten = Piece.standIn := funext Piece.rewritten_eq_standIn
  simp only [rewrite, Piece.pieces_of_factors h, String.toList_ofList, heq]

end ModBuild.Reference
