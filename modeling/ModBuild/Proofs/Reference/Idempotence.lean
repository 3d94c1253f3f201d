import ModBuild.Proofs.Reference.Warnings
import ModBuild.Proofs.Text.Needle

/-!
# Rewriting twice

A rewritten text has no call. The closing bracket of a new call keeps the text before it apart from
the text behind it (`infix_around_standIn`), so no opening arises where a call stood, and every other
opening is followed by the same character as before. A text without calls is left alone by every
rewriting, hence a second one does nothing, for whatever owner it is made.
-/

namespace ModBuild

set_option autoImplicit false

namespace Piece

/-- An opening that rewriting leaves where it is. -/
def isLeft : Piece → Bool
  | inexact _ => true
  | unfinished _ => true
  | plain _ => false
  | call _ => false

theorem filter_isLeft_plain? (z : List Char) : (plain? z).filter isLeft = [] := by
  cases z <;> rfl

theorem call_not_mem_plain? (p z : List Char) : call p ∉ plain? z := by
  cases z <;> simp [plain?]

theorem head?_standIn_call (p : List Char) : (call p).standIn.head? = some 'r' := by
  have hstart : "require('".toList.head? = some 'r' := by decide
  change ("require('".toList ++ Reference.gamePath p ++ "')".toList).head? = _
  rw [List.append_assoc, List.head?_append, hstart, Option.some_or]

section
variable {p t rest : List Char}

theorem quote_not_mem_gamePath (hp : '"' ∉ p) : '"' ∉ Reference.gamePath p := by
  rw [Reference.mem_gamePath_iff (by decide) (by decide)]
  exact hp

/-- An opening in front of a new call, or behind it, does not reach into the call. -/
theorem infix_around_standIn (hp : '"' ∉ p) :
    opening <:+: t ++ (call p).standIn ++ rest ↔ opening <:+: t ∨ opening <:+: rest := by
  have hcall : (call p).standIn = "require('".toList ++ Reference.gamePath p ++ ['\''] ++ [')'] :=
    (List.append_assoc _ ['\''] [')']).symm
  have hquote : '"' ∉ "require('".toList ++ Reference.gamePath p ++ ['\''] := by
    have hpath := quote_not_mem_gamePath hp
    simp [hpath]
  have hbracket : ')' ∉ opening := by decide
  rw [hcall, ← List.append_assoc t, List.append_assoc, List.singleton_append,
    Text.infix_append_cons_iff hbracket (by decide), opening_eq,
    Text.infix_append_iff_of_not_mem hquote]

end

namespace Factors

variable {ps : List Piece} {cs t z : List Char}

theorem not_infix_of_head? (h : Factors ps cs) (ht : ps.head? = some (.plain t)) :
    ¬ opening <:+: t := by
  cases h with
  | plain _ hn _ _ =>
    cases ht
    exact hn
  | done => cases ht
  | call _ _ => cases ht
  | inexact _ _ _ => cases ht
  | unfinished _ => cases ht

theorem head?_standIn (h : Factors ps cs) : (ps.flatMap standIn).head? = cs.head? := by
  cases h with
  | done => rfl
  | @plain t cs ps ht _ _ _ =>
    obtain ⟨c, t, rfl⟩ := List.exists_cons_of_ne_nil ht
    rfl
  | @call p cs ps _ _ =>
    have hold : opening.head? = some 'r' := by decide
    simp [List.head?_append, head?_standIn_call, hold]
  | inexact _ _ _ => rfl
  | unfinished _ => rfl

/-- The rewritten form of a text, behind plain text `z`, has the openings that were left, no call. -/
theorem exists_rewritten (h : Factors ps cs) (hz : ¬ opening <:+: z)
    (hnext : ∀ t, ps.head? = some (.plain t) → ¬ opening <:+: z ++ t) :
    ∃ qs, Factors qs (z ++ ps.flatMap standIn) ∧ qs.filter isLeft = ps.filter isLeft ∧
      ∀ p, Piece.call p ∉ qs := by
  have hnil : ¬ opening <:+: ([] : List Char) := by decide
  induction h generalizing z with
  | done =>
    refine ⟨plain? z ++ [], Factors.done.plain?_append hz (by simp), ?_, ?_⟩
    · rw [List.append_nil, filter_isLeft_plain?]
      rfl
    · intro p
      rw [List.append_nil]
      exact call_not_mem_plain? p z
  | @plain t cs ps ht hn hp hps ih =>
    obtain ⟨qs, hqs, hleft, hcall⟩ := ih (hnext t rfl) fun t' ht' => absurd ht' (hp t')
    refine ⟨qs, ?_, hleft, hcall⟩
    rw [List.append_assoc] at hqs
    exact hqs
  | @call p cs ps hp hps ih =>
    have hnew : ∀ t, ¬ opening <:+: t → ¬ opening <:+: z ++ (Piece.call p).standIn ++ t := by
      intro t ht
      rw [infix_around_standIn hp]
      exact not_or.mpr ⟨hz, ht⟩
    have hbehind : ¬ opening <:+: z ++ (Piece.call p).standIn := by
      simpa using hnew [] hnil
    obtain ⟨qs, hqs, hleft, hcall⟩ := ih hbehind fun t ht => hnew t (hps.not_infix_of_head? ht)
    refine ⟨qs, ?_, hleft, hcall⟩
    rw [List.append_assoc] at hqs
    exact hqs
  | @inexact p cs ps hp hr hps ih =>
    obtain ⟨qs, hqs, hleft, hcall⟩ := ih hnil fun t ht => hps.not_infix_of_head? ht
    rw [List.nil_append] at hqs
    have hsame : (ps.flatMap standIn).head? ≠ some ')' := by
      rw [hps.head?_standIn]
      exact hr
    refine ⟨plain? z ++ Piece.inexact p :: qs,
      (Factors.inexact hp hsame hqs).plain?_append hz (by simp), ?_, ?_⟩
    · rw [List.filter_append, filter_isLeft_plain?, List.nil_append, List.filter_cons_of_pos rfl,
        List.filter_cons_of_pos rfl, hleft]
    · intro q
      simp [call_not_mem_plain?, hcall]
  | @unfinished r hr =>
    have htail : Factors [Piece.unfinished r] ([Piece.unfinished r].flatMap standIn) := by
      rw [List.flatMap_singleton]
      exact Factors.unfinished hr
    refine ⟨plain? z ++ [Piece.unfinished r], htail.plain?_append hz (by simp), ?_, ?_⟩
    · rw [List.filter_append, filter_isLeft_plain?, List.nil_append]
    · intro q
      simp [call_not_mem_plain?]

end Factors

end Piece

namespace Reference

variable {owner : Scope} {text file : String}

theorem warnings_of_no_calls {ps : List Piece} (h : ∀ p, Piece.call p ∉ ps) (before : List Char) :
    warnings owner file before ps = [] := by
  induction ps generalizing before with
  | nil => rfl
  | cons p ps ih =>
    have hlater : ∀ q, Piece.call q ∉ ps := fun q hq => h q (List.mem_cons_of_mem p hq)
    cases p with
    | call q => exact absurd List.mem_cons_self (h q)
    | plain t => exact (warnings_of_none rfl).trans (ih hlater _)
    | inexact q => exact (warnings_of_none rfl).trans (ih hlater _)
    | unfinished r => exact (warnings_of_none rfl).trans (ih hlater _)

theorem rewrite_of_no_calls (owner : Scope) (file : String)
    (h : ∀ p, Piece.call p ∉ Piece.pieces text.toList) : rewrite owner text file = ⟨text, []⟩ := by
  have hsource : ∀ p ∈ Piece.pieces text.toList, p.rewritten = p.source := by
    intro p hp
    cases p with
    | call q => exact absurd hp (h q)
    | plain t => rfl
    | inexact q => rfl
    | unfinished r => rfl
  have htext : (Piece.pieces text.toList).flatMap Piece.rewritten = text.toList := by
    rw [List.flatMap_congr hsource, Piece.flatMap_source_pieces]
  rw [rewrite, htext, warnings_of_no_calls h, String.ofList_toList]

theorem pieces_rewrite (owner : Scope) (text file : String) :
    (∀ p, Piece.call p ∉ Piece.pieces (rewrite owner text file).text.toList) ∧
    (Piece.pieces (rewrite owner text file).text.toList).filter Piece.isLeft =
      (Piece.pieces text.toList).filter Piece.isLeft := by
  have hfactors := Piece.factors_pieces text.toList
  have hnil : ¬ Piece.opening <:+: ([] : List Char) := by decide
  obtain ⟨qs, hqs, hleft, hcall⟩ := hfactors.exists_rewritten hnil fun t ht =>
    hfactors.not_infix_of_head? ht
  rw [List.nil_append] at hqs
  rw [toList_text_rewrite owner file hfactors, Piece.pieces_of_factors hqs]
  exact ⟨hcall, hleft⟩

/-- Rewriting a rewritten text, for any owner, changes nothing and has no warning. No call arises by a
rewriting, and the openings that are no calls stay. -/
theorem rewrite_rewrite (owner owner' : Scope) (text file file' : String) :
    rewrite owner' (rewrite owner text file).text file' = ⟨(rewrite owner text file).text, []⟩ ∧
    (∀ p, Piece.call p ∉ Piece.pieces (rewrite owner text file).text.toList) ∧
    (Piece.pieces (rewrite owner text file).text.toList).filter Piece.isLeft =
      (Piece.pieces text.toList).filter Piece.isLeft := by
  obtain ⟨hcall, hleft⟩ := pieces_rewrite owner text file
  exact ⟨rewrite_of_no_calls owner' file' hcall, hcall, hleft⟩

end Reference

end ModBuild
