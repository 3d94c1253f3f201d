import Mathlib.Data.List.Forall2
import ModBuild.Proofs.Diagnostic.Span
import ModBuild.Proofs.Reference.Grammar

/-!
# Warnings about references

Only a call between client and server is reported. Its warning points at the bytes of the call in
the text before rewriting, so the warnings of a text follow each other as its calls do.
-/

namespace ModBuild

set_option autoImplicit false

/-- Scopes that are loaded on different machines. -/
def Scope.Apart (a b : Scope) : Prop :=
  (a = client ∧ b = server) ∨ (a = server ∧ b = client)

instance (a b : Scope) : Decidable (a.Apart b) := inferInstanceAs (Decidable (_ ∨ _))

theorem Scope.canReference_iff {a b : Scope} : a.canReference b = true ↔ ¬ a.Apart b := by
  cases a <;> cases b <;> decide

namespace Piece

variable {offset : Nat} {target : List Char} {ps : List Piece} {c : Nat × List Char}

/-- The calls among pieces that start at the byte `offset`, each with the byte of its own start. -/
def callsFrom (offset : Nat) : List Piece → List (Nat × List Char)
  | [] => []
  | call target :: ps =>
    (offset, target) :: callsFrom (offset + Text.byteCount (call target).source) ps
  | p :: ps => callsFrom (offset + Text.byteCount p.source) ps

theorem source_call_ne_nil (target : List Char) : (call target).source ≠ [] := by
  simp [source]

theorem toList_call (target : List Char) :
    ("require(\"" ++ .ofList target ++ "\")" : String).toList = (call target).source := by
  have hclose : "\")".toList = ['"', ')'] := rfl
  rw [String.toList_append, String.toList_append, String.toList_ofList (l := target), hclose]
  rfl

theorem le_of_mem_callsFrom (h : c ∈ callsFrom offset ps) : offset ≤ c.1 := by
  induction ps generalizing offset with
  | nil => cases h
  | cons p ps ih =>
    cases p with
    | call target =>
      rcases List.mem_cons.mp h with rfl | h
      · exact Nat.le_refl _
      · exact Nat.le_trans (Nat.le_add_right _ _) (ih h)
    | plain t => exact Nat.le_trans (Nat.le_add_right _ _) (ih h)
    | inexact target => exact Nat.le_trans (Nat.le_add_right _ _) (ih h)
    | unfinished rest => exact Nat.le_trans (Nat.le_add_right _ _) (ih h)

theorem pairwise_callsFrom (offset : Nat) (ps : List Piece) :
    (callsFrom offset ps).Pairwise fun c later =>
      c.1 + Text.byteCount (call c.2).source ≤ later.1 := by
  induction ps generalizing offset with
  | nil => exact .nil
  | cons p ps ih =>
    cases p with
    | call target => exact .cons (fun c hc => le_of_mem_callsFrom hc) (ih _)
    | plain t => exact ih _
    | inexact target => exact ih _
    | unfinished rest => exact ih _

end Piece

namespace Reference

variable {owner : Scope} {text file : String} {before target : List Char} {ps : List Piece}

/-- Whether a call leads from the owner to the other machine. -/
def Crosses (owner : Scope) (target : List Char) : Prop :=
  owner.Apart (ofDotted (.ofList target)).scope

instance (owner : Scope) (target : List Char) : Decidable (Crosses owner target) :=
  inferInstanceAs (Decidable (owner.Apart _))

/-- The calls that cannot work, with the bytes at which they start. -/
def crossings (owner : Scope) (offset : Nat) (ps : List Piece) : List (Nat × List Char) :=
  (Piece.callsFrom offset ps).filter fun c => Crosses owner c.2

/-- A warning about a call, found in the text by line and column. -/
structure Reports (owner : Scope) (text file : String) (c : Nat × List Char) (d : Diagnostic) :
    Prop where
  warning : d = crossScopeWarning owner (ofDotted (.ofList c.2)) d.span
  start : d.span.offsetIn text = c.1
  bytes : text.toUTF8.extract c.1 (c.1 + d.span.length) =
    ("require(\"" ++ .ofList c.2 ++ "\")" : String).toUTF8
  span : d.span = Span.ofBytes file text c.1 (c.1 + Text.byteCount (Piece.call c.2).source)

/-- The warning about a call that stands behind the characters `before`. -/
def warningAfter (owner : Scope) (file : String) (before target : List Char) : Diagnostic :=
  crossScopeWarning owner (ofDotted (.ofList target))
    (Span.afterText file before (Text.byteCount (Piece.call target).source))

/-- A warning about a call, made where the call stands. -/
def Marks (owner : Scope) (text file : String) (c : Nat × List Char) (d : Diagnostic) : Prop :=
  ∃ before after, text.toList = before ++ (Piece.call c.2).source ++ after ∧
    Text.byteCount before = c.1 ∧ d = warningAfter owner file before c.2

theorem Reports.length {c : Nat × List Char} {d : Diagnostic} (h : Reports owner text file c d) :
    d.span.length = Text.byteCount (Piece.call c.2).source := by
  have hpos := Text.byteCount_pos (Piece.source_call_ne_nil c.2)
  have hlength : d.span.length = max (c.1 + Text.byteCount (Piece.call c.2).source - c.1) 1 := by
    rw [h.span]
    rfl
  omega

theorem warnings_of_none {p : Piece} (hp : p.reference? = none) :
    warnings owner file before (p :: ps) = warnings owner file (before ++ p.source) ps := by
  simp [warnings, hp]

theorem warnings_of_crosses (h : Crosses owner target) :
    warnings owner file before (.call target :: ps) =
      warningAfter owner file before target ::
        warnings owner file (before ++ (Piece.call target).source) ps := by
  have hno : ¬ owner.canReference (ofDotted (.ofList target)).scope = true :=
    fun hyes => Scope.canReference_iff.mp hyes h
  simp only [warnings, Piece.reference?, if_neg hno]
  rfl

theorem warnings_of_not_crosses (h : ¬ Crosses owner target) :
    warnings owner file before (.call target :: ps) =
      warnings owner file (before ++ (Piece.call target).source) ps := by
  have hyes := Scope.canReference_iff.mpr h
  simp only [warnings, Piece.reference?, if_pos hyes]

/-- The warnings mark the crossings one by one. -/
theorem forall₂_warnings (h : text.toList = before ++ ps.flatMap Piece.source) :
    List.Forall₂ (Marks owner text file) (crossings owner (Text.byteCount before) ps)
      (warnings owner file before ps) := by
  induction ps generalizing before with
  | nil => exact .nil
  | cons p ps ih =>
    rw [List.flatMap_cons, ← List.append_assoc] at h
    have hlater := ih h
    rw [Text.byteCount_append] at hlater
    cases p with
    | call target =>
      rw [crossings, Piece.callsFrom]
      by_cases hc : Crosses owner target
      · rw [warnings_of_crosses hc, List.filter_cons_of_pos (by simpa using hc)]
        exact .cons ⟨before, _, h, rfl, rfl⟩ hlater
      · rw [warnings_of_not_crosses hc, List.filter_cons_of_neg (by simpa using hc)]
        exact hlater
    | plain t => rwa [warnings_of_none rfl]
    | inexact target => rwa [warnings_of_none rfl]
    | unfinished rest => rwa [warnings_of_none rfl]

theorem forall₂_diagnostics (owner : Scope) (text file : String) :
    List.Forall₂ (Marks owner text file) (crossings owner 0 (Piece.pieces text.toList))
      (rewrite owner text file).diagnostics := by
  have htext : text.toList = [] ++ (Piece.pieces text.toList).flatMap Piece.source :=
    (Piece.flatMap_source_pieces text.toList).symm
  exact forall₂_warnings htext

theorem exists_call_of_mem_diagnostics {d : Diagnostic}
    (h : d ∈ (rewrite owner text file).diagnostics) : ∃ c, Marks owner text file c d := by
  have hall := forall₂_diagnostics owner text file
  obtain ⟨i, hi, rfl⟩ := List.getElem_of_mem h
  exact ⟨_, hall.get (by rw [hall.length_eq]; exact hi) hi⟩

theorem Marks.reports {c : Nat × List Char} {d : Diagnostic} (h : Marks owner text file c d) :
    Reports owner text file c d := by
  obtain ⟨before, after, htext, hstart, rfl⟩ := h
  have hbytes := Text.extract_toUTF8 htext
  have hspan := Span.ofBytes_part file htext (Piece.source_call_ne_nil c.2)
  rw [← Piece.toList_call, String.ofList_toList, Piece.toList_call] at hbytes
  rw [hstart] at hbytes hspan
  refine ⟨rfl, ?_, hbytes, hspan.symm⟩
  rw [← hstart]
  exact Span.offsetIn_afterText file _ (by rw [htext, List.append_assoc])

theorem pairwise_of_reports {cs : List (Nat × List Char)} {ds : List Diagnostic}
    (h : List.Forall₂ (Reports owner text file) cs ds)
    (hcs : cs.Pairwise fun c later => c.1 + Text.byteCount (Piece.call c.2).source ≤ later.1) :
    ds.Pairwise fun d later =>
      d.span.offsetIn text < later.span.offsetIn text ∧
        d.span.offsetIn text + d.span.length ≤ later.span.offsetIn text := by
  have hranges : cs.map (fun c => (c.1, Text.byteCount (Piece.call c.2).source)) =
      ds.map fun d => (d.span.offsetIn text, d.span.length) := by
    rw [← List.forall₂_eq_eq_eq, List.forall₂_map_left_iff, List.forall₂_map_right_iff]
    exact h.imp fun c d hd => by rw [hd.start, hd.length]
  have hpairwise : (cs.map fun c => (c.1, Text.byteCount (Piece.call c.2).source)).Pairwise
      fun r later => r.1 < later.1 ∧ r.1 + r.2 ≤ later.1 := by
    refine List.pairwise_map.mpr (hcs.imp fun {c later} hle => ⟨?_, hle⟩)
    have hpos := Text.byteCount_pos (Piece.source_call_ne_nil c.2)
    omega
  rw [hranges] at hpairwise
  exact List.pairwise_map.mp hpairwise

/-- Every text has one factoring into pieces, and its warnings are those about the calls of this
factoring that lead to the other machine, each found at the bytes of its call. -/
theorem rewrite_reports_crossings (owner : Scope) (text file : String) :
    ∃ ps, Piece.Factors ps text.toList ∧ (∀ qs, Piece.Factors qs text.toList → qs = ps) ∧
      List.Forall₂ (Reports owner text file) (crossings owner 0 ps)
        (rewrite owner text file).diagnostics ∧
      (rewrite owner text file).diagnostics.Pairwise fun d later =>
        d.span.offsetIn text < later.span.offsetIn text ∧
          d.span.offsetIn text + d.span.length ≤ later.span.offsetIn text := by
  have hreports := (forall₂_diagnostics owner text file).imp fun _ _ h => h.reports
  refine ⟨Piece.pieces text.toList, Piece.factors_iff.mpr rfl, ?_, hreports, ?_⟩
  · intro qs hqs
    exact (Piece.factors_iff.mp hqs).symm
  · exact pairwise_of_reports hreports ((Piece.pairwise_callsFrom 0 _).filter _)

end Reference

end ModBuild
