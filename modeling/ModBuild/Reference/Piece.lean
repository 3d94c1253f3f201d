import ModBuild.Reference.Basic

/-!
# Pieces of a text with references

A text is read from left to right as a sequence of pieces. Only the exact call of `require` with one
double-quoted argument is a reference; an opening that goes on differently is kept up to its closing
quote, and an opening that is never closed takes the rest of the text.

The pieces written out again give back the text: `flatMap_source_pieces`.
-/

namespace ModBuild

inductive Piece
  /-- Text without an opening. -/
  | plain (text : List Char)
  /-- A call of `require` with a quoted target. -/
  | call (target : List Char)
  /-- An opening with a quoted text that no closing bracket follows. -/
  | inexact (target : List Char)
  /-- An opening whose quote is never closed. -/
  | unfinished (rest : List Char)
  deriving DecidableEq, Repr

namespace Piece

def opening : List Char := "require(\"".toList

/-- The text that the piece was read from. -/
def source : Piece → List Char
  | plain text => text
  | call target => opening ++ target ++ ['"', ')']
  | inexact target => opening ++ target ++ ['"']
  | unfinished rest => opening ++ rest

def plain? (text : List Char) : List Piece := if text.isEmpty then [] else [plain text]

/-- The pieces of a text, none of them empty. -/
def pieces (cs : List Char) : List Piece :=
  match _h : Text.cut? opening cs with
  | none => plain? cs
  | some (before, after) =>
    match _h' : Text.cut? ['"'] after with
    | none => plain? before ++ [unfinished after]
    | some (target, ')' :: rest) => plain? before ++ call target :: pieces rest
    | some (target, rest) => plain? before ++ inexact target :: pieces rest
termination_by cs.length
decreasing_by
  all_goals
    have h₁ := Text.length_of_cut? _h
    have h₂ := Text.length_of_cut? _h'
    simp only [List.length_cons] at h₂
    omega

theorem flatMap_source_plain? (text : List Char) : (plain? text).flatMap source = text := by
  cases text <;> simp [plain?, source]

theorem flatMap_source_pieces (cs : List Char) : (pieces cs).flatMap source = cs := by
  fun_induction pieces cs with
  | case1 cs h => exact flatMap_source_plain? cs
  | case2 cs before after h h' =>
    simp [List.flatMap_append, flatMap_source_plain?, source, Text.eq_of_cut? h]
  | case3 cs before after h target rest h' ih =>
    simp [List.flatMap_append, flatMap_source_plain?, source, ih, Text.eq_of_cut? h,
      Text.eq_of_cut? h']
  | case4 cs before after h target rest hne h' ih =>
    simp [List.flatMap_append, flatMap_source_plain?, source, ih, Text.eq_of_cut? h,
      Text.eq_of_cut? h']

end Piece

end ModBuild
