import ModBuild.Diagnostic.Report
import ModBuild.Proofs.Diagnostic.Span

/-!
# Snippets

A snippet without colours has two rows that matter: the quoted line behind a margin with its number,
and carets that stand under the span because blanks fill the same margin.
-/

namespace ModBuild

set_option autoImplicit false

namespace Span

/-- What stands before a quoted line: its number, in at least two places. -/
def margin (s : Span) : List Char :=
  ' ' :: List.replicate (2 - (Text.decimal s.line).length) ' ' ++ (Text.decimal s.line).toList ++
    [' ', '|', ' ']

/-- The quoted line and, below it, as many carets as the span is long. -/
def rows (s : Span) (line : List Char) : List Char :=
  s.margin ++ line ++ '\n' :: (List.replicate s.margin.length ' ' ++
    List.replicate (s.column - 1) ' ' ++ List.replicate s.length '^')

theorem length_margin (s : Span) :
    s.margin.length = Diagnostic.gutterWidth s.line + 4 := by
  simp only [margin, Diagnostic.gutterWidth, List.cons_append, List.length_cons,
    List.length_append, List.length_replicate, String.length_toList]
  simp only [List.length_nil]
  omega

end Span

namespace Diagnostic

variable {d : Diagnostic}

theorem toList_blanks (n : Nat) : (blanks n).toList = List.replicate n ' ' := String.toList_ofList

theorem underline_eq (d : Diagnostic) (n : Nat) :
    ' ' :: List.replicate (gutterWidth d.span.line + 1) ' ' ++ List.replicate (n + 2) ' ' =
      List.replicate d.span.margin.length ' ' ++ List.replicate n ' ' := by
  rw [← List.replicate_succ, List.replicate_append_replicate, List.replicate_append_replicate,
    Span.length_margin]
  congr 1
  omega

theorem toList_snippetOf_plain (line : List Char) (hwidth : d.span.column + 1 < wordSize)
    (hcolumn : 0 < d.span.column) (hlength : 0 < d.span.length) :
    (d.snippetOf .plain line).toList =
      ' ' :: List.replicate (gutterWidth d.span.line + 1) ' ' ++
        '\n' :: d.span.rows line ++ ['\n'] := by
  have hpadding : (d.span.column - 1 + 2) % wordSize = d.span.column - 1 + 2 :=
    Nat.mod_eq_of_lt (by omega)
  have hcarets : max d.span.length 1 = d.span.length := by omega
  have hnumber : gutterWidth d.span.line - (Text.decimal d.span.line).length =
      2 - (Text.decimal d.span.line).length := by
    unfold gutterWidth
    omega
  have hunderline := underline_eq d (d.span.column - 1)
  have hblank : " ".toList = [' '] := rfl
  have hbar : "|".toList = ['|'] := rfl
  have hbreak : "\n".toList = ['\n'] := rfl
  unfold snippetOf
  dsimp only [Style.paint]
  rw [hpadding, hcarets, hnumber]
  simp only [String.toList_append, toList_blanks]
  simp only [hblank, hbar, hbreak]
  rw [String.toList_ofList (l := line),
    String.toList_ofList (l := List.replicate d.span.length '^'), Span.rows, ← hunderline]
  simp [Span.margin]

/-- A diagnostic about a line that the text has shows this line and points at the span. -/
theorem exists_rows_of_format {source : String} {line : List Char}
    (hline : (Text.lines source.toList)[d.span.line - 1]? = some line) (hpos : 0 < d.span.line)
    (hwidth : d.span.column + 1 < wordSize) (hcolumn : 0 < d.span.column)
    (hlength : 0 < d.span.length) :
    ∃ head tail, (d.format .plain source).toList =
      head ++ '\n' :: d.span.rows line ++ '\n' :: tail := by
  refine ⟨(d.header .plain).toList ++ ' ' :: List.replicate (gutterWidth d.span.line + 1) ' ',
    (d.trailer .plain).toList, ?_⟩
  have hsnippet : d.snippet .plain source = d.snippetOf .plain line := by
    rw [snippet, if_neg (by omega), hline]
  rw [format, String.toList_append, String.toList_append, hsnippet,
    toList_snippetOf_plain line hwidth hcolumn hlength]
  simp

end Diagnostic

end ModBuild
