import ModBuild.Diagnostic.Basic
import ModBuild.Reference.Piece

/-!
# Rewriting references

Every reference of a unit is replaced by the call that the game understands. A reference between
client and server is rewritten too, but it cannot work and is reported where it stands in the text
before rewriting.
-/

namespace ModBuild

namespace Piece

def reference? : Piece → Option Reference
  | call target => some (.ofDotted (.ofList target))
  | _ => none

/-- What stands for the piece after rewriting. -/
def rewritten (p : Piece) : List Char :=
  match p.reference? with
  | some r => r.call.toList
  | none => p.source

end Piece

namespace Reference

def crossScopeWarning (owner : Scope) (r : Reference) (span : Span) : Diagnostic where
  severity := .warning
  code := Diagnostic.crossScopeReference
  message := "cannot reference code from src/" ++ r.scope.label ++ " in src/" ++ owner.label ++
    ": `" ++ r.dotted ++ "`"
  span := span
  notes := [owner.label ++ " and " ++ r.scope.label ++
    " do not share modules at runtime, this require will fail when loaded"]

/-- The warnings about `ps`, which follow the text `before` in the file. -/
def warnings (owner : Scope) (file : String) : List Char → List Piece → List Diagnostic
  | _, [] => []
  | before, p :: ps =>
    let later := warnings owner file (before ++ p.source) ps
    match p.reference? with
    | some r =>
      if owner.canReference r.scope then later
      else
        let span := Span.afterText file before (Text.byteCount p.source)
        crossScopeWarning owner r span :: later
    | none => later

structure Rewriting where
  text : String
  diagnostics : List Diagnostic
  deriving DecidableEq, Repr

/-- `owner` is the scope of the unit whose text is rewritten, `file` its name in warnings. -/
def rewrite (owner : Scope) (text file : String) : Rewriting :=
  let ps := Piece.pieces text.toList
  { text := .ofList (ps.flatMap Piece.rewritten)
    diagnostics := warnings owner file [] ps }

end Reference

end ModBuild
