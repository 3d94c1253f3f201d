import ModBuild.Pass.Report
import ModBuild.Proofs.Diagnostic.Snippet
import ModBuild.Proofs.Emission.Batch
import ModBuild.Proofs.Reference.Warnings

/-!
# Warnings quoted in a report

A report knows the text of every unit of the pass by its path. A warning about a reference is
printed with the line of this text on which its call stands, and carets under the call.
-/

namespace ModBuild

set_option autoImplicit false

variable {e : Emission} {u : CompiledUnit} {units : List CompiledUnit} {w : Diagnostic}
  {d d' : Disk} {outcomes : List Outcome}

namespace PassReport

theorem sources_foldl (units : List CompiledUnit) (r : Report) :
    (units.foldl (fun r u => r.addSource u.path u.text) r).sources =
      (units.map fun u => (u.path, u.text)).reverse ++ r.sources := by
  induction units generalizing r with
  | nil => rfl
  | cons u units ih =>
    rw [List.foldl_cons, ih, List.map_cons, List.reverse_cons, List.append_assoc]
    rfl

theorem diagnostics_foldl (units : List CompiledUnit) (r : Report) :
    (units.foldl (fun r u => r.addSource u.path u.text) r).diagnostics = r.diagnostics := by
  induction units generalizing r with
  | nil => rfl
  | cons u units ih => rw [List.foldl_cons, ih, Report.diagnostics_addSource]

theorem diagnostics_record (r : PassReport) :
    (r.record units outcomes).report.diagnostics =
      r.report.diagnostics ++ outcomes.flatMap Outcome.diagnostics := by
  rw [record, Report.diagnostics_add, diagnostics_foldl]

theorem lookup_sources_record (r : PassReport) (hnodup : (units.map CompiledUnit.path).Nodup)
    (hu : u ∈ units) : (r.record units outcomes).report.sources.lookup u.path = some u.text := by
  have hsources : (r.record units outcomes).report.sources =
      (units.map fun u => (u.path, u.text)).reverse ++ r.report.sources :=
    sources_foldl units r.report
  obtain ⟨before, after, rfl⟩ := List.append_of_mem hu
  rw [List.map_append, List.map_cons, List.nodup_append] at hnodup
  rw [hsources, List.lookup_eq_some_iff]
  refine ⟨(after.map fun u => (u.path, u.text)).reverse,
    (before.map fun u => (u.path, u.text)).reverse ++ r.report.sources, by simp, ?_⟩
  intro entry hentry
  obtain ⟨v, hv, rfl⟩ := List.mem_map.mp (List.mem_reverse.mp hentry)
  have hne : u.path ≠ v.path := by
    intro heq
    exact (List.nodup_cons.mp hnodup.2.1).1 (heq ▸ List.mem_map_of_mem hv)
  simpa using hne

end PassReport

theorem CompiledUnit.mem_rewrite_of_mem_transform {rule : Rule} {t : Rebinding.Template}
    (hw : w ∈ (u.transform rule t).diagnostics) (hcode : w.code = Diagnostic.crossScopeReference) :
    w ∈ (Reference.rewrite u.scope u.text u.path).diagnostics := by
  unfold transform at hw
  split at hw
  · cases hw
  · refine (List.mem_append.mp hw).resolve_left ?_
    intro hearly
    split at hearly
    · have hdiffer : Diagnostic.unloadableOutput ≠ Diagnostic.crossScopeReference := by decide
      rw [List.mem_singleton.mp hearly] at hcode
      exact hdiffer hcode
    · cases hearly

theorem Emission.mem_rewrite_of_mem_outcome (hw : w ∈ (e.outcome u).diagnostics)
    (hcode : w.code = Diagnostic.crossScopeReference) :
    w ∈ (Reference.rewrite u.scope u.text u.path).diagnostics := by
  unfold outcome at hw
  split at hw
  · cases hw
  · exact CompiledUnit.mem_rewrite_of_mem_transform hw hcode

/-- A printed warning shows the line of the text on which its span starts with an opening. -/
structure Diagnostic.QuotesCall (printed text : String) (s : Span) (line : List Char) : Prop where
  counted : 0 < s.line ∧ 0 < s.column
  quoted : (Text.lines text.toList)[s.line - 1]? = some line
  opened : ∃ before after, line = before ++ Piece.opening ++ after ∧
    Text.byteCount before = s.column - 1
  shown : ∃ head tail, printed.toList = head ++ '\n' :: s.rows line ++ '\n' :: tail

theorem Reference.Marks.exists_quotes {owner : Scope} {text file : String}
    {c : Nat × List Char} (h : Marks owner text file c w)
    (hsize : text.utf8ByteSize < Diagnostic.wordSize) :
    ∃ line, Diagnostic.QuotesCall (w.format .plain text) text w.span line := by
  obtain ⟨before, after, htext, -, rfl⟩ := h
  have hcall : (Piece.call c.2).source = Piece.opening ++ (c.2 ++ ['"', ')']) := by
    rw [Piece.source, List.append_assoc]
  rw [hcall, ← List.append_assoc, List.append_assoc] at htext
  have hbreak : '\n' ∉ Piece.opening := by decide
  obtain ⟨tail, hline⟩ := Text.exists_line_at before (c.2 ++ ['"', ')'] ++ after) hbreak (by decide)
    (by decide)
  rw [← htext] at hline
  have hopen : Text.byteCount Piece.opening = 9 := by decide
  have hlast := Text.lineStart_append before []
  rw [← Text.byteCount_toList, htext, Text.byteCount_append, Text.byteCount_append, hopen] at hsize
  have hwidth : Text.byteCount (Text.lastLine before) + 1 + 1 < Diagnostic.wordSize := by omega
  exact ⟨_, ⟨Nat.succ_pos _, Nat.succ_pos _⟩, hline, ⟨Text.lastLine before, tail, rfl, rfl⟩,
    Diagnostic.exists_rows_of_format hline (Nat.succ_pos _) hwidth (Nat.succ_pos _)
      (Text.byteCount_pos (Piece.source_call_ne_nil c.2))⟩

/-- In a pass over units with different paths, every warning about a reference is printed with the
line of its unit on which the call stands, and with carets under the call. A text has fewer bytes
than a machine word counts. -/
theorem PassReport.record_quotes_crossings {schedule : List CompiledUnit}
    (h : e.emitScheduled schedule units d = (.ok outcomes, d'))
    (hnodup : (units.map CompiledUnit.path).Nodup)
    (hsize : ∀ u ∈ units, u.text.utf8ByteSize < Diagnostic.wordSize)
    (hw : w ∈ (({} : PassReport).record units outcomes).report.diagnostics)
    (hcode : w.code = Diagnostic.crossScopeReference) :
    ∃ u ∈ units, w.span.file = u.path ∧ ∃ line,
      Diagnostic.QuotesCall ((({} : PassReport).record units outcomes).report.render .plain w)
        u.text w.span line := by
  obtain ⟨-, -, rfl⟩ := Emission.emitScheduled_ok_iff.mp h
  rw [diagnostics_record, List.mem_append] at hw
  have hw := hw.resolve_left (by simp)
  obtain ⟨o, ho, hw⟩ := List.mem_flatMap.mp hw
  obtain ⟨u, hu, rfl⟩ := List.mem_map.mp ho
  have hrewrite := Emission.mem_rewrite_of_mem_outcome hw hcode
  obtain ⟨c, hmarks⟩ := Reference.exists_call_of_mem_diagnostics hrewrite
  have hfile : w.span.file = u.path := by
    obtain ⟨_, _, _, _, rfl⟩ := hmarks
    rfl
  refine ⟨u, hu, hfile, ?_⟩
  rw [Report.render, hfile, lookup_sources_record _ hnodup hu]
  exact hmarks.exists_quotes (hsize u hu)

/-- A client unit that calls for a server module on its second line. -/
def CompiledUnit.misplacedCall : CompiledUnit :=
  ⟨"client/one.lua", "-- é\r\nlocal b = require(\"server.b\")\r\n"⟩

theorem PassReport.record_quotes_crossings_second_line :
    ∃ outcomes d' w,
      (Emission.mk ⟨⟨"/Mod"⟩, "node_modules"⟩ {}).emitScheduled [.misplacedCall] [.misplacedCall]
        {} = (.ok outcomes, d') ∧
      ([.misplacedCall].map CompiledUnit.path).Nodup ∧
      (∀ u ∈ [CompiledUnit.misplacedCall], u.text.utf8ByteSize < Diagnostic.wordSize) ∧
      w ∈ (({} : PassReport).record [.misplacedCall] outcomes).report.diagnostics ∧
      w.code = Diagnostic.crossScopeReference ∧
      ∃ u ∈ [CompiledUnit.misplacedCall], w.span.file = u.path ∧ ∃ line,
        Diagnostic.QuotesCall
          ((({} : PassReport).record [.misplacedCall] outcomes).report.render .plain w)
          u.text w.span line := by
  obtain ⟨outcomes, d', h⟩ := Change.exists_ok (d := {})
    (x := (Emission.mk ⟨⟨"/Mod"⟩, "node_modules"⟩ {}).emitScheduled [.misplacedCall]
      [.misplacedCall])
    (by decide +kernel)
  have hany : (({} : PassReport).record [.misplacedCall] ([.misplacedCall].map
      (Emission.mk ⟨⟨"/Mod"⟩, "node_modules"⟩ {}).outcome)).report.diagnostics.any
      (fun w => w.code = Diagnostic.crossScopeReference) = true := by decide +kernel
  rw [← (Emission.emitScheduled_ok_iff.mp h).2.2] at hany
  obtain ⟨w, hw, hcode⟩ := List.any_eq_true.mp hany
  have hcode : w.code = Diagnostic.crossScopeReference := by simpa using hcode
  have hsize : ∀ u ∈ [CompiledUnit.misplacedCall], u.text.utf8ByteSize < Diagnostic.wordSize := by
    decide +kernel
  exact ⟨outcomes, d', w, h, by decide, hsize, hw, hcode,
    record_quotes_crossings h (by decide) hsize hw hcode⟩

end ModBuild
