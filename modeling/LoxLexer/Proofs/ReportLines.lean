import LoxLexer.Proofs.StoredFiles
import LoxLexer.Proofs.Streams

/-!
# Reported lines

A diagnostic names a line that was counted in the bytes of a source, and its report shows a line
that is looked up in the decoded text. Both are the same line: all questions that the report asks
have an answer, the answer is about that line, and its text is the decoded line. So a report can
only fail because a stream does.

## Main results

* `Session.Reachable.report_line`: what a report finds out about the line of a diagnostic
* `Session.Reachable.line_text`: the text of each line of a kept source
-/

namespace LoxLexer

namespace FileTable

variable {t : FileTable} {id : Nat} {name : String} {source before line after : List UInt8}
  {i : Nat}

/-- What is shown of a line of a kept source. -/
def snippet (name : String) (i : Nat) (line after : List UInt8) : Snippet where
  name := name
  row := i + 1
  column := 1
  shown := ((Utf8.decode (Utf8.recoded line ++ after.take 1)).reverse.dropWhile
    Snippet.isHidden).reverse
  label := (Utf8.recoded (withoutLineEnd line)).length

/-- **The snippet of a line** begins in its first column. -/
theorem Keeps.ofLine_eq (h : t.Keeps id name source) (hline : IsLine source i before line after) :
    Snippet.ofLine t id (i + 1) = .ok (snippet name i line after) := by
  have hname : t.name id = .ok name := by
    rw [FileTable.name, h]
    rfl
  rw [Snippet.ofLine, h.lineSpan_eq hline]
  simp only [bind, Except.bind, h.location_eq hline,
    h.lineIndex_eq hline (Nat.le_refl _) (by omega), h.lineBytes_eq hline, hname]
  simp only [Nat.add_sub_cancel_left]
  rfl

theorem Keeps.block_eq (h : t.Keeps id name source) (hline : IsLine source i before line after)
    {d : Diagnostic} (hd : d.line = i + 1) :
    d.block t id = .ok ((snippet name i line after).block d.fault.message d.note) := by
  rw [Diagnostic.block, hd, h.ofLine_eq hline]
  rfl

/-- **A span on one line**: it lies in the range of the line, and both its ends lead back to the
line. -/
structure OnLine (t : FileTable) (id line : Nat) (span : Span) : Prop where
  /-- The span lies in the range of the line. -/
  inside : ∃ range, t.lineRange id line = .ok range ∧
    range.start ≤ span.start ∧ span.start ≤ span.stop ∧ span.stop ≤ range.stop
  /-- The span starts on the line. -/
  starts : t.lineIndex id span.start = .ok line
  /-- The span stops on the line. -/
  stops : t.lineIndex id span.stop = .ok line

/-- The span of a line is on that line. -/
theorem Keeps.onLine (h : t.Keeps id name source) (hline : IsLine source i before line after) :
    t.OnLine id i ⟨(Utf8.recoded before).length,
      (Utf8.recoded before).length + (Utf8.recoded (withoutLineEnd line)).length⟩ := by
  have hle : (Utf8.recoded (withoutLineEnd line)).length ≤ (Utf8.recoded line).length := by
    rw [← withoutLineEnd_recoded]
    exact length_withoutLineEnd_le _
  exact {
    inside := ⟨_, h.lineRange_eq hline, Nat.le_refl _, Nat.le_add_right _ _, by dsimp only; omega⟩
    starts := h.lineIndex_eq hline (Nat.le_refl _) (Nat.le_add_right _ _)
    stops := h.lineIndex_eq hline (Nat.le_add_right _ _) (Nat.add_le_add_left hle _) }

/-- The lines of a kept source make a line table. -/
theorem ofStarts?_ofBytes (bs : List UInt8) :
    LineTable.ofStarts? (LineTable.ofBytes bs).starts (LineTable.ofBytes bs).length =
      some (LineTable.ofBytes bs) := by
  have wellFormed := LineTable.wellFormed_ofBytes bs
  rw [LineTable.ofStarts?]
  cases hback : (LineTable.ofBytes bs).starts.back? with
  | none =>
    have hfirst := wellFormed.first
    rw [Array.back?_eq_none_iff.mp hback] at hfirst
    cases hfirst
  | some last => exact if_pos (wellFormed.inside last (Array.mem_of_back? hback))

end FileTable

namespace Session

variable {s : Session} {name : String} {source : List UInt8} {d : Diagnostic}

/-- The line of a diagnostic is a line of its source. -/
theorem exists_isLine_of_mem_diagnostics (hd : d ∈ (scan source).diagnostics) :
    ∃ i before line after, d.line = i + 1 ∧ IsLine source i before line after := by
  -- the line is counted by line feeds, and there are that many lines
  obtain ⟨hpos, hle⟩ := line_le_of_mem_diagnostics hd
  have hcount : d.line - 1 ≤ source.count lineFeed := by omega
  obtain ⟨before, line, after, hline⟩ := exists_isLine hcount
  exact ⟨d.line - 1, before, line, after, by omega, hline⟩

/-- All that a report asks about a kept source has an answer. -/
theorem Reachable.exists_block (h : Reachable s) (name : String) (source : List UInt8) :
    ∀ d ∈ (scan source).diagnostics,
      ∃ pieces, d.block (s.keep name source).2 (s.keep name source).1 = .ok pieces := by
  intro d hd
  obtain ⟨i, before, line, after, hi, hline⟩ := exists_isLine_of_mem_diagnostics hd
  exact ⟨_, (h.keeps name source).block_eq hline hi⟩

/-- The texts of the report of a source. -/
def reportOf (s : Session) (name : String) (source : List UInt8) : List String :=
  { s with files := (s.keep name source).2 }.reportTexts (s.keep name source).1
    (scan source).diagnostics

/-- A report prints its texts, with all else as the tokens have left it. -/
theorem Reachable.reported_eq (h : Reachable s) {sink : Sink}
    (hsink : (s.emit (dump source)).2 = s.withStdout sink) (name : String) :
    s.reported name source =
      ((s.console.stderr.printAll (s.reportOf name source)).1.mapError (reportFailure s.style),
        { s.withStdout sink with files := (s.keep name source).2 }.withStderr
          (s.console.stderr.printAll (s.reportOf name source)).2) := by
  have blocks : ∀ d ∈ (scan source).diagnostics, ∃ pieces,
      d.block ({ s with files := (s.keep name source).2 }.withStdout sink).files
        (s.keep name source).1 = .ok pieces := h.exists_block name source
  have printed := report_eq blocks
  rw [reportTexts_withStdout, ← reportOf] at printed
  rw [reported, hsink]
  exact printed

/-- A rich report fails only with the complaint of its stream. -/
theorem eq_of_reportRich_error {id : Nat} {ds : List Diagnostic} {f : Failure}
    (hblock : ∀ d ∈ ds, ∃ pieces, d.block s.files id = .ok pieces)
    (hf : (s.reportRich id ds).1 = .error f) :
    f = .render (.stream s.console.stderr.complaint) := by
  rw [reportRich_eq hblock] at hf
  dsimp only at hf
  generalize List.flatMap _ ds = texts at hf
  rcases s.console.stderr.printAll_cases texts with hok | herror
  · rw [hok] at hf
    cases hf
  · rw [herror] at hf
    cases hf
    rfl

/-- **A run fails only because a stream does.** -/
theorem Reachable.eq_of_showSource_error (h : Reachable s) {f : Failure}
    (hf : (s.showSource name source).1 = .error f) :
    f = .write s.console.stdout.complaint ∨ f = reportFailure s.style s.console.stderr.complaint := by
  obtain ⟨⟨sink, hsink⟩, hemit⟩ := s.emit_cases (dump source)
  rw [showSource_eq] at hf
  -- either the tokens fail, or they do not and the report does
  rcases hemit with hok | herror
  · rw [hok] at hf
    cases herr : (scan source).hadError with
    | false =>
      rw [herr] at hf
      cases hf
    | true =>
      rw [herr, h.reported_eq hsink] at hf
      rcases s.console.stderr.printAll_cases (s.reportOf name source) with hok | herror
      · rw [hok] at hf
        cases hf
      · rw [herror] at hf
        cases hf
        exact .inr rfl
  · rw [herror] at hf
    cases hf
    exact .inl rfl

/-- **What a report finds out** about the line of a diagnostic. The source is kept with a line table
that can be built, and the line of each diagnostic can be looked up: its span is on that line and
begins in the first column, and the header of the block names the line that the note names. Hence a
report, and with it a run, fails only because a stream does. -/
theorem Reachable.report_line (h : Reachable s) {id : Nat} {files : FileTable}
    (hkeep : s.files.put (fileOf name source (scan source)) = (id, files)) :
    (∃ file, files.get id = .ok file ∧ file.text = Utf8.text source ∧
      LineTable.ofStarts? file.lines.starts file.lines.length = some file.lines) ∧
    (∀ d ∈ (scan source).diagnostics, ∃ span snippet,
      1 ≤ d.line ∧ files.lineSpan id d.line = .ok span ∧ files.OnLine id (d.line - 1) span ∧
      files.location id span.start = .ok (d.line, 1) ∧
      Snippet.ofLine files id d.line = .ok snippet ∧
      snippet.name = name ∧ snippet.row = d.line ∧ snippet.column = 1 ∧
      d.block files id =
        .ok (snippet.block d.fault.message ("error on line " ++ toString snippet.row))) ∧
    (∀ console f,
      ({ s with files, console }.reportRich id (scan source).diagnostics).1 = .error f →
        f = .render (.stream console.stderr.complaint)) ∧
    (∀ f, (s.showSource name source).1 = .error f →
      f = .write s.console.stdout.complaint ∨ f = .write s.console.stderr.complaint ∨
        f = .render (.stream s.console.stderr.complaint)) := by
  have kept := h.keeps name source
  have blocks := h.exists_block name source
  rw [keep, hkeep] at kept blocks
  refine ⟨⟨_, kept, rfl, FileTable.ofStarts?_ofBytes _⟩, ?_, ?_, ?_⟩
  · intro d hd
    obtain ⟨i, before, line, after, hi, hline⟩ := exists_isLine_of_mem_diagnostics hd
    have hblock := kept.block_eq hline hi
    have hnote : d.note = "error on line " ++ toString (i + 1) := hi ▸ rfl
    rw [hnote] at hblock
    rw [hi, Nat.add_sub_cancel]
    exact ⟨_, FileTable.snippet name i line after, Nat.le_add_left 1 i, kept.lineSpan_eq hline,
      kept.onLine hline, kept.location_eq hline, kept.ofLine_eq hline, rfl, rfl, rfl, hblock⟩
  · intro console f hf
    exact eq_of_reportRich_error (s := { s with files, console }) blocks hf
  · intro f hf
    rcases h.eq_of_showSource_error hf with hout | herr
    · exact .inl hout
    · cases hstyle : s.style with
      | plain =>
        rw [hstyle] at herr
        exact .inr (.inl herr)
      | rich =>
        rw [hstyle] at herr
        exact .inr (.inr herr)

/-- A session that has already reported on a file of the same name. -/
def reporting : Session :=
  ({ store := .sample : Session }.step (.run "main.lox" [0x23])).2

theorem reachable_reporting : Reachable reporting :=
  .step (.start .rich {} .sample) (.run "main.lox" [0x23])

/-- Three lines: a string with a broken character and a carriage return behind it, a bare line
break, and a stray byte. -/
def brokenText : List UInt8 :=
  [0x22, 0x22, 0xE2, 0x82, 0x0D, 0x0A, 0x0D, 0x0A, 0xFF]

theorem report_line_brokenText :
    ∃ id files span,
      reporting.files.put (fileOf "main.lox" brokenText (scan brokenText)) = (id, files) ∧
      files.lineSpan id 3 = .ok span ∧ files.OnLine id 2 span ∧
      files.location id span.start = .ok (3, 1) := by
  obtain ⟨id, files, hkeep⟩ : ∃ id files,
    reporting.files.put (fileOf "main.lox" brokenText (scan brokenText)) = (id, files) := ⟨_, _, rfl⟩
  have stray : ⟨3, .unexpectedCharacter⟩ ∈ (scan brokenText).diagnostics := by decide +kernel
  obtain ⟨-, answers, -⟩ := reachable_reporting.report_line hkeep
  obtain ⟨span, _, -, hspan, hline, hlocation, -⟩ := answers _ stray
  exact ⟨id, files, span, hkeep, hspan, hline, hlocation⟩

/-- **The text of each line** of a kept source: at the span of line `n` stands what line `n` of the
source decodes to when it is decoded alone, without its line end. The decoded text has as many
lines as the source. -/
theorem Reachable.line_text (h : Reachable s) {id : Nat} {files : FileTable}
    (hkeep : s.files.put (fileOf name source (scan source)) = (id, files)) :
    (∃ file, files.get id = .ok file ∧ file.text = Utf8.text source ∧
      file.lines.lines = 1 + source.count lineFeed) ∧
    ((Utf8.bytes (Utf8.text source)).splitOn lineFeed).length =
      (source.splitOn lineFeed).length ∧
    ∀ n, 1 ≤ n → n ≤ 1 + source.count lineFeed →
      ∃ line span, (source.splitOn lineFeed)[n - 1]? = some line ∧
        files.lineSpan id n = .ok span ∧
        Utf8.slice? (Utf8.text source) span.start span.stop =
          some (Utf8.bytes (Utf8.text (withoutLineEnd line))) ∧
        Utf8.bytes (Utf8.text (withoutLineEnd line)) =
          withoutLineEnd (Utf8.bytes (Utf8.text line)) := by
  have kept := h.keeps name source
  rw [keep, hkeep] at kept
  have lines := Utf8.count_recoded lineFeed_ascii source
  refine ⟨⟨_, kept, rfl, ?_⟩, ?_, ?_⟩
  · rw [LineTable.lines_ofBytes, lines, Nat.add_comm]
  · rw [length_splitOn, length_splitOn, ← Utf8.recoded, lines]
  · intro n hpos hle
    obtain ⟨i, rfl⟩ : ∃ i, n = i + 1 := ⟨n - 1, by omega⟩
    have hcount : i ≤ source.count lineFeed := by omega
    obtain ⟨before, line, after, hline⟩ := exists_isLine hcount
    exact ⟨line, _, hline.splitOn_eq, kept.lineSpan_eq hline, FileTable.slice?_line hline,
      (withoutLineEnd_recoded line).symm⟩

theorem line_text_brokenText :
    ∃ id files span,
      reporting.files.put (fileOf "main.lox" brokenText (scan brokenText)) = (id, files) ∧
      files.lineSpan id 1 = .ok span ∧
      Utf8.slice? (Utf8.text brokenText) span.start span.stop =
        some [0x22, 0x22, 0xEF, 0xBF, 0xBD] := by
  obtain ⟨id, files, hkeep⟩ : ∃ id files,
    reporting.files.put (fileOf "main.lox" brokenText (scan brokenText)) = (id, files) := ⟨_, _, rfl⟩
  obtain ⟨-, -, answers⟩ := reachable_reporting.line_text hkeep
  obtain ⟨line, span, hline, hspan, htext, -⟩ := answers 1 (by decide) (by decide)
  have first : (brokenText.splitOn lineFeed)[0]? = some [0x22, 0x22, 0xE2, 0x82, 0x0D] := by
    decide +kernel
  obtain rfl : [0x22, 0x22, 0xE2, 0x82, 0x0D] = line := Option.some.inj (first.symm.trans hline)
  exact ⟨id, files, span, hkeep, hspan, htext.trans (by decide +kernel)⟩

end Session

end LoxLexer
