import LoxLexer.Proofs.Agreement

/-!
# Two styles of reports

A plain report prints the line of each diagnostic as it was counted. A rich report takes the way
through the file table: from the line to a span, from there back to a line, and from the line to
what is shown of it. Both report the same diagnostics in the same order, and a rich report of a
diagnostic is an excerpt that its line, its message and the decoded text of that line determine.

The underline of an excerpt is drawn by columns: below each shown character stand carets if the
label touches its bytes. As a label begins with its line and ends behind all that is shown of it,
the carets begin in the first column and have no gap.

## Main definitions

* `Excerpt.below label offset column cs`: what is drawn below the characters `cs`
* `Excerpt.shown cs`, `Excerpt.label cs`: what is shown and what is labelled of a decoded line
* `Excerpt.text name n message cs`: the excerpt for a message about line `n`

## Main results

* `Excerpt.below_eq_replicate`: below a text that a label covers, there are carets only
* `FileTable.Keeps.join_block_eq`: a rich report of a diagnostic is its excerpt
* `Session.Reachable.styles_agree`: the two styles report the same
-/

namespace LoxLexer

/-! ## Excerpts -/

namespace Excerpt

/-- What is drawn below a place of a line: carets if the label touches the place, and spaces if the
label lies behind it. -/
def mark (label place : Span) (width : Nat) : List Char :=
  if place.start < label.stop then
    List.replicate width (if label.start < place.stop then '^' else ' ')
  else []

/-- **What is drawn below characters**, the first of which begins at a byte offset and a column. The
end of a line is a place of its own. -/
def below (label : Span) (offset column : Nat) : List Char → List Char
  | [] => mark label ⟨offset, offset + 1⟩ 1
  | c :: cs =>
    mark label ⟨offset, offset + c.utf8Size⟩ (Width.columnsAt column c) ++
      below label (offset + c.utf8Size) (column + Width.columnsAt column c) cs

/-- How many bytes characters take. -/
def size (cs : List Char) : Nat :=
  (String.ofList cs).utf8ByteSize

@[simp] theorem size_nil : size [] = 0 := rfl

@[simp] theorem size_cons (c : Char) (cs : List Char) : size (c :: cs) = c.utf8Size + size cs := by
  simp [size, String.ofList_cons]

/-- A character that ends a line. -/
def isBreak (c : Char) : Bool :=
  c == '\n' || c == '\r'

/-- What is shown of a decoded line. -/
def shown (cs : List Char) : List Char :=
  cs.rdropWhile Snippet.isHidden

/-- What is labelled of a decoded line: all but its line break, and at least one byte. -/
def label (cs : List Char) : Span :=
  ⟨0, max (size (cs.rdropWhile isBreak)) 1⟩

/-- The lines of an excerpt. -/
def lines (name : String) (n : Nat) (message : String) (cs : List Char) : List String :=
  let number := toString n
  let padding := String.ofList (List.replicate number.length ' ')
  ["error: " ++ message,
    padding ++ " ┌─ " ++ name ++ ":" ++ number ++ ":1",
    padding ++ " │",
    number ++ " │ " ++ String.ofList (Width.expand 0 (shown cs)),
    padding ++ " │ " ++ String.ofList (below (label cs) 0 0 (shown cs)) ++ " " ++
      ("error on line " ++ number),
    ""]

/-- **The excerpt** for a message about a line with a number and a decoded text. -/
def text (name : String) (n : Nat) (message : String) (cs : List Char) : String :=
  String.join ((lines name n message cs).map (· ++ "\n"))

/-- **Below a text that a label covers** there are carets only: as many as it has columns, and one
more if the label goes on behind it. -/
theorem below_eq_replicate {stop offset : Nat} {cs : List Char} (h : offset + size cs ≤ stop)
    (column : Nat) :
    below ⟨0, stop⟩ offset column cs =
      List.replicate (Width.ofLine column cs + if offset + size cs < stop then 1 else 0) '^' := by
  induction cs generalizing offset column with
  | nil =>
    -- the end of the line is touched, unless the label ends there
    by_cases hstop : offset < stop
    · simp [below, mark, Width.ofLine, hstop]
    · simp [below, mark, Width.ofLine, hstop]
  | cons c cs ih =>
    rw [size_cons] at h
    have touched : 0 < offset + c.utf8Size := Nat.add_pos_right offset c.utf8Size_pos
    have inside : offset < stop := by
      have := c.utf8Size_pos
      omega
    rw [← Nat.add_assoc] at h
    rw [below, mark, if_pos inside, if_pos touched, ih h, Width.ofLine, size_cons,
      List.replicate_append_replicate, Nat.add_assoc, Nat.add_assoc]

theorem isHidden_of_isBreak {c : Char} (h : isBreak c = true) : Snippet.isHidden c = true := by
  rw [Snippet.isHidden, ← isBreak, h, Bool.true_or]

/-- All that is shown of a line stands before its line break. -/
theorem shown_isPrefix (cs : List Char) : shown cs <+: cs.rdropWhile isBreak := by
  unfold shown
  induction cs using List.reverseRecOn with
  | nil => exact List.prefix_refl _
  | append_singleton cs c ih =>
    by_cases hc : isBreak c = true
    · rw [List.rdropWhile_concat_pos _ _ _ hc,
        List.rdropWhile_concat_pos _ _ _ (isHidden_of_isBreak hc)]
      exact ih
    · rw [List.rdropWhile_concat_neg _ _ _ hc]
      exact List.rdropWhile_prefix _ _

theorem size_le_of_isPrefix {cs ds : List Char} (h : cs <+: ds) : size cs ≤ size ds := by
  obtain ⟨es, rfl⟩ := h
  rw [size, size, String.ofList_append, String.utf8ByteSize_append]
  exact Nat.le_add_right _ _

/-- **A label covers** all that is shown of its line. -/
theorem size_shown_le (cs : List Char) : size (shown cs) ≤ (label cs).stop :=
  Nat.le_trans (size_le_of_isPrefix (shown_isPrefix cs)) (Nat.le_max_left _ 1)

/-- **The underline** of a line has no gap. -/
theorem below_label (cs : List Char) :
    below (label cs) 0 0 (shown cs) =
      List.replicate (Width.ofLine 0 (shown cs) +
        if size (shown cs) < (label cs).stop then 1 else 0) '^' := by
  have covered : 0 + size (shown cs) ≤ (label cs).stop := by
    rw [Nat.zero_add]
    exact size_shown_le cs
  have drawn := below_eq_replicate covered 0
  rw [Nat.zero_add] at drawn
  exact drawn

end Excerpt

/-! ## The decoded line of a report -/

section DecodedLine

variable {source before line after : List UInt8} {i : Nat}

theorem decode_singleton_of_ascii {b : UInt8} (h : b.toNat < 0x80) :
    Utf8.decode [b] = [Char.ofNat b.toNat] := by
  rw [Utf8.decode_cons, Utf8.next_of_ascii h, Utf8.decode_nil]

theorem decode_recoded (bs : List UInt8) : Utf8.decode (Utf8.recoded bs) = Utf8.decode bs :=
  String.ofList_injective (Utf8.text_bytes (Utf8.text bs))

theorem isBreak_of_isBreakByte {b : UInt8} (h : isBreakByte b = true) :
    Excerpt.isBreak (Char.ofNat b.toNat) = true := by
  rcases Bool.or_eq_true_iff.mp h with h | h
  · rw [eq_of_beq h]
    decide
  · rw [eq_of_beq h]
    decide

/-- A text that ends in a line break is decoded from bytes that do. -/
theorem isBreakByte_of_isBreak {bs : List UInt8} {b : UInt8} {cs : List Char} {c : Char}
    (hcs : Utf8.decode (bs ++ [b]) = cs ++ [c]) (hc : Excerpt.isBreak c = true) :
    isBreakByte b = true := by
  obtain ⟨y, hy, hend⟩ : ∃ y, String.utf8EncodeChar c = [y] ∧ isBreakByte y = true := by
    rcases Bool.or_eq_true_iff.mp hc with h | h
    · rw [eq_of_beq h]
      exact ⟨0x0A, by decide, by decide⟩
    · rw [eq_of_beq h]
      exact ⟨0x0D, by decide, by decide⟩
  have hlast : (Utf8.recoded (bs ++ [b])).getLast? = some y := by
    rw [Utf8.recoded_eq, hcs, List.flatMap_append, List.flatMap_singleton, hy,
      List.getLast?_concat]
  have hsource := Utf8.getLast?_of_recoded (ascii_of_isBreakByte hend) hlast
  rw [List.getLast?_concat] at hsource
  rwa [Option.some.inj hsource]

/-- **Line ends are line breaks**: it does not matter which of them are cut off, those of the bytes
or those of the text. -/
theorem decode_withoutLineEnd (bs : List UInt8) :
    Utf8.decode (withoutLineEnd bs) = (Utf8.decode bs).rdropWhile Excerpt.isBreak := by
  rw [withoutLineEnd]
  induction bs using List.reverseRecOn with
  | nil => simp
  | append_singleton bs b ih =>
    by_cases hb : isBreakByte b = true
    · have ascii := ascii_of_isBreakByte hb
      rw [List.rdropWhile_concat_pos _ _ _ hb, ih, Utf8.decode_append_detached (.cons ascii),
        decode_singleton_of_ascii ascii,
        List.rdropWhile_concat_pos _ _ _ (isBreak_of_isBreakByte hb)]
    · rw [List.rdropWhile_concat_neg _ _ _ hb]
      symm
      rw [List.rdropWhile_eq_self_iff]
      intro hne hlast
      exact hb (isBreakByte_of_isBreak (List.dropLast_append_getLast hne).symm hlast)

/-- **What a snippet shows** of a line depends on the decoded line alone. -/
theorem IsLine.shown_snippet (h : IsLine source i before line after) (name : String) :
    (FileTable.snippet name i line after).shown = Excerpt.shown (Utf8.decode line) := by
  have ending : Utf8.decode (Utf8.recoded line ++ after.take 1) =
      Utf8.decode line ++ Utf8.decode (after.take 1) := by
    have detached := Utf8.Detached.append h.ascii_take .nil
    rw [List.append_nil] at detached
    rw [Utf8.decode_append_detached detached, decode_recoded]
  change (Utf8.decode (Utf8.recoded line ++ after.take 1)).rdropWhile Snippet.isHidden = _
  rw [ending]
  rcases h.ends with rfl | ⟨later, rfl⟩
  · rw [List.take_nil, Utf8.decode_nil, List.append_nil]
    rfl
  · -- the line feed that ends the line is hidden
    have feed : Utf8.decode ((lineFeed :: later).take 1) = ['\n'] :=
      decode_singleton_of_ascii lineFeed_ascii
    rw [feed]
    exact List.rdropWhile_concat_pos Snippet.isHidden _ _ (by decide)

/-- What a snippet labels, by the decoded line. -/
theorem max_label_snippet (name : String) (i : Nat) (line after : List UInt8) :
    max (FileTable.snippet name i line after).label 1 =
      (Excerpt.label (Utf8.decode line)).stop := by
  change max (Utf8.recoded (withoutLineEnd line)).length 1 = max _ 1
  rw [← decode_withoutLineEnd, Utf8.recoded, Utf8.length_bytes]
  rfl

/-- **The underline of a snippet** is what is drawn below the line. -/
theorem IsLine.carets_snippet (h : IsLine source i before line after) (name : String) :
    (FileTable.snippet name i line after).carets =
      let cs := Utf8.decode line
      String.ofList (Excerpt.below (Excerpt.label cs) 0 0 (Excerpt.shown cs)) := by
  dsimp only
  rw [Excerpt.below_label, Snippet.carets, Snippet.shownBytes, max_label_snippet,
    h.shown_snippet]
  rfl

end DecodedLine

/-! ## Reports in both styles -/

/-- The rich report of a snippet, line by line. -/
theorem Snippet.join_block (s : Snippet) (message note : String) :
    String.join ((s.block message note).map (Piece.render false)) =
      String.join (["error: " ++ message,
        s.padding ++ " ┌─ " ++ s.name ++ ":" ++ toString s.row ++ ":" ++ toString s.column,
        s.padding ++ " │",
        toString s.row ++ " │ " ++ s.source,
        s.padding ++ " │ " ++ s.carets ++ " " ++ note,
        ""].map (· ++ "\n")) := by
  apply String.toList_inj.mp
  -- a line of which nothing is shown leaves no pieces
  by_cases h : s.shown = []
  · simp [block, headerLine, originLine, emptyLine, sourceLine, underline, h, source,
      Width.expand]
  · simp [block, headerLine, originLine, emptyLine, sourceLine, underline, h, Piece.inked]

/-- The text of a line of a source, counted from one. -/
def decodedLine (source : List UInt8) (n : Nat) : List Char :=
  Utf8.decode ((source.splitOn lineFeed).getD (n - 1) [])

theorem IsLine.decodedLine_eq {source before line after : List UInt8} {i : Nat}
    (h : IsLine source i before line after) : decodedLine source (i + 1) = Utf8.decode line := by
  rw [decodedLine, Nat.add_sub_cancel, List.getD_eq_getElem?_getD, h.splitOn_eq, Option.getD_some]

/-- **The rich report of a diagnostic is its excerpt**, in any file table that keeps its source. -/
theorem FileTable.Keeps.join_block_eq {t : FileTable} {id : Nat} {name : String}
    {source : List UInt8} (h : t.Keeps id name source) {d : Diagnostic}
    (hd : d ∈ (scan source).diagnostics) :
    ∃ pieces, d.block t id = .ok pieces ∧ String.join (pieces.map (Piece.render false)) =
      Excerpt.text name d.line d.fault.message (decodedLine source d.line) := by
  obtain ⟨i, before, line, after, hi, hline⟩ := Session.exists_isLine_of_mem_diagnostics hd
  refine ⟨_, h.block_eq hline hi, ?_⟩
  have shown : (snippet name i line after).source =
      String.ofList (Width.expand 0 (Excerpt.shown (Utf8.decode line))) := by
    rw [Snippet.source, hline.shown_snippet]
  have origin : ∀ prelude : String, prelude ++ ":" ++ toString 1 = prelude ++ ":1" := by
    intro prelude
    rw [String.append_assoc]
    rfl
  have note : d.note = "error on line " ++ toString (i + 1) := hi ▸ rfl
  rw [Snippet.join_block, shown, hline.carets_snippet, note, hi, hline.decodedLine_eq]
  dsimp only [snippet, Snippet.padding, Excerpt.text, Excerpt.lines]
  rw [origin]

theorem Sink.bytesOf_eq (texts : List String) :
    bytesOf texts = Utf8.bytes (String.join texts) := by
  induction texts with
  | nil => rfl
  | cons text texts ih =>
    rw [String.join_cons, Utf8.bytes_append, ← ih]
    rfl

namespace Session

variable {s t : Session}

/-- The rich report of a source is made of excerpts. -/
theorem Reachable.reportBytes_of_rich (h : Reachable s) (hstyle : s.style = .rich)
    (hcolour : s.console.coloured = false) (name : String) (source : List UInt8) :
    s.reportBytes name source = (scan source).diagnostics.flatMap fun d =>
      Utf8.bytes (Excerpt.text name d.line d.fault.message (decodedLine source d.line)) := by
  unfold reportBytes reportOf reportTexts
  rw [hstyle]
  dsimp only
  rw [Sink.bytesOf, List.flatMap_assoc]
  apply List.flatMap_congr
  intro d hd
  obtain ⟨pieces, hblock, hjoin⟩ := (h.keeps name source).join_block_eq hd
  rw [hblock, hcolour, ← hjoin, ← Sink.bytesOf_eq]
  rfl

/-- On streams that never fail, a run writes its tokens and its report. -/
theorem Reachable.ends_of_neverFails (hs : Reachable s) (h : NeverFails s) (name : String)
    (source : List UInt8) :
    Ends (s.run name source) (if (scan source).diagnostics = [] then .ok else .dataError)
      (s.console.stdout.take ((scan source).tokens.flatMap Token.dumped)).written
      (s.console.stderr.take (s.reportBytes name source)).written := by
  have ends := hs.run_of_fits (h.stdout.fits (dumpBytes source)) h.stdout.flushed
    (h.stderr.fits (s.reportBytes name source))
  rw [dumpBytes_eq, Scan.hadError] at ends
  cases hds : (scan source).diagnostics with
  | nil =>
    rw [hds] at ends
    exact ends
  | cons d ds =>
    rw [hds] at ends
    exact ends

/-- The label of a diagnostic is its line without the line break. -/
theorem exists_labelled {d : Diagnostic} {files : FileTable} {id : Nat} {name : String}
    {source : List UInt8} (h : files.Keeps id name source)
    (hd : d ∈ (scan source).diagnostics) :
    ∃ span, files.lineSpan id d.line = .ok span ∧
      Utf8.slice? (Utf8.text source) span.start span.stop = some (Utf8.bytes
        (String.ofList ((decodedLine source d.line).rdropWhile Excerpt.isBreak))) := by
  obtain ⟨i, before, line, after, hi, hline⟩ := exists_isLine_of_mem_diagnostics hd
  rw [hi, hline.decodedLine_eq, ← decode_withoutLineEnd]
  exact ⟨_, h.lineSpan_eq hline, FileTable.slice?_line hline⟩

/-- **The two styles report the same.** Let a source be run in two sessions, whatever they did
before, on the same streams, which never fail and are not coloured; let one of them report in the
plain style and the other in the rich style. Both end alike and show the same tokens. The plain
report has one line for each diagnostic, and the rich report has one excerpt for each of them, in
the same order; an excerpt is made of the name, the line and the message of the diagnostic and the
decoded text of that line. The label of the diagnostic is that text without its line break, and what
is shown of the line is a beginning of it, so that the underline begins in the first column and has
no gap. -/
theorem Reachable.styles_agree (hs : Reachable s) (ht : Reachable t) (hplain : s.style = .plain)
    (hrich : t.style = .rich) (hconsole : t.console = s.console) (hsound : NeverFails s)
    (hcolour : s.console.coloured = false) (name : String) (source : List UInt8) :
    let ds := (scan source).diagnostics
    let exit := if ds = [] then Exit.ok else .dataError
    let shown := s.console.stdout.take ((scan source).tokens.flatMap Token.dumped)
    Ends (s.run name source) exit shown.written
      (s.console.stderr.take (ds.flatMap fun d => Utf8.bytes
        ("[line " ++ toString d.line ++ "] Error: " ++ d.fault.message ++ "\n"))).written ∧
    Ends (t.run name source) exit shown.written
      (s.console.stderr.take (ds.flatMap fun d => Utf8.bytes
        (Excerpt.text name d.line d.fault.message (decodedLine source d.line)))).written ∧
    ∀ d ∈ ds,
      let cs := decodedLine source d.line
      let kept := t.keep name source
      (∃ span, kept.2.lineSpan kept.1 d.line = .ok span ∧
        Utf8.slice? (Utf8.text source) span.start span.stop =
          some (Utf8.bytes (String.ofList (cs.rdropWhile Excerpt.isBreak)))) ∧
      Excerpt.shown cs <+: cs.rdropWhile Excerpt.isBreak ∧
      Excerpt.below (Excerpt.label cs) 0 0 (Excerpt.shown cs) =
        List.replicate (Width.ofLine 0 (Excerpt.shown cs) +
          if Excerpt.size (Excerpt.shown cs) < (Excerpt.label cs).stop then 1 else 0) '^' := by
  have hsound' : NeverFails t := by
    constructor
    · rw [hconsole]
      exact hsound.stdout
    · rw [hconsole]
      exact hsound.stderr
  refine ⟨?_, ?_, ?_⟩
  · have ends := hs.ends_of_neverFails hsound name source
    rw [reportBytes_of_plain hplain] at ends
    exact ends
  · have ends := ht.ends_of_neverFails hsound' name source
    rw [ht.reportBytes_of_rich hrich (hconsole ▸ hcolour), hconsole] at ends
    exact ends
  · intro d hd
    exact ⟨exists_labelled (ht.keeps name source) hd, Excerpt.shown_isPrefix _,
      Excerpt.below_label _⟩

/-- A line with a tab, bytes that no token starts with, a NUL and a carriage return; then a string
that is never closed. -/
def mangled : List UInt8 :=
  [0x40, 0x09, 0xFF, 0x00, 0x0D, lineFeed, 0x22]

theorem styles_agree_mangled :
    let plain : Session := { style := .plain, store := .sample }
    let rich : Session := { reporting with console := {}, store := .sample }
    let complaint := "[line 1] Error: Unexpected character.\n"
    let excerpt := "error: Unexpected character.\n  ┌─ a:1:1\n  │\n1 │ @   �\n" ++
      "  │ ^^^^^^ error on line 1\n\n"
    Ends (plain.run "a" mangled) .dataError (Utf8.bytes "EOF  \n")
      (Utf8.bytes (complaint ++ complaint ++ complaint ++
        "[line 2] Error: Unterminated string.\n")) ∧
    Ends (rich.run "a" mangled) .dataError (Utf8.bytes "EOF  \n")
      (Utf8.bytes (excerpt ++ excerpt ++ excerpt ++
        "error: Unterminated string.\n  ┌─ a:2:1\n  │\n2 │ \x22\n  │ ^ error on line 2\n\n")) := by
  intro plain rich complaint excerpt
  have start : Reachable plain := .start .plain {} .sample
  have later : Reachable rich := reachable_reporting.world {} .sample
  obtain ⟨ran, ran', -⟩ := start.styles_agree later rfl (by decide +kernel) rfl
    ⟨⟨rfl, rfl⟩, ⟨rfl, rfl⟩⟩ rfl "a" mangled
  exact ⟨⟨ran.exit_eq.trans (by decide +kernel), ran.stdout_eq.trans (by decide +kernel),
      ran.stderr_eq.trans (by decide +kernel)⟩,
    ⟨ran'.exit_eq.trans (by decide +kernel), ran'.stdout_eq.trans (by decide +kernel),
      ran'.stderr_eq.trans (by decide +kernel)⟩⟩

end Session

end LoxLexer
