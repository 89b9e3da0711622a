import LoxLexer.Proofs.Dialogue
import LoxLexer.Proofs.Dump

/-!
# Lines at the prompt and in a source

The prompt runs lines one by one and cuts off carriage returns; a run takes them all at once. Both
show the same. Blanks at the end of a source yield nothing, and change nothing in front of them: a
comment and an open string take them, whatever else stands there ends before them. And where each
line closes its strings, the source is composed of its lines. So the two dumps differ in marks and
ends of input, and the two reports in line numbers: at the prompt every line is the first.

## Main definitions

* `joinLines lines`: the source of these lines, with a line feed behind each
* `Diagnostic.numbered i dss`: the diagnostics of successive lines, from line `i` on
* `Session.Wrote s t out err`: between `s` and `t`, the streams took `out` and `err`

## Main results

* `Segment.yield_append_blanks`: blanks at the end of a source yield nothing
* `scan_withoutLineEnd`: a line is scanned alike with and without its line end
* `flatMap_dumped_joinLines`, `diagnosticsFrom_joinLines`: what a source of lines yields
* `Session.Reachable.prompt_of_lines`: what a prompt writes
* `Session.Reachable.prompt_agrees`: the prompt and a run agree
-/

namespace LoxLexer

namespace Segment

/-! ## Blanks at the end of a source -/

section Blanks

variable {b : UInt8} {a rest ys : List UInt8}

theorem of_extent_openString (h : (extent b rest).1 = .openString) :
    b = quote ∧ quote ∉ rest := by
  have other : (extent b rest).1 ≠ .stray := by
    rw [h]
    decide
  obtain ⟨hw, hend⟩ := Grammar.fits_next other
  have taken : rest.take (extent b rest).2 = rest := by
    have whole := List.take_append_drop (extent b rest).2 rest
    rwa [show rest.drop (extent b rest).2 = [] from hend h, List.append_nil] at whole
  rw [next, h, taken] at hw
  obtain ⟨body, hbody, hquote⟩ := Grammar.mem_openString_iff.mp hw
  obtain ⟨rfl, rfl⟩ := List.cons.inj hbody
  exact ⟨rfl, fun hmem => hquote quote hmem rfl⟩

theorem of_extent_comment (h : (extent b rest).1 = .comment) :
    b = slash ∧ rest.head? = some slash := by
  have other : (extent b rest).1 ≠ .stray := by
    rw [h]
    decide
  obtain ⟨hw, -⟩ := Grammar.fits_next other
  rw [next, h] at hw
  obtain ⟨body, hbody, -⟩ := Grammar.mem_comment_iff.mp hw
  obtain ⟨rfl, htaken⟩ := List.cons.inj hbody
  refine ⟨rfl, ?_⟩
  cases rest with
  | nil =>
    rw [List.take_nil] at htaken
    cases htaken
  | cons x rest =>
    cases hn : (extent slash (x :: rest)).2 with
    | zero =>
      rw [hn] at htaken
      cases htaken
    | succ n =>
      rw [hn] at htaken
      exact congrArg some (List.cons.inj htaken).1

theorem lineFeed_notMem_of_blank (hys : ∀ y ∈ ys, isBlank y = true) : lineFeed ∉ ys := by
  intro hfeed
  exact absurd (hys lineFeed hfeed) (by decide)

/-- **Blanks behind a segment** do not change it, unless it is the last and takes them: a comment or
an open string. -/
theorem extent_append_blanks (hys : ∀ y ∈ ys, isBlank y = true) (b : UInt8) (rest : List UInt8) :
    extent b (rest ++ ys) = extent b rest ∨
      ∃ c, (c = .comment ∨ c = .openString) ∧ extent b rest = (c, rest.length) ∧
        extent b (rest ++ ys) = (c, (rest ++ ys).length) := by
  by_cases hopen : (extent b rest).1 = .openString
  · obtain ⟨rfl, hquote⟩ := of_extent_openString hopen
    have hquote' : quote ∉ rest ++ ys := by
      intro hmem
      rcases List.mem_append.mp hmem with hmem | hmem
      · exact hquote hmem
      · exact absurd (hys quote hmem) (by decide)
    refine .inr ⟨.openString, .inr rfl, ?_, ?_⟩
    · rw [Grammar.extent_quote, if_neg (by simpa using hquote)]
    · rw [Grammar.extent_quote, if_neg (by simpa using hquote')]
  by_cases hcomment : (extent b rest).1 = .comment
  · obtain ⟨rfl, hhead⟩ := of_extent_comment hcomment
    have hhead' : (rest ++ ys).head? = some slash := by
      rw [List.head?_append, hhead]
      rfl
    rw [Grammar.extent_slash, Grammar.extent_slash, if_pos hhead, if_pos hhead']
    by_cases hfeed : lineFeed ∈ rest
    · exact .inl (by rw [takeWhile_append_of_mem hfeed (by simp)])
    · -- no line feed ends the comment
      have whole {bs : List UInt8} (hbs : lineFeed ∉ bs) : bs.takeWhile (· != lineFeed) = bs := by
        rw [List.takeWhile_eq_self_iff]
        intro x hx
        simpa using ne_of_mem_of_not_mem hx hbs
      have hfeed' : lineFeed ∉ rest ++ ys := by
        intro hmem
        rcases List.mem_append.mp hmem with hmem | hmem
        · exact hfeed hmem
        · exact lineFeed_notMem_of_blank hys hmem
      exact .inr ⟨.comment, .inl rfl, by rw [whole hfeed], by rw [whole hfeed']⟩
  · cases ys with
    | nil => exact .inl (by rw [List.append_nil])
    | cons y ys =>
      have hy : isWhite y = true := by
        rw [isWhite, hys y List.mem_cons_self, Bool.true_or]
      exact .inl (extent_append hy hopen (fun h => absurd h hcomment) ys)

/-- **Blanks at the end of a source yield nothing.** -/
theorem yield_append_blanks (hys : ∀ y ∈ ys, isBlank y = true) (line : Nat) (a : List UInt8) :
    tokensFrom line (split (a ++ ys)) = tokensFrom line (split a) ∧
      diagnosticsFrom line (split (a ++ ys)) = diagnosticsFrom line (split a) := by
  fun_induction split a generalizing line with
  | case1 =>
    have white : ∀ y ∈ ys, isWhite y = true := by
      intro y hy
      rw [isWhite, hys y hy, Bool.true_or]
    have nothing := map_content_tokensFrom line (ys.map Segment.white)
    have faultless := map_fault_diagnosticsFrom line (ys.map Segment.white)
    rw [contents_map_white] at nothing
    rw [faults_map_white] at faultless
    rw [List.nil_append, split_of_white white]
    exact ⟨List.map_eq_nil_iff.mp nothing, List.map_eq_nil_iff.mp faultless⟩
  | case2 b rest ih =>
    rw [List.cons_append, split_cons]
    rcases extent_append_blanks hys b rest with same | ⟨c, hc, whole, whole'⟩
    · obtain ⟨htokens, hdiagnostics⟩ := ih (line + (next b rest).lineFeeds)
      rw [next_append_of_extent same, after_append_of_extent same]
      refine ⟨?_, ?_⟩
      · rw [tokensFrom, tokensFrom, htokens]
      · rw [diagnosticsFrom, diagnosticsFrom, hdiagnostics]
    · -- the last segment grows, but neither its fault nor the line that it ends on
      have feeds : lineFeeds ⟨c, b :: (rest ++ ys)⟩ = lineFeeds ⟨c, b :: rest⟩ := by
        rw [lineFeeds, lineFeeds, ← List.cons_append, List.count_append,
          List.count_eq_zero_of_not_mem (lineFeed_notMem_of_blank hys), Nat.add_zero]
      rw [next, after, next, after, whole, whole', List.take_length, List.take_length,
        List.drop_length, List.drop_length, split_nil]
      refine ⟨?_, ?_⟩
      · rcases hc with rfl | rfl <;> rfl
      · rw [diagnosticsFrom, diagnosticsFrom, feeds]
        rfl

end Blanks

end Segment

/-! ## Lines -/

section Lines

open Segment

variable {line : List UInt8} {lines : List (List UInt8)}

/-- **A line is scanned alike with and without its line end.** -/
theorem scan_withoutLineEnd (hline : lineFeed ∉ line) :
    (scan (withoutLineEnd (line ++ [lineFeed]))).tokens = (scan line).tokens ∧
      (scan (withoutLineEnd (line ++ [lineFeed]))).diagnostics = (scan line).diagnostics := by
  have cut : withoutLineEnd (line ++ [lineFeed]) = withoutLineEnd line :=
    List.rdropWhile_concat_pos isBreakByte line lineFeed rfl
  obtain ⟨ending, heq, hending⟩ := exists_withoutLineEnd_append line
  rw [cut]
  generalize withoutLineEnd line = trimmed at heq
  subst heq
  -- what is cut off are carriage returns
  have blank : ∀ b ∈ ending, isBlank b = true := by
    intro b hb
    rcases Bool.or_eq_true_iff.mp (hending b hb) with h | h
    · rw [eq_of_beq h] at hb
      exact absurd (List.mem_append_right trimmed hb) hline
    · rw [eq_of_beq h]
      rfl
  have count : (trimmed ++ ending).count lineFeed = trimmed.count lineFeed := by
    rw [List.count_append, List.count_eq_zero_of_not_mem (lineFeed_notMem_of_blank blank),
      Nat.add_zero]
  obtain ⟨htokens, hdiagnostics⟩ := yield_append_blanks blank 1 trimmed
  refine ⟨?_, ?_⟩
  · rw [tokens_scan, tokens_scan, htokens, count]
  · rw [diagnostics_scan, diagnostics_scan, hdiagnostics]

/-- The source of some lines, with a line feed behind each. -/
def joinLines (lines : List (List UInt8)) : List UInt8 :=
  lines.flatMap (· ++ [lineFeed])

/-- The diagnostic on another line. -/
def Diagnostic.onLine (i : Nat) (d : Diagnostic) : Diagnostic :=
  { d with line := i }

/-- The diagnostics of successive lines, the first of which has the number `i`. -/
def Diagnostic.numbered (i : Nat) (dss : List (List Diagnostic)) : List Diagnostic :=
  (dss.zipIdx i).flatMap fun p => p.1.map (onLine p.2)

theorem Diagnostic.numbered_cons (i : Nat) (ds : List Diagnostic) (dss : List (List Diagnostic)) :
    numbered i (ds :: dss) = ds.map (onLine i) ++ numbered (i + 1) dss := by
  rw [numbered, List.zipIdx_cons, List.flatMap_cons, numbered]

theorem Diagnostic.numbered_eq_nil_iff (i : Nat) (dss : List (List Diagnostic)) :
    numbered i dss = [] ↔ dss.flatten = [] := by
  induction dss generalizing i with
  | nil => rfl
  | cons ds dss ih =>
    rw [numbered_cons, List.append_eq_nil_iff, ih, List.map_eq_nil_iff, List.flatten_cons,
      List.append_eq_nil_iff]

/-- Within a line, all diagnostics are on that line. -/
theorem diagnosticsFrom_split_line (hline : lineFeed ∉ line) (i : Nat) :
    diagnosticsFrom i (split line) = (faults (split line)).map (Diagnostic.mk i) := by
  have here : ∀ d ∈ diagnosticsFrom i (split line), Diagnostic.mk i d.fault = id d := by
    intro d hd
    have bounds := line_le_of_mem_diagnosticsFrom hd
    rw [flatMap_bytes_split, List.count_eq_zero_of_not_mem hline] at bounds
    exact congrArg (Diagnostic.mk · d.fault) (Nat.le_antisymm bounds.1 bounds.2)
  rw [← map_fault_diagnosticsFrom i, List.map_map]
  exact ((List.map_congr_left here).trans (List.map_id _)).symm

theorem diagnostics_scan_line (hline : lineFeed ∉ line) :
    (scan line).diagnostics = (faults (split line)).map (Diagnostic.mk 1) := by
  rw [diagnostics_scan, diagnosticsFrom_split_line hline]

/-- What a dump has for the tokens of a line, without the end of the input. -/
def dumpedLine (line : List UInt8) : List UInt8 :=
  (scan line).tokens.dropLast.flatMap Token.dumped

theorem dumpedLine_eq (line : List UInt8) (i : Nat) :
    dumpedLine line = (tokensFrom i (split line)).flatMap Token.dumped := by
  rw [dumpedLine, tokens_scan, List.dropLast_concat, Token.flatMap_dumped_eq,
    Token.flatMap_dumped_eq, map_content_tokensFrom, map_content_tokensFrom]

theorem flatMap_dumped_tokens (source : List UInt8) :
    (scan source).tokens.flatMap Token.dumped = dumpedLine source ++ Utf8.bytes "EOF  \n" := by
  rw [dumpedLine_eq source 1, tokens_scan, List.flatMap_append]
  rfl

theorem joinLines_cons (line : List UInt8) (lines : List (List UInt8)) :
    joinLines (line :: lines) = line ++ lineFeed :: joinLines lines := by
  rw [joinLines, List.flatMap_cons, List.append_assoc]
  rfl

/-- **The tokens of lines** are dumped line by line. -/
theorem flatMap_dumped_joinLines (hlines : ∀ line ∈ lines, (scan line).Closed) (i : Nat) :
    (tokensFrom i (split (joinLines lines))).flatMap Token.dumped = lines.flatMap dumpedLine := by
  induction lines generalizing i with
  | nil =>
    rw [joinLines, List.flatMap_nil, split_nil]
    rfl
  | cons line lines ih =>
    obtain ⟨hline, hlines⟩ := List.forall_mem_cons.mp hlines
    rw [joinLines_cons, hline.tokensFrom_eq, List.flatMap_append, ih hlines, ← dumpedLine_eq,
      List.flatMap_cons]

/-- **The diagnostics of lines** are those of each line by itself, on that line. -/
theorem diagnosticsFrom_joinLines (hlines : ∀ line ∈ lines, lineFeed ∉ line ∧ (scan line).Closed)
    (i : Nat) :
    diagnosticsFrom i (split (joinLines lines)) =
      Diagnostic.numbered i (lines.map fun line => (scan line).diagnostics) := by
  induction lines generalizing i with
  | nil =>
    rw [joinLines, List.flatMap_nil, split_nil]
    rfl
  | cons line lines ih =>
    obtain ⟨⟨hfeed, hline⟩, hlines⟩ := List.forall_mem_cons.mp hlines
    have own : diagnosticsFrom i (split line) =
        (scan line).diagnostics.map (Diagnostic.onLine i) := by
      rw [diagnostics_scan_line hfeed, diagnosticsFrom_split_line hfeed, List.map_map]
      rfl
    rw [joinLines_cons, hline.diagnosticsFrom_eq, ih hlines, own,
      List.count_eq_zero_of_not_mem hfeed, List.map_cons, Diagnostic.numbered_cons]

end Lines

/-! ## What is written in a dialogue -/

namespace Sink

theorem discards_take (s : Sink) (bs : List UInt8) : (s.take bs).discards = s.discards := by
  unfold take
  split <;> rfl

theorem discards_write (s : Sink) (bs : List UInt8) : (s.write bs).2.discards = s.discards := by
  rcases fits_or_short s bs with hfits | ⟨room, hroom, hlt⟩
  · rw [write_of_fits hfits]
    exact s.discards_take _
  · rw [write_of_short hroom hlt]
    exact s.discards_take _

theorem discards_printAll (s : Sink) (texts : List String) :
    (s.printAll texts).2.discards = s.discards := by
  rw [← discards_joined, (s.printAll_eq texts).2, discards_joined, discards_write]

/-- What was taken before does not matter to what is taken. -/
theorem written_take_congr {s t : Sink} {xs : List UInt8}
    (hwritten : t.written = (s.take xs).written) (hdiscards : t.discards = s.discards)
    (ys : List UInt8) : (t.take ys).written = (s.take (xs ++ ys)).written := by
  cases hs : s.discards with
  | true =>
    rw [hs] at hdiscards
    simpa [take, hdiscards, hs] using hwritten
  | false =>
    rw [hs] at hdiscards
    rw [written_take hdiscards, written_take hs, hwritten, written_take hs, List.append_assoc]

end Sink

namespace Session

open Sink (bytesOf)

variable {s t u : Session} {out err out' err' : List UInt8} {lines : List (List UInt8)}

section Writing

/-- How a session writes: its style, and whether its streams keep what they take. -/
def manner (s : Session) : Style × Bool × Bool :=
  (s.style, s.console.stdout.discards, s.console.stderr.discards)

theorem manner_emit (s : Session) (texts : List String) : (s.emit texts).2.manner = s.manner := by
  have same := s.console.stdout.discards_printAll texts
  rcases s.snd_emit_cases texts with h | h
  · rw [h]
    exact congrArg (fun d => (s.style, d, s.console.stderr.discards)) same
  · rw [h]
    exact congrArg (fun d => (s.style, d, s.console.stderr.discards)) same

theorem manner_reported (s : Session) (name : String) (source : List UInt8) :
    (s.reported name source).2.manner = s.manner := by
  obtain ⟨texts, htexts⟩ := s.exists_reported_eq name source
  have same := (s.emit (dump source)).2.console.stderr.discards_printAll texts
  rw [htexts, ← s.manner_emit (dump source)]
  exact congrArg (fun d => (_, _, d)) same

theorem manner_fail (s : Session) (f : Failure) : (s.fail f).2.manner = s.manner :=
  congrArg (fun d => (_, _, d)) (s.console.stderr.discards_write _)

/-- **A run does not change how a session writes.** -/
theorem manner_run (s : Session) (name : String) (source : List UInt8) :
    (s.run name source).2.manner = s.manner := by
  have course := s.course_run name source
  generalize s.run name source = done at course ⊢
  cases course with
  | unwritten f _ => exact (manner_fail _ f).trans (s.manner_emit (dump source))
  | clean _ _ => exact s.manner_emit (dump source)
  | reported _ _ _ => exact s.manner_reported name source
  | unreported f _ _ _ => exact (manner_fail _ f).trans (s.manner_reported name source)

/-- **What a session writes on its way**: between `s` and `t`, the standard output took `out` and
the standard error took `err`. -/
structure Wrote (s t : Session) (out err : List UInt8) : Prop where
  manner_eq : t.manner = s.manner
  stdout_eq : t.console.stdout.written = (s.console.stdout.take out).written
  stderr_eq : t.console.stderr.written = (s.console.stderr.take err).written

theorem Wrote.style_eq (h : Wrote s t out err) : t.style = s.style :=
  congrArg Prod.fst h.manner_eq

theorem Wrote.refl (s : Session) : Wrote s s [] [] :=
  ⟨rfl, (Sink.written_take_nil _).symm, (Sink.written_take_nil _).symm⟩

theorem Wrote.trans (h : Wrote s t out err) (h' : Wrote t u out' err') :
    Wrote s u (out ++ out') (err ++ err') := by
  refine ⟨h'.manner_eq.trans h.manner_eq, ?_, ?_⟩
  · rw [h'.stdout_eq]
    exact Sink.written_take_congr h.stdout_eq (congrArg (·.2.1) h.manner_eq) out'
  · rw [h'.stderr_eq]
    exact Sink.written_take_congr h.stderr_eq (congrArg (·.2.2) h.manner_eq) err'

theorem NeverFails.wrote_asked (h : NeverFails s) :
    Wrote s s.asked (Utf8.bytes "> ") [] := by
  obtain ⟨sink, hemit, hwritten⟩ := emit_of_fits (h.stdout.fits (bytesOf ["> "]))
  have asked : (s.emit ["> "]).2 = s.withStdout sink := congrArg Prod.snd hemit
  refine ⟨s.manner_emit ["> "], ?_, ?_⟩
  · have stdout : s.asked.console.stdout = sink := congrArg (·.console.stdout) asked
    rw [stdout, hwritten]
    rfl
  · have stderr : s.asked.console.stderr = s.console.stderr := congrArg (·.console.stderr) asked
    rw [stderr, Sink.written_take_nil]

/-- The lines of a plain report. -/
def listing (ds : List Diagnostic) : List UInt8 :=
  ds.flatMap fun d => Utf8.bytes (d.display ++ "\n")

theorem listing_flatten (dss : List (List Diagnostic)) :
    listing dss.flatten = dss.flatMap listing := by
  induction dss with
  | nil => rfl
  | cons ds dss ih =>
    rw [List.flatten_cons, listing, List.flatMap_append, List.flatMap_cons, ← ih]
    rfl

theorem reportBytes_of_plain (hstyle : s.style = .plain) (name : String) (source : List UInt8) :
    s.reportBytes name source = listing (scan source).diagnostics := by
  unfold reportBytes reportOf reportTexts
  rw [hstyle]
  exact List.flatMap_map ..

/-- What a run of a plain session ends with, and what it writes. -/
theorem Reachable.run_of_plain (hs : Reachable s) (h : NeverFails s) (hstyle : s.style = .plain)
    (name : String) (source : List UInt8) :
    (s.run name source).1 = (if (scan source).diagnostics = [] then .ok else .dataError) ∧
      Wrote s (s.run name source).2 ((scan source).tokens.flatMap Token.dumped)
        (listing (scan source).diagnostics) := by
  have ends := hs.run_of_fits (h.stdout.fits (dumpBytes source)) h.stdout.flushed
    (h.stderr.fits (s.reportBytes name source))
  rw [dumpBytes_eq, reportBytes_of_plain hstyle] at ends
  refine ⟨?_, s.manner_run name source, ends.stdout_eq, ends.stderr_eq⟩
  rw [ends.exit_eq, Scan.hadError]
  cases (scan source).diagnostics with
  | nil => rfl
  | cons d ds => rfl

/-- **What is written in a dialogue**, line by line. -/
theorem Dialogue.wrote (h : Dialogue s lines t) (hs : Reachable s) (hsound : NeverFails s)
    (hstyle : s.style = .plain) :
    Wrote s t
      (lines.flatMap fun line =>
        Utf8.bytes "> " ++ (scan (withoutLineEnd line)).tokens.flatMap Token.dumped)
      (lines.flatMap fun line => listing (scan (withoutLineEnd line)).diagnostics) := by
  induction h with
  | silence s => exact .refl s
  | turn hread hturn _ ih =>
    obtain ⟨line, -, hinput, -, rfl⟩ := of_turn_ok hturn
    obtain rfl := Read.bytes.inj (hread.symm.trans (read_of_input hinput))
    have asked := hsound.wrote_asked
    obtain ⟨-, ran⟩ := hs.asked.run_of_plain hsound.asked (asked.style_eq.trans hstyle) "repl" _
    have turned := asked.trans ran
    rw [List.flatMap_cons, List.flatMap_cons]
    exact turned.trans (ih (hs.turn hturn) (hsound.turn hturn) (turned.style_eq.trans hstyle))

theorem Dialogue.neverFails (h : Dialogue s lines t) (hsound : NeverFails s) : NeverFails t := by
  induction h with
  | silence => exact hsound
  | turn _ hturn _ ih => exact ih (hsound.turn hturn)

/-- **What a prompt writes** when lines are entered and the input ends. -/
theorem Reachable.prompt_of_lines (hs : Reachable s) (hsound : NeverFails s)
    (hstyle : s.style = .plain) (hinput : s.console.input = lines.map .bytes)
    (hlines : ∀ line ∈ lines, line ≠ []) :
    s.prompt.1 = .ok ∧
      Wrote s s.prompt.2
        ((lines.flatMap fun line =>
          Utf8.bytes "> " ++ (scan (withoutLineEnd line)).tokens.flatMap Token.dumped) ++
          Utf8.bytes "> ")
        (lines.flatMap fun line => listing (scan (withoutLineEnd line)).diagnostics) := by
  rw [← List.append_nil (lines.map _)] at hinput
  obtain ⟨t, dialogue, hrest⟩ := hs.dialogue_of_neverFails hsound hinput hlines
  have sound := dialogue.neverFails hsound
  -- nothing is left to be read, so the next turn is the last
  have ended : t.console.read.1 = .bytes [] := by
    rw [Console.read_eq, hrest]
    rfl
  have done : s.prompt = (.ok, t.asked) :=
    dialogue.prompt_eq.trans (prompt_of_turn_error (turn_of_end sound.ask_eq ended))
  rw [done]
  have wrote := (dialogue.wrote hs hsound hstyle).trans sound.wrote_asked
  rw [List.append_nil] at wrote
  exact ⟨rfl, wrote⟩

end Writing

/-- **The prompt and a run agree.** Let lines that hold no line feed, and leave no string open, be
entered at the prompt, and be run as one source. The prompt shows the tokens of each line between a
mark and an end of input, and asks once more; the run shows the same tokens before the one end of
its input. The prompt reports on every line as the first; the run reports the same with the lines
numbered, and ends with a data error if there is anything to report. -/
theorem Reachable.prompt_agrees (hs : Reachable s) (hsound : NeverFails s)
    (hstyle : s.style = .plain)
    (hinput : s.console.input = lines.map fun line => .bytes (line ++ [lineFeed]))
    (hlines : ∀ line ∈ lines, lineFeed ∉ line ∧ (scan line).Closed) (name : String) :
    let source := joinLines lines
    let reported := lines.map fun line => (scan (withoutLineEnd (line ++ [lineFeed]))).diagnostics
    Ends s.prompt .ok
      (s.console.stdout.take ((lines.flatMap fun line =>
        Utf8.bytes "> " ++ (dumpedLine line ++ Utf8.bytes "EOF  \n")) ++ Utf8.bytes "> ")).written
      (s.console.stderr.take (listing reported.flatten)).written ∧
    Ends (s.run name source) (if reported.flatten = [] then .ok else .dataError)
      (s.console.stdout.take (lines.flatMap dumpedLine ++ Utf8.bytes "EOF  \n")).written
      (s.console.stderr.take (listing (scan source).diagnostics)).written ∧
    (∀ d ∈ reported.flatten, d.line = 1) ∧
    (scan source).diagnostics = Diagnostic.numbered 1 reported := by
  dsimp only
  have trimmed : (lines.map fun line => (scan (withoutLineEnd (line ++ [lineFeed]))).diagnostics) =
      lines.map fun line => (scan line).diagnostics := by
    apply List.map_congr_left
    intro line hline
    exact (scan_withoutLineEnd (hlines line hline).1).2
  have diagnostics : (scan (joinLines lines)).diagnostics =
      Diagnostic.numbered 1 (lines.map fun line => (scan line).diagnostics) := by
    rw [diagnostics_scan, diagnosticsFrom_joinLines hlines]
  refine ⟨?_, ?_, ?_, ?_⟩
  · have entered : ∀ line ∈ lines.map (· ++ [lineFeed]), line ≠ [] := by
      intro line hline
      obtain ⟨line, -, rfl⟩ := List.mem_map.mp hline
      exact List.append_ne_nil_of_right_ne_nil line (List.cons_ne_nil lineFeed [])
    rw [← Function.comp_def, ← List.map_map] at hinput
    obtain ⟨exit, wrote⟩ := hs.prompt_of_lines hsound hstyle hinput entered
    have shown : ∀ line ∈ lines, Utf8.bytes "> " ++
        (scan (withoutLineEnd (line ++ [lineFeed]))).tokens.flatMap Token.dumped =
          Utf8.bytes "> " ++ (dumpedLine line ++ Utf8.bytes "EOF  \n") := by
      intro line hline
      rw [(scan_withoutLineEnd (hlines line hline).1).1, flatMap_dumped_tokens]
    rw [List.flatMap_map, List.flatMap_map, List.flatMap_congr shown] at wrote
    refine ⟨exit, wrote.stdout_eq, ?_⟩
    rw [wrote.stderr_eq, listing_flatten, List.flatMap_map]
  · obtain ⟨exit, wrote⟩ := hs.run_of_plain hsound hstyle name (joinLines lines)
    rw [flatMap_dumped_tokens, dumpedLine_eq _ 1,
      flatMap_dumped_joinLines fun line hline => (hlines line hline).2] at wrote
    rw [trimmed]
    refine ⟨?_, wrote.stdout_eq, wrote.stderr_eq⟩
    simpa only [diagnostics, Diagnostic.numbered_eq_nil_iff] using exit
  · intro d hd
    rw [trimmed] at hd
    obtain ⟨_, hmem, hd⟩ := List.mem_flatten.mp hd
    obtain ⟨line, hline, rfl⟩ := List.mem_map.mp hmem
    rw [diagnostics_scan_line (hlines line hline).1] at hd
    obtain ⟨f, -, rfl⟩ := List.mem_map.mp hd
    rfl
  · rw [trimmed]
    exact diagnostics

/-- A stray byte, a number with a point and a comment that ends in carriage returns; then an empty
line; then a string with a byte that encodes nothing, and another stray byte. -/
def ragged : List (List UInt8) :=
  [Utf8.bytes "@1.//\r\r", [], [0x22, 0xFF, 0x22, 0x40, 0x0D]]

/-- A session in which these lines are entered. -/
def typing : Session :=
  { style := .plain, store := .sample, console := .withInput (ragged.map (· ++ [lineFeed])) }

theorem prompt_agrees_ragged :
    Ends typing.prompt .ok
      (Utf8.bytes "> NUMBER 1 1\nDOT . \nEOF  \n> EOF  \n> STRING \x22�\x22 �\nEOF  \n> ")
      (Utf8.bytes ("[line 1] Error: Unexpected character.\n" ++
        "[line 1] Error: Unexpected character.\n")) ∧
    Ends (typing.run "main.lox" (joinLines ragged)) .dataError
      (Utf8.bytes "NUMBER 1 1\nDOT . \nSTRING \x22�\x22 �\nEOF  \n")
      (Utf8.bytes ("[line 1] Error: Unexpected character.\n" ++
        "[line 3] Error: Unexpected character.\n")) := by
  have reachable : Reachable typing := .start .plain _ .sample
  have sound : NeverFails typing := ⟨⟨rfl, rfl⟩, ⟨rfl, rfl⟩⟩
  have closed : ∀ line ∈ ragged, lineFeed ∉ line ∧ (scan line).Closed := by decide +kernel
  obtain ⟨prompted, ran, -, -⟩ := reachable.prompt_agrees sound rfl rfl closed "main.lox"
  exact ⟨⟨prompted.exit_eq, prompted.stdout_eq.trans (by decide +kernel),
      prompted.stderr_eq.trans (by decide +kernel)⟩,
    ⟨ran.exit_eq.trans (by decide +kernel), ran.stdout_eq.trans (by decide +kernel),
      ran.stderr_eq.trans (by decide +kernel)⟩⟩

end Session

end LoxLexer
