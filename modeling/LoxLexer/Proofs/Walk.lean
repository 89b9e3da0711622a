import Mathlib.Data.List.Basic
import LoxLexer.Scan

/-!
# Scans and segments

What a cursor yields on its way is a function of the segments that the unread source is cut into
and of the line it stands on. The lines it has reached at the end are those of the source: a line
starts at the beginning and after each line feed, whatever segment the line feed stands in.

## Main definitions

* `Segment.tokensFrom`, `Segment.diagnosticsFrom`: what segments yield from a given line on

## Main results

* `Cursor.drain_eq`: a drained cursor, in terms of the segments it has passed
* `tokens_scan`, `diagnostics_scan`: a scan, in terms of the segments of its source
* `lines_scan`: the lines of a scan are the lines of the source
* `line_le_of_mem_diagnostics`: every diagnostic is on a line of the source
-/

namespace LoxLexer

namespace Segment

/-- The tokens of segments, the first of which starts on the given line. -/
def tokensFrom (line : Nat) : List Segment → List Token
  | [] => []
  | s :: ss => (s.token? line).toList ++ tokensFrom (line + s.lineFeeds) ss

/-- The diagnostics of segments, the first of which starts on the given line; a diagnostic is on
the line that its segment ends on. -/
def diagnosticsFrom (line : Nat) : List Segment → List Diagnostic
  | [] => []
  | s :: ss =>
    (s.fault?.map fun f => ⟨line + s.lineFeeds, f⟩).toList ++
      diagnosticsFrom (line + s.lineFeeds) ss

section LineStarts

theorem lineStarts_append (offset : Nat) (xs ys : List UInt8) :
    lineStarts offset (xs ++ ys) = lineStarts offset xs ++ lineStarts (offset + xs.length) ys := by
  induction xs generalizing offset with
  | nil => rfl
  | cons x xs ih =>
    have shift : offset + (x :: xs).length = offset + 1 + xs.length := by
      simp only [List.length_cons]
      omega
    simp only [List.cons_append, lineStarts, ih, shift]
    split <;> rfl

@[simp] theorem length_lineStarts (offset : Nat) (bs : List UInt8) :
    (lineStarts offset bs).length = bs.count lineFeed := by
  induction bs generalizing offset with
  | nil => rfl
  | cons b bs ih =>
    simp only [lineStarts, List.count_cons]
    split <;> simp [ih]

theorem lineStarts_eq_filter (offset : Nat) (bs : List UInt8) :
    lineStarts offset bs =
      ((bs.zipIdx offset).filter fun b => b.1 == lineFeed).map fun b => b.2 + 1 := by
  induction bs generalizing offset with
  | nil => rfl
  | cons b bs ih =>
    simp only [lineStarts, List.zipIdx_cons, List.filter_cons, ih]
    split <;> rfl

/-- Line starts are recorded where the line table of the whole text has them. -/
theorem lineStarts_zero (bs : List UInt8) : lineStarts 0 bs = LineTable.breaks bs :=
  lineStarts_eq_filter 0 bs

end LineStarts

/-- Segments raise the line by the line feeds in them, so a diagnostic lies between the first and
the last line of its segments. -/
theorem line_le_of_mem_diagnosticsFrom {line : Nat} {ss : List Segment} {d : Diagnostic}
    (h : d ∈ diagnosticsFrom line ss) :
    line ≤ d.line ∧ d.line ≤ line + (ss.flatMap Segment.bytes).count lineFeed := by
  induction ss generalizing line with
  | nil => cases h
  | cons s ss ih =>
    simp only [diagnosticsFrom, List.mem_append, Option.mem_toList] at h
    simp only [List.flatMap_cons, List.count_append]
    change line ≤ d.line ∧ d.line ≤ line + (s.lineFeeds + _)
    rcases h with h | h
    · obtain ⟨f, -, rfl⟩ := Option.map_eq_some_iff.mp h
      simp only
      omega
    · have := ih h
      omega

end Segment

namespace Cursor

/-- **A drained cursor**: it has passed the segments of what was unread, and stands at the end. -/
theorem drain_eq (c : Cursor) :
    c.drain =
      (⟨Segment.tokensFrom c.line (Segment.split c.unread) ++
            [.endOfInput (c.line + c.unread.count lineFeed)],
          Segment.diagnosticsFrom c.line (Segment.split c.unread)⟩,
        { c with
          unread := []
          offset := c.offset + c.unread.length
          line := c.line + c.unread.count lineFeed
          starts := (Segment.lineStarts c.offset c.unread).reverse ++ c.starts }) := by
  fun_induction drain c with
  | case1 c h =>
    obtain ⟨source, unread, offset, line, starts⟩ := c
    cases h
    simp [Segment.tokensFrom, Segment.diagnosticsFrom, Segment.lineStarts]
  | case2 c b rest h segment behind here later ih =>
    -- the whole is the first segment, and then what the cursor behind it yields
    have whole : segment.bytes ++ Segment.after b rest = b :: rest :=
      Segment.bytes_append_rest b rest
    have behind_unread : behind.unread = Segment.after b rest := rfl
    rw [h, Segment.split_cons, ← whole]
    simp only [later, ih, behind_unread]
    simp [segment, behind, here, pass, yieldOf, Segment.tokensFrom, Segment.diagnosticsFrom,
      Segment.lineFeeds, Segment.lineStarts_append, Nat.add_assoc]

end Cursor

/-- **The tokens of a scan** are those of its segments, and the one that ends the input. -/
theorem tokens_scan (source : List UInt8) :
    (scan source).tokens = Segment.tokensFrom 1 (Segment.split source) ++
      [.endOfInput (1 + source.count lineFeed)] := by
  simp [scan, Cursor.drain_eq, Cursor.start]

/-- **The diagnostics of a scan** are those of its segments. -/
theorem diagnostics_scan (source : List UInt8) :
    (scan source).diagnostics = Segment.diagnosticsFrom 1 (Segment.split source) := by
  simp [scan, Cursor.drain_eq, Cursor.start]

/-- **The lines of a scan** are the lines of its source. -/
theorem lines_scan (source : List UInt8) : (scan source).lines = LineTable.ofBytes source := by
  simp [scan, Cursor.drain_eq, Cursor.start, Cursor.lineTable, LineTable.ofBytes,
    Segment.lineStarts_zero]

theorem line_le_of_mem_diagnostics {source : List UInt8} {d : Diagnostic}
    (h : d ∈ (scan source).diagnostics) : 1 ≤ d.line ∧ d.line ≤ 1 + source.count lineFeed := by
  rw [diagnostics_scan] at h
  simpa only [Segment.flatMap_bytes_split] using Segment.line_le_of_mem_diagnosticsFrom h

end LoxLexer
