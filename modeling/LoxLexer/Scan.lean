import LoxLexer.Segment

/-!
# Scanning

A cursor walks through a source segment by segment. On its way it counts lines and records where
they start; each segment yields at most one token, on the line it starts on, or at most one
diagnostic, on the line it ends on. A complete walk yields the token that ends the input on the
last line. A cursor at the end can be asked again, and then yields that token alone.

## Main definitions

* `Cursor`: a place in a source, with the lines passed so far
* `Cursor.pass`: the cursor behind one more segment
* `Cursor.drain`: what the rest of the source yields
* `Scan`, `scan`: a source read from its beginning
* `Desk`, `Desk.step`: a cursor that can be drained, given up for its line table, and replaced

## Main results

* `Cursor.unread_drain`: a drained cursor is at the end
* `Cursor.drain_of_unread_nil`: at the end only the last token is left
-/

namespace LoxLexer

/-- **A place in a source**, with the lines passed so far. -/
structure Cursor where
  /-- The whole source. -/
  source : List UInt8
  /-- What is still to be read. -/
  unread : List UInt8
  /-- How many bytes have been read. -/
  offset : Nat
  /-- The line of the next byte, counted from one. -/
  line : Nat
  /-- Where the lines that were reached start, the latest first. -/
  starts : List Nat
deriving Repr, Inhabited

/-- What a stretch of source yields. -/
structure Yield where
  /-- The tokens, in order. -/
  tokens : List Token
  /-- The diagnostics, in order. -/
  diagnostics : List Diagnostic
deriving Repr, Inhabited

namespace Cursor

/-- The cursor at the beginning of a source. -/
def start (source : List UInt8) : Cursor :=
  ⟨source, source, 0, 1, [0]⟩

/-- The cursor behind a segment, with `rest` still to be read. -/
def pass (c : Cursor) (s : Segment) (rest : List UInt8) : Cursor :=
  { c with
    unread := rest
    offset := c.offset + s.bytes.length
    line := c.line + s.lineFeeds
    starts := (Segment.lineStarts c.offset s.bytes).reverse ++ c.starts }

/-- What one segment yields when it is read from `c`; `behind` is the cursor behind it. -/
def yieldOf (c behind : Cursor) (s : Segment) : Yield :=
  ⟨(s.token? c.line).toList, (s.fault?.map fun f => ⟨behind.line, f⟩).toList⟩

/-- **Reading to the end**: what the unread source yields, and the cursor at its end. -/
def drain (c : Cursor) : Yield × Cursor :=
  match _ : c.unread with
  | [] => (⟨[.endOfInput c.line], []⟩, c)
  | b :: rest =>
    let segment := Segment.next b rest
    let behind := c.pass segment (Segment.after b rest)
    let here := c.yieldOf behind segment
    let later := behind.drain
    (⟨here.tokens ++ later.1.tokens, here.diagnostics ++ later.1.diagnostics⟩, later.2)
termination_by c.unread.length
decreasing_by
  rename_i h
  rw [h]
  exact Segment.length_after_lt b rest

/-- The lines as far as the cursor has reached. -/
def lineTable (c : Cursor) : LineTable :=
  ⟨c.starts.reverse.toArray, c.source.length⟩

theorem drain_of_unread_nil {c : Cursor} (h : c.unread = []) :
    c.drain = (⟨[.endOfInput c.line], []⟩, c) := by
  rw [drain]
  split
  · rfl
  · simp_all

theorem unread_drain (c : Cursor) : c.drain.2.unread = [] := by
  fun_induction drain c with
  | case1 c h => exact h
  | case2 c b rest h segment behind here later ih => exact ih

end Cursor

/-- **A scanned source.** -/
structure Scan where
  /-- The tokens, the last of which ends the input. -/
  tokens : List Token
  /-- The diagnostics, in the order of the source. -/
  diagnostics : List Diagnostic
  /-- The lines of the source. -/
  lines : LineTable
deriving Repr, Inhabited

/-- Something is wrong with the source. -/
def Scan.hadError (s : Scan) : Bool :=
  !s.diagnostics.isEmpty

/-- **Scans a source** from its beginning. -/
def scan (source : List UInt8) : Scan :=
  let done := (Cursor.start source).drain
  ⟨done.1.tokens, done.1.diagnostics, done.2.lineTable⟩

/-- A desk on which one source is scanned again and again: the present cursor, unless it was given
up, and all diagnostics so far. -/
structure Desk where
  /-- The source on the desk. -/
  source : List UInt8
  /-- The present cursor. -/
  cursor : Option Cursor
  /-- Everything reported at this desk. -/
  diagnostics : List Diagnostic
deriving Repr, Inhabited

/-- What can be done at a desk. -/
inductive Desk.Step where
  /-- Read the rest of the source. -/
  | drain
  /-- Give the cursor up for its line table. -/
  | lineTable
  /-- Put a new cursor at the beginning. -/
  | restart
deriving DecidableEq, Repr, Inhabited

/-- What comes of a step. -/
inductive Desk.Answer where
  /-- The tokens read, and all diagnostics so far. -/
  | drained (tokens : List Token) (diagnostics : List Diagnostic)
  /-- The lines that the cursor had reached. -/
  | lines (table : LineTable)
  /-- A new cursor stands ready. -/
  | restarted
  /-- The cursor was given up before. -/
  | consumed
deriving Repr, Inhabited

namespace Desk

/-- A desk with a new cursor. -/
def start (source : List UInt8) : Desk :=
  ⟨source, some (.start source), []⟩

/-- **One step at the desk.** -/
def step (d : Desk) : Desk.Step → Desk.Answer × Desk
  | .restart => (.restarted, { d with cursor := some (.start d.source) })
  | .drain =>
    match d.cursor with
    | none => (.consumed, d)
    | some c =>
      let done := c.drain
      let all := d.diagnostics ++ done.1.diagnostics
      (.drained done.1.tokens all, { d with cursor := some done.2, diagnostics := all })
  | .lineTable =>
    match d.cursor with
    | none => (.consumed, d)
    | some c => (.lines c.lineTable, { d with cursor := none })

/-- The answers to a sequence of steps. -/
def run (d : Desk) : List Desk.Step → List Desk.Answer
  | [] => []
  | s :: ss =>
    let done := d.step s
    done.1 :: done.2.run ss

end Desk

end LoxLexer
